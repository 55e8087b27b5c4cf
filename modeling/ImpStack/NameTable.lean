/-
Module: ImpStack.NameTable
Purpose: Finite maps from names that remember the order in which names were first entered. They
  hold the entries of a program's functions, the variables of a frame, the host functions and the
  instruction table.
Main exports: NameTable, NameTable.insert, NameTable.find?, NameTable.names, NameTable.sortedNames
-/

namespace ImpStack

/-- An association list without repeated names, in order of first insertion. -/
structure NameTable (α : Type) where
  /-- The entries, oldest name first. -/
  entries : List (String × α)
  /-- No name occurs twice. -/
  nodup : (entries.map Prod.fst).Nodup

namespace NameTable

variable {α : Type}

/-- Two tables with the same entries are equal. -/
@[ext] theorem ext {s t : NameTable α} (h : s.entries = t.entries) : s = t := by
  cases s; cases t; cases h; rfl

instance [DecidableEq α] : DecidableEq (NameTable α) := fun s t =>
  if h : s.entries = t.entries then isTrue (ext h) else isFalse fun e => h (e ▸ rfl)

/-- The table without entries. -/
def empty : NameTable α := ⟨[], List.nodup_nil⟩

instance : Inhabited (NameTable α) := ⟨empty⟩
instance : EmptyCollection (NameTable α) := ⟨empty⟩

/-- Set the value of a name in an association list: in place if the name occurs, else at the end. -/
def put (name : String) (value : α) : List (String × α) → List (String × α)
  | [] => [(name, value)]
  | entry :: rest =>
    if entry.1 = name then (name, value) :: rest else entry :: put name value rest

/-- Setting a value adds no name but its own. -/
theorem mem_names_put {name x : String} {value : α} {l : List (String × α)} :
    x ∈ (put name value l).map Prod.fst ↔ x = name ∨ x ∈ l.map Prod.fst := by
  induction l with
  | nil => simp [put]
  | cons entry rest ih =>
    rw [put]
    split
    · rename_i h
      simp [h]
    · simp only [List.map_cons, List.mem_cons, ih]
      exact ⟨fun h => by rcases h with h | h | h <;> simp [h],
        fun h => by rcases h with h | h | h <;> simp [h]⟩

/-- Setting a value repeats no name. -/
theorem nodup_put {name : String} {value : α} {l : List (String × α)}
    (h : (l.map Prod.fst).Nodup) : ((put name value l).map Prod.fst).Nodup := by
  induction l with
  | nil => simp [put]
  | cons entry rest ih =>
    rw [List.map_cons, List.nodup_cons] at h
    rw [put]
    split
    · rename_i same
      rw [List.map_cons, List.nodup_cons]
      exact ⟨by simpa [same] using h.1, h.2⟩
    · rename_i other
      rw [List.map_cons, List.nodup_cons, mem_names_put]
      exact ⟨fun hm => hm.elim other h.1, ih h.2⟩

/-- Bind a name: a name that is present keeps its place and takes the new value, another one is
    added at the end. -/
def insert (t : NameTable α) (name : String) (value : α) : NameTable α :=
  ⟨put name value t.entries, nodup_put t.nodup⟩

/-- The table that results from entering the pairs one after the other. -/
def ofList (pairs : List (String × α)) : NameTable α :=
  pairs.foldl (fun t p => t.insert p.1 p.2) empty

/-- The value of a name. -/
def find? (t : NameTable α) (name : String) : Option α := t.entries.lookup name

/-- Whether a name is bound. -/
def contains (t : NameTable α) (name : String) : Bool := (t.find? name).isSome

/-- The bound names, oldest first. -/
def names (t : NameTable α) : List String := t.entries.map Prod.fst

/-- The number of entries. -/
def size (t : NameTable α) : Nat := t.entries.length

/-- Whether nothing is bound. -/
def isEmpty (t : NameTable α) : Bool := t.entries.isEmpty

/-- The entries in the order of their names' characters. -/
def sorted (t : NameTable α) : List (String × α) :=
  t.entries.mergeSort fun a b => decide (a.1 ≤ b.1)

/-- The bound names in the order of their characters. -/
def sortedNames (t : NameTable α) : List String := t.sorted.map Prod.fst

end NameTable

end ImpStack
