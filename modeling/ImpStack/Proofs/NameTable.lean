/-
Module: ImpStack.Proofs.NameTable
Purpose: What binding a name does to a table: lookups, order of names, and tables entered from
  lists of pairs.
Main exports: NameTable.find?_insert, NameTable.find?_eq_some_iff, NameTable.contains_iff,
  NameTable.entries_insert, NameTable.find?_ofList
-/
import ImpStack.NameTable

namespace ImpStack

namespace NameTable

variable {α : Type}

/-! ### Setting a value in an association list

A name that is there keeps its place and gets the new value, any other name comes last. That the
names stay distinct is part of the table; here it is about values. -/

/-- The lookup in a list with a first pair, as a conditional on names. -/
theorem lookup_cons_eq (entry : String × α) (rest : List (String × α)) (x : String) :
    (entry :: rest).lookup x = if x = entry.1 then some entry.2 else rest.lookup x := by
  obtain ⟨name, value⟩ := entry
  by_cases h : x = name
  · simp [h]
  · have other : (x == name) = false := beq_eq_false_iff_ne.2 h
    rw [List.lookup_cons, other, if_neg h]

/-- The lookup of a name after setting a value. -/
theorem lookup_put (name x : String) (value : α) (l : List (String × α)) :
    (put name value l).lookup x = if x = name then some value else l.lookup x := by
  induction l with
  | nil => simp [put, lookup_cons_eq]
  | cons entry rest ih =>
      rw [put]
      by_cases here : entry.1 = name
      · rw [if_pos here, lookup_cons_eq, lookup_cons_eq, here]
        by_cases h : x = name <;> simp [h]
      · rw [if_neg here, lookup_cons_eq, lookup_cons_eq, ih]
        by_cases h : x = entry.1 <;> simp [h, here]

/-- A new name goes to the end. -/
theorem put_eq_append {name : String} {value : α} {l : List (String × α)}
    (h : name ∉ l.map Prod.fst) : put name value l = l ++ [(name, value)] := by
  induction l with
  | nil => rfl
  | cons entry rest ih =>
      rw [List.map_cons, List.mem_cons, not_or] at h
      rw [put, if_neg (Ne.symm h.1), ih h.2, List.cons_append]

/-! ### Lookups in a table

A lookup finds the one entry of a name. Inserting changes the lookup of that name only. -/

/-- An inserted name has the new value, and other names the value that they had. -/
theorem find?_insert (t : NameTable α) (name x : String) (value : α) :
    (t.insert name value).find? x = if x = name then some value else t.find? x :=
  lookup_put name x value t.entries

/-- In a list without repeated names, a lookup finds exactly the listed pairs. -/
theorem lookup_eq_some_iff_mem {l : List (String × α)} (h : (l.map Prod.fst).Nodup)
    {name : String} {value : α} : l.lookup name = some value ↔ (name, value) ∈ l := by
  induction l with
  | nil => simp
  | cons entry rest ih =>
      rw [List.map_cons, List.nodup_cons] at h
      rw [lookup_cons_eq, List.mem_cons]
      by_cases here : name = entry.1
      · subst here
        have absent : (entry.1, value) ∉ rest := fun hm =>
          h.1 (List.mem_map.2 ⟨_, hm, rfl⟩)
        simp [absent, Prod.ext_iff, eq_comm]
      · simp [here, ih h.2, Prod.ext_iff]

/-- A name has a value if and only if the pair is an entry. -/
theorem find?_eq_some_iff {t : NameTable α} {name : String} {value : α} :
    t.find? name = some value ↔ (name, value) ∈ t.entries :=
  lookup_eq_some_iff_mem t.nodup

/-- A name is bound if and only if it is among the names. -/
theorem contains_iff {t : NameTable α} {name : String} :
    t.contains name = true ↔ name ∈ t.names := by
  rw [contains, names, Option.isSome_iff_exists]
  simp [find?_eq_some_iff]

/-- An inserted name is there, and so are those that were there before. -/
theorem contains_insert {t : NameTable α} {name x : String} (value : α) :
    (t.insert name value).contains x = true ↔ x = name ∨ t.contains x = true := by
  rw [contains, contains, find?_insert]
  by_cases same : x = name
  · simp [same]
  · simp [same]

/-- A new name is entered after all others. -/
theorem entries_insert {t : NameTable α} {name : String} (value : α)
    (h : t.contains name = false) :
    (t.insert name value).entries = t.entries ++ [(name, value)] := by
  have absent : name ∉ t.entries.map Prod.fst := by
    intro hm
    have bound : t.contains name = true := contains_iff.2 hm
    rw [h] at bound
    exact Bool.false_ne_true bound
  exact put_eq_append absent

/-! ### Tables from lists

Entering pairs from left to right lets later ones prevail. -/

/-- Entering pairs one after the other: the last pair of a name decides. -/
theorem find?_foldl_insert (pairs : List (String × α)) (t : NameTable α) (x : String) :
    (pairs.foldl (fun t p => t.insert p.1 p.2) t).find? x =
      (pairs.reverse.lookup x).or (t.find? x) := by
  induction pairs generalizing t with
  | nil => simp
  | cons p rest ih =>
      rw [List.foldl_cons, ih, find?_insert, List.reverse_cons, List.lookup_append]
      by_cases h : x = p.1 <;> cases rest.reverse.lookup x <;> simp [h, lookup_cons_eq]

/-- A table of pairs with different names finds exactly these pairs. -/
theorem find?_ofList {pairs : List (String × α)} (h : (pairs.map Prod.fst).Nodup) {name : String}
    {value : α} : (ofList pairs).find? name = some value ↔ (name, value) ∈ pairs := by
  have reversed : (pairs.reverse.map Prod.fst).Nodup := by
    rw [List.map_reverse]
    exact List.pairwise_reverse.2 (h.imp Ne.symm)
  have nothing : (empty : NameTable α).find? name = none := rfl
  rw [ofList, find?_foldl_insert, nothing, Option.or_none, lookup_eq_some_iff_mem reversed,
    List.mem_reverse]

end NameTable

end ImpStack
