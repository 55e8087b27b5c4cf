/-
Module: ImpStack.Proofs.JsonForms
Purpose: Programs in the JSON of any library that keeps to its documentation. What the library
  promises of a single choice, record, list or table is all that is assumed; that programs are read
  back follows type by type, from the values up.
Main exports: JsonForm.OfChoice, JsonForm.OfRecord, JsonForm.OfList, JsonForm.OfTable,
  JsonLibrary.Document, JsonLibrary.Documented, Bytecode.Fits, JsonLibrary.NumbersReadBack,
  JsonLibrary.Documented.ofText?_toText, JsonLibrary.Documented.fits_of_ofText?
-/
import ImpStack.Json.Fields
import ImpStack.Json.Library
import ImpStack.Json.Number
import ImpStack.Proofs.NameTable

namespace ImpStack

/-! ### Lists that are read item by item

Reading a list stops at the first item that cannot be read. So a list that was written item by item
is read back as soon as each item is, and each item of a list that was read was read by itself. -/

section

variable {α β : Type} {read? : β → Option α} {write : α → β} {l : List α}

/-- What is written item by item is read item by item. -/
theorem mapM_map_eq_some (reads : ∀ a ∈ l, read? (write a) = some a) :
    (l.map write).mapM read? = some l := by
  induction l with
  | nil => rfl
  | cons a l ih =>
      obtain ⟨first, others⟩ := List.forall_mem_cons.1 reads
      rw [List.map_cons, List.mapM_cons, first, ih others]
      rfl

/-- Every item that was read has an item that it was read from. -/
theorem mem_of_mapM_eq_some {items : List β} (h : items.mapM read? = some l) {a : α} (ha : a ∈ l) :
    ∃ item ∈ items, read? item = some a := by
  induction items generalizing l with
  | nil =>
      cases h
      cases ha
  | cons item items ih =>
      simp only [List.mapM_cons, Option.bind_eq_bind, Option.bind_eq_some_iff, Option.pure_def,
        Option.some.injEq] at h
      obtain ⟨first, hf, others, ho, rfl⟩ := h
      rcases List.mem_cons.1 ha with rfl | ha
      · exact ⟨item, List.mem_cons_self, hf⟩
      · obtain ⟨found, mem, reads⟩ := ih ho ha
        exact ⟨found, List.mem_cons_of_mem _ mem, reads⟩

end

/-! ### Tables from their entries

No name stands in a table twice. So entering the entries of a table one after the other, as a reader
does, gives the same table in the same order. -/

namespace NameTable

variable {α : Type}

/-- Entering pairs with new names one after the other appends them. -/
theorem entries_foldl_insert : ∀ {pairs : List (String × α)} {t : NameTable α},
    ((t.entries ++ pairs).map Prod.fst).Nodup →
      (pairs.foldl (fun t p => t.insert p.1 p.2) t).entries = t.entries ++ pairs
  | [], t, _ => (List.append_nil t.entries).symm
  | p :: pairs, t, nodup => by
      have new : t.contains p.1 = false := by
        rw [← Bool.not_eq_true, contains_iff]
        rw [List.map_append, List.nodup_append] at nodup
        exact fun bound => nodup.2.2 _ bound _ (List.mem_map_of_mem List.mem_cons_self) rfl
      have grown : (t.insert p.1 p.2).entries ++ pairs = t.entries ++ p :: pairs := by
        rw [entries_insert p.2 new, List.append_assoc]
        rfl
      rw [List.foldl_cons, entries_foldl_insert (by rwa [grown]), grown]

/-- Entering the entries of a table one after the other gives the table. -/
theorem ofList_entries (t : NameTable α) : ofList t.entries = t :=
  ext (entries_foldl_insert (t := empty) t.nodup)

/-- A table holds only pairs that were entered. -/
theorem mem_of_mem_ofList {pairs : List (String × α)} {e : String × α}
    (h : e ∈ (ofList pairs).entries) : e ∈ pairs := by
  have nothing : (empty : NameTable α).find? e.1 = none := rfl
  have found := find?_eq_some_iff.2 h
  rw [ofList, find?_foldl_insert, nothing, Option.or_none, List.lookup_eq_some_iff] at found
  obtain ⟨before, after, split, -⟩ := found
  rw [← List.mem_reverse, split]
  exact List.mem_append_right _ List.mem_cons_self

end NameTable

/-! ### What a library promises of forms

Choices are written as the name of a case, or as an object whose only member names the case and
holds its content. Records are objects with a member for each field. Each promise has a part on what
is written, a part on how just this is read, and a part on what any successful reading is made of:
a library may accept other spellings, but it makes no data that the type does not have. -/

variable {α β γ : Type}

/-- A value of a case: the single one, or one with content that was read from some JSON. -/
def JsonCase.Gives : JsonCase α → α → Prop
  | .empty _ single, a => a = single
  | .full _ form make, a => ∃ j content, form.ofJson? j = some content ∧ a = make content

namespace JsonForm

/-- The form of a choice. -/
structure OfChoice (f : JsonForm α) (cases : List (JsonCase α)) : Prop where
  write_empty : ∀ {name a}, .empty name a ∈ cases → f.toJson a = .ofString name
  write_full : ∀ {β name make} {form : JsonForm β}, .full name form make ∈ cases →
    ∀ content, f.toJson (make content) = .ofCase name (form.toJson content)
  read_empty : ∀ {name a}, .empty name a ∈ cases → f.ofJson? (.ofString name) = some a
  read_full : ∀ {β name make} {form : JsonForm β}, .full name form make ∈ cases →
    ∀ j, f.ofJson? (.ofCase name j) = (form.ofJson? j).map make
  reads_only : ∀ {j a}, f.ofJson? j = some a → ∃ c ∈ cases, c.Gives a

/-- The form of a record with two fields. -/
structure OfRecord (f : JsonForm α) (first : String × JsonForm β) (second : String × JsonForm γ)
    (make : β → γ → α) : Prop where
  write : ∀ b c, f.toJson (make b c) =
    .ofMembers [(first.1, first.2.toJson b), (second.1, second.2.toJson c)]
  read : ∀ j k, f.ofJson? (.ofMembers [(first.1, j), (second.1, k)]) =
    (first.2.ofJson? j).bind fun b => (second.2.ofJson? k).map (make b)
  reads_only : ∀ {j a}, f.ofJson? j = some a →
    ∃ j₁ j₂ b c, first.2.ofJson? j₁ = some b ∧ second.2.ofJson? j₂ = some c ∧ a = make b c

/-- The form of a list. -/
structure OfList (f : JsonForm (List α)) (item : JsonForm α) : Prop where
  write : ∀ l, f.toJson l = .array (l.map item.toJson)
  read : ∀ js, f.ofJson? (.array js) = js.mapM item.ofJson?
  reads_only : ∀ {j l}, f.ofJson? j = some l → ∀ a ∈ l, ∃ k, item.ofJson? k = some a

/-- The form of a table of names: a member for each entry, in order. Members are entered one after
    the other when they are read. -/
structure OfTable (f : JsonForm (NameTable α)) (item : JsonForm α) : Prop where
  write : ∀ t, f.toJson t = .ofMembers (t.entries.map fun e => (e.1, item.toJson e.2))
  read : ∀ members : List (String × Json), f.ofJson? (.ofMembers members) =
    (members.mapM fun m => (item.ofJson? m.2).map (m.1, ·)).map NameTable.ofList
  reads_only : ∀ {j t}, f.ofJson? j = some t → ∀ e ∈ t.entries, ∃ k, item.ofJson? k = some e.2

end JsonForm

/-! ### What a library promises of documents

Three things are left out of the promise on texts: doubles that are not read back, objects with a
key twice, and documents that are nested deeper than any library has to allow. -/

namespace JsonLibrary

variable (L : JsonLibrary)

/-- A double that is finite and is read back from its JSON text. -/
def NumberReadsBack (x : Float) : Prop :=
  x.isFinite = true ∧ (L.read? (L.write (L.float.toJson x))).bind L.float.ofJson? = some x

instance (x : Float) : Decidable (L.NumberReadsBack x) := inferInstanceAs (Decidable (_ ∧ _))

/-- Documents of truth values, texts and numbers, nested at most so many levels deep, in which no
    object has a key twice. -/
inductive Document : Nat → Json → Prop where
  | truth {depth : Nat} (b : Bool) : Document depth (.bool b)
  | text {depth : Nat} (s : String) : Document depth (.ofString s)
  | int {depth : Nat} (n : Int64) : Document depth (L.int.toJson n)
  | nat {depth n : Nat} (h : n ≤ Json.maxNat64) : Document depth (L.nat.toJson n)
  | float {depth : Nat} {x : Float} (h : L.NumberReadsBack x) : Document depth (L.float.toJson x)
  | array {depth : Nat} {items : List Json} (h : ∀ item ∈ items, Document depth item) :
      Document (depth + 1) (.array items)
  | object {depth : Nat} {members : List (String × Json)}
      (distinct : (members.map Prod.fst).Nodup) (h : ∀ m ∈ members, Document depth m.2) :
      Document (depth + 1) (.ofMembers members)

/-- What the documentation of a library says. -/
structure Documented : Prop where
  /-- The text of a document is read as the document, up to a depth that every library allows. -/
  texts : ∀ {j}, L.Document 127 j → L.read? (L.write j) = some j
  truth : ∀ b, L.truth.toJson b = .bool b ∧ L.truth.ofJson? (.bool b) = some b
  text : ∀ s, L.text.toJson s = .ofString s ∧ L.text.ofJson? (.ofString s) = some s
  /-- Integers are exact. -/
  int : ∀ n, L.int.ofJson? (L.int.toJson n) = some n
  nat : ∀ n ≤ Json.maxNat64, L.nat.ofJson? (L.nat.toJson n) = some n
  /-- Addresses and counts have 64 bits. -/
  nat_le : ∀ {j n}, L.nat.ofJson? j = some n → n ≤ Json.maxNat64
  value : L.value.OfChoice (Value.jsonCases L)
  opcode : L.opcode.OfChoice Opcode.jsonCases
  operand : L.operand.OfChoice (Operand.jsonCases L)
  operands : L.operands.OfList L.operand
  instruction : L.instruction.OfRecord ("opcode", L.opcode) ("operands", L.operands) .mk
  instructions : L.instructions.OfList L.instruction
  entries : L.entries.OfTable L.nat
  program : L.program.OfRecord ("code", L.instructions) ("functions", L.entries)
    fun code functions => ⟨code.toArray, functions⟩

end JsonLibrary

/-! ### Programs that have JSON

Two things can be in the way: a number that has more than 64 bits, and a double that is not read
back. Not-a-number and the infinities have no numeral, so they are among the latter. -/

/-- An address or a count that has 64 bits; other operands have no bound. -/
def Operand.Fits : Operand → Prop
  | address a => a ≤ Json.maxNat64
  | count n => n ≤ Json.maxNat64
  | value _ => True
  | name _ => True

instance : (o : Operand) → Decidable o.Fits
  | .address a => inferInstanceAs (Decidable (a ≤ Json.maxNat64))
  | .count n => inferInstanceAs (Decidable (n ≤ Json.maxNat64))
  | .value _ => inferInstanceAs (Decidable True)
  | .name _ => inferInstanceAs (Decidable True)

/-- The double that an operand is, if it is one. -/
def Operand.float? : Operand → Option Float
  | value (.float x) => some x
  | _ => none

/-- Whether all addresses, counts and function entries of a program have 64 bits. -/
structure Bytecode.Fits (b : Bytecode) : Prop where
  operands : ∀ i ∈ b.code.toList, ∀ o ∈ i.operands, o.Fits
  entries : ∀ e ∈ b.functions.entries, e.2 ≤ Json.maxNat64

/-- Whether every double in a program is finite and is read back from its JSON text. -/
def JsonLibrary.NumbersReadBack (L : JsonLibrary) (b : Bytecode) : Prop :=
  ∀ i ∈ b.code.toList, ∀ o ∈ i.operands, ∀ x ∈ o.float?, L.NumberReadsBack x

theorem Opcode.mem_jsonCases (op : Opcode) : .empty op.jsonName op ∈ jsonCases :=
  List.mem_map.2 ⟨op, by cases op <;> decide, rfl⟩

/-! ### Data that survive

A piece of data survives if it is written as a document, and read from just this document. Depths
are counted from the inside: what contains other data is one level deeper than these. -/

namespace JsonLibrary

variable {L : JsonLibrary}

/-- What is written for a piece of data is a document at most so many levels deep, and it is read as
    the same data. -/
structure Keeps (L : JsonLibrary) (depth : Nat) (f : JsonForm α) (a : α) : Prop where
  document : L.Document depth (f.toJson a)
  reads : f.ofJson? (f.toJson a) = some a

variable {depth : Nat} {f : JsonForm α} {cases : List (JsonCase α)}

/-- A case without content survives. -/
theorem keeps_empty (h : f.OfChoice cases) (name : String) {a : α}
    (mem : .empty name a ∈ cases) : L.Keeps depth f a where
  document := by
    rw [h.write_empty mem]
    exact .text name
  reads := by rw [h.write_empty mem, h.read_empty mem]

/-- A case survives if its content does. -/
theorem keeps_full (h : f.OfChoice cases) (name : String) {form : JsonForm β} {make : β → α}
    {content : β} (kept : L.Keeps depth form content) (mem : .full name form make ∈ cases) :
    L.Keeps (depth + 1) f (make content) where
  document := by
    rw [h.write_full mem]
    exact .object (by simp) (List.forall_mem_singleton.2 kept.document)
  reads := by rw [h.write_full mem, h.read_full mem, kept.reads, Option.map_some]

/-- A record survives if both of its fields do. -/
theorem keeps_record {first : String × JsonForm β} {second : String × JsonForm γ}
    {make : β → γ → α} (h : f.OfRecord first second make) (distinct : first.1 ≠ second.1) {b : β}
    {c : γ} (kept₁ : L.Keeps depth first.2 b) (kept₂ : L.Keeps depth second.2 c) :
    L.Keeps (depth + 1) f (make b c) where
  document := by
    rw [h.write]
    exact .object (by simpa using distinct) (by simpa using ⟨kept₁.document, kept₂.document⟩)
  reads := by rw [h.write, h.read, kept₁.reads, kept₂.reads, Option.bind_some, Option.map_some]

theorem keeps_list {f : JsonForm (List α)} {item : JsonForm α} (h : f.OfList item) {l : List α}
    (kept : ∀ a ∈ l, L.Keeps depth item a) : L.Keeps (depth + 1) f l where
  document := by
    rw [h.write]
    refine .array fun j mem => ?_
    obtain ⟨a, ha, rfl⟩ := List.mem_map.1 mem
    exact (kept a ha).document
  reads := by
    rw [h.write, h.read]
    exact mapM_map_eq_some fun a mem => (kept a mem).reads

/-- A table is read back with its entries in order, because no name occurs twice in it. -/
theorem keeps_table {f : JsonForm (NameTable α)} {item : JsonForm α} (h : f.OfTable item)
    {t : NameTable α} (kept : ∀ e ∈ t.entries, L.Keeps depth item e.2) :
    L.Keeps (depth + 1) f t where
  document := by
    rw [h.write]
    refine .object ?_ fun m mem => ?_
    · rw [List.map_map]
      exact t.nodup
    · obtain ⟨e, he, rfl⟩ := List.mem_map.1 mem
      exact (kept e he).document
  reads := by
    have pairs : (t.entries.map fun e => (e.1, item.toJson e.2)).mapM
        (fun m => (item.ofJson? m.2).map (m.1, ·)) = some t.entries :=
      mapM_map_eq_some fun e mem => by rw [(kept e mem).reads, Option.map_some]
    rw [h.write, h.read, pairs, Option.map_some, t.ofList_entries]

namespace Documented

variable (documented : L.Documented) {b : Bytecode} {i : Instruction} {o : Operand} {v : Value}

include documented

theorem keeps_text (s : String) : L.Keeps depth L.text s := by
  obtain ⟨write, read⟩ := documented.text s
  exact ⟨write ▸ .text s, write ▸ read⟩

theorem keeps_truth (b : Bool) : L.Keeps depth L.truth b := by
  obtain ⟨write, read⟩ := documented.truth b
  exact ⟨write ▸ .truth b, write ▸ read⟩

/-- An address or a count survives if it has 64 bits. -/
theorem keeps_nat {n : Nat} (h : n ≤ Json.maxNat64) : L.Keeps depth L.nat n :=
  ⟨.nat h, documented.nat n h⟩

/-- A double that is read back from its text is read back from its JSON. -/
theorem keeps_float {x : Float} (h : L.NumberReadsBack x) : L.Keeps depth L.float x := by
  have back := h.2
  rw [documented.texts (.float h), Option.bind_some] at back
  exact ⟨.float h, back⟩

/-- A value survives unless it is a double that is not read back. -/
theorem keeps_value (numbers : ∀ x ∈ (Operand.value v).float?, L.NumberReadsBack x) :
    L.Keeps (depth + 1) L.value v := by
  have form := documented.value
  cases v with
  | int n =>
      have kept : L.Keeps depth L.int n := ⟨.int n, documented.int n⟩
      exact keeps_full form "Int" kept (by simp [Value.jsonCases])
  | float x =>
      have kept : L.Keeps depth L.float x := documented.keeps_float (numbers x rfl)
      exact keeps_full form "Float" kept (by simp [Value.jsonCases])
  | str s => exact keeps_full form "Str" (documented.keeps_text s) (by simp [Value.jsonCases])
  | bool b => exact keeps_full form "Bool" (documented.keeps_truth b) (by simp [Value.jsonCases])
  | nil => exact keeps_empty form "Nil" (by simp [Value.jsonCases])

theorem keeps_opcode (op : Opcode) : L.Keeps depth L.opcode op :=
  keeps_empty documented.opcode op.jsonName op.mem_jsonCases

/-- An operand survives under the same conditions as what is in it. -/
theorem keeps_operand (fits : o.Fits) (numbers : ∀ x ∈ o.float?, L.NumberReadsBack x) :
    L.Keeps (depth + 2) L.operand o := by
  have form := documented.operand
  cases o with
  | value v =>
      have kept : L.Keeps (depth + 1) L.value v := documented.keeps_value numbers
      exact keeps_full form "Value" kept (by simp [Operand.jsonCases])
  | name s => exact keeps_full form "Name" (documented.keeps_text s) (by simp [Operand.jsonCases])
  | address a =>
      exact keeps_full form "Address" (documented.keeps_nat fits) (by simp [Operand.jsonCases])
  | count n =>
      exact keeps_full form "Count" (documented.keeps_nat fits) (by simp [Operand.jsonCases])

theorem keeps_instruction
    (operands : ∀ o ∈ i.operands, o.Fits ∧ ∀ x ∈ o.float?, L.NumberReadsBack x) :
    L.Keeps (depth + 4) L.instruction i :=
  keeps_record documented.instruction (by simp) (documented.keeps_opcode i.opcode)
    (keeps_list documented.operands fun o mem =>
      documented.keeps_operand (operands o mem).1 (operands o mem).2)

/-- A program survives six levels above its deepest constants. -/
theorem keeps_program (fits : b.Fits) (numbers : L.NumbersReadBack b) :
    L.Keeps (depth + 6) L.program b :=
  keeps_record documented.program (by simp) (b := b.code.toList)
    (keeps_list documented.instructions fun i mem => documented.keeps_instruction fun o mem' =>
      ⟨fits.operands i mem o mem', numbers i mem o mem'⟩)
    (keeps_table documented.entries fun e mem => documented.keeps_nat (fits.entries e mem))

/-- The text of a program is read as the program. -/
theorem ofText?_toText (fits : b.Fits) (numbers : L.NumbersReadBack b) :
    L.ofText? (L.toText b) = some b := by
  have kept : L.Keeps 127 L.program b := documented.keeps_program fits numbers
  rw [ofText?, toText, documented.texts kept.document, Option.bind_some, kept.reads]

/-! ### What was read

A library may read programs from texts that it never writes. Whatever these are, the addresses,
counts and entries in the program were read as numbers, so they have 64 bits. -/

/-- An operand that was read has 64 bits wherever it has to. -/
theorem fits_of_operand {j : Json} (h : L.operand.ofJson? j = some o) : o.Fits := by
  obtain ⟨c, mem, gives⟩ := documented.operand.reads_only h
  simp only [Operand.jsonCases, List.mem_cons, List.not_mem_nil, or_false] at mem
  rcases mem with rfl | rfl | rfl | rfl
  · obtain ⟨_, v, -, rfl⟩ := gives
    exact trivial
  · obtain ⟨_, s, -, rfl⟩ := gives
    exact trivial
  · obtain ⟨_, a, read, rfl⟩ := gives
    exact documented.nat_le read
  · obtain ⟨_, n, read, rfl⟩ := gives
    exact documented.nat_le read

/-- So have the addresses, counts and entries of a program that was read. -/
theorem fits_of_program {j : Json} (h : L.program.ofJson? j = some b) : b.Fits := by
  obtain ⟨_, _, code, functions, readCode, readFunctions, rfl⟩ := documented.program.reads_only h
  refine ⟨fun i mem o mem' => ?_, fun e mem => ?_⟩
  · obtain ⟨_, read⟩ := documented.instructions.reads_only readCode i mem
    obtain ⟨_, _, op, operands, -, readOperands, rfl⟩ := documented.instruction.reads_only read
    obtain ⟨_, readOperand⟩ := documented.operands.reads_only readOperands o mem'
    exact documented.fits_of_operand readOperand
  · obtain ⟨_, read⟩ := documented.entries.reads_only readFunctions e mem
    exact documented.nat_le read

theorem fits_of_ofText? {s : String} (h : L.ofText? s = some b) : b.Fits := by
  obtain ⟨j, -, read⟩ := Option.bind_eq_some_iff.1 h
  exact documented.fits_of_program read

end Documented

end JsonLibrary

end ImpStack
