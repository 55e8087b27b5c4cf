/-
Module: ImpStack.Proofs.JsonRoundTrip
Purpose: Programs survive JSON. Whatever its instructions, operands, texts and names are, the JSON
  text of a program is read back as the program, entry by entry in order, as long as its addresses
  and counts have 64 bits and each of its doubles is read back from its own numeral. This holds of
  every library that keeps to its documentation, and the readers and writers of this project are
  one.
Main exports: Json.library_documented, json_round_trip
-/
import ImpStack.Json.Bytecode
import ImpStack.Proofs.JsonForms
import ImpStack.Proofs.JsonText

namespace ImpStack

/-! ### Texts, choices and records

Texts are kept as code points, and the code points of a text are always characters again. So a name
is found where it was written, be it a text by itself or the key of an object. -/

namespace Json

theorem characters_codePoints (s : String) : Characters (codePoints s) := by
  intro n hn
  obtain ⟨c, -, rfl⟩ := List.mem_map.1 hn
  exact c.valid

/-- A text is made up again from its code points. -/
theorem text?_codePoints (s : String) : text? (codePoints s) = some s := by
  have chars : (codePoints s).mapM char? = some s.toList :=
    mapM_map_eq_some fun c _ => by
      have valid : c.toNat.isValidChar := c.valid
      rw [char?, if_pos valid, Char.ofNat_toNat]
  rw [text?, chars]
  exact congrArg some String.ofList_toList

/-- A text is the name of a case without content. -/
theorem case?_ofString (s : String) : (ofString s).case? = some (s, none) := by
  rw [ofString, case?, text?_codePoints]
  rfl

/-- An object with one member is a case with content. -/
theorem case?_ofCase (name : String) (content : Json) :
    (ofCase name content).case? = some (name, some content) :=
  Option.map_eq_some_iff.2 ⟨name, text?_codePoints name, rfl⟩

/-- The members of an object are read back in order. -/
theorem members?_map (members : List (String × Json)) :
    members? (members.map fun (key, value) => (codePoints key, value)) = some members :=
  mapM_map_eq_some fun m _ => Option.map_eq_some_iff.2 ⟨m.1, text?_codePoints m.1, rfl⟩

/-! ### Numbers

Integers are written by their digits, and read only if they have none but digits. -/

/-- An integer is never written as minus zero. -/
theorem int64?_ofInt (n : Int64) : (ofInt n.toInt).int64? = some n := by
  have form : (Numeral.ofInt n.toInt).isInteger = true := rfl
  have nonzero : ¬ ((Numeral.ofInt n.toInt).isNegative && n.toInt == 0) = true := by
    rw [Bool.and_eq_true, beq_iff_eq]
    rintro ⟨minus, zero⟩
    rw [zero] at minus
    cases minus
  rw [ofInt, int64?, Numeral.toInt_ofInt, form, Bool.eq_false_iff.2 nonzero]
  exact exactInt64?_eq_some_iff.2 rfl

/-- A natural number of 64 bits is read back from its numeral. -/
theorem nat64?_ofNat {n : Nat} (fits : n ≤ maxNat64) : (ofNat n).nat64? = some n := by
  have value : Decimal.natOfDigits (Numeral.ofNat n).whole = n := natOfDigits_toDigits n
  rw [ofNat, nat64?, value, decide_eq_true fits]
  rfl

theorem fits_of_nat64? {j : Json} {n : Nat} (h : j.nat64? = some n) : n ≤ maxNat64 := by
  cases j with
  | number numeral =>
      simp only [nat64?, Option.ite_none_right_eq_some, Bool.and_eq_true, decide_eq_true_eq,
        Option.some.injEq] at h
      obtain ⟨⟨-, bound⟩, rfl⟩ := h
      exact bound
  | _ => cases h

/-- Every document has a text. -/
theorem writable_of_document {depth : Nat} {j : Json} (h : library.Document depth j) :
    j.Writable := by
  induction h with
  | truth b => exact .bool b
  | text s => exact .string (characters_codePoints s)
  | int n => exact .number (Numeral.isJson_ofInt n.toInt)
  | nat _ => exact .number (Numeral.isJson_ofNat _)
  | @float _ x back =>
      show (ofFloat x).Writable
      rw [ofFloat, if_pos back.1]
      exact .number (isJson_numeralOfFloat back.1)
  | array _ ih => exact .array ih
  | @object _ members _ _ ih =>
      refine .object (fun m hm => ?_) fun m hm => ?_
      · obtain ⟨member, -, rfl⟩ := List.mem_map.1 hm
        exact characters_codePoints member.1
      · obtain ⟨member, mem, rfl⟩ := List.mem_map.1 hm
        exact ih member mem

end Json

/-! ### The forms of this project

The readers and writers of `Json.library` keep every promise of the documentation, type by type.
Where a reader also takes other spellings, such as records as arrays, the promise on what is read at
all covers them. -/

/-- Values are written and read as a choice of five cases. -/
theorem Value.ofChoice : Json.library.value.OfChoice (jsonCases Json.library) where
  write_empty mem := by
    simp only [jsonCases, List.mem_cons, List.not_mem_nil, reduceCtorEq, false_or, or_false] at mem
    cases mem
    rfl
  write_full mem content := by
    simp only [jsonCases, List.mem_cons, List.not_mem_nil, reduceCtorEq, or_false] at mem
    rcases mem with h | h | h | h <;> cases h <;> rfl
  read_empty mem := by
    simp only [jsonCases, List.mem_cons, List.not_mem_nil, reduceCtorEq, false_or, or_false] at mem
    cases mem
    simp only [Json.library, ofJson?, Json.case?_ofString]
    rfl
  read_full mem j := by
    simp only [jsonCases, List.mem_cons, List.not_mem_nil, reduceCtorEq, or_false] at mem
    rcases mem with h | h | h | h <;> cases h <;>
      simp only [Json.library, ofJson?, Json.case?_ofCase]
  reads_only {j v} h := by
    change ofJson? j = some v at h
    rw [ofJson?] at h
    split at h
    · obtain ⟨n, read, rfl⟩ := Option.map_eq_some_iff.1 h
      exact ⟨.full "Int" Json.library.int .int, by simp [jsonCases], _, n, read, rfl⟩
    · obtain ⟨x, read, rfl⟩ := Option.map_eq_some_iff.1 h
      exact ⟨.full "Float" Json.library.float .float, by simp [jsonCases], _, x, read, rfl⟩
    · obtain ⟨s, read, rfl⟩ := Option.map_eq_some_iff.1 h
      exact ⟨.full "Str" Json.library.text .str, by simp [jsonCases], _, s, read, rfl⟩
    · obtain ⟨b, read, rfl⟩ := Option.map_eq_some_iff.1 h
      exact ⟨.full "Bool" Json.library.truth .bool, by simp [jsonCases], _, b, read, rfl⟩
    · split at h
      · cases h
        exact ⟨.empty "Nil" .nil, by simp [jsonCases], rfl⟩
      · cases h
    · cases h

/-- Opcodes are written and read as a choice of cases without content. -/
theorem Opcode.ofChoice : Json.library.opcode.OfChoice jsonCases where
  write_empty mem := by
    obtain ⟨op, -, same⟩ := List.mem_map.1 mem
    cases same
    rfl
  write_full mem := by
    obtain ⟨op, -, same⟩ := List.mem_map.1 mem
    cases same
  read_empty {name op} mem := by
    obtain ⟨_, -, same⟩ := List.mem_map.1 mem
    cases same
    simp only [Json.library, ofJson?, Json.case?_ofString]
    cases op <;> rfl
  read_full mem := by
    obtain ⟨op, -, same⟩ := List.mem_map.1 mem
    cases same
  reads_only {j op} h := by
    change ofJson? j = some op at h
    rw [ofJson?] at h
    split at h
    · split at h
      · exact ⟨.empty op.jsonName op, List.mem_map.2 ⟨op, List.mem_of_find?_eq_some h, rfl⟩, rfl⟩
      · cases h
    · cases h

/-- Operands are written and read as a choice of four cases. -/
theorem Operand.ofChoice : Json.library.operand.OfChoice (jsonCases Json.library) where
  write_empty mem := by simp [jsonCases] at mem
  write_full mem content := by
    simp only [jsonCases, List.mem_cons, List.not_mem_nil, or_false] at mem
    rcases mem with h | h | h | h <;> cases h <;> rfl
  read_empty mem := by simp [jsonCases] at mem
  read_full mem j := by
    simp only [jsonCases, List.mem_cons, List.not_mem_nil, or_false] at mem
    rcases mem with h | h | h | h <;> cases h <;>
      simp only [Json.library, ofJson?, Json.case?_ofCase]
  reads_only {j o} h := by
    change ofJson? j = some o at h
    rw [ofJson?] at h
    split at h
    · obtain ⟨v, read, rfl⟩ := Option.map_eq_some_iff.1 h
      exact ⟨.full "Value" Json.library.value .value, by simp [jsonCases], _, v, read, rfl⟩
    · obtain ⟨s, read, rfl⟩ := Option.map_eq_some_iff.1 h
      exact ⟨.full "Name" Json.library.text .name, by simp [jsonCases], _, s, read, rfl⟩
    · obtain ⟨a, read, rfl⟩ := Option.map_eq_some_iff.1 h
      exact ⟨.full "Address" Json.library.nat .address, by simp [jsonCases], _, a, read, rfl⟩
    · obtain ⟨n, read, rfl⟩ := Option.map_eq_some_iff.1 h
      exact ⟨.full "Count" Json.library.nat .count, by simp [jsonCases], _, n, read, rfl⟩
    · cases h

/-- The items of an array are read one by one. -/
theorem Json.ofList_listOf? {α : Type} (item : JsonForm α) :
    JsonForm.OfList ⟨fun l => .array (l.map item.toJson), listOf? item.ofJson?⟩ item where
  write _ := rfl
  read _ := rfl
  reads_only {j l} h a ha := by
    cases j with
    | array items =>
        obtain ⟨k, -, read⟩ := mem_of_mapM_eq_some h ha
        exact ⟨k, read⟩
    | _ => cases h

/-- A record is read from its two members, wherever its fields come from. -/
theorem Json.ofRecord_of_record? {α β γ : Type} {f : JsonForm α} {first : String × JsonForm β}
    {second : String × JsonForm γ} {make : β → γ → α} (distinct : first.1 ≠ second.1)
    (write : ∀ b c, f.toJson (make b c) =
      ofMembers [(first.1, first.2.toJson b), (second.1, second.2.toJson c)])
    (reads : f.ofJson? = record? first.1 second.1 fun j k =>
      (first.2.ofJson? j).bind fun b => (second.2.ofJson? k).map (make b)) :
    f.OfRecord first second make where
  write := write
  read j k := by
    have members := members?_map [(first.1, j), (second.1, k)]
    rw [reads, ofMembers, record?, members]
    simp [required, field, distinct, distinct.symm]
  reads_only {j a} h := by
    have fields {j k : Json} (h : ((first.2.ofJson? j).bind fun b =>
        (second.2.ofJson? k).map (make b)) = some a) :
        ∃ j k b c, first.2.ofJson? j = some b ∧ second.2.ofJson? k = some c ∧ a = make b c := by
      simp only [Option.bind_eq_some_iff, Option.map_eq_some_iff] at h
      obtain ⟨b, readFirst, c, readSecond, rfl⟩ := h
      exact ⟨j, k, b, c, readFirst, readSecond, rfl⟩
    rw [reads] at h
    unfold record? at h
    split at h
    · simp only [Option.bind_eq_bind, Option.bind_eq_some_iff] at h
      obtain ⟨members, -, j, -, k, -, h⟩ := h
      exact fields (Option.bind_eq_some_iff.2 h)
    · exact fields h
    · cases h

theorem Instruction.ofRecord : Json.library.instruction.OfRecord ("opcode", Json.library.opcode)
    ("operands", Json.library.operands) .mk := by
  have fields : ofFields? = fun j k => (Opcode.ofJson? j).bind fun op =>
      (Json.listOf? Operand.ofJson? k).map (mk op) := by
    funext j k
    rw [ofFields?]
    simp only [Option.map_eq_bind]
    rfl
  refine Json.ofRecord_of_record? (by simp) (fun _ _ => rfl) ?_
  exact congrArg (Json.record? "opcode" "operands") fields

/-- Programs are records of their code and their table of functions. -/
theorem Bytecode.ofRecord : Json.library.program.OfRecord ("code", Json.library.instructions)
    ("functions", Json.library.entries) fun code functions => ⟨code.toArray, functions⟩ := by
  have fields : ofFields? = fun j k => (Json.listOf? Instruction.ofJson? j).bind fun code =>
      (entriesOfJson? k).map fun functions => ⟨code.toArray, functions⟩ := by
    funext j k
    rw [ofFields?]
    simp only [Option.map_eq_bind]
    rfl
  refine Json.ofRecord_of_record? (by simp) (fun _ _ => rfl) ?_
  exact congrArg (Json.record? "code" "functions") fields

/-- The members of a table are entered in order. -/
theorem entries_ofTable : Json.library.entries.OfTable Json.library.nat where
  write _ := rfl
  read members := by
    have read := Json.members?_map members
    show entriesOfJson? (.ofMembers members) = _
    rw [Json.ofMembers, entriesOfJson?, read, Option.map_eq_bind]
    rfl
  reads_only {j t} h e he := by
    change entriesOfJson? j = some t at h
    unfold entriesOfJson? at h
    split at h
    · simp only [Option.bind_eq_bind, Option.bind_eq_some_iff, Option.some.injEq] at h
      obtain ⟨members, -, pairs, read, rfl⟩ := h
      obtain ⟨m, -, reads⟩ := mem_of_mapM_eq_some read (NameTable.mem_of_mem_ofList he)
      obtain ⟨n, number, rfl⟩ := Option.map_eq_some_iff.1 reads
      exact ⟨m.2, number⟩
    · cases h

/-- The readers and writers of this project keep to what the documentation of a library says. -/
theorem Json.library_documented : library.Documented where
  texts document := read?_write (writable_of_document document)
  truth _ := ⟨rfl, rfl⟩
  text s := ⟨rfl, text?_codePoints s⟩
  int := int64?_ofInt
  nat _ fits := nat64?_ofNat fits
  nat_le := fits_of_nat64?
  value := Value.ofChoice
  opcode := Opcode.ofChoice
  operand := Operand.ofChoice
  operands := ofList_listOf? library.operand
  instruction := Instruction.ofRecord
  instructions := ofList_listOf? library.instruction
  entries := entries_ofTable
  program := Bytecode.ofRecord

/-! ### Programs

The result is about any documented library. The example reads and writes with the one of this
project, which keeps the promises as was just shown. -/

/-- Programs survive JSON. Any program whose numbers have 64 bits, and whose doubles are finite and
    read back from their JSON texts, is read back from its JSON text, with its functions in the same
    order. So a program that was read from any JSON text is the same after writing and reading it
    again. -/
theorem json_round_trip {L : JsonLibrary} (documented : L.Documented) :
    (∀ b : Bytecode, b.Fits → L.NumbersReadBack b → L.ofText? (L.toText b) = some b) ∧
      ∀ (s : String) (b : Bytecode), L.ofText? s = some b → L.NumbersReadBack b →
        L.ofText? (L.toText b) = some b :=
  ⟨fun _ => documented.ofText?_toText,
    fun _ _ read => documented.ofText?_toText (documented.fits_of_ofText? read)⟩

/-- A program that the static check refuses, with a text of quotes and controls, a double and the
    least integer, and two functions. -/
def Bytecode.assorted : Bytecode :=
  ⟨#[⟨.add, [.value (.float 2.5), .value (.str "\"\u0001é\\"), .address 9]⟩,
      .push (.int Int64.minValue), .func "" 3],
    NameTable.ofList [("g", 70), ("f", 0)]⟩

/-- The text of another program, written in another way: records as arrays, members out of order,
    escapes and an exponent. -/
def Bytecode.spelledOut : String :=
  "\x7b \"functions\": \x7b\x7d, \"code\":
    [[\"P\\u0075sh\", [\x7b\"Value\": \x7b\"Float\": 25e-1\x7d\x7d]]] \x7d"

/-- The library of this project reads an assorted program back; and a text that it would not have
    written itself is read as a program that it writes otherwise, and reads back from there. -/
theorem json_round_trip_assorted :
    Json.library.ofText? (Json.library.toText .assorted) = some .assorted ∧
      ∃ b, Json.library.ofText? Bytecode.spelledOut = some b ∧
        Json.library.toText b ≠ Bytecode.spelledOut ∧
        Json.library.ofText? (Json.library.toText b) = some b := by
  obtain ⟨trip, again⟩ := json_round_trip Json.library_documented
  have read : Json.library.ofText? Bytecode.spelledOut =
      some ⟨#[.push (.float 2.5)], .empty⟩ := by decide +kernel
  refine ⟨trip .assorted ⟨?_, ?_⟩ ?_, _, read, ?_, again _ _ read ?_⟩
  · decide +kernel
  · decide +kernel
  · unfold JsonLibrary.NumbersReadBack
    decide +kernel
  · decide +kernel
  · unfold JsonLibrary.NumbersReadBack
    decide +kernel

end ImpStack
