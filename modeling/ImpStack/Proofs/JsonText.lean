/-
Module: ImpStack.Proofs.JsonText
Purpose: The text of a JSON tree is read back as the tree. Quoted texts are unescaped to the code
  points they were written from, numerals end where something else follows, and the length of the
  text bounds what reading it takes.
Main exports: readText_writeText, Json.Writable, Json.Reads, Json.Writable.reads, read?_write
-/
import ImpStack.Json.Writer
import ImpStack.Proofs.JsonNumerals

namespace ImpStack.Json

/-! ### Texts

A character is written as itself or escaped. The escapes start with a backslash and can thus be told
from what was written as itself, so code points are read back one by one; since all of them are
characters, no two are joined to a pair of surrogates. -/

/-- Code points that all are characters. -/
def Characters (codes : List Nat) : Prop := ∀ n ∈ codes, n.isValidChar

theorem toNat_ofNat {n : Nat} (valid : n.isValidChar) : (Char.ofNat n).toNat = n := by
  rw [Char.toNat_ofNat, if_pos valid]

/-- A code point is written by a letter that means it, by its digits, or as it is. -/
theorem writeCode_cases {n : Nat} (valid : n.isValidChar) :
    (∃ letter, letter ≠ 'u' ∧ escapedCode? letter = some n ∧ writeCode n = ['\\', letter]) ∨
      (n < 0x20 ∧ writeCode n = '\\' :: 'u' :: fourDigits n) ∨
      (0x20 ≤ n ∧ Char.ofNat n ≠ '"' ∧ Char.ofNat n ≠ '\\' ∧ writeCode n = [Char.ofNat n]) := by
  unfold writeCode
  split
  case h_8 quote backslash _ _ _ _ _ =>
    refine Or.inr ?_
    by_cases control : n < 0x20
    · exact Or.inl ⟨control, by simp [control]⟩
    · have plain : isSurrogate n = false := by
        rw [isSurrogate, decide_eq_false_iff_not]
        rcases valid with low | ⟨high, -⟩ <;> omega
      refine Or.inr ⟨Nat.le_of_not_lt control, ?_, ?_, by simp [control, plain]⟩
      · intro same
        exact quote (by rw [← toNat_ofNat valid, same]; rfl)
      · intro same
        exact backslash (by rw [← toNat_ofNat valid, same]; rfl)
  all_goals exact Or.inl ⟨_, by decide, rfl, rfl⟩

theorem hexNumber?_fourDigits : ∀ n < 0x20, ∃ a b c d,
    fourDigits n = [a, b, c, d] ∧ hexNumber? a b c d = some n := by
  have digits : ∀ n < 0x20, hexNumber? (Nat.digitChar (n / 0x1000 % 0x10))
      (Nat.digitChar (n / 0x100 % 0x10)) (Nat.digitChar (n / 0x10 % 0x10))
      (Nat.digitChar (n % 0x10)) = some n := by decide
  exact fun n control => ⟨_, _, _, _, rfl, digits n control⟩

/-- Put a code point in front of what was read. -/
def consCode (n : Nat) (read : List Nat × List Char) : List Nat × List Char :=
  (n :: read.1, read.2)

/-- A code point is read back from what is written for it. -/
theorem readCodes_writeCode {n : Nat} (valid : n.isValidChar) (rest : List Char) :
    readCodes (writeCode n ++ rest) = (readCodes rest).map (consCode n) := by
  rcases writeCode_cases valid with ⟨letter, other, means, written⟩ | ⟨control, written⟩ |
    ⟨graphic, quote, backslash, written⟩
  · rw [written, List.cons_append, List.cons_append, List.nil_append, readCodes, means]
    · cases readCodes rest <;> rfl
    · exact fun _ _ _ _ _ same _ => other same
  · obtain ⟨a, b, c, d, digits, number⟩ := hexNumber?_fourDigits n control
    rw [written, digits]
    show readCodes ('\\' :: 'u' :: a :: b :: c :: d :: rest) = _
    rw [readCodes, number]
    cases readCodes rest <;> rfl
  · have graphic : ¬ (Char.ofNat n).toNat < 0x20 := by
      rw [toNat_ofNat valid]
      omega
    rw [written, List.cons_append, List.nil_append, readCodes, if_neg graphic, toNat_ofNat valid]
    · cases readCodes rest <;> rfl
    · exact quote
    · exact fun _ _ _ _ _ same _ => backslash same
    · exact fun _ _ same _ => backslash same

/-- Reading what was written between quotes gives the code points. -/
theorem readCodes_flatMap {codes : List Nat} (valid : Characters codes) (rest : List Char) :
    readCodes (codes.flatMap writeCode ++ '"' :: rest) = some (codes, rest) := by
  induction codes with
  | nil => rfl
  | cons n codes ih =>
      obtain ⟨first, others⟩ := List.forall_mem_cons.1 valid
      rw [List.flatMap_cons, List.append_assoc, readCodes_writeCode first, ih others]
      rfl

/-- There is no surrogate among characters, so no two of them are a pair. -/
theorem joinPairs_of_characters {codes : List Nat} (valid : Characters codes) :
    joinPairs codes = codes := by
  induction codes with
  | nil => rfl
  | cons n codes ih =>
      obtain ⟨first, others⟩ := List.forall_mem_cons.1 valid
      have single : isHigh n = false := by
        rw [isHigh, decide_eq_false_iff_not]
        rcases first with low | ⟨high, -⟩ <;> omega
      cases codes with
      | nil => rfl
      | cons next codes =>
          rw [joinPairs, single, Bool.false_and, if_neg Bool.false_ne_true, ih others]

/-- A text is read from what is written behind its opening quote. -/
theorem readText_writeText {codes : List Nat} (valid : Characters codes) (rest : List Char) :
    readText (codes.flatMap writeCode ++ '"' :: rest) = some (codes, rest) := by
  rw [readText, readCodes_flatMap valid, Option.map_some]
  dsimp only
  rw [joinPairs_of_characters valid]

/-- A quoted text stands between its quotes, in front of what follows. -/
theorem writeText_append (codes : List Nat) (rest : List Char) :
    writeText codes ++ rest = '"' :: (codes.flatMap writeCode ++ '"' :: rest) := by
  simp [writeText]

/-! ### Trees

Reading is by fuel, which the length of the text bounds: each level of the tree takes at least one
character. What is behind a tree must not go on with it, which matters for numerals only. -/

/-- The trees that have a text: their texts are made of characters, and their numerals have JSON
    form. -/
inductive Writable : Json → Prop where
  | null : Writable .null
  | bool (b : Bool) : Writable (.bool b)
  | number {n : Numeral} (h : n.IsJson) : Writable (.number n)
  | string {codes : List Nat} (h : Characters codes) : Writable (.string codes)
  | array {items : List Json} (h : ∀ item ∈ items, Writable item) : Writable (.array items)
  | object {members : List (List Nat × Json)} (keys : ∀ m ∈ members, Characters m.1)
      (values : ∀ m ∈ members, Writable m.2) : Writable (.object members)

/-- A tree is read from its text with as much fuel as the text has characters, and what follows it
    is left. -/
def Reads (j : Json) : Prop :=
  ∀ (fuel : Nat) (rest : List Char), j.write.length < fuel → EndsNumeral rest →
    readValue fuel (j.write ++ rest) = some (j, rest)

/-- Nothing is skipped in front of other characters. -/
theorem skipBlanks_cons {c : Char} (plain : isBlank c = false) (rest : List Char) :
    skipBlanks (c :: rest) = c :: rest := by
  rw [skipBlanks, List.dropWhile_cons_of_neg (Bool.eq_false_iff.1 plain)]

/-- A numeral starts with none of the characters that start another tree. -/
theorem ne_of_numeral {c d : Char} (first : c = '-' ∨ c.isDigit = true) (minus : d ≠ '-')
    (digit : d.isDigit = false) : c ≠ d := by
  rcases first with rfl | first
  · exact minus.symm
  · exact isDigit_ne first digit

theorem isBlank_of_numeral {c : Char} (first : c = '-' ∨ c.isDigit = true) : isBlank c = false := by
  simp only [isBlank, Bool.or_eq_false_iff, beq_eq_false_iff_ne]
  refine ⟨⟨⟨?_, ?_⟩, ?_⟩, ?_⟩ <;> exact ne_of_numeral first (by decide) (by decide)

/-- The text of a tree starts with a character that is not blank and closes nothing. -/
theorem Writable.head {j : Json} (h : j.Writable) :
    ∃ c rest, j.write = c :: rest ∧ isBlank c = false ∧ c ≠ ']' := by
  cases h with
  | null => exact ⟨_, _, rfl, by decide, by decide⟩
  | bool b => cases b <;> exact ⟨_, _, rfl, by decide, by decide⟩
  | number json =>
      obtain ⟨c, rest, text, first⟩ := head?_text json
      exact ⟨c, rest, text, isBlank_of_numeral first, ne_of_numeral first (by decide) (by decide)⟩
  | string => exact ⟨_, _, rfl, by decide, by decide⟩
  | array => exact ⟨_, _, rfl, by decide, by decide⟩
  | object => exact ⟨_, _, rfl, by decide, by decide⟩

section

variable (fuel : Nat) {rest : List Char}

theorem readValue_numeral {c : Char} (first : c = '-' ∨ c.isDigit = true) :
    readValue (fuel + 1) (c :: rest) =
      (readNumeral (c :: rest)).map fun (n, rest) => (number n, rest) := by
  have other {d : Char} (minus : d ≠ '-') (digit : d.isDigit = false) :=
    ne_of_numeral first minus digit
  rw [readValue, skipBlanks_cons (isBlank_of_numeral first)]
  split
  case h_7 => rfl
  all_goals
    rename_i same
    exact absurd (List.cons.inj same).1 (other (by decide) (by decide))

/-- What starts with a bracket and does not close at once is read item by item. -/
theorem readValue_array {c : Char} {text : List Char} (plain : isBlank c = false)
    (opens : c ≠ ']') :
    readValue (fuel + 1) ('[' :: c :: text) =
      (readItems fuel (c :: text)).map fun read => (array read.1, read.2) := by
  rw [readValue, skipBlanks_cons rfl]
  simp only [skipBlanks_cons plain]
  split
  case h_1 same => exact absurd (List.cons.inj same).1 opens
  case h_2 => rfl

/-- What starts with a brace and a quote is read member by member. -/
theorem readValue_object {text : List Char} :
    readValue (fuel + 1) ('\x7b' :: '"' :: text) =
      (readMembers fuel ('"' :: text)).map fun read => (object read.1, read.2) := by
  rw [readValue, skipBlanks_cons rfl]
  rfl

end

/-- A comma, a bracket or a brace ends a numeral. -/
theorem endsNumeral_cons {c : Char} (closes : c = ',' ∨ c = ']' ∨ c = '\x7d') (rest : List Char) :
    EndsNumeral (c :: rest) := by
  rintro _ ⟨⟩
  rcases closes with rfl | rfl | rfl <;> exact ⟨rfl, by decide, rfl⟩

/-- Items are separated by commas. -/
theorem writeItems_cons (item next : Json) (items : List Json) (rest : List Char) :
    writeItems (item :: next :: items) ++ rest =
      item.write ++ ',' :: (writeItems (next :: items) ++ rest) := by
  rw [writeItems, List.append_assoc]
  · rfl
  · nofun

/-- Items are read up to the bracket behind them. -/
theorem readItems_writeItems : ∀ {items : List Json}, items ≠ [] → (∀ item ∈ items, item.Reads) →
    ∀ (fuel : Nat) (rest : List Char), (writeItems items).length + 1 < fuel →
      readItems fuel (writeItems items ++ ']' :: rest) = some (items, rest)
  | [], nonempty, _, _, _, _ => absurd rfl nonempty
  | [item], _, reads, fuel + 1, rest, enough => by
      rw [writeItems] at enough ⊢
      have first := reads item List.mem_cons_self fuel (']' :: rest) (by omega)
        (endsNumeral_cons (by simp) rest)
      rw [readItems, first, Option.bind_eq_bind, Option.bind_some]
      dsimp only
      rw [skipBlanks_cons rfl]
      rfl
  | item :: next :: items, _, reads, fuel + 1, rest, enough => by
      obtain ⟨reads, others⟩ := List.forall_mem_cons.1 reads
      have size := congrArg List.length (writeItems_cons item next items [])
      simp only [List.append_nil, List.length_append, List.length_cons] at size
      have first := reads fuel (',' :: (writeItems (next :: items) ++ ']' :: rest)) (by omega)
        (endsNumeral_cons (by simp) _)
      have later := readItems_writeItems (List.cons_ne_nil next items) others fuel rest
        (by omega)
      rw [writeItems_cons, readItems, first, Option.bind_eq_bind, Option.bind_some]
      dsimp only
      rw [skipBlanks_cons rfl]
      show (readItems fuel (writeItems (next :: items) ++ ']' :: rest)).bind _ = _
      rw [later]
      rfl

theorem writeMembers_single (key : List Nat) (value : Json) (rest : List Char) :
    writeMembers [(key, value)] ++ rest =
      '"' :: (key.flatMap writeCode ++ '"' :: ':' :: (value.write ++ rest)) := by
  simp [writeMembers, writeText]

theorem writeMembers_cons (key : List Nat) (value : Json) (next : List Nat × Json)
    (members : List (List Nat × Json)) (rest : List Char) :
    writeMembers ((key, value) :: next :: members) ++ rest =
      '"' :: (key.flatMap writeCode ++ '"' :: ':' ::
        (value.write ++ ',' :: (writeMembers (next :: members) ++ rest))) := by
  simp [writeMembers, writeText]

section

variable {key : List Nat} {value : Json} {rest : List Char} {fuel : Nat}

/-- A member before a brace is the last one. -/
theorem readMembers_last (valid : Characters key)
    (read : readValue fuel (value.write ++ '\x7d' :: rest) = some (value, '\x7d' :: rest)) :
    readMembers (fuel + 1)
        ('"' :: (key.flatMap writeCode ++ '"' :: ':' :: (value.write ++ '\x7d' :: rest))) =
      some ([(key, value)], rest) := by
  simp (disch := decide) only [readMembers, skipBlanks_cons, readText_writeText valid,
    Option.bind_eq_bind, Option.bind_some, read]

/-- Behind a member and a comma more members are read. -/
theorem readMembers_next (valid : Characters key)
    (read : readValue fuel (value.write ++ ',' :: rest) = some (value, ',' :: rest)) :
    readMembers (fuel + 1)
        ('"' :: (key.flatMap writeCode ++ '"' :: ':' :: (value.write ++ ',' :: rest))) =
      (readMembers fuel rest).bind fun read => some ((key, value) :: read.1, read.2) := by
  simp (disch := decide) only [readMembers, skipBlanks_cons, readText_writeText valid,
    Option.bind_eq_bind, Option.bind_some, read]

end

/-- Members are read up to the brace behind them. -/
theorem readMembers_writeMembers : ∀ {members : List (List Nat × Json)}, members ≠ [] →
    (∀ m ∈ members, Characters m.1) → (∀ m ∈ members, m.2.Reads) →
    ∀ (fuel : Nat) (rest : List Char), (writeMembers members).length + 1 < fuel →
      readMembers fuel (writeMembers members ++ '\x7d' :: rest) = some (members, rest)
  | [], nonempty, _, _, _, _, _ => absurd rfl nonempty
  | [(key, value)], _, valid, reads, fuel + 1, rest, enough => by
      have size := congrArg List.length (writeMembers_single key value [])
      simp only [List.append_nil, List.length_append, List.length_cons] at size
      have first : readValue fuel (value.write ++ '\x7d' :: rest) = some (value, '\x7d' :: rest) :=
        reads _ List.mem_cons_self fuel _ (by dsimp only; omega) (endsNumeral_cons (by simp) rest)
      rw [writeMembers_single, readMembers_last (valid _ List.mem_cons_self) first]
  | (key, value) :: next :: members, _, valid, reads, fuel + 1, rest, enough => by
      have size := congrArg List.length (writeMembers_cons key value next members [])
      simp only [List.append_nil, List.length_append, List.length_cons] at size
      obtain ⟨validKey, validKeys⟩ := List.forall_mem_cons.1 valid
      obtain ⟨readsValue, readsValues⟩ := List.forall_mem_cons.1 reads
      have first := readsValue fuel (',' :: (writeMembers (next :: members) ++ '\x7d' :: rest))
        (by dsimp only; omega) (endsNumeral_cons (by simp) _)
      have later := readMembers_writeMembers (List.cons_ne_nil next members) validKeys readsValues
        fuel rest (by omega)
      rw [writeMembers_cons, readMembers_next validKey first, later]
      rfl

/-- Items start with a character that is neither a blank nor a closing bracket. -/
theorem writeItems_head {item : Json} (items : List Json) (h : item.Writable) :
    ∃ c text, writeItems (item :: items) = c :: text ∧ isBlank c = false ∧ c ≠ ']' := by
  obtain ⟨c, text, written, plain, opens⟩ := h.head
  cases items with
  | nil => exact ⟨c, text, written, plain, opens⟩
  | cons next items =>
      have split := writeItems_cons item next items []
      rw [List.append_nil, written] at split
      exact ⟨c, _, split, plain, opens⟩

theorem writeMembers_head (m : List Nat × Json) (members : List (List Nat × Json)) :
    ∃ text, writeMembers (m :: members) = '"' :: text := by
  cases members with
  | nil => exact ⟨_, rfl⟩
  | cons next members =>
      have split := writeMembers_cons m.1 m.2 next members []
      rw [List.append_nil] at split
      exact ⟨_, split⟩

/-- A tree is read from its text. -/
theorem Writable.reads {j : Json} (h : j.Writable) : j.Reads := by
  induction h with
  | null =>
      rintro (_ | fuel) rest enough -
      · cases enough
      · rfl
  | bool b =>
      rintro (_ | fuel) rest enough -
      · cases enough
      · cases b <;> rfl
  | @number n json =>
      rintro (_ | fuel) rest enough stop
      · cases enough
      obtain ⟨c, text, written, first⟩ := head?_text json
      have read := readNumeral_text json stop
      -- only here it matters what follows: a numeral is read as far as it goes
      show readValue (fuel + 1) (n.text ++ rest) = _
      rw [written] at read ⊢
      rw [List.cons_append] at read ⊢
      rw [readValue_numeral fuel first, read]
      rfl
  | @string codes valid =>
      rintro (_ | fuel) rest enough -
      · cases enough
      show readValue (fuel + 1) (writeText codes ++ rest) = _
      rw [writeText_append, readValue, skipBlanks_cons rfl]
      show (readText (codes.flatMap writeCode ++ '"' :: rest)).map _ = _
      rw [readText_writeText valid]
      rfl
  | @array items writable reads =>
      rintro (_ | fuel) rest enough -
      · cases enough
      show readValue (fuel + 1) ('[' :: (writeItems items ++ [']']) ++ rest) = _
      rw [List.cons_append, List.append_assoc]
      cases items with
      | nil => rfl
      | cons item items =>
          have size : (write (.array (item :: items))).length =
              (writeItems (item :: items)).length + 2 := by
            simp [write]
          have read := readItems_writeItems (List.cons_ne_nil item items) reads fuel rest
            (by omega)
          -- the reader has to see that the array is not empty
          obtain ⟨c, text, written, plain, opens⟩ :=
            writeItems_head items (writable item List.mem_cons_self)
          show readValue (fuel + 1) ('[' :: (writeItems (item :: items) ++ ']' :: rest)) = _
          rw [written] at read ⊢
          rw [List.cons_append] at read ⊢
          rw [readValue_array fuel plain opens, read]
          rfl
  | @object members keys values reads =>
      rintro (_ | fuel) rest enough -
      · cases enough
      show readValue (fuel + 1) ('\x7b' :: (writeMembers members ++ ['\x7d']) ++ rest) = _
      rw [List.cons_append, List.append_assoc]
      cases members with
      | nil => rfl
      | cons m members =>
          have size : (write (.object (m :: members))).length =
              (writeMembers (m :: members)).length + 2 := by
            simp [write]
          have read := readMembers_writeMembers (List.cons_ne_nil m members) keys reads
            fuel rest (by omega)
          obtain ⟨text, written⟩ := writeMembers_head m members
          show readValue (fuel + 1) ('\x7b' :: (writeMembers (m :: members) ++ '\x7d' :: rest)) = _
          rw [written] at read ⊢
          rw [List.cons_append] at read ⊢
          rw [readValue_object fuel, read]
          rfl

/-- The text of a tree is read back as the tree. -/
theorem read?_write {j : Json} (h : j.Writable) : read? (String.ofList j.write) = some j := by
  have read := h.reads (j.write.length + 1) [] (Nat.lt_succ_self _) nofun
  rw [List.append_nil] at read
  rw [read?, String.toList_ofList, read]
  rfl

end ImpStack.Json
