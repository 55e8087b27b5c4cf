/-
Module: ImpStack.Proofs.NumeralForm
Purpose: The form of numerals. A text is taken apart into a numeral exactly when it is written as
  one: an optional sign, digits, optionally a point with any number of digits, optionally an
  exponent mark with an optional sign and digits.
Main exports: Numeral.writtenWith, Numeral.Spells, Numeral.ofChars?_eq_some_iff
-/
import ImpStack.Numeral

namespace ImpStack

/-! ### Signs

A sign is taken off where there is one. It is told from digits, so putting it back in front of
something unsigned and taking it off again changes nothing. -/

/-- A sign as it is written; nothing if there is none. -/
def signText (sign : Option Sign) : List Char := (sign.map Sign.char).toList

/-- Whether a text starts without a sign. -/
def Unsigned (text : List Char) : Prop := ∀ c ∈ text.head?, c ≠ '+' ∧ c ≠ '-'

theorem text_of_splitSign {text rest : List Char} {sign : Option Sign}
    (h : splitSign text = (sign, rest)) : text = signText sign ++ rest := by
  unfold splitSign at h
  split at h <;> cases h <;> rfl

/-- A sign in front of something unsigned is taken off again. -/
theorem splitSign_append (sign : Option Sign) {rest : List Char} (unsigned : Unsigned rest) :
    splitSign (signText sign ++ rest) = (sign, rest) := by
  match sign with
  | some .plus => rfl
  | some .minus => rfl
  | none =>
      show splitSign rest = (none, rest)
      rw [splitSign]
      · rintro rest rfl
        exact (unsigned '+' rfl).1 rfl
      · rintro rest rfl
        exact (unsigned '-' rfl).2 rfl

/-! ### Marks

A point or an exponent mark splits a text in two if it occurs. Only its first occurrence counts,
which is why nothing before it may be a mark itself. -/

/-- What follows a mark, behind the mark; nothing if there is none. -/
def behind (mark : Char) : Option (List Char) → List Char
  | some rest => mark :: rest
  | none => []

section

variable {isMark : Char → Bool} {before : List Char}

/-- A text is split at the mark that was put there. -/
theorem splitAtFirst_append (unmarked : ∀ c ∈ before, isMark c = false) {mark : Char}
    (marks : isMark mark = true) (after : Option (List Char)) :
    splitAtFirst isMark (before ++ behind mark after) = (before, after) := by
  induction before with
  | nil =>
      cases after with
      | none => rfl
      | some rest => rw [List.nil_append, behind, splitAtFirst, if_pos marks]
  | cons d before ih =>
      obtain ⟨other, others⟩ := List.forall_mem_cons.1 unmarked
      rw [List.cons_append, splitAtFirst, other, ih others]
      rfl

/-- A text is what stands before its first mark, the mark and what stands behind it. Without a mark
    any mark will do. -/
theorem text_of_splitAtFirst (default : Char) (marks : isMark default = true) {text : List Char}
    {after : Option (List Char)} (h : splitAtFirst isMark text = (before, after)) :
    ∃ mark, isMark mark = true ∧ text = before ++ behind mark after := by
  induction text generalizing before with
  | nil =>
      cases h
      exact ⟨default, marks, rfl⟩
  | cons d text ih =>
      rw [splitAtFirst] at h
      by_cases marked : isMark d = true
      · rw [if_pos marked] at h
        cases h
        exact ⟨d, marked, rfl⟩
      · rw [if_neg marked] at h
        cases h
        obtain ⟨mark, marks, same⟩ := ih rfl
        exact ⟨mark, marks, congrArg (d :: ·) same⟩

end

/-! ### Digits

Digits are neither signs nor points nor exponent marks, so parts that are made of digits end where
they should. -/

/-- Digits are one digit at least, and nothing else. -/
theorem isDigits_iff {text : List Char} :
    isDigits text = true ↔ text ≠ [] ∧ ∀ c ∈ text, c.isDigit = true := by
  simp [isDigits]

theorem isDigit_ne {c d : Char} (digit : c.isDigit = true) (other : d.isDigit = false) : c ≠ d := by
  rintro rfl
  rw [digit] at other
  cases other

theorem unsigned_of_digits {digits : List Char} (h : isDigits digits = true) (rest : List Char) :
    Unsigned (digits ++ rest) := by
  obtain ⟨nonempty, digit⟩ := isDigits_iff.1 h
  obtain ⟨d, digits, rfl⟩ := List.exists_cons_of_ne_nil nonempty
  rintro c ⟨⟩
  have digit := digit d List.mem_cons_self
  exact ⟨isDigit_ne digit rfl, isDigit_ne digit rfl⟩

theorem isExponentMark_of_isDigit {c : Char} (digit : c.isDigit = true) :
    isExponentMark c = false := by
  simp [isExponentMark, isDigit_ne digit (d := 'e') rfl, isDigit_ne digit (d := 'E') rfl]

/-! ### Numerals

Reading takes a text apart at its exponent mark, at its point and behind its signs, and then asks
for digits. A text passes exactly if it was put together from such parts. -/

namespace Numeral

/-- The text of a numeral whose exponent has a given mark. -/
def writtenWith (mark : Char) (n : Numeral) : List Char :=
  signText n.sign ++ (n.whole ++ behind '.' n.fraction ++
    behind mark (n.exponent.map fun e => signText e.1 ++ e.2))

/-- A text is written as a numeral: there are digits before the point, only digits behind it, and
    digits in the exponent, which is marked by a small or a capital letter. -/
structure Spells (n : Numeral) (text : List Char) : Prop where
  whole : isDigits n.whole = true
  fraction : ∀ digits ∈ n.fraction, ∀ c ∈ digits, c.isDigit = true
  exponent : ∀ e ∈ n.exponent, isDigits e.2 = true
  written : ∃ mark, isExponentMark mark = true ∧ text = n.writtenWith mark

/-- The text of a numeral marks its exponent with a small letter. -/
theorem text_eq_writtenWith (n : Numeral) : n.text = n.writtenWith 'e' := by
  obtain ⟨sign, whole, fraction, exponent⟩ := n
  rcases fraction with _ | digits <;> rcases exponent with _ | ⟨s, e⟩ <;>
    simp [text, writtenWith, behind, signText]

/-- No character before the exponent marks one. -/
theorem Spells.unmarked {n : Numeral} {text : List Char} (h : n.Spells text) :
    ∀ c ∈ n.whole ++ behind '.' n.fraction, isExponentMark c = false := by
  intro c mem
  rcases List.mem_append.1 mem with mem | mem
  · exact isExponentMark_of_isDigit ((isDigits_iff.1 h.whole).2 c mem)
  · cases fraction : n.fraction with
    | none =>
        rw [fraction] at mem
        cases mem
    | some digits =>
        rw [fraction] at mem
        rcases List.mem_cons.1 mem with rfl | mem
        · rfl
        · exact isExponentMark_of_isDigit (h.fraction digits fraction c mem)

/-- The parts of a text are the parts of a numeral if there are digits wherever there must be. -/
theorem ofChars?_of_parts {text unsigned significand whole : List Char} {sign : Option Sign}
    {power fraction : Option (List Char)} (signed : splitSign text = (sign, unsigned))
    (raised : splitAtFirst isExponentMark unsigned = (significand, power))
    (pointed : splitAtFirst (· == '.') significand = (whole, fraction)) :
    ofChars? text =
      if isDigits whole && fraction.all (·.all Char.isDigit) &&
          (power.map splitSign).all (isDigits ·.2) then
        some ⟨sign, whole, fraction, power.map splitSign⟩
      else none := by
  simp only [ofChars?, signed, raised, pointed]

/-- A text that spells a numeral is taken apart into it. -/
theorem Spells.ofChars? {n : Numeral} {text : List Char} (h : n.Spells text) :
    ofChars? text = some n := by
  obtain ⟨mark, marks, rfl⟩ := h.written
  have unsigned := unsigned_of_digits h.whole (behind '.' n.fraction ++
    behind mark (n.exponent.map fun e => signText e.1 ++ e.2))
  rw [← List.append_assoc] at unsigned
  have points : ∀ c ∈ n.whole, (c == '.') = false := fun c mem =>
    beq_false_of_ne (isDigit_ne ((isDigits_iff.1 h.whole).2 c mem) rfl)
  have exponent : (n.exponent.map fun e => signText e.1 ++ e.2).map splitSign = n.exponent := by
    cases exponent : n.exponent with
    | none => rfl
    | some e =>
        have digits := unsigned_of_digits (h.exponent e exponent) []
        rw [List.append_nil] at digits
        exact congrArg some (splitSign_append e.1 digits)
  have fraction : n.fraction.all (·.all Char.isDigit) = true := by
    simpa [Option.all_eq_true] using h.fraction
  have power : n.exponent.all (isDigits ·.2) = true := by
    simpa [Option.all_eq_true] using h.exponent
  rw [writtenWith, ofChars?_of_parts (splitSign_append _ unsigned)
    (splitAtFirst_append h.unmarked marks _)
    (splitAtFirst_append points (beq_self_eq_true '.') _), exponent, h.whole, fraction, power]
  rfl

/-- A text is taken apart only into what it spells. -/
theorem spells_of_ofChars? {n : Numeral} {text : List Char} (h : Numeral.ofChars? text = some n) :
    n.Spells text := by
  rcases signed : splitSign text with ⟨sign, unsigned⟩
  rcases raised : splitAtFirst isExponentMark unsigned with ⟨significand, power⟩
  rcases pointed : splitAtFirst (· == '.') significand with ⟨whole, fraction⟩
  obtain ⟨mark, marks, power_text⟩ := text_of_splitAtFirst 'e' rfl raised
  obtain ⟨point, points, fraction_text⟩ := text_of_splitAtFirst '.' rfl pointed
  obtain rfl := beq_iff_eq.1 points
  have signs : (power.map splitSign).map (fun e => signText e.1 ++ e.2) = power := by
    cases power with
    | none => rfl
    | some rest => exact congrArg some (text_of_splitSign rfl).symm
  rw [ofChars?_of_parts signed raised pointed] at h
  simp only [Option.ite_none_right_eq_some, Bool.and_eq_true, Option.all_eq_true,
    List.all_eq_true, Option.some.injEq] at h
  obtain ⟨⟨⟨digits, decimals⟩, exponent⟩, rfl⟩ := h
  refine ⟨digits, decimals, exponent, mark, marks, ?_⟩
  rw [writtenWith, signs, ← fraction_text, ← power_text]
  exact text_of_splitSign signed

/-- A text is taken apart into a numeral exactly when it is written as that numeral. -/
theorem ofChars?_eq_some_iff {n : Numeral} {text : List Char} :
    Numeral.ofChars? text = some n ↔ n.Spells text :=
  ⟨spells_of_ofChars?, Spells.ofChars?⟩

end Numeral

end ImpStack
