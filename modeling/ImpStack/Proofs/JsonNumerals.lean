/-
Module: ImpStack.Proofs.JsonNumerals
Purpose: The numerals of JSON. A numeral of JSON form is read back from its text, as far as it goes;
  the numerals that integers and finite doubles are written as have this form.
Main exports: Numeral.IsJson, readNumeral_text, isJson_ofInt, isJson_ofNat, isJson_numeralOfFloat
-/
import ImpStack.Json.Number
import ImpStack.Json.Reader
import ImpStack.Proofs.PrintedDoubles

namespace ImpStack

open Float.Model (UnpackedFloat)
open Decimal

/-! ### The form of numerals

A numeral is read as far as it goes: each of its parts stops at the first character that does not
belong to it, and the next part starts there. The signs between the parts are none that the part
before could go on with. -/

/-- A numeral as JSON has it: no plus in front, no zero before other digits, and digits wherever
    there may be digits. -/
structure Numeral.IsJson (n : Numeral) : Prop where
  sign : n.sign ≠ some .plus
  whole : isDigits n.whole = true
  leading : n.whole.length = 1 ∨ n.whole.head? ≠ some '0'
  fraction : ∀ digits ∈ n.fraction, isDigits digits = true
  exponent : ∀ e ∈ n.exponent, isDigits e.2 = true

namespace Json

/-- A text that no numeral goes on with. -/
def EndsNumeral (rest : List Char) : Prop :=
  ∀ c ∈ rest.head?, c.isDigit = false ∧ c ≠ '.' ∧ isExponentMark c = false

section

variable {digits rest : List Char}

/-- Digits are read as far as they go. -/
theorem readDigits_append (all : isDigits digits = true)
    (stop : ∀ c ∈ rest.head?, c.isDigit = false) :
    readDigits (digits ++ rest) = some (digits, rest) := by
  obtain ⟨nonempty, digit⟩ := isDigits_iff.1 all
  have none : rest.takeWhile Char.isDigit = [] ∧ rest.dropWhile Char.isDigit = rest := by
    cases rest with
    | nil => exact ⟨rfl, rfl⟩
    | cons c rest => simp [stop c rfl]
  rw [readDigits, List.takeWhile_append_of_pos digit, List.dropWhile_append_of_pos digit, none.1,
    none.2, List.append_nil, List.isEmpty_eq_false_iff.2 nonempty]
  rfl

/-- The digits in front are read up to the first character that is none. -/
theorem readWhole_append (all : isDigits digits = true)
    (leading : digits.length = 1 ∨ digits.head? ≠ some '0')
    (stop : ∀ c ∈ rest.head?, c.isDigit = false) :
    readWhole (digits ++ rest) = some (digits, rest) := by
  rw [readWhole, readDigits_append all stop, Option.filter_some, if_pos (by simpa using leading)]

/-- The digits behind the point are read, if there is a point. -/
theorem readFraction_append {fraction : Option (List Char)}
    (all : ∀ digits ∈ fraction, isDigits digits = true)
    (stop : ∀ c ∈ rest.head?, c.isDigit = false ∧ c ≠ '.') :
    readFraction (behind '.' fraction ++ rest) = some (fraction, rest) := by
  cases fraction with
  | some digits =>
      show (readDigits (digits ++ rest)).map _ = _
      rw [readDigits_append (all digits rfl) fun c first => (stop c first).1]
      rfl
  | none =>
      show readFraction rest = _
      rw [readFraction]
      rintro rest rfl
      exact (stop '.' rfl).2 rfl

/-- The exponent is read with its sign, if there is one. -/
theorem readExponent_append {exponent : Option (Option Sign × List Char)}
    (all : ∀ e ∈ exponent, isDigits e.2 = true) (stop : EndsNumeral rest) :
    readExponent (behind 'e' (exponent.map fun e => signText e.1 ++ e.2) ++ rest) =
      some (exponent, rest) := by
  cases exponent with
  | some e =>
      obtain ⟨sign, digits⟩ := e
      have digit := all _ rfl
      have split : splitSign (signText sign ++ digits ++ rest) = (sign, digits ++ rest) := by
        rw [List.append_assoc]
        exact splitSign_append sign (unsigned_of_digits digit rest)
      show readExponent ('e' :: (signText sign ++ digits ++ rest)) = _
      have marks : isExponentMark 'e' = true := rfl
      rw [readExponent, if_pos marks, split]
      dsimp only
      rw [readDigits_append digit fun c first => (stop c first).1]
      rfl
  | none =>
      show readExponent rest = _
      cases rest with
      | nil => rfl
      | cons c rest =>
          rw [readExponent, if_neg (Bool.eq_false_iff.1 (stop c rfl).2.2)]

/-- A minus is read, and a numeral without a sign does not start with one. -/
theorem readMinus_append {sign : Option Sign} (unsigned : Unsigned rest)
    (json : sign ≠ some .plus) : readMinus (signText sign ++ rest) = (sign, rest) := by
  match sign with
  | some .minus => rfl
  | some .plus => exact absurd rfl json
  | none =>
      show readMinus rest = _
      rw [readMinus]
      rintro rest rfl
      exact (unsigned '-' rfl).2 rfl

end

/-- What follows the digits before the point starts with no digit. -/
theorem stop_whole (n : Numeral) {rest : List Char} (stop : EndsNumeral rest)
    {exponent : Option (List Char)} :
    ∀ c ∈ (behind '.' n.fraction ++ (behind 'e' exponent ++ rest)).head?, c.isDigit = false := by
  cases n.fraction with
  | some digits => rintro _ ⟨⟩; rfl
  | none =>
      cases exponent with
      | some e => rintro _ ⟨⟩; rfl
      | none => exact fun c first => (stop c first).1

/-- What follows the digits behind the point starts with no digit and no point. -/
theorem stop_fraction {rest : List Char} (stop : EndsNumeral rest) {exponent : Option (List Char)} :
    ∀ c ∈ (behind 'e' exponent ++ rest).head?, c.isDigit = false ∧ c ≠ '.' := by
  cases exponent with
  | some e => rintro _ ⟨⟩; decide
  | none => exact fun c first => ⟨(stop c first).1, (stop c first).2.1⟩

/-- A numeral is read from its text, and what follows it is left. -/
theorem readNumeral_text {n : Numeral} (json : n.IsJson) {rest : List Char}
    (stop : EndsNumeral rest) : readNumeral (n.text ++ rest) = some (n, rest) := by
  have unsigned := unsigned_of_digits json.whole (behind '.' n.fraction ++
    (behind 'e' (n.exponent.map fun e => signText e.1 ++ e.2) ++ rest))
  rw [Numeral.text_eq_writtenWith, Numeral.writtenWith, List.append_assoc, List.append_assoc,
    List.append_assoc]
  simp only [readNumeral, readMinus_append unsigned json.sign,
    readWhole_append json.whole json.leading (stop_whole n stop),
    readFraction_append json.fraction (stop_fraction stop), readExponent_append json.exponent stop,
    Option.bind_eq_bind, Option.bind_some]

/-- The text of a numeral starts with a minus or a digit. -/
theorem head?_text {n : Numeral} (json : n.IsJson) :
    ∃ c rest, n.text = c :: rest ∧ (c = '-' ∨ c.isDigit = true) := by
  obtain ⟨nonempty, digit⟩ := isDigits_iff.1 json.whole
  rw [Numeral.text_eq_writtenWith, Numeral.writtenWith]
  rcases sign : n.sign with _ | _ | _
  · obtain ⟨d, digits, whole⟩ := List.exists_cons_of_ne_nil nonempty
    rw [whole] at digit ⊢
    exact ⟨d, _, rfl, Or.inr (digit d List.mem_cons_self)⟩
  · exact absurd sign json.sign
  · exact ⟨'-', _, rfl, Or.inl rfl⟩

end Json

/-! ### Integers

Integers are written in decimal, with a minus if they are negative. The digits of a number never
start with a zero unless there is just one. -/

/-- A number that is not zero starts with no zero. -/
theorem head?_toDigits {n : Nat} (pos : 0 < n) : (Nat.toDigits 10 n).head? ≠ some '0' := by
  induction n using Nat.strongRecOn with
  | _ n ih =>
      have digit : ∀ n < 10, 0 < n → n.digitChar ≠ '0' := by decide
      rw [Nat.toDigits_eq_if (by decide)]
      by_cases small : n < 10
      · rw [if_pos small, List.head?_cons]
        exact fun same => digit n small pos (Option.some.inj same)
      · rw [if_neg small, List.head?_append_of_ne_nil _ Nat.toDigits_ne_nil]
        exact ih (n / 10) (by omega) (by omega)

/-- A natural number is zero or starts with no zero. -/
theorem leading_toDigits (n : Nat) :
    (Nat.toDigits 10 n).length = 1 ∨ (Nat.toDigits 10 n).head? ≠ some '0' := by
  rcases Nat.eq_zero_or_pos n with rfl | pos
  · exact Or.inl rfl
  · exact Or.inr (head?_toDigits pos)

namespace Numeral

theorem isJson_ofInt (z : Int) : (ofInt z).IsJson where
  sign := by
    rw [ofInt]
    split <;> simp
  whole := isDigits_toDigits _
  leading := leading_toDigits _
  fraction := by simp [ofInt]
  exponent := by simp [ofInt]

theorem isJson_ofNat (n : Nat) : (ofNat n).IsJson where
  sign := nofun
  whole := isDigits_toDigits _
  leading := leading_toDigits _
  fraction := nofun
  exponent := nofun

end Numeral

/-! ### Doubles

A double is written with its shortest digits, in positional notation or with an exponent. Zero needs
care: with a positive exponent its digit would be followed by more zeros. -/

theorem signOf_ne_plus (negative : Bool) : signOf negative ≠ some .plus := by
  cases negative <;> nofun

/-- With a power of ten one digit stands before the point, and none behind it only without a
    point. -/
theorem isJson_withExponent (negative : Bool) (d : Scientific) :
    (withExponent negative d).IsJson := by
  have digit := (isDigits_iff.1 (isDigits_toDigits d.digits)).2
  have pos : 0 < (Nat.toDigits 10 d.digits).length := Nat.length_toDigits_pos
  have single : ((Nat.toDigits 10 d.digits).take 1).length = 1 := by
    rw [List.length_take]
    omega
  refine ⟨signOf_ne_plus negative,
    isDigits_iff.2 ⟨?_, fun c mem => digit c (List.mem_of_mem_take mem)⟩, Or.inl single, ?_, ?_⟩
  · exact List.ne_nil_of_length_eq_add_one single
  · intro digits fraction
    rw [withExponent] at fraction
    dsimp only at fraction
    split at fraction
    · cases fraction
    · cases fraction
      refine isDigits_iff.2 ⟨?_, fun c mem => digit c (List.mem_of_mem_drop mem)⟩
      rw [ne_eq, List.drop_eq_nil_iff]
      omega
  · rintro e ⟨⟩
    exact isDigits_toDigits _

/-- A positional numeral starts with a zero only if it has no other digit before the point. -/
theorem leading_positional (negative : Bool) {d : Scientific}
    (zero : d.digits = 0 → d.exponent ≤ 0) :
    (positional negative d).whole.length = 1 ∨
      (positional negative d).whole.head? ≠ some '0' := by
  have first (pos : 0 < d.digits) (rest : List Char) :
      (Nat.toDigits 10 d.digits ++ rest).head? ≠ some '0' := by
    rw [List.head?_append_of_ne_nil _ Nat.toDigits_ne_nil]
    exact head?_toDigits pos
  rw [positional]
  dsimp only
  by_cases nonnegative : 0 ≤ d.exponent
  · rw [if_pos nonnegative]
    rcases Nat.eq_zero_or_pos d.digits with none | pos
    · have whole : d.exponent = 0 := le_antisymm (zero none) nonnegative
      rw [none, whole]
      exact Or.inl rfl
    · exact Or.inr (first pos _)
  rw [if_neg nonnegative]
  split
  case isTrue inside =>
    rcases Nat.eq_zero_or_pos d.digits with none | pos
    · rw [none, Nat.toDigits_zero, List.length_singleton] at inside
      omega
    · right
      rw [List.head?_take, if_neg (by omega)]
      exact head?_toDigits pos
  case isFalse => exact Or.inl rfl

/-- So has every number in positional notation, unless it is zero with zeros appended. -/
theorem isJson_positional (negative : Bool) {d : Scientific}
    (zero : d.digits = 0 → d.exponent ≤ 0) : (positional negative d).IsJson := by
  have leading := leading_positional negative zero
  obtain ⟨whole, fraction, parts, wholeDigits, digit, number⟩ := positional_parts negative d
  have places : fraction ≠ [] := by
    rintro rfl
    have exponent : 0 = (pointed d).exponent := congrArg Scientific.exponent number
    rw [pointed] at exponent
    split at exponent
    · cases exponent
    · omega
  rw [parts] at leading ⊢
  refine ⟨signOf_ne_plus negative, wholeDigits, leading, ?_, by simp⟩
  rintro _ ⟨⟩
  exact isDigits_iff.2 ⟨places, digit⟩

/-- No decimal with digits zero reads back as a double other than zero. -/
theorem toFloat_zero_ne_abs {x : Float} (finite : x.isFinite = true) (nonzero : mantissa x ≠ 0)
    (k : Nat) : (Scientific.mk 0 k).toFloat ≠ x.abs := by
  intro same
  have unpacked := unpack_abs finite
  rw [← same, toFloat_zero, unpack_of_finite finite nonzero] at unpacked
  cases unpacked.symm.trans UnpackedFloat.unpack_packedZero

/-- The shortest decimal of a finite double has digits other than zero, or nothing to shift. -/
theorem exponent_of_shortest {tie : Tie} {x : Float} (finite : x.isFinite = true)
    (zero : (shortest tie x).digits = 0) : (shortest tie x).exponent ≤ 0 := by
  rw [shortest] at zero ⊢
  by_cases nothing : mantissa x = 0
  · rw [if_pos nothing]
  rw [if_neg nothing] at zero ⊢
  cases found : (List.range' 1 17).findSome? (withDigits tie x) with
  | none =>
      rw [Option.getD_none, exact]
      split
      · rfl
      · show binaryExponent x ≤ 0
        omega
  | some d =>
      rw [found] at zero
      obtain ⟨digits, exponent⟩ := d
      obtain rfl : digits = 0 := zero
      obtain ⟨count, -, shorter⟩ := List.exists_of_findSome?_eq_some found
      rw [withDigits] at shorter
      have reads := List.find?_some shorter
      by_contra positive
      obtain ⟨k, rfl⟩ := Int.eq_ofNat_of_zero_le (Int.le_of_lt (Int.not_le.1 positive))
      exact toFloat_zero_ne_abs finite nothing k (eq_abs_of_beq finite nothing reads)

/-- The numeral of a finite double has JSON form. -/
theorem isJson_numeralOfFloat {x : Float} (finite : x.isFinite = true) :
    (Json.numeralOfFloat x).IsJson := by
  rw [Json.numeralOfFloat]
  split
  · exact isJson_positional _ (exponent_of_shortest finite)
  · exact isJson_withExponent _ _

end ImpStack
