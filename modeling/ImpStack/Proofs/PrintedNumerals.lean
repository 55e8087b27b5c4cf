/-
Module: ImpStack.Proofs.PrintedNumerals
Purpose: The numerals that integers and decimals are printed as. Their texts have the form of
  numerals, no character of them is blank, and they denote what was printed: a decimal without
  places gets a zero behind the point.
Main exports: spells_ofInt, toInt_ofInt, spells_positional, toScientific_positional,
  Numeral.Spells.trim
-/
import Mathlib
import ImpStack.Decimal.Layout
import ImpStack.Proofs.NumeralForm
import ImpStack.Text.Blank

namespace ImpStack

open Decimal

/-! ### Digits

The number of a row of digits is read from the left. Zeros in front count for nothing, and zeros
behind are powers of ten. -/

/-- The digits behind are read on from the number of those in front. -/
theorem natOfDigits_append (front back : List Char) :
    natOfDigits (front ++ back) = Nat.ofDigitChars 10 back (natOfDigits front) := by
  rw [natOfDigits, natOfDigits, List.foldl_append, Nat.ofDigitChars]
  simp only [Nat.mul_comm]

theorem natOfDigits_toDigits (n : Nat) : natOfDigits (Nat.toDigits 10 n) = n := by
  rw [← List.nil_append (Nat.toDigits 10 n), natOfDigits_append]
  exact Nat.ofDigitChars_toDigits (by decide) (by decide)

/-- Zeros in front make no difference. -/
theorem natOfDigits_zeros_append (count : Nat) (digits : List Char) :
    natOfDigits (zeros count ++ digits) = natOfDigits digits := by
  have none : natOfDigits (zeros count) = 0 := by
    rw [← List.nil_append (zeros count), natOfDigits_append]
    exact Nat.ofDigitChars_replicate_zero.trans (Nat.mul_zero _)
  rw [natOfDigits_append, none, ← List.nil_append digits, natOfDigits_append]
  rfl

/-- Each zero behind multiplies by ten. -/
theorem natOfDigits_append_zeros (digits : List Char) (count : Nat) :
    natOfDigits (digits ++ zeros count) = natOfDigits digits * 10 ^ count := by
  rw [natOfDigits_append, Nat.mul_comm]
  exact Nat.ofDigitChars_replicate_zero

theorem isDigits_toDigits (n : Nat) : isDigits (Nat.toDigits 10 n) = true :=
  isDigits_iff.2 ⟨Nat.toDigits_ne_nil, fun _ => Nat.isDigit_of_mem_toDigits (by decide) (by decide)⟩

/-! ### Integers

An integer is its sign and its digits, which is a numeral of the simplest form. -/

namespace Numeral

/-- A numeral that is made of digits is spelled by its text. -/
theorem spells_text {n : Numeral} (whole : isDigits n.whole = true)
    (fraction : ∀ digits ∈ n.fraction, ∀ c ∈ digits, c.isDigit = true)
    (exponent : ∀ e ∈ n.exponent, isDigits e.2 = true) : n.Spells n.text :=
  ⟨whole, fraction, exponent, 'e', rfl, text_eq_writtenWith n⟩

theorem spells_ofInt (z : Int) : (ofInt z).Spells (ofInt z).text :=
  spells_text (isDigits_toDigits _) nofun nofun

/-- The numeral of an integer denotes the integer. -/
theorem toInt_ofInt (z : Int) : (ofInt z).toInt = z := by
  by_cases negative : z < 0
  · have minus : (ofInt z).isNegative = true := by simp [isNegative, ofInt, negative]
    rw [toInt, if_pos minus, ofInt, natOfDigits_toDigits]
    omega
  · have plain : ¬ (ofInt z).isNegative = true := by simp [isNegative, ofInt, negative]
    rw [toInt, if_neg plain, ofInt, natOfDigits_toDigits]
    omega

end Numeral

/-! ### Decimals

A decimal is printed without an exponent: a point is put between its digits, or zeros are added
until it fits. What the numeral denotes is found again by taking the digits on both sides of the
point together. -/

/-- A decimal with at least one place. -/
def pointed (d : Scientific) : Scientific :=
  if 0 ≤ d.exponent then ⟨d.digits * 10 ^ (d.exponent.toNat + 1), -1⟩ else d

/-- Wherever the point stands among the digits of a decimal, or among the zeros beside them, there
    are digits before it, and with those behind it they denote the decimal. -/
theorem positional_parts (negative : Bool) (d : Scientific) : ∃ whole fraction,
    positional negative d = ⟨signOf negative, whole, some fraction, none⟩ ∧
      isDigits whole = true ∧ (∀ c ∈ fraction, c.isDigit = true) ∧
      ⟨natOfDigits (whole ++ fraction), -(fraction.length : Int)⟩ = pointed d := by
  have digit := (isDigits_iff.1 (isDigits_toDigits d.digits)).2
  have zero (count : Nat) : ∀ c ∈ zeros count, c.isDigit = true := by
    intro c mem
    rw [List.eq_of_mem_replicate mem]
    rfl
  rw [positional, pointed]
  dsimp only
  by_cases nonnegative : 0 ≤ d.exponent
  · have number := natOfDigits_append_zeros (Nat.toDigits 10 d.digits) (d.exponent.toNat + 1)
    rw [zeros, List.replicate_succ', ← List.append_assoc, natOfDigits_toDigits] at number
    rw [if_pos nonnegative, if_pos nonnegative]
    refine ⟨_, _, rfl, isDigits_iff.2 ⟨?_, ?_⟩, zero 1, Scientific.mk.injEq .. ▸ ⟨number, rfl⟩⟩
    · exact List.append_ne_nil_of_left_ne_nil Nat.toDigits_ne_nil _
    · exact List.forall_mem_append.2 ⟨digit, zero _⟩
  rw [if_neg nonnegative, if_neg nonnegative]
  split
  case isTrue inside =>
    refine ⟨_, _, rfl, isDigits_iff.2 ⟨?_, fun c mem => digit c (List.mem_of_mem_take mem)⟩,
      fun c mem => digit c (List.mem_of_mem_drop mem), Scientific.mk.injEq .. ▸ ⟨?_, ?_⟩⟩
    · rw [ne_eq, List.take_eq_nil_iff, not_or]
      exact ⟨by omega, Nat.toDigits_ne_nil⟩
    · rw [List.take_append_drop, natOfDigits_toDigits]
    · rw [List.length_drop]
      omega
  case isFalse outside =>
    refine ⟨_, _, rfl, rfl, List.forall_mem_append.2 ⟨zero _, digit⟩,
      Scientific.mk.injEq .. ▸ ⟨?_, ?_⟩⟩
    · rw [← List.append_assoc]
      exact (natOfDigits_zeros_append (_ + 1) _).trans (natOfDigits_toDigits d.digits)
    · rw [List.length_append, zeros, List.length_replicate]
      omega

section

variable (negative : Bool) (d : Scientific)

theorem isNegative_positional : (positional negative d).isNegative = negative := by
  obtain ⟨whole, fraction, parts, -⟩ := positional_parts negative d
  rw [parts]
  cases negative <;> rfl

/-- A decimal always has a point, so it is not read as an integer. -/
theorem isInteger_positional : (positional negative d).isInteger = false := by
  obtain ⟨whole, fraction, parts, -⟩ := positional_parts negative d
  rw [parts]
  rfl

theorem spells_positional : (positional negative d).Spells (positional negative d).text := by
  obtain ⟨whole, fraction, parts, wholeDigits, fractionDigits, -⟩ := positional_parts negative d
  rw [parts]
  refine Numeral.spells_text wholeDigits ?_ nofun
  rintro _ ⟨⟩
  exact fractionDigits

/-- The numeral of a decimal denotes the decimal with at least one place. -/
theorem toScientific_positional : (positional negative d).toScientific = pointed d := by
  obtain ⟨whole, fraction, parts, -, -, number⟩ := positional_parts negative d
  rw [parts, ← number]
  exact Scientific.mk.injEq .. ▸ ⟨rfl, Int.zero_sub _⟩

end

/-! ### Blanks

Numerals hold no blanks, so trimming leaves them as they are. -/

/-- A text with no blank at either end is not trimmed. -/
theorem trim_eq_self {text : List Char} (first : ∀ c ∈ text.head?, Text.isBlank c = false)
    (last : ∀ c ∈ text.getLast?, Text.isBlank c = false) : Text.trim text = text := by
  have kept {text : List Char} (first : ∀ c ∈ text.head?, Text.isBlank c = false) :
      text.dropWhile Text.isBlank = text := by
    cases text with
    | nil => rfl
    | cons c text => exact List.dropWhile_cons_of_neg (Bool.eq_false_iff.1 (first c rfl))
  rw [Text.trim, kept first, kept (by rwa [List.head?_reverse]), List.reverse_reverse]

theorem isBlank_of_isDigit {c : Char} (digit : c.isDigit = true) : Text.isBlank c = false := by
  have digits : 48 ≤ c.toNat ∧ c.toNat ≤ 57 := Char.isDigit_iff_toNat.1 digit
  have apart : ∀ range ∈ Text.blankRanges, range.2 < 48 ∨ 57 < range.1 := by decide
  rw [Text.isBlank, List.any_eq_false]
  intro range mem
  have outside := apart range mem
  rw [decide_eq_true_eq]
  omega

namespace Numeral

/-- A numeral is written without blanks. -/
theorem Spells.isBlank {n : Numeral} {text : List Char} (h : n.Spells text) :
    ∀ c ∈ text, Text.isBlank c = false := by
  have signs (sign : Option Sign) : ∀ c ∈ signText sign, Text.isBlank c = false := by
    cases sign with
    | none => nofun
    | some sign => exact List.forall_mem_singleton.2 (by cases sign <;> decide)
  have digits {digits : List Char} (all : ∀ c ∈ digits, c.isDigit = true) :
      ∀ c ∈ digits, Text.isBlank c = false := fun c mem => isBlank_of_isDigit (all c mem)
  have marked {mark : Char} {after : Option (List Char)} (plain : Text.isBlank mark = false)
      (rest : ∀ text ∈ after, ∀ c ∈ text, Text.isBlank c = false) :
      ∀ c ∈ behind mark after, Text.isBlank c = false := by
    cases after with
    | none => nofun
    | some text => exact List.forall_mem_cons.2 ⟨plain, rest text rfl⟩
  obtain ⟨mark, marks, rfl⟩ := h.written
  have plain : Text.isBlank mark = false := by
    rw [isExponentMark, Bool.or_eq_true, beq_iff_eq, beq_iff_eq] at marks
    rcases marks with rfl | rfl <;> decide
  rw [writtenWith]
  refine List.forall_mem_append.2 ⟨signs _, List.forall_mem_append.2
    ⟨List.forall_mem_append.2 ⟨digits (isDigits_iff.1 h.whole).2, ?_⟩, marked plain ?_⟩⟩
  · exact marked (by decide) fun text fraction => digits (h.fraction text fraction)
  · intro text power
    obtain ⟨e, exponent, rfl⟩ := Option.map_eq_some_iff.1 power
    exact List.forall_mem_append.2 ⟨signs _, digits (isDigits_iff.1 (h.exponent e exponent)).2⟩

theorem Spells.trim {n : Numeral} {text : List Char} (h : n.Spells text) : Text.trim text = text :=
  trim_eq_self (fun c first => h.isBlank c (List.mem_of_mem_head? first))
    fun c last => h.isBlank c (List.mem_of_mem_getLast? last)

end Numeral

end ImpStack
