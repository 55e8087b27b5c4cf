/-
Module: ImpStack.Proofs.ShownConstants
Purpose: What a listing shows of a constant determines it. Quoted texts are told apart character by
  character, constants of different types never look alike, and only doubles may share a text.
Main exports: quoteChar_append_inj, Value.Alike, shownType, Value.alike_of_text
-/
import ImpStack.Proofs.ReadBack

namespace ImpStack

/-! ### Hexadecimal digits

Escapes by code points show hexadecimal digits between braces. The digits determine the number,
since the most significant one is not a zero. -/

theorem digitChar_inj : ∀ a < 16, ∀ b < 16, Nat.digitChar a = Nat.digitChar b → a = b := by
  decide

/-- A number is determined by its hexadecimal digits. -/
theorem toDigits_hex_inj {n m : Nat} (h : Nat.toDigits 16 n = Nat.toDigits 16 m) : n = m := by
  induction n using Nat.strongRecOn generalizing m with
  | _ n ih =>
      have single (k : Nat) : (Nat.toDigits 16 k).length ≤ 1 ↔ k < 16 := by
        rw [Nat.length_toDigits_le_iff (by decide) (by decide), Nat.pow_one]
      have alike : n < 16 ↔ m < 16 := by rw [← single, ← single, h]
      by_cases small : n < 16
      · rw [Nat.toDigits_of_lt_base small, Nat.toDigits_of_lt_base (alike.1 small)] at h
        exact digitChar_inj n small m (alike.1 small) (List.cons.inj h).1
      · rw [Nat.toDigits_of_base_le (by decide) (Nat.le_of_not_lt small),
          Nat.toDigits_of_base_le (by decide) (Nat.le_of_not_lt (mt alike.2 small))] at h
        obtain ⟨front, last⟩ := List.append_inj' h rfl
        have rest := digitChar_inj _ (Nat.mod_lt n (by decide)) _ (Nat.mod_lt m (by decide))
          (List.cons.inj last).1
        have quotient := ih (n / 16) (by omega) front
        omega

/-- A character that is no hexadecimal digit is not among the digits of a number. -/
theorem notMem_toDigits_hex {c : Char} (other : ∀ a < 16, Nat.digitChar a ≠ c) (n : Nat) :
    c ∉ Nat.toDigits 16 n := by
  induction n using Nat.strongRecOn with
  | _ n ih =>
      rw [Nat.toDigits_eq_if (by decide)]
      split
      case isTrue small =>
        rw [List.mem_singleton]
        exact (other n small).symm
      case isFalse large =>
        rw [List.mem_append, not_or, List.mem_singleton]
        exact ⟨ih (n / 16) (by omega), (other _ (Nat.mod_lt n (by decide))).symm⟩

/-! ### Texts up to a mark

Two texts that go on differently may still be compared up to a character that does not occur
before. -/

/-- What stands before the first mark and what stands behind it are determined. -/
theorem append_mark_inj {α : Type} {mark : α} : ∀ {x y r s : List α}, mark ∉ x → mark ∉ y →
    x ++ mark :: r = y ++ mark :: s → x = y ∧ r = s
  | [], [], _, _, _, _, h => ⟨rfl, (List.cons.inj h).2⟩
  | [], _ :: _, _, _, _, hy, h =>
      absurd (List.cons.inj h).1 fun same => hy (same ▸ List.mem_cons_self)
  | _ :: _, [], _, _, hx, _, h =>
      absurd (List.cons.inj h).1 fun same => hx (same ▸ List.mem_cons_self)
  | c :: x, d :: y, _, _, hx, hy, h => by
      obtain ⟨rfl, tails⟩ := List.cons.inj h
      obtain ⟨rfl, rest⟩ := append_mark_inj (fun mem => hx (List.mem_cons_of_mem c mem))
        (fun mem => hy (List.mem_cons_of_mem c mem)) tails
      exact ⟨rfl, rest⟩

/-! ### Quoted texts

What is shown for a character tells where it ends, be it the character itself, an escape of two
characters or one that ends in a brace. So equal texts between quotes come from equal characters. -/

/-- A character that is shown by its code point is shown between braces. -/
theorem quoteChar_codePoint {c : Char} {rest : List Char}
    (shown : Text.quoteChar c = '\\' :: 'u' :: rest) :
    Text.quoteChar c = Text.codePointEscape c := by
  unfold Text.quoteChar at shown ⊢
  split at shown
  case h_7 backslash _ =>
    split at shown
    · exact absurd (List.cons.inj shown).1 backslash
    · rename_i hidden
      exact if_neg hidden
  all_goals simp at shown

/-- A letter behind a backslash stands for one character, and never for a code point. -/
theorem escapes_functional : ∀ e ∈ escapes, e.1 ≠ 'u' ∧ ∀ e' ∈ escapes, e.1 = e'.1 → e = e' := by
  decide

/-- An escape by code point determines its character and what follows it. -/
theorem codePointEscape_append_inj {c d : Char} {r s : List Char}
    (h : Text.codePointEscape c ++ r = Text.codePointEscape d ++ s) : c = d ∧ r = s := by
  simp only [Text.codePointEscape, List.append_assoc, List.cons_append, List.nil_append,
    List.cons.injEq, true_and] at h
  have brace := notMem_toDigits_hex (c := '\x7d') (by decide)
  obtain ⟨digits, rest⟩ := append_mark_inj (brace c.toNat) (brace d.toNat) h
  exact ⟨Char.toNat_inj.1 (toDigits_hex_inj digits), rest⟩

/-- The character that is shown first is determined, and so is what follows it. -/
theorem quoteChar_append_inj {c d : Char} {r s : List Char}
    (h : Text.quoteChar c ++ r = Text.quoteChar d ++ s) : c = d ∧ r = s := by
  rcases quoteChar_cases c with ⟨-, letter, known, shown⟩ | ⟨-, backslash, shown⟩ | ⟨tail, shown⟩
  · rcases quoteChar_cases d with ⟨-, letter', known', shown'⟩ | ⟨-, backslash', shown'⟩ |
      ⟨tail', shown'⟩ <;> rw [shown, shown'] at h
    · obtain ⟨same, rest⟩ := List.cons.inj (List.cons.inj h).2
      exact ⟨congrArg Prod.snd ((escapes_functional _ known).2 _ known' same), rest⟩
    · exact absurd (List.cons.inj h).1.symm backslash'
    · exact absurd (List.cons.inj (List.cons.inj h).2).1 (escapes_functional _ known).1
  · rcases quoteChar_cases d with ⟨-, letter', known', shown'⟩ | ⟨-, backslash', shown'⟩ |
      ⟨tail', shown'⟩ <;> rw [shown, shown'] at h
    · exact absurd (List.cons.inj h).1 backslash
    · exact List.cons.inj h
    · exact absurd (List.cons.inj h).1 backslash
  · rcases quoteChar_cases d with ⟨-, letter', known', shown'⟩ | ⟨-, backslash', shown'⟩ |
      ⟨tail', shown'⟩
    · rw [shown, shown'] at h
      exact absurd (List.cons.inj (List.cons.inj h).2).1.symm (escapes_functional _ known').1
    · rw [shown, shown'] at h
      exact absurd (List.cons.inj h).1.symm backslash'
    · rw [quoteChar_codePoint shown, quoteChar_codePoint shown'] at h
      exact codePointEscape_append_inj h

/-- No character is shown as nothing. -/
theorem quoteChar_ne_nil (c : Char) : Text.quoteChar c ≠ [] := by
  rcases quoteChar_cases c with ⟨-, letter, -, shown⟩ | ⟨-, -, shown⟩ | ⟨tail, shown⟩ <;>
    rw [shown] <;> nofun

/-- Characters are determined by what is shown for them between quotes. -/
theorem flatMap_quoteChar_inj : ∀ {cs ds : List Char},
    cs.flatMap Text.quoteChar = ds.flatMap Text.quoteChar → cs = ds
  | [], [], _ => rfl
  | [], d :: ds, h => absurd (List.append_eq_nil_iff.1 h.symm).1 (quoteChar_ne_nil d)
  | c :: cs, [], h => absurd (List.append_eq_nil_iff.1 h).1 (quoteChar_ne_nil c)
  | c :: cs, d :: ds, h => by
      obtain ⟨rfl, rest⟩ := quoteChar_append_inj h
      rw [flatMap_quoteChar_inj rest]

/-- A quoted text is determined by what is shown. -/
theorem quote_inj {s t : String} (h : Text.quote s = Text.quote t) : s = t := by
  have texts := String.ofList_inj.1 h
  have inner := (List.append_inj' (List.cons.inj texts).2 rfl).1
  exact String.toList_inj.1 (flatMap_quoteChar_inj inner)

/-! ### Constants

The type is read off how the text starts and off the point in a numeral. Doubles are shown with as
many digits as it takes to read them back, but all values of not-a-number look alike, which is why
alikeness is not equality. -/

theorem toList_text_int (n : Int64) :
    (Operand.value (.int n)).text.toList = (Numeral.ofInt n.toInt).text := String.toList_ofList

theorem text_float (x : Float) : (Operand.value (.float x)).text = floatText x := rfl

theorem toList_text_str (s : String) :
    (Operand.value (.str s)).text.toList = '"' :: (s.toList.flatMap Text.quoteChar ++ ['"']) :=
  String.toList_ofList

/-- A double is shown by a numeral that is no integer, or by a word. -/
theorem floatText_cases (x : Float) :
    (∃ n : Numeral, n.Spells (floatText x).toList ∧ n.isInteger = false) ∨
      floatText x ∈ ["NaN", "inf", "-inf"] := by
  by_cases finite : x.isFinite = true
  · refine Or.inl ⟨finiteNumeral x, ?_, isInteger_positional _ _⟩
    rw [floatText_of_finite finite, String.toList_ofList]
    exact spells_positional _ _
  · exact Or.inr (floatText_of_infinite finite)

/-- Values that a listing may show in the same way: equal ones, and doubles of the same text. -/
inductive Value.Alike : Value → Value → Prop where
  | refl (v : Value) : Alike v v
  | float {x y : Float} (h : floatText x = floatText y) : Alike (.float x) (.float y)

/-- The type of a constant that is shown by something else than a numeral. -/
def wordType (text : List Char) : String :=
  match text.head? with
  | some '"' => "string"
  | some 't' => "bool"
  | some 'f' => "bool"
  | some 'n' => "nil"
  | _ => "float"

/-- The type of the constant that is shown by a text. -/
def shownType (text : List Char) : String :=
  match Numeral.ofChars? text with
  | some n => if n.isInteger then "int" else "float"
  | none => wordType text

/-- A numeral starts with a sign or a digit. -/
theorem Numeral.Spells.first {n : Numeral} {text : List Char} (h : n.Spells text) :
    ∃ c ∈ text.head?, c = '+' ∨ c = '-' ∨ c.isDigit = true := by
  obtain ⟨nonempty, digit⟩ := isDigits_iff.1 h.whole
  obtain ⟨d, digits, whole⟩ := List.exists_cons_of_ne_nil nonempty
  obtain ⟨mark, -, rfl⟩ := h.written
  rw [writtenWith]
  rcases n.sign with _ | _ | _
  · rw [whole] at digit ⊢
    exact ⟨d, rfl, Or.inr (Or.inr (digit d List.mem_cons_self))⟩
  · exact ⟨'+', rfl, Or.inl rfl⟩
  · exact ⟨'-', rfl, Or.inr (Or.inl rfl)⟩

/-- A numeral is of an integer if it has no point. -/
theorem shownType_numeral {n : Numeral} {text : List Char} (h : n.Spells text) :
    shownType text = if n.isInteger then "int" else "float" := by
  rw [shownType, h.ofChars?]

theorem shownType_quote (text : List Char) : shownType ('"' :: text) = "string" := by
  cases read : Numeral.ofChars? ('"' :: text) with
  | none =>
      rw [shownType, read]
      rfl
  | some n =>
      obtain ⟨c, first, kind⟩ := (Numeral.spells_of_ofChars? read).first
      cases first
      simp at kind

/-- The text of a constant tells its type. -/
theorem shownType_text (v : Value) : shownType (Operand.value v).text.toList = v.typeName := by
  cases v with
  | int n =>
      rw [toList_text_int, shownType_numeral (Numeral.spells_ofInt n.toInt)]
      rfl
  | float x =>
      rw [text_float]
      rcases floatText_cases x with ⟨n, spelled, pointed⟩ | word
      · rw [shownType_numeral spelled, pointed]
        rfl
      · simp only [List.mem_cons, List.not_mem_nil, or_false] at word
        rcases word with word | word | word <;> rw [word] <;> rfl
  | str s =>
      rw [toList_text_str]
      exact shownType_quote _
  | bool b => cases b <;> rfl
  | nil => rfl

/-- Integers are determined by their text. -/
theorem int_of_text {n m : Int64} (h : (Value.int n).text = (Value.int m).text) : n = m := by
  have texts := String.ofList_inj.1 h
  have read := (Numeral.spells_ofInt n.toInt).ofChars?
  rw [texts, (Numeral.spells_ofInt m.toInt).ofChars?, Option.some.injEq] at read
  have same := congrArg Numeral.toInt read
  rw [Numeral.toInt_ofInt, Numeral.toInt_ofInt] at same
  exact Int64.toInt_inj.1 same.symm

/-- Constants that are shown in the same way are equal, or doubles. -/
theorem Value.alike_of_text {v w : Value} (h : (Operand.value v).text = (Operand.value w).text) :
    v.Alike w := by
  have types : v.typeName = w.typeName := by rw [← shownType_text, ← shownType_text, h]
  cases v with
  | int n =>
      cases w with
      | int m =>
          rw [int_of_text h]
          exact .refl _
      | float | str | bool | nil => simp [typeName] at types
  | float x =>
      cases w with
      | float y => exact .float h
      | int | str | bool | nil => simp [typeName] at types
  | str s =>
      cases w with
      | str t =>
          rw [quote_inj h]
          exact .refl _
      | int | float | bool | nil => simp [typeName] at types
  | bool b =>
      cases w with
      | bool c =>
          cases b <;> cases c <;> first | exact .refl _ | exact absurd h (by decide)
      | int | float | str | nil => simp [typeName] at types
  | nil =>
      cases w with
      | nil => exact .refl _
      | int | float | str | bool => simp [typeName] at types

/-! ### Line breaks

Line breaks in texts are escaped, and no other constant has any. -/

/-- A character is shown without a line break. -/
theorem break_notMem_quoteChar (c : Char) : '\n' ∉ Text.quoteChar c := by
  unfold Text.quoteChar
  split
  case h_7 other _ _ =>
    split
    · rw [List.mem_singleton]
      exact Ne.symm other
    · simp [Text.codePointEscape, notMem_toDigits_hex (c := '\n') (by decide) c.toNat]
  all_goals decide

/-- A numeral is written without line breaks. -/
theorem Numeral.Spells.break_notMem {n : Numeral} {text : List Char} (h : n.Spells text) :
    '\n' ∉ text := by
  intro mem
  have blank := h.isBlank _ mem
  revert blank
  decide

/-- A constant is shown without a line break. -/
theorem break_notMem_value (v : Value) : '\n' ∉ (Operand.value v).text.toList := by
  cases v with
  | int n =>
      rw [toList_text_int]
      exact (Numeral.spells_ofInt n.toInt).break_notMem
  | float x =>
      rw [text_float]
      rcases floatText_cases x with ⟨n, spelled, -⟩ | word
      · exact spelled.break_notMem
      · simp only [List.mem_cons, List.not_mem_nil, or_false] at word
        rcases word with word | word | word <;> rw [word] <;> decide
  | str s =>
      have inner : '\n' ∉ s.toList.flatMap Text.quoteChar := by
        rw [List.mem_flatMap]
        rintro ⟨c, -, mem⟩
        exact break_notMem_quoteChar c mem
      rw [toList_text_str]
      simp [inner]
  | bool b => cases b <;> decide
  | nil => decide

end ImpStack
