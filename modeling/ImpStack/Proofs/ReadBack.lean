/-
Module: ImpStack.Proofs.ReadBack
Purpose: The constants of a listing are literals: reading the text of one gives the value that was
  printed, of the same type, with every bit of a double and every character of a text. A constant
  that has no literal is refused when its text is read, never taken for another value.
Main exports: Text.ShownPlainly, Value.HasLiteral, readLiteral_operandText,
  readLiteral_operandText_refused
-/
import ImpStack.Instruction
import ImpStack.Proofs.LiteralForm
import ImpStack.Proofs.PrintedDoubles

namespace ImpStack

open Float.Model (UnpackedFloat)

/-! ### Quoted texts

A printed character is the character, a short escape or its code point. The reader knows the first
two; the third is its fault, since it has no escape for code points. -/

/-- The escapes that a listing shows with one letter. -/
def shortEscapes : List (List Char) :=
  [['\\', '0'], ['\\', 't'], ['\\', 'r'], ['\\', 'n'], ['\\', '\\'], ['\\', '"']]

/-- A character that stands for itself between quotes or has a short escape there. -/
def Text.ShownPlainly (c : Char) : Prop := quoteChar c = [c] ∨ quoteChar c ∈ shortEscapes

instance (c : Char) : Decidable (Text.ShownPlainly c) := inferInstanceAs (Decidable (_ ∨ _))

section

variable {c : Char} {text content : List Char} {unterminated : LiteralError}

/-- Between quotes a character is escaped by a letter that means it, stands for itself, or is shown
    by its code point. -/
theorem quoteChar_cases (c : Char) :
    (Text.quoteChar c ∈ shortEscapes ∧
        ∃ letter, (letter, c) ∈ escapes ∧ Text.quoteChar c = ['\\', letter]) ∨
      (c ≠ '"' ∧ c ≠ '\\' ∧ Text.quoteChar c = [c]) ∨
      ∃ rest, Text.quoteChar c = '\\' :: 'u' :: rest := by
  unfold Text.quoteChar
  split
  case h_7 backslash quote =>
    refine Or.inr ?_
    split
    · exact Or.inl ⟨quote, backslash, rfl⟩
    · exact Or.inr ⟨_, rfl⟩
  all_goals exact Or.inl ⟨by decide, _, by decide, rfl⟩

/-- A character that is shown plainly is read back from what is shown. -/
theorem Unescapes.quoteChar (plain : Text.ShownPlainly c) (rest : Unescapes text content) :
    Unescapes (Text.quoteChar c ++ text) (c :: content) := by
  rcases quoteChar_cases c with ⟨-, letter, known, shown⟩ | ⟨quote, backslash, shown⟩ |
    ⟨tail, shown⟩
  · rw [shown]
    exact .escape known rest
  · rw [shown]
    exact .plain quote backslash rest
  · rw [Text.ShownPlainly, shown] at plain
    simp [shortEscapes] at plain

/-- A character that is shown by its code point is refused. -/
theorem QuoteFault.quoteChar (hidden : ¬ Text.ShownPlainly c) (text : List Char) :
    QuoteFault unterminated (Text.quoteChar c ++ text) (.invalidEscape 'u') := by
  rcases quoteChar_cases c with ⟨short, -⟩ | ⟨-, -, shown⟩ | ⟨tail, shown⟩
  · exact absurd (Or.inr short) hidden
  · exact absurd (Or.inl shown) hidden
  · rw [shown]
    exact .escape (tail ++ text) fun meant known => by simp [escapes] at known

/-- A text whose characters are all shown plainly is printed as what means it. -/
theorem unescapes_flatMap (plain : ∀ c ∈ content, Text.ShownPlainly c) :
    Unescapes (content.flatMap Text.quoteChar) content := by
  induction content with
  | nil => exact .nil
  | cons c content ih =>
      obtain ⟨first, others⟩ := List.forall_mem_cons.1 plain
      rw [List.flatMap_cons]
      exact .quoteChar first (ih others)

/-- The first character that is not shown plainly is the leftmost fault. -/
theorem firstFault_flatMap (hidden : ¬ ∀ c ∈ content, Text.ShownPlainly c) :
    FirstFault unterminated (content.flatMap Text.quoteChar) (.invalidEscape 'u') := by
  induction content with
  | nil => exact absurd nofun hidden
  | cons c content ih =>
      rw [List.forall_mem_cons, not_and] at hidden
      rw [List.flatMap_cons]
      by_cases plain : Text.ShownPlainly c
      · exact (ih (hidden plain)).behind _ [c] fun rest => rest.quoteChar plain
      · exact (QuoteFault.quoteChar plain _).first

end

/-! ### Constants

The reader trims blanks, so it is used that printed constants have none around them. Each type is
then told by how its text starts. -/

/-- The values that have a literal: all but nil, infinite doubles and not-a-number, and texts with
    a character that is shown by its code point. -/
def Value.HasLiteral : Value → Prop
  | .int _ => True
  | .float x => x.isFinite = true
  | .str s => ∀ c ∈ s.toList, Text.ShownPlainly c
  | .bool _ => True
  | .nil => False

instance : (v : Value) → Decidable v.HasLiteral
  | .int _ => inferInstanceAs (Decidable True)
  | .float x => inferInstanceAs (Decidable (x.isFinite = true))
  | .str s => List.decidableBAll Text.ShownPlainly s.toList
  | .bool _ => inferInstanceAs (Decidable True)
  | .nil => inferInstanceAs (Decidable False)

/-- A finite double is printed as its numeral. -/
theorem floatText_of_finite {x : Float} (finite : x.isFinite = true) :
    floatText x = String.ofList (finiteNumeral x).text := by
  have kind : ∀ u : UnpackedFloat, u.isFinite = true → u.isNaN = false ∧ u.isInf = false := by
    rintro (_ | _ | _ | _) ⟨⟩ <;> exact ⟨rfl, rfl⟩
  obtain ⟨number, bounded⟩ : x.isNaN = false ∧ x.isInf = false := kind x.toModel.unpack finite
  simp only [floatText, number, bounded, Bool.false_eq_true, if_false]

/-- Any other double is printed as a word. -/
theorem floatText_of_infinite {x : Float} (infinite : ¬ x.isFinite = true) :
    floatText x ∈ ["NaN", "inf", "-inf"] := by
  have same := pack_unpack x
  cases unpacked : x.toModel.unpack with
  | notANumber =>
      rw [unpacked] at same
      subst same
      decide +kernel
  | infinity sign =>
      rw [unpacked] at same
      subst same
      cases sign <;> decide +kernel
  | zero sign => exact absurd (congrArg UnpackedFloat.isFinite unpacked) infinite
  | finite sign m e pos => exact absurd (congrArg UnpackedFloat.isFinite unpacked) infinite

theorem trim_ofList {text : List Char} (trimmed : Text.trim text = text) :
    Text.trim (String.ofList text).toList = text := by
  rw [String.toList_ofList, trimmed]

/-- Quotes are not blank, so what is printed between them is kept. -/
theorem trim_quote (s : String) : Text.trim (Text.quote s).toList =
    '"' :: (s.toList.flatMap Text.quoteChar ++ ['"']) := by
  refine trim_ofList (trim_eq_self ?_ ?_)
  · rintro _ ⟨⟩
    decide
  · rw [List.cons_append, ← List.cons_append, List.getLast?_concat]
    rintro _ ⟨⟩
    decide

/-- Reading the text of a constant gives the constant. -/
theorem readLiteral_operandText {v : Value} (literal : v.HasLiteral) :
    readLiteral (Operand.value v).text = .ok v := by
  cases v with
  | int n =>
      have spelled := Numeral.spells_ofInt n.toInt
      exact (ReadsAs.integer spelled rfl (Numeral.toInt_ofInt n.toInt)).read
        (trim_ofList spelled.trim)
  | float x =>
      have spelled : (finiteNumeral x).Spells (finiteNumeral x).text := spells_positional _ _
      have read := (ReadsAs.double spelled (isInteger_positional _ _)).read
        (trim_ofList spelled.trim)
      rw [toFloat_finiteNumeral literal, ← floatText_of_finite literal] at read
      exact read
  | str s =>
      have read := (ReadsAs.quoted (unescapes_flatMap literal)).read (trim_quote s)
      rwa [String.ofList_toList] at read
  | bool t => cases t <;> rfl
  | nil => exact literal.elim

/-- The least integer, the negative zero, a great double and a text of escapes are read back. -/
theorem readLiteral_operandText_edges :
    readLiteral (Operand.value (.int Int64.minValue)).text = .ok (.int Int64.minValue) ∧
      readLiteral (Operand.value (.float (-0.0))).text = .ok (.float (-0.0)) ∧
      readLiteral (Operand.value (.float 1e300)).text = .ok (.float 1e300) ∧
      readLiteral (Operand.value (.str "\\\"")).text = .ok (.str "\\\"") :=
  ⟨readLiteral_operandText (by decide), readLiteral_operandText (by decide +kernel),
    readLiteral_operandText (by decide +kernel), readLiteral_operandText (by decide +kernel)⟩

/-- A constant that has no literal is refused when its text is read. -/
theorem readLiteral_operandText_refused {v : Value} (literal : ¬ v.HasLiteral) :
    ∃ e, readLiteral (Operand.value v).text = .error e := by
  cases v with
  | int n => exact absurd trivial literal
  | float x =>
      have shown := floatText_of_infinite literal
      simp only [List.mem_cons, List.not_mem_nil, or_false] at shown
      show ∃ e, readLiteral (floatText x) = .error e
      rcases shown with shown | shown | shown <;> rw [shown]
      · exact ⟨.unrecognized "NaN", rfl⟩
      · exact ⟨.unrecognized "inf", rfl⟩
      · exact ⟨.invalidNumber "-inf", rfl⟩
  | str s => exact ⟨_, (ReadsAs.faulty (firstFault_flatMap literal)).read (trim_quote s)⟩
  | bool t => exact absurd trivial literal
  | nil => exact ⟨.unrecognized "nil", rfl⟩

end ImpStack
