/-
Module: ImpStack.Proofs.LiteralForm
Purpose: The grammar of literals, as rules that do not mention how a text is read, and for a text
  that the grammar does not have, the error that says what is wrong with it. Reading a literal
  answers exactly what the rules say.
Main exports: escapes, Unescapes, FirstFault, StartsNumeral, ReadsAs, readLiteral_iff
-/
import ImpStack.Literal
import ImpStack.Proofs.NumeralForm

namespace ImpStack

/-! ### Between quotes

A text between quotes is read from the left, character by character or by an escape at a time. So it
either means something, or it has a leftmost fault; these exclude each other and there is no third
way. -/

/-- The characters that a backslash escapes, each with the character that is meant. -/
def escapes : List (Char × Char) :=
  [('n', '\n'), ('t', '\t'), ('r', '\r'), ('0', '\x00'), ('\\', '\\'), ('"', '"'), ('\'', '\'')]

theorem escapedChar?_eq_some_iff {c meant : Char} :
    escapedChar? c = some meant ↔ (c, meant) ∈ escapes := by
  unfold escapedChar?
  split <;> simp_all [escapes, eq_comm]

/-- A text between quotes, and the text that is meant: an escape stands for a character, and any
    character but the quote and the backslash stands for itself. -/
inductive Unescapes : List Char → List Char → Prop where
  | nil : Unescapes [] []
  | plain {c : Char} {text content : List Char} (quote : c ≠ '"') (backslash : c ≠ '\\')
      (rest : Unescapes text content) : Unescapes (c :: text) (c :: content)
  | escape {c meant : Char} {text content : List Char} (known : (c, meant) ∈ escapes)
      (rest : Unescapes text content) : Unescapes ('\\' :: c :: text) (meant :: content)

/-- A fault at the front of a text between quotes, and its error: a quote, a backslash that escapes
    nothing, or one that escapes a character that has no escape. -/
inductive QuoteFault (unterminated : LiteralError) : List Char → LiteralError → Prop where
  | quote (rest : List Char) : QuoteFault unterminated ('"' :: rest) unterminated
  | backslash : QuoteFault unterminated ['\\'] unterminated
  | escape {c : Char} (rest : List Char) (unknown : ∀ meant, (c, meant) ∉ escapes) :
      QuoteFault unterminated ('\\' :: c :: rest) (.invalidEscape c)

/-- The leftmost fault of a text between quotes. -/
def FirstFault (unterminated : LiteralError) (text : List Char) (e : LiteralError) : Prop :=
  ∃ before content rest, text = before ++ rest ∧ Unescapes before content ∧
    QuoteFault unterminated rest e

section

variable {unterminated e : LiteralError} {text content : List Char}

theorem unescape_plain {c : Char} (quote : c ≠ '"') (backslash : c ≠ '\\') :
    unescape unterminated (c :: text) = (c :: ·) <$> unescape unterminated text := by
  rw [unescape]
  · exact quote
  · exact fun h => absurd h backslash
  · exact fun _ _ h => absurd h backslash

theorem unescape_known {c meant : Char} (known : (c, meant) ∈ escapes) :
    unescape unterminated ('\\' :: c :: text) = (meant :: ·) <$> unescape unterminated text := by
  rw [unescape, escapedChar?_eq_some_iff.2 known]

/-- A fault at the front is reported. -/
theorem unescape_fault (fault : QuoteFault unterminated text e) :
    unescape unterminated text = .error e := by
  cases fault with
  | quote rest => rw [unescape]
  | backslash => rw [unescape]
  | escape rest unknown =>
      have none := Option.eq_none_iff_forall_ne_some.2 fun meant known =>
        unknown meant (escapedChar?_eq_some_iff.1 known)
      rw [unescape, none]

/-- What stands before a text between quotes comes out before its content. -/
theorem Unescapes.append {before meant : List Char} (h : Unescapes before meant) :
    unescape unterminated (before ++ text) = (meant ++ ·) <$> unescape unterminated text := by
  induction h with
  | nil => exact (id_map _).symm
  | plain quote backslash _ ih =>
      rw [List.cons_append, unescape_plain quote backslash, ih, Functor.map_map]
      rfl
  | escape known _ ih =>
      rw [List.cons_append, List.cons_append, unescape_known known, ih, Functor.map_map]
      rfl

/-- A text without a fault is read as what it means. -/
theorem Unescapes.read (h : Unescapes text content) :
    unescape unterminated text = .ok content := by
  have whole : unescape unterminated (text ++ []) = (content ++ ·) <$> unescape unterminated [] :=
    h.append
  rw [List.append_nil, unescape] at whole
  rw [whole]
  exact congrArg Except.ok (List.append_nil content)

/-- The leftmost fault is the one that is reported. -/
theorem FirstFault.read (h : FirstFault unterminated text e) :
    unescape unterminated text = .error e := by
  obtain ⟨before, content, rest, rfl, unescapes, fault⟩ := h
  rw [unescapes.append, unescape_fault fault]
  rfl

theorem QuoteFault.first (h : QuoteFault unterminated text e) : FirstFault unterminated text e :=
  ⟨[], [], text, rfl, .nil, h⟩

/-- Something readable in front of a text leaves its leftmost fault the leftmost. -/
theorem FirstFault.behind (front meant : List Char)
    (unescapes : ∀ {text content : List Char}, Unescapes text content →
      Unescapes (front ++ text) (meant ++ content))
    (h : FirstFault unterminated text e) : FirstFault unterminated (front ++ text) e := by
  obtain ⟨before, content, rest, rfl, faultless, fault⟩ := h
  exact ⟨front ++ before, meant ++ content, rest, (List.append_assoc ..).symm,
    unescapes faultless, fault⟩

/-- A text between quotes means some text or has a leftmost fault. -/
theorem unescapes_or_fault (unterminated : LiteralError) : ∀ text : List Char,
    (∃ content, Unescapes text content) ∨ ∃ e, FirstFault unterminated text e
  | [] => Or.inl ⟨[], .nil⟩
  | c :: text => by
      have unescapes_behind (front meant : List Char) {rest : List Char}
          (step : ∀ {text content : List Char}, Unescapes text content →
            Unescapes (front ++ text) (meant ++ content))
          (h : (∃ content, Unescapes rest content) ∨ ∃ e, FirstFault unterminated rest e) :
          (∃ content, Unescapes (front ++ rest) content) ∨
            ∃ e, FirstFault unterminated (front ++ rest) e :=
        h.imp (fun ⟨_, unescapes⟩ => ⟨_, step unescapes⟩)
          fun ⟨e, first⟩ => ⟨e, first.behind front meant step⟩
      by_cases quote : c = '"'
      · subst quote
        exact Or.inr ⟨_, (QuoteFault.quote text).first⟩
      by_cases backslash : c = '\\'
      · subst backslash
        match text with
        | [] => exact Or.inr ⟨_, QuoteFault.backslash.first⟩
        | d :: text =>
            by_cases known : ∃ meant, (d, meant) ∈ escapes
            · obtain ⟨meant, known⟩ := known
              exact unescapes_behind ['\\', d] [meant] (.escape known)
                (unescapes_or_fault unterminated text)
            · exact Or.inr ⟨_, (QuoteFault.escape text fun meant h => known ⟨meant, h⟩).first⟩
      · exact unescapes_behind [c] [c] (.plain quote backslash)
          (unescapes_or_fault unterminated text)

end

/-! ### Numerals

What a numeral starts with decides that the text is to be read as a number. -/

/-- Whether a text starts as a numeral does: with a digit or with a sign. -/
def StartsNumeral (text : List Char) : Prop :=
  ∃ c ∈ text.head?, c.isDigit = true ∨ c = '+' ∨ c = '-'

theorem Numeral.Spells.starts {n : Numeral} {text : List Char} (h : n.Spells text) :
    StartsNumeral text := by
  obtain ⟨mark, _, rfl⟩ := h.written
  match sign : n.sign with
  | some .plus => exact ⟨'+', by rw [writtenWith, sign]; rfl, Or.inr (Or.inl rfl)⟩
  | some .minus => exact ⟨'-', by rw [writtenWith, sign]; rfl, Or.inr (Or.inr rfl)⟩
  | none =>
      obtain ⟨nonempty, digit⟩ := isDigits_iff.1 h.whole
      obtain ⟨d, digits, whole⟩ := List.exists_cons_of_ne_nil nonempty
      rw [whole] at digit
      exact ⟨d, by rw [writtenWith, sign, whole]; rfl, Or.inl (digit d List.mem_cons_self)⟩

/-! ### Literals

One rule for each kind of literal and for each error. The rules are about the text without the
blanks around it and speak of what the text is, not of how a reader goes through it. -/

/-- The words for truth values. -/
def truthWords : List (String × Bool) :=
  [("true", true), ("True", true), ("false", false), ("False", false)]

/-- What a text without blanks around it reads as: a value if it is a literal, else the error that
    says what is wrong with it. -/
inductive ReadsAs : List Char → Except LiteralError Value → Prop where
  | empty : ReadsAs [] (.error .empty)
  /-- A numeral without point and exponent denotes an integer, which must have 64 bits. -/
  | integer {text : List Char} {n : Numeral} {k : Int64} (spelled : n.Spells text)
      (whole : n.isInteger = true) (denotes : n.toInt = k.toInt) : ReadsAs text (.ok (.int k))
  /-- Any other numeral denotes the double nearest to its number. -/
  | double {text : List Char} {n : Numeral} (spelled : n.Spells text)
      (pointed : n.isInteger = false) : ReadsAs text (.ok (.float n.toFloat))
  /-- What starts as a numeral is none, or denotes an integer of more than 64 bits. -/
  | invalidNumber {text : List Char} (starts : StartsNumeral text)
      (other : ∀ n : Numeral, n.Spells text → n.isInteger = true ∧ ∀ k : Int64, n.toInt ≠ k.toInt) :
      ReadsAs text (.error (.invalidNumber (String.ofList text)))
  | truth {word : String} {t : Bool} (known : (word, t) ∈ truthWords) :
      ReadsAs word.toList (.ok (.bool t))
  /-- What stands between the quotes at both ends means a text. -/
  | quoted {text content : List Char} (unescapes : Unescapes text content) :
      ReadsAs ('"' :: (text ++ ['"'])) (.ok (.str (String.ofList content)))
  /-- There is no quote at the end but perhaps the one at the front. -/
  | unclosed {text : List Char} (missing : ∀ content, text ≠ content ++ ['"']) :
      ReadsAs ('"' :: text) (.error (.unterminatedString (String.ofList ('"' :: text))))
  /-- What stands between the quotes at both ends has a fault, and the leftmost one decides. -/
  | faulty {text : List Char} {e : LiteralError}
      (first : FirstFault (.unterminatedString (String.ofList ('"' :: (text ++ ['"'])))) text e) :
      ReadsAs ('"' :: (text ++ ['"'])) (.error e)
  | unrecognized {text : List Char} (nonempty : text ≠ []) (quote : '"' ∉ text.head?)
      (numeral : ¬ StartsNumeral text) (word : ∀ known ∈ truthWords, text ≠ known.1.toList) :
      ReadsAs text (.error (.unrecognized (String.ofList text)))

/-! ### Reading

Each rule is what the reader does, and some rule applies to every text. As the reader has one
answer, the rules have at most one, and both agree. -/

section

variable {source : String} {text : List Char}

/-- Only an integer numeral of more than 64 bits has no value. -/
theorem Numeral.value?_eq_none_iff {n : Numeral} :
    n.value? = none ↔ n.isInteger = true ∧ ∀ k : Int64, n.toInt ≠ k.toInt := by
  have exact : exactInt64? n.toInt = none ↔ ∀ k : Int64, n.toInt ≠ k.toInt := by
    rw [Option.eq_none_iff_forall_ne_some]
    exact forall_congr' fun k => not_congr (exactInt64?_eq_some_iff.trans eq_comm)
  rw [value?]
  cases n.isInteger <;> simp [exact]

/-- The value of a text that is written as a numeral. -/
theorem readNumeral_of_value {n : Numeral} {v : Value} (spelled : n.Spells text)
    (value : n.value? = some v) : readNumeral text = .ok v := by
  rw [readNumeral, Numeral.ofChars?_eq_some_iff.2 spelled, Option.bind_some, value]

/-- If no numeral with a value is spelled, the number is invalid. -/
theorem readNumeral_invalid (other : ∀ n : Numeral, n.Spells text → n.value? = none) :
    readNumeral text = .error (.invalidNumber (String.ofList text)) := by
  have none : (Numeral.ofChars? text).bind Numeral.value? = none := by
    cases parts : Numeral.ofChars? text with
    | none => rfl
    | some n => exact other n (Numeral.ofChars?_eq_some_iff.1 parts)
  rw [readNumeral, none]

/-- What starts like a numeral is read as one. -/
theorem readLiteral_of_numeral (trimmed : Text.trim source.toList = text)
    (starts : StartsNumeral text) : readLiteral source = readNumeral text := by
  obtain ⟨c, head, sort⟩ := starts
  obtain ⟨rest, rfl⟩ := List.head?_eq_some_iff.1 head
  have quote : c ≠ '"' := by
    rintro rfl
    revert sort
    decide
  have first : (c.isDigit || c == '+' || c == '-') = true := by simpa [or_assoc] using sort
  rw [readLiteral, trimmed]
  simp only [first, if_true]

theorem readLiteral_of_quote (trimmed : Text.trim source.toList = '"' :: text) :
    readLiteral source = readQuoted (String.ofList ('"' :: text)) text := by
  rw [readLiteral, trimmed]
  rfl

/-- What stands between two quotes is unescaped. -/
theorem readLiteral_of_quotes (trimmed : Text.trim source.toList = '"' :: (text ++ ['"'])) :
    readLiteral source = (fun content => .str (String.ofList content)) <$>
      unescape (.unterminatedString (String.ofList ('"' :: (text ++ ['"'])))) text := by
  rw [readLiteral_of_quote trimmed, readQuoted, List.getLast?_concat, if_pos rfl,
    List.dropLast_concat]

end

/-- Reading a literal answers what the rules say. -/
theorem ReadsAs.read {source : String} {text : List Char} {answer : Except LiteralError Value}
    (h : ReadsAs text answer) (trimmed : Text.trim source.toList = text) :
    readLiteral source = answer := by
  cases h with
  | empty => rw [readLiteral, trimmed]
  | integer spelled whole denotes =>
      rw [readLiteral_of_numeral trimmed spelled.starts]
      apply readNumeral_of_value spelled
      rw [Numeral.value?, if_pos whole, exactInt64?_eq_some_iff.2 denotes.symm]
      rfl
  | double spelled pointed =>
      rw [readLiteral_of_numeral trimmed spelled.starts]
      apply readNumeral_of_value spelled
      rw [Numeral.value?, pointed]
      rfl
  | invalidNumber starts other =>
      rw [readLiteral_of_numeral trimmed starts]
      exact readNumeral_invalid fun n spelled => Numeral.value?_eq_none_iff.2 (other n spelled)
  | truth known =>
      rw [readLiteral, trimmed]
      simp only [truthWords, List.mem_cons, Prod.mk.injEq, List.not_mem_nil, or_false] at known
      rcases known with ⟨rfl, rfl⟩ | ⟨rfl, rfl⟩ | ⟨rfl, rfl⟩ | ⟨rfl, rfl⟩ <;> rfl
  | quoted unescapes => rw [readLiteral_of_quotes trimmed, unescapes.read]; rfl
  | unclosed missing =>
      rw [readLiteral_of_quote trimmed, readQuoted, if_neg]
      intro closed
      obtain ⟨content, last⟩ := List.getLast?_eq_some_iff.1 closed
      exact missing content last
  | faulty first => rw [readLiteral_of_quotes trimmed, first.read]; rfl
  | unrecognized nonempty quote numeral word =>
      obtain ⟨c, rest, rfl⟩ := List.exists_cons_of_ne_nil nonempty
      have quote : c ≠ '"' := fun same => quote (congrArg some same)
      have first : (c.isDigit || c == '+' || c == '-') = false := by
        rw [Bool.eq_false_iff]
        intro sort
        exact numeral ⟨c, rfl, by simpa [or_assoc] using sort⟩
      have other (s : String) (t : Bool) (known : (s, t) ∈ truthWords) :
          String.ofList (c :: rest) ≠ s := by
        rintro rfl
        exact word _ known String.toList_ofList.symm
      rw [readLiteral, trimmed]
      simp only [first, Bool.false_eq_true, if_false]
      split
      case h_1 same => exact absurd same (other "true" true (by decide))
      case h_2 same => exact absurd same (other "True" true (by decide))
      case h_3 same => exact absurd same (other "false" false (by decide))
      case h_4 same => exact absurd same (other "False" false (by decide))
      case h_5 => rfl

/-- The rules say something about every text. -/
theorem ReadsAs.total (text : List Char) : ∃ answer, ReadsAs text answer := by
  by_cases nonempty : text = []
  · subst nonempty
    exact ⟨_, .empty⟩
  by_cases numeral : StartsNumeral text
  · by_cases valued : ∃ n : Numeral, n.Spells text ∧ n.value? ≠ none
    · obtain ⟨n, spelled, value⟩ := valued
      rw [ne_eq, Numeral.value?_eq_none_iff, not_and] at value
      by_cases whole : n.isInteger = true
      · obtain ⟨k, denotes⟩ := Classical.not_forall_not.1 (value whole)
        exact ⟨_, .integer spelled whole denotes⟩
      · exact ⟨_, .double spelled (eq_false_of_ne_true whole)⟩
    · refine ⟨_, .invalidNumber numeral fun n spelled => Numeral.value?_eq_none_iff.1 ?_⟩
      exact Classical.byContradiction fun value => valued ⟨n, spelled, value⟩
  by_cases quote : '"' ∈ text.head?
  · obtain ⟨rest, rfl⟩ := List.head?_eq_some_iff.1 quote
    by_cases closed : ∃ content, rest = content ++ ['"']
    · obtain ⟨content, rfl⟩ := closed
      rcases unescapes_or_fault _ content with ⟨_, unescapes⟩ | ⟨e, first⟩
      · exact ⟨_, .quoted unescapes⟩
      · exact ⟨_, .faulty first⟩
    · exact ⟨_, .unclosed fun content same => closed ⟨content, same⟩⟩
  · by_cases word : ∃ known ∈ truthWords, text = known.1.toList
    · obtain ⟨⟨word, t⟩, known, rfl⟩ := word
      exact ⟨_, .truth known⟩
    · refine ⟨_, .unrecognized nonempty quote numeral fun known mem same => ?_⟩
      exact word ⟨known, mem, same⟩

/-- Reading a literal answers exactly what the rules say of the text between the blanks around
    it. -/
theorem readLiteral_iff (source : String) (answer : Except LiteralError Value) :
    readLiteral source = answer ↔ ReadsAs (Text.trim source.toList) answer := by
  constructor
  · rintro rfl
    obtain ⟨answer, rule⟩ := ReadsAs.total (Text.trim source.toList)
    rwa [rule.read rfl]
  · intro rule
    exact rule.read rfl

-- The last quote closes the text before the backslash in front of it is looked at.
example : readLiteral "\"\\\"" = .error (.unterminatedString "\"\\\"") := rfl

end ImpStack
