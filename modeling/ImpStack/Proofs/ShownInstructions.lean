/-
Module: ImpStack.Proofs.ShownInstructions
Purpose: What a listing shows of an instruction determines it. The opcode ends at the first space,
  an address at the first character that is no digit, a name at the next space; so an instruction
  whose operands suit its opcode and whose names are identifiers is told apart from any other one.
Main exports: Operand.Alike, Instruction.Alike, Instruction.Listable, alike_of_instructionText,
  break_notMem_instructionText
-/
import ImpStack.Bytecode.Listing
import ImpStack.Proofs.ShownConstants
import ImpStack.Proofs.SourceNames
import ImpStack.Proofs.Step

namespace ImpStack

/-! ### Texts of a class of characters

A text of some class of characters ends where a character of another class stands, so it can be told
from what follows. -/

/-- A text of a class of characters is determined if none of the class comes next. -/
theorem span_inj {p : Char → Bool} {x y r s : List Char} (hx : ∀ c ∈ x, p c = true)
    (hy : ∀ c ∈ y, p c = true) (hr : ∀ c ∈ r.head?, p c = false) (hs : ∀ c ∈ s.head?, p c = false)
    (h : x ++ r = y ++ s) : x = y ∧ r = s := by
  have stop {r : List Char} (hr : ∀ c ∈ r.head?, p c = false) : r.takeWhile p = [] := by
    cases r with
    | nil => rfl
    | cons c r => exact List.takeWhile_cons_of_neg (Bool.eq_false_iff.1 (hr c rfl))
  have front := congrArg (List.takeWhile p) h
  rw [List.takeWhile_append_of_pos hx, List.takeWhile_append_of_pos hy, stop hr, stop hs,
    List.append_nil, List.append_nil] at front
  subst front
  exact ⟨rfl, List.append_cancel_left h⟩

theorem toList_pushn (s : String) (c : Char) (count : Nat) :
    (s.pushn c count).toList = s.toList ++ List.replicate count c := by
  rw [String.pushn_eq_repeat_push]
  induction count with
  | zero => simp [Nat.repeat]
  | succ count ih => simp [Nat.repeat, ih, List.replicate_succ']

/-! ### Addresses and counts

Both are shown in decimal, addresses with zeros in front up to a fixed width. The zeros do not
change the number that the digits denote. -/

theorem toList_toString (n : Nat) : (toString n).toList = Nat.toDigits 10 n := by
  rw [Nat.toString_eq_ofList_toDigits, String.toList_ofList]

/-- An address is its digits behind zeros. -/
theorem toList_addressText (a : Nat) : ∃ count,
    (Text.addressText a).toList = Decimal.zeros count ++ Nat.toDigits 10 a := by
  refine ⟨4 - (toString a).length, ?_⟩
  rw [Text.addressText, String.toList_append, toList_pushn, toList_toString]
  rfl

theorem isDigits_addressText (a : Nat) : isDigits (Text.addressText a).toList = true := by
  obtain ⟨nonempty, digit⟩ := isDigits_iff.1 (isDigits_toDigits a)
  obtain ⟨count, text⟩ := toList_addressText a
  rw [text, isDigits_iff]
  refine ⟨List.append_ne_nil_of_right_ne_nil _ nonempty, List.forall_mem_append.2 ⟨?_, digit⟩⟩
  intro c mem
  rw [List.eq_of_mem_replicate mem]
  rfl

theorem natOfDigits_addressText (a : Nat) :
    Decimal.natOfDigits (Text.addressText a).toList = a := by
  obtain ⟨count, text⟩ := toList_addressText a
  rw [text, natOfDigits_zeros_append, natOfDigits_toDigits]

/-- An address is determined if no digit comes next. -/
theorem addressText_append_inj {a a' : Nat} {r s : List Char}
    (hr : ∀ c ∈ r.head?, c.isDigit = false) (hs : ∀ c ∈ s.head?, c.isDigit = false)
    (h : (Text.addressText a).toList ++ r = (Text.addressText a').toList ++ s) : a = a' := by
  obtain ⟨digits, -⟩ := span_inj (isDigits_iff.1 (isDigits_addressText a)).2
    (isDigits_iff.1 (isDigits_addressText a')).2 hr hs h
  rw [← natOfDigits_addressText a, digits, natOfDigits_addressText]

/-! ### Opcodes

An opcode's name has no space in it and is padded with spaces, so it ends at the first one. The
names are distinct. -/

theorem space_notMem_name (op : Opcode) : ' ' ∉ op.name.toList := by cases op <;> decide

theorem toList_column (op : Opcode) : ∃ spaces : List Char,
    (Bytecode.column op).toList = op.name.toList ++ ' ' :: spaces := by
  refine ⟨List.replicate (9 - op.name.length) ' ', ?_⟩
  rw [Bytecode.column, Text.padRight, String.toList_append, toList_pushn]
  cases op <;> rfl

/-- What operands an opcode takes, and whether it is a branch. -/
theorem Opcode.operandKinds_cases (op : Opcode) :
    op.operandKinds = [] ∨
      (∃ k, op.operandKinds = [k] ∧ (k = .value ∨ k = .name) ∧ op.isBranch = false) ∨
      op.operandKinds = [.address] ∧ op.isBranch = true ∨
      op = .func := by
  cases op <;> simp [operandKinds, isBranch]

/-! ### Instructions

Operands that suit their opcode are of known number and kinds. Instructions look alike in a listing
if they are equal up to doubles that share a text. -/

/-- Operands that a listing may show in the same way: equal ones, and alike values. -/
inductive Operand.Alike : Operand → Operand → Prop where
  | refl (o : Operand) : Alike o o
  | value {v w : Value} (h : v.Alike w) : Alike (.value v) (.value w)

/-- Instructions that a listing may show in the same way: equal ones, except that a double may be
    another one of the same text. -/
structure Instruction.Alike (i j : Instruction) : Prop where
  opcode : i.opcode = j.opcode
  operands : List.Forall₂ Operand.Alike i.operands j.operands

/-- Whether the operands of an instruction suit its opcode and its name is an identifier. -/
structure Instruction.Listable (i : Instruction) : Prop where
  kinds : i.operands.map Operand.kind = i.opcode.operandKinds
  name : ∀ s ∈ i.name?, isIdentifier s = true

theorem Operand.eq_address {operands : List Operand} (h : operands.map kind = [.address]) :
    ∃ a, operands = [address a] := by
  obtain ⟨o, rfl, kinds⟩ := List.map_eq_singleton_iff.1 h
  cases o <;> cases kinds
  exact ⟨_, rfl⟩

theorem Operand.eq_name_count {operands : List Operand} (h : operands.map kind = [.name, .count]) :
    ∃ s n, operands = [name s, count n] := by
  obtain ⟨o, rest, rfl, first, last⟩ := List.map_eq_cons_iff.1 h
  obtain ⟨o', rfl, second⟩ := List.map_eq_singleton_iff.1 last
  cases o <;> cases first
  cases o' <;> cases second
  exact ⟨_, _, rfl⟩

/-- Constants and names that are shown in the same way, if it is known which they are. -/
theorem Operand.alike_of_text {o o' : Operand} (same : o.kind = o'.kind)
    (kinds : o.kind = .value ∨ o.kind = .name) (h : o.text = o'.text) : o.Alike o' := by
  rcases kinds with constant | named
  · cases o <;> cases constant
    cases o' <;> cases same
    exact .value (Value.alike_of_text h)
  · cases o <;> cases named
    cases o' <;> cases same
    cases h
    exact .refl _

/-! ### Texts of instructions

There are four forms, by the operands that an opcode takes. A note behind a branch depends on the
table of functions, but it comes after the address, which is already determined by then. -/

namespace Bytecode

/-- What stands behind the address of a branch. -/
def branchNote (b : Bytecode) (address target : Nat) (op : Opcode) : String :=
  if op = .call then
    match b.functionAt? target with
    | some name => " ; " ++ name
    | none => ""
  else if target ≤ address then " ↑" else " ↓"

variable (b : Bytecode) (a : Nat)

/-- An instruction is shown by its opcode, alone or in its column. -/
theorem instructionText_cases (i : Instruction) :
    b.instructionText a i = i.opcode.name ∨
      ∃ s, b.instructionText a i = column i.opcode ++ s := by
  unfold instructionText
  split
  · split
    · exact Or.inr ⟨_, String.append_assoc ..⟩
    · exact Or.inr ⟨_, String.append_assoc ..⟩
  · split
    · exact Or.inl rfl
    · exact Or.inr ⟨_, rfl⟩

theorem instructionText_plain (op : Opcode) : b.instructionText a ⟨op, []⟩ = op.name := by
  have unbranched : (Instruction.mk op []).target? = none := ite_self _
  rw [instructionText, unbranched]
  exact if_pos rfl

/-- An operand that is no target is shown behind the column of the opcode. -/
theorem instructionText_operand {op : Opcode} (unbranched : op.isBranch = false) (o : Operand) :
    b.instructionText a ⟨op, [o]⟩ = column op ++ o.text := by
  simp [instructionText, Instruction.target?, unbranched]

theorem instructionText_func (s : String) (count : Nat) :
    b.instructionText a ⟨.func, [.name s, .count count]⟩ =
      column .func ++ (s ++ " " ++ toString count) := by
  simp [instructionText, Instruction.target?, Opcode.isBranch, Operand.text,
    String.intercalate_cons_cons]

/-- A target is shown with a note behind it. -/
theorem instructionText_branch {op : Opcode} (branch : op.isBranch = true) (target : Nat) :
    b.instructionText a ⟨op, [.address target]⟩ =
      column op ++ (Text.addressText target ++ b.branchNote a target op) := by
  have targets : (Instruction.mk op [.address target]).target? = some target := if_pos branch
  rw [instructionText, targets]
  dsimp only
  rw [branchNote, ← String.append_assoc]
  split <;> rfl

/-- What is noted behind an address starts with a space. -/
theorem first_branchNote (target : Nat) (op : Opcode) :
    ∀ c ∈ (b.branchNote a target op).toList.head?, c = ' ' := by
  unfold branchNote
  split
  · split
    · rw [String.toList_append]
      exact fun c first => (Option.some.inj first).symm
    · exact nofun
  · split <;> exact fun c first => (Option.some.inj first).symm

variable {b b' : Bytecode} {a : Nat} {i j : Instruction}

/-- The opcode of an instruction ends where its text has the first space. -/
theorem opcode_of_instructionText (h : b.instructionText a i = b'.instructionText a j) :
    i.opcode = j.opcode := by
  have shown (b : Bytecode) (i : Instruction) : ∃ tail, (∀ c ∈ tail.head?, (c != ' ') = false) ∧
      (b.instructionText a i).toList = i.opcode.name.toList ++ tail := by
    rcases b.instructionText_cases a i with alone | ⟨s, column⟩
    · exact ⟨[], nofun, by rw [alone, List.append_nil]⟩
    · obtain ⟨spaces, text⟩ := toList_column i.opcode
      refine ⟨' ' :: (spaces ++ s.toList), ?_, ?_⟩
      · rintro c ⟨⟩
        rfl
      · rw [column, String.toList_append, text, List.append_assoc, List.cons_append]
  have marked (op : Opcode) : ∀ c ∈ op.name.toList, (c != ' ') = true := by
    intro c mem
    rw [bne_iff_ne]
    rintro rfl
    exact space_notMem_name op mem
  obtain ⟨tail, first, text⟩ := shown b i
  obtain ⟨tail', first', text'⟩ := shown b' j
  have names : i.opcode.name.toList = j.opcode.name.toList :=
    (span_inj (marked _) (marked _) first first' (by rw [← text, ← text', h])).1
  exact Opcode.name_injective (String.toList_inj.1 names)

/-- The target of a branch ends where its note starts. -/
theorem target_of_text {op : Opcode} {target target' : Nat}
    (h : Text.addressText target ++ b.branchNote a target op =
      Text.addressText target' ++ b'.branchNote a target' op) : target = target' := by
  have texts := congrArg String.toList h
  rw [String.toList_append, String.toList_append] at texts
  have note (b : Bytecode) (t : Nat) : ∀ c ∈ (b.branchNote a t op).toList.head?,
      c.isDigit = false := by
    intro c first
    rw [b.first_branchNote a t op c first]
    rfl
  exact addressText_append_inj (note b target) (note b' target') texts

/-- The name of a host function ends where the first space is. -/
theorem name_count_of_text {s s' : String} {n n' : Nat} (hs : isIdentifier s = true)
    (hs' : isIdentifier s' = true) (h : s ++ " " ++ toString n = s' ++ " " ++ toString n') :
    s = s' ∧ n = n' := by
  have texts := congrArg String.toList h
  simp only [String.toList_append, List.append_assoc, toList_toString] at texts
  have unspaced {s : String} (identifier : isIdentifier s = true) : ' ' ∉ s.toList :=
    notMem_identifier identifier (by decide) (by decide)
  obtain ⟨names, counts⟩ := append_mark_inj (unspaced hs) (unspaced hs') texts
  have digits : Nat.toDigits 10 n = Nat.toDigits 10 n' := counts
  refine ⟨String.toList_inj.1 names, ?_⟩
  rw [← natOfDigits_toDigits n, digits, natOfDigits_toDigits]

/-- The text of an instruction at a known address determines it, except for doubles that share a
    text. -/
theorem alike_of_instructionText (hi : i.Listable) (hj : j.Listable)
    (h : b.instructionText a i = b'.instructionText a j) : i.Alike j := by
  have opcode := opcode_of_instructionText h
  obtain ⟨op, operands⟩ := i
  obtain ⟨op', operands'⟩ := j
  cases opcode
  refine ⟨rfl, ?_⟩
  have kinds : operands.map Operand.kind = op.operandKinds := hi.kinds
  have kinds' : operands'.map Operand.kind = op.operandKinds := hj.kinds
  -- under one opcode both instructions have operands of the same kinds, behind the same column
  rcases op.operandKinds_cases with none | ⟨k, single, choice, unbranched⟩ | ⟨address, branch⟩ | rfl
  · rw [none, List.map_eq_nil_iff] at kinds kinds'
    rw [kinds, kinds']
    exact .nil
  · obtain ⟨o, rfl, rfl⟩ := List.map_eq_singleton_iff.1 (kinds.trans single)
    obtain ⟨o', rfl, same⟩ := List.map_eq_singleton_iff.1 (kinds'.trans single)
    rw [instructionText_operand _ _ unbranched, instructionText_operand _ _ unbranched] at h
    exact .cons (Operand.alike_of_text same.symm choice ((String.append_right_inj _).1 h)) .nil
  · obtain ⟨target, rfl⟩ := Operand.eq_address (kinds.trans address)
    obtain ⟨target', rfl⟩ := Operand.eq_address (kinds'.trans address)
    rw [instructionText_branch _ _ branch, instructionText_branch _ _ branch] at h
    rw [target_of_text ((String.append_right_inj _).1 h)]
    exact .cons (.refl _) .nil
  · obtain ⟨s, n, rfl⟩ := Operand.eq_name_count kinds
    obtain ⟨s', n', rfl⟩ := Operand.eq_name_count kinds'
    rw [instructionText_func, instructionText_func] at h
    obtain ⟨rfl, rfl⟩ := name_count_of_text (hi.name s rfl) (hj.name s' rfl)
      ((String.append_right_inj _).1 h)
    exact .cons (.refl _) (.cons (.refl _) .nil)

/-! ### Line breaks

The text of an instruction is on one line, if names are identifiers. -/

/-- Whether the functions in the table have identifiers for names. -/
def NamesFunctions (b : Bytecode) : Prop := ∀ e ∈ b.functions.entries, isIdentifier e.1 = true

theorem NamesFunctions.functionAt (names : b.NamesFunctions) {name : String}
    (h : b.functionAt? a = some name) : isIdentifier name = true := by
  obtain ⟨e, found, rfl⟩ := Option.map_eq_some_iff.1 h
  exact names e (List.mem_of_find?_eq_some found)

theorem break_notMem_append {s t : String} (hs : '\n' ∉ s.toList) (ht : '\n' ∉ t.toList) :
    '\n' ∉ (s ++ t).toList := by
  rw [String.toList_append, List.mem_append, not_or]
  exact ⟨hs, ht⟩

theorem break_notMem_identifier {s : String} (h : isIdentifier s = true) : '\n' ∉ s.toList :=
  notMem_identifier h (by decide) (by decide)

theorem break_notMem_digits {text : List Char} (h : isDigits text = true) : '\n' ∉ text := by
  intro mem
  cases (isDigits_iff.1 h).2 _ mem

theorem break_notMem_text {o : Operand} (name : ∀ s ∈ o.name?, isIdentifier s = true) :
    '\n' ∉ o.text.toList := by
  cases o with
  | value v => exact break_notMem_value v
  | name s => exact break_notMem_identifier (name s rfl)
  | address target => exact break_notMem_digits (isDigits_addressText target)
  | count n =>
      rw [Operand.text, toList_toString]
      exact break_notMem_digits (isDigits_toDigits n)

theorem break_notMem_column (op : Opcode) : '\n' ∉ (column op).toList := by cases op <;> decide

theorem break_notMem_branchNote (names : b.NamesFunctions) (target : Nat) (op : Opcode) :
    '\n' ∉ (b.branchNote a target op).toList := by
  unfold branchNote
  split
  · split
    case h_1 name entered =>
      exact break_notMem_append (by decide) (break_notMem_identifier (names.functionAt entered))
    case h_2 => exact List.not_mem_nil
  · split <;> decide

/-- An instruction is shown without a line break. -/
theorem break_notMem_instructionText (names : b.NamesFunctions) (h : i.Listable) :
    '\n' ∉ (b.instructionText a i).toList := by
  obtain ⟨op, operands⟩ := i
  have kinds : operands.map Operand.kind = op.operandKinds := h.kinds
  have column := break_notMem_column op
  rcases op.operandKinds_cases with none | ⟨k, single, choice, unbranched⟩ | ⟨address, branch⟩ | rfl
  · rw [none, List.map_eq_nil_iff] at kinds
    rw [kinds, instructionText_plain]
    cases op <;> decide
  · obtain ⟨o, rfl, -⟩ := List.map_eq_singleton_iff.1 (kinds.trans single)
    rw [instructionText_operand _ _ unbranched]
    exact break_notMem_append column (break_notMem_text h.name)
  · obtain ⟨target, rfl⟩ := Operand.eq_address (kinds.trans address)
    rw [instructionText_branch _ _ branch]
    have address := break_notMem_digits (isDigits_addressText target)
    have note := break_notMem_branchNote (a := a) names target op
    exact break_notMem_append column (break_notMem_append address note)
  · obtain ⟨s, n, rfl⟩ := Operand.eq_name_count kinds
    rw [instructionText_func]
    have name := break_notMem_identifier (h.name s rfl)
    have digits : '\n' ∉ (toString n).toList :=
      break_notMem_text (o := .count n) (by simp [Operand.name?])
    exact break_notMem_append column
      (break_notMem_append (break_notMem_append name (by decide)) digits)

end Bytecode

end ImpStack
