/-
Module: ImpStack.Proofs.ListedPrograms
Purpose: The listing of a compiled program determines its table of functions and its instructions,
  if all names in the source are identifiers. What a line starts with tells a label, a separator and
  an address apart, and a line of an instruction ends at the first line break, so a listing can be
  taken apart line by line.
Main exports: Bytecode.Listable, listable_of_compile, shownLabel, lineText_append_inj,
  listingFrom_inj, functions_eq, listing_determines
-/
import ImpStack.Proofs.Layout
import ImpStack.Proofs.ShownInstructions

namespace ImpStack

/-! ### Programs with readable listings

A listing can be taken apart if nothing in it looks like something else. Identifiers do not start
with a digit and hold no line breaks; compiled programs have only such names if their sources do. -/

/-- Programs whose listings can be taken apart: operands suit their opcodes, names are identifiers,
    and each function has an entry of its own among the instructions. -/
structure Bytecode.Listable (b : Bytecode) : Prop where
  instructions : ∀ i ∈ b.code.toList, i.Listable
  functions : b.NamesFunctions
  increasing : (b.functions.entries.map Prod.snd).Pairwise (· < ·)
  inside : ∀ e ∈ b.functions.entries, e.2 < b.size

/-- Compiling a program with identifiers for names yields such a program. -/
theorem listable_of_compile {builtins : List String} {p : Program} {b : Bytecode}
    (h : compile builtins p = .ok b) (names : ∀ s ∈ p.names, isIdentifier s = true) :
    b.Listable := by
  obtain ⟨functions, start, main, assembly⟩ := compile_assembly h
  refine ⟨?_, fun e he => names e.1 (assembly.names_functions e he), assembly.increasing,
    assembly.entry_lt_size⟩
  intro i mem
  obtain ⟨a, found⟩ := List.getElem?_of_mem mem
  rw [Array.getElem?_toList] at found
  exact ⟨kinds_of_check assembly.check found,
    fun s hs => names s (assembly.names_instruction found s hs)⟩

namespace Bytecode

variable {b b' : Bytecode} {ts ts' : List Nat} {a : Nat} {i j : Instruction}

/-! ### What stands before an address

Above the line of an instruction there may be a label or a separator. A label starts with a letter
or an underscore, a separator and an address with a space or a digit, so two listings that agree as
texts agree on which of them is there. -/

/-- What a listing has between the line before and an address: a label, a separator or nothing. -/
def above (b : Bytecode) (targets : List Nat) (address : Nat) : String :=
  match b.functionAt? address with
  | some name => name ++ ":\n"
  | none => if targets.contains address then separator else ""

/-- What stands between an address and its instruction. -/
def mark (isTarget : Bool) : String := if isTarget then " ► " else "   "

/-- A line is what stands above the address, the address, a mark, the instruction and a line break.
    -/
theorem lineText_eq (b : Bytecode) (targets : List Nat) (address : Nat) (i : Instruction) :
    b.lineText targets address i = b.above targets address ++ (Text.addressText address ++
      (mark (targets.contains address) ++ (b.instructionText address i ++ "\n"))) := by
  simp only [← String.append_assoc]
  rfl

/-- The label that a text starts with: what starts with a space or a digit has none. -/
def shownLabel (text : List Char) : Option (List Char) :=
  match text with
  | [] => none
  | c :: _ => if c = ' ' ∨ c.isDigit = true then none else some (text.takeWhile (· != ':'))

/-- A label ends at the first colon. -/
theorem shownLabel_label {name : String} (h : isIdentifier name = true) (r : List Char) :
    shownLabel (name.toList ++ ':' :: r) = some name.toList := by
  obtain ⟨c, rest, text, digit, space⟩ := first_identifier h
  have inner : ∀ d ∈ name.toList, (d != ':') = true := by
    intro d mem
    rw [bne_iff_ne]
    rintro rfl
    exact notMem_identifier h (by decide) (by decide) mem
  have unmarked : ¬(c = ' ' ∨ c.isDigit = true) := by simp [digit, space]
  have upTo : (name.toList ++ ':' :: r).takeWhile (· != ':') = name.toList := by
    rw [List.takeWhile_append_of_pos inner, List.takeWhile_cons_of_neg (by decide), List.append_nil]
  rw [text, List.cons_append] at upTo ⊢
  rw [shownLabel, if_neg unmarked, upTo]

/-- An address starts with a digit. -/
theorem first_addressText (a : Nat) :
    ∃ c rest, (Text.addressText a).toList = c :: rest ∧ c.isDigit = true := by
  obtain ⟨nonempty, digit⟩ := isDigits_iff.1 (isDigits_addressText a)
  obtain ⟨c, rest, text⟩ := List.exists_cons_of_ne_nil nonempty
  exact ⟨c, rest, text, digit c (text ▸ List.mem_cons_self)⟩

theorem toList_separator : ∃ rest, separator.toList = ' ' :: rest := ⟨_, rfl⟩

/-- What stands before an address tells the function that is entered there. -/
theorem shownLabel_above (names : b.NamesFunctions) (r : List Char) :
    shownLabel ((b.above ts a).toList ++ ((Text.addressText a).toList ++ r)) =
      (b.functionAt? a).map String.toList := by
  cases entered : b.functionAt? a with
  | some name =>
      have label : b.above ts a = name ++ ":\n" := by rw [above, entered]
      rw [label, String.toList_append, List.append_assoc]
      exact shownLabel_label (names.functionAt entered) _
  | none =>
      rw [above, entered]
      dsimp only
      split
      · obtain ⟨rest, text⟩ := toList_separator
        rw [text, List.cons_append, shownLabel, if_pos (Or.inl rfl)]
        rfl
      · obtain ⟨c, rest, text, digit⟩ := first_addressText a
        rw [String.toList_empty, List.nil_append, text, List.cons_append, shownLabel,
          if_pos (Or.inr digit)]
        rfl

/-- The function that is entered at an address is determined, and what follows the label or the
    separator as well. -/
theorem above_append_inj (names : b.NamesFunctions) (names' : b'.NamesFunctions) {r s : List Char}
    (h : (b.above ts a).toList ++ ((Text.addressText a).toList ++ r) =
      (b'.above ts' a).toList ++ ((Text.addressText a).toList ++ s)) :
    b.functionAt? a = b'.functionAt? a ∧ r = s := by
  have labels := congrArg shownLabel h
  rw [shownLabel_above names, shownLabel_above names'] at labels
  have entered : b.functionAt? a = b'.functionAt? a :=
    Option.map_injective (fun _ _ => String.toList_inj.1) labels
  refine ⟨entered, ?_⟩
  obtain ⟨d, digits, address, digit⟩ := first_addressText a
  obtain ⟨rest, space⟩ := toList_separator
  have blank : d ≠ ' ' := by
    rintro rfl
    cases digit
  rw [above, above, ← entered] at h
  cases found : b.functionAt? a with
  | some name =>
      rw [found] at h
      exact List.append_cancel_left (List.append_cancel_left h)
  | none =>
      -- if only one of the two had a separator, its space would stand against a digit
      rw [found] at h
      dsimp only at h
      split at h <;> split at h
      · exact List.append_cancel_left (List.append_cancel_left h)
      · rw [space, address] at h
        exact absurd (List.cons.inj h).1.symm blank
      · rw [space, address] at h
        exact absurd (List.cons.inj h).1 blank
      · exact List.append_cancel_left (List.append_cancel_left h)

/-! ### Lines

From here on the two listings are read in step. Each line gives its instruction away, and the texts
behind it agree again, so the induction is on the instructions of one listing. -/

/-- Marked or not, an address is followed by three characters. -/
theorem length_mark (isTarget : Bool) : (mark isTarget).toList.length = 3 := by
  cases isTarget <;> rfl

/-- A line determines the function that is entered at its address, its instruction and what comes
    after the line. -/
theorem lineText_append_inj (names : b.NamesFunctions) (names' : b'.NamesFunctions)
    (hi : i.Listable) (hj : j.Listable) {r s : List Char}
    (h : (b.lineText ts a i).toList ++ r = (b'.lineText ts' a j).toList ++ s) :
    b.functionAt? a = b'.functionAt? a ∧ i.Alike j ∧ r = s := by
  simp only [lineText_eq, String.toList_append, List.append_assoc] at h
  obtain ⟨entered, behind⟩ := above_append_inj names names' h
  have marks := (length_mark (ts.contains a)).trans (length_mark (ts'.contains a)).symm
  obtain ⟨-, shown⟩ := List.append_inj behind marks
  obtain ⟨texts, rest⟩ := append_mark_inj (break_notMem_instructionText names hi)
    (break_notMem_instructionText names' hj) shown
  exact ⟨entered, alike_of_instructionText hi hj (String.toList_inj.1 texts), rest⟩

/-- No line is empty, so a listing ends where there are no more instructions. -/
theorem lineText_ne_nil (b : Bytecode) (ts : List Nat) (a : Nat) (i : Instruction) :
    (b.lineText ts a i).toList ≠ [] := by
  simp [lineText_eq]

/-- Lines that follow each other from an address on determine the instructions and the functions
    that are entered at their addresses. -/
theorem listingFrom_inj (names : b.NamesFunctions) (names' : b'.NamesFunctions) :
    ∀ {is js : List Instruction} {a : Nat}, (∀ i ∈ is, i.Listable) → (∀ j ∈ js, j.Listable) →
      b.listingFrom ts a is = b'.listingFrom ts' a js →
        List.Forall₂ Instruction.Alike is js ∧
          ∀ k < is.length, b.functionAt? (a + k) = b'.functionAt? (a + k)
  | [], [], _, _, _, _ => ⟨.nil, nofun⟩
  | [], j :: js, a, _, _, h => by
      have texts := congrArg String.toList h
      rw [listingFrom, listingFrom, String.toList_append] at texts
      exact absurd (List.append_eq_nil_iff.1 texts.symm).1 (lineText_ne_nil _ _ _ _)
  | i :: is, [], a, _, _, h => by
      have texts := congrArg String.toList h
      rw [listingFrom, listingFrom, String.toList_append] at texts
      exact absurd (List.append_eq_nil_iff.1 texts).1 (lineText_ne_nil _ _ _ _)
  | i :: is, j :: js, a, hi, hj, h => by
      have texts := congrArg String.toList h
      rw [listingFrom, listingFrom, String.toList_append, String.toList_append] at texts
      obtain ⟨entered, alike, rest⟩ := lineText_append_inj names names' (hi i List.mem_cons_self)
        (hj j List.mem_cons_self) texts
      obtain ⟨tails, later⟩ := listingFrom_inj names names' (fun i mem => hi i (.tail _ mem))
        (fun j mem => hj j (.tail _ mem)) (String.toList_inj.1 rest)
      refine ⟨.cons alike tails, fun k inside => ?_⟩
      cases k with
      | zero => exact entered
      | succ k =>
          rw [← Nat.add_assoc, Nat.add_right_comm]
          exact later k (Nat.lt_of_succ_lt_succ inside)

/-! ### Tables of functions

The labels name the functions and stand at their entries. As entries increase along the table, both
the names and their order are in the listing. -/

/-- Lists of entries are equal if their entries are, for each of them increases. -/
theorem eq_of_increasing {l l' : List (String × Nat)}
    (h : (l.map Prod.snd).Pairwise (· < ·)) (h' : (l'.map Prod.snd).Pairwise (· < ·))
    (same : ∀ e, e ∈ l ↔ e ∈ l') : l = l' := by
  rw [List.pairwise_map] at h h'
  have : Std.Antisymm fun e e' : String × Nat => e.2 < e'.2 :=
    ⟨fun _ _ before after => absurd after (Nat.lt_asymm before)⟩
  have : Std.Irrefl fun e e' : String × Nat => e.2 < e'.2 := ⟨fun e => Nat.lt_irrefl e.2⟩
  exact h.eq_of_mem_iff h' same

/-- The table of functions lists what is entered at the addresses of the program. -/
theorem Listable.mem_entries (hb : b.Listable) {name : String} {entry : Nat} :
    (name, entry) ∈ b.functions.entries ↔ entry < b.size ∧ b.functionAt? entry = some name := by
  constructor
  · intro mem
    refine ⟨hb.inside _ mem, ?_⟩
    rw [functionAt?, find?_entry_eq hb.increasing mem]
    rfl
  · rintro ⟨-, entered⟩
    obtain ⟨e, found, rfl⟩ := Option.map_eq_some_iff.1 entered
    have same : e.2 = entry := by simpa using List.find?_some found
    rw [← same]
    exact List.mem_of_find?_eq_some found

/-- The table of functions is determined by what is entered at the addresses of the program. -/
theorem functions_eq (hb : b.Listable) (hb' : b'.Listable) (size : b.size = b'.size)
    (entered : ∀ a < b.size, b.functionAt? a = b'.functionAt? a) : b.functions = b'.functions := by
  refine NameTable.ext (eq_of_increasing hb.increasing hb'.increasing fun ⟨name, entry⟩ => ?_)
  rw [hb.mem_entries, hb'.mem_entries, ← size]
  exact and_congr_right fun inside => by rw [entered entry inside]

end Bytecode

/-! ### Listings

Both programs must have been compiled from sources with identifiers as names; the builtins that they
were compiled with need not be the same. -/

/-- The listings of compiled programs are the same only if their tables of functions are, and their
    instructions, except for doubles that share a text. -/
theorem listing_determines {builtins builtins' : List String} {p p' : Program} {b b' : Bytecode}
    (h : compile builtins p = .ok b) (h' : compile builtins' p' = .ok b')
    (names : ∀ s ∈ p.names, isIdentifier s = true) (names' : ∀ s ∈ p'.names, isIdentifier s = true)
    (same : b.listing = b'.listing) :
    b.functions = b'.functions ∧
      List.Forall₂ Instruction.Alike b.code.toList b'.code.toList := by
  have hb := listable_of_compile h names
  have hb' := listable_of_compile h' names'
  obtain ⟨alike, entered⟩ := Bytecode.listingFrom_inj hb.functions hb'.functions hb.instructions
    hb'.instructions same
  have size : b.size = b'.size := alike.length_eq
  -- labels show every entry, since all entries are addresses of instructions
  refine ⟨Bytecode.functions_eq hb hb' size fun a inside => ?_, alike⟩
  rw [← Nat.zero_add a]
  exact entered a inside

/-- The functions and the statement of `Program.parity`, with the declarations first and everything
    in blocks. -/
def Program.parityGrouped : Program where
  statements :=
    Program.parity.declarations.map (fun d => .function d.name d.params (.block [d.body])) ++
      [.block [.block Program.parity.body]]

/-- The bytecode of `Program.parityGrouped`. -/
def Bytecode.parityGrouped : Bytecode :=
  match compile ["print"] .parityGrouped with
  | .ok b => b
  | .error _ => default

/-- Declarations in front and nested blocks are accepted as well. -/
theorem compile_parityGrouped : compile ["print"] .parityGrouped = .ok .parityGrouped := rfl

/-- Two different sources with one listing. -/
theorem listing_determines_parity :
    Bytecode.parity.functions = Bytecode.parityGrouped.functions ∧
      List.Forall₂ Instruction.Alike Bytecode.parity.code.toList
        Bytecode.parityGrouped.code.toList :=
  listing_determines compile_parity compile_parityGrouped (by decide) (by decide) rfl

end ImpStack
