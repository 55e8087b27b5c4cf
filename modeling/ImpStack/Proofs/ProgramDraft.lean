/-
Module: ImpStack.Proofs.ProgramDraft
Purpose: Whole programs written in one pass. The jump over the functions is written first and
  patched once they are written, each function is entered into the table before its body, and the
  calls that still wait for an entry are patched at the very end. What results is the compiled
  program.
Main exports: draftFunction, draftDeclarations, Draft.patchCalls, draftProgram, Drafted,
  Draft.Holds, draftProgram_stops, draftProgram_eq
-/
import ImpStack.Proofs.Drafting

namespace ImpStack

/-! ### Drafts of programs

A single pass over the program with three things to come back to: the leading jump, the branches of
each node, and the calls of functions that had no entry yet. Nothing is computed ahead; in
particular no length of code is known before the code is there. -/

namespace Draft

/-- A draft without anything. -/
def empty : Draft := ⟨[], NameTable.empty, []⟩

/-- Enter a function into the table; its code starts here. -/
def declare (d : Draft) (name : String) : Draft :=
  { d with functions := d.functions.insert name d.here }

/-- Write the stores of values into variables. -/
def writeStores (d : Draft) (names : List String) : Draft :=
  { d with code := d.code ++ names.map .store }

/-- Whether a function that starts at `entry` still needs a return: its code does not end in one, or
    a branch in it goes to its end. -/
def needsReturn (d : Draft) (entry : Nat) : Bool :=
  let ends := decide (entry < d.here) && decide (d.code.getLast?.map (·.opcode) = some .ret)
  !ends || (d.code.drop entry).any fun i => decide (i.target? = some d.here)

/-- Patch calls that wait for the entries of their callees; the first one whose callee has none is
    an error. -/
def patchCalls (builtins : List String) (d : Draft) :
    List (Nat × String) → Except CompileError Draft
  | [] => .ok d
  | call :: rest =>
    match d.functions.find? call.2 with
    | some entry => patchCalls builtins (d.patch call.1 entry) rest
    | none => .error (.unknownFunction call.2 (Text.orderedNames builtins))

end Draft

/-- Write a function. -/
def draftFunction (builtins : List String) (d : Draft) (declaration : Declaration) :
    Except CompileError Draft := do
  checkDeclaration builtins d.functions declaration
  let entry := d.here
  let d := (d.declare declaration.name).writeStores declaration.params.reverse
  let d ← draft ⟨builtins, some declaration.name⟩ d declaration.body
  .ok (if d.needsReturn entry then d.write (.plain .ret) else d)

/-- Write functions one after the other. -/
def draftFunctions (builtins : List String) (d : Draft) :
    List Declaration → Except CompileError Draft
  | [] => .ok d
  | declaration :: rest => do
    let d ← draftFunction builtins d declaration
    draftFunctions builtins d rest

/-- Write all functions of a program behind a jump over them; nothing at all if there are none. -/
def draftDeclarations (builtins : List String) : List Declaration → Except CompileError Draft
  | [] => .ok .empty
  | declarations => do
    let d := Draft.empty
    let skipFunctions := d.here
    let d ← draftFunctions builtins (d.write (.jump Draft.placeholder)) declarations
    .ok (d.patch skipFunctions d.here)

/-- Write a program: its functions, its other statements and a halt. Then all entries are known. -/
def draftProgram (builtins : List String) (p : Program) : Except CompileError Bytecode := do
  let d ← draftDeclarations builtins p.declarations
  let d ← draftAll ⟨builtins, none⟩ d p.body
  let d := d.write (.plain .halt)
  let d ← d.patchCalls builtins d.pending
  .ok ⟨d.code.toArray, d.functions⟩

/-! ### Code in a draft

The same open code is held by different drafts, depending on which entries were known when its calls
were written. Entries only come in and never change, so a draft that holds code under some entries
holds it under more; under the final ones each call that waits can be patched, and the result is the
linked code. -/

/-- How a draft holds open code from the address `base` on, when the functions `entries` have
    entries: a call has the entry of its callee, or it has a placeholder and is among the pending
    ones. -/
inductive Drafted (entries : NameTable Nat) :
    Nat → OpenCode → List Instruction → List (Nat × String) → Prop where
  | nil {base : Nat} : Drafted entries base [] [] []
  | settled {base : Nat} {code : OpenCode} {is : List Instruction} {calls : List (Nat × String)}
      (i : Instruction) (rest : Drafted entries (base + 1) code is calls) :
      Drafted entries base (.settled i :: code) (i :: is) calls
  | entered {base entry : Nat} {callee : String} {code : OpenCode} {is : List Instruction}
      {calls : List (Nat × String)} (found : entries.find? callee = some entry)
      (rest : Drafted entries (base + 1) code is calls) :
      Drafted entries base (.call callee :: code) (.call entry :: is) calls
  | waiting {base : Nat} {code : OpenCode} {is : List Instruction} {calls : List (Nat × String)}
      (callee : String) (rest : Drafted entries (base + 1) code is calls) :
      Drafted entries base (.call callee :: code) (.call Draft.placeholder :: is)
        ((base, callee) :: calls)

/-- A table has the entries of another one, and perhaps more. -/
def NameTable.Keeps (small large : NameTable Nat) : Prop :=
  ∀ name entry, small.find? name = some entry → large.find? name = some entry

variable {builtins : List String} {entries entries' : NameTable Nat} {base : Nat}
  {code code' : OpenCode} {is is' : List Instruction} {calls calls' : List (Nat × String)}

/-- The code of a node is held as it is written. -/
theorem drafted_written (entries : NameTable Nat) (code : OpenCode) : ∀ base : Nat,
    Drafted entries base code (code.map (·.written entries))
      (Draft.awaiting entries base code) := by
  induction code with
  | nil => exact fun _ => .nil
  | cons o rest ih =>
      intro base
      cases o with
      | settled i => exact .settled i (ih (base + 1))
      | call callee =>
          cases found : entries.find? callee with
          | some entry =>
              simpa [Draft.awaiting, OpenInstruction.written, OpenInstruction.awaited?, found]
                using Drafted.entered found (ih (base + 1))
          | none =>
              simpa [Draft.awaiting, OpenInstruction.written, OpenInstruction.awaited?, found]
                using Drafted.waiting callee (ih (base + 1))

namespace Drafted

/-- Entries that come later change nothing in what is written already. -/
theorem mono (h : Drafted entries base code is calls) (keeps : entries.Keeps entries') :
    Drafted entries' base code is calls := by
  induction h with
  | nil => exact .nil
  | settled i _ ih => exact .settled i ih
  | entered found _ ih => exact .entered (keeps _ _ found) ih
  | waiting callee _ ih => exact .waiting callee ih

theorem append (h : Drafted entries base code is calls)
    (h' : Drafted entries (base + code.length) code' is' calls') :
    Drafted entries base (code ++ code') (is ++ is') (calls ++ calls') := by
  have shift (base : Nat) (code : OpenCode) :
      base + (code.length + 1) = base + 1 + code.length := by
    omega
  induction h with
  | nil => exact h'
  | settled i _ ih => exact .settled i (ih (by rwa [List.length_cons, shift] at h'))
  | entered found _ ih => exact .entered found (ih (by rwa [List.length_cons, shift] at h'))
  | waiting callee _ ih => exact .waiting callee (ih (by rwa [List.length_cons, shift] at h'))

/-- A draft has one instruction for each instruction of the code. -/
theorem length_eq (h : Drafted entries base code is calls) : is.length = code.length := by
  induction h with
  | nil => rfl
  | settled | entered | waiting => simp [*]

/-- Patching the pending calls of a draft is linking the code in it. -/
theorem patchCalls_eq (h : Drafted entries base code is calls) :
    ∀ (before : List Instruction) (pending : List (Nat × String)), before.length = base →
      Draft.patchCalls builtins ⟨before ++ is, entries, pending⟩ calls =
        (fun linked => ⟨before ++ linked, entries, pending⟩) <$> link builtins entries code := by
  induction h with
  | nil => exact fun _ _ _ => rfl
  | @settled base code is calls i _ ih =>
      intro before pending start
      have later := ih (before ++ [i]) pending (by simp [start])
      simp only [List.append_assoc, List.singleton_append] at later
      rw [later, link, OpenInstruction.link]
      cases link builtins entries code <;> rfl
  | @entered base entry callee code is calls found _ ih =>
      intro before pending start
      have later := ih (before ++ [.call entry]) pending (by simp [start])
      simp only [List.append_assoc, List.singleton_append] at later
      rw [later, link, OpenInstruction.link, found]
      cases link builtins entries code <;> rfl
  | @waiting base code is calls callee _ ih =>
      intro before pending start
      rw [Draft.patchCalls, link, OpenInstruction.link]
      cases found : entries.find? callee with
      | none => rfl
      | some entry =>
          -- the place of the call is behind all instructions that were patched before
          have patched : Draft.patch ⟨before ++ .call Draft.placeholder :: is, entries, pending⟩
              base entry = ⟨before ++ .call entry :: is, entries, pending⟩ := by
            rw [Draft.patch, ← start, Draft.modify_append_cons]
            rfl
          have later := ih (before ++ [.call entry]) pending (by simp [start])
          simp only [List.append_assoc, List.singleton_append] at later
          simp only [patched, later]
          cases link builtins entries code <;> rfl

end Drafted

/-! ### Drafts that hold code

What a draft holds is followed through the operations of drafting. A function's entry is the next
address, so no entry lies behind the end of the draft; this tells a branch to the end from a call
that happens to go there. -/

namespace Draft

/-- The draft holds open code from its first address on, and no entry lies behind its end. -/
structure Holds (d : Draft) (code : OpenCode) : Prop where
  drafted : Drafted d.functions 0 code d.code d.pending
  inside : ∀ name entry, d.functions.find? name = some entry → entry ≤ d.here

variable {d t : Draft}

namespace Holds

theorem empty : Draft.empty.Holds [] := ⟨.nil, fun _ _ found => by cases found⟩

theorem here_eq (h : d.Holds code) : d.here = code.length := h.drafted.length_eq

/-- Code behind a draft is held behind what the draft holds. -/
theorem append (h : d.Holds code) (added : OpenCode) : (d.append added).Holds (code ++ added) where
  drafted := by
    refine h.drafted.append ?_
    rw [Nat.zero_add, ← h.here_eq]
    exact drafted_written d.functions added d.here
  inside name entry found := by
    have low := h.inside name entry found
    rw [here_append]
    omega

/-- A new function gets its entry at the end of the draft. -/
theorem declare (h : d.Holds code) {name : String} (fresh : d.functions.contains name = false) :
    (d.declare name).Holds code where
  drafted := h.drafted.mono fun other entry found => by
    have different : other ≠ name := by
      rintro rfl
      rw [NameTable.contains, found] at fresh
      cases fresh
    rw [Draft.declare, NameTable.find?_insert, if_neg different, found]
  inside other entry found := by
    rw [Draft.declare, NameTable.find?_insert] at found
    split at found
    · cases found
      exact Nat.le_refl _
    · exact h.inside other entry found

/-- The jump at the first address gets its target. -/
theorem patch_first {target target' : Nat} (h : d.Holds (.settled (.jump target) :: code)) :
    (d.patch 0 target').Holds (.settled (.jump target') :: code) := by
  obtain ⟨is, functions, pending⟩ := d
  obtain ⟨drafted, inside⟩ := h
  cases drafted with
  | settled _ rest => exact ⟨.settled _ rest, inside⟩

/-- In a draft that holds code, patching the pending calls is linking the code. -/
theorem patchCalls_eq (h : d.Holds code) :
    d.patchCalls builtins d.pending =
      (fun linked => { d with code := linked }) <$> link builtins d.functions code :=
  h.drafted.patchCalls_eq [] d.pending rfl

end Holds

theorem writeStores_eq (d : Draft) (declaration : Declaration) :
    d.writeStores declaration.params.reverse = d.append declaration.stores := by
  have none : awaiting d.functions d.here declaration.stores = [] := by
    refine awaiting_eq_nil fun o ho => ?_
    obtain ⟨param, -, rfl⟩ := List.mem_map.1 ho
    rfl
  rw [writeStores, append, none, List.append_nil, Declaration.stores, List.map_map]
  rfl

/-- Code of a node that is written ends in a return if it did so before. -/
theorem ends_written {lo hi : Nat} (within : CodeWithin builtins lo hi code) :
    (code.map (·.written entries)).getLast?.map (·.opcode) = some .ret ↔
      code.getLast? = some (.plain .ret) := by
  rw [List.getLast?_map]
  cases last : code.getLast? with
  | none => simp
  | some o =>
      have emittable := within o (List.mem_of_getLast? last)
      simp only [Option.map_some, Option.some.injEq]
      constructor
      · intro ends
        cases emittable with
        | ret => rfl
        | operation h =>
            obtain rfl : _ = Opcode.ret := ends
            simp at h
        | push | load | store | jump | jumpIf | func | call => cases ends
      · rintro rfl
        rfl

/-- A branch goes to the end of a function before its calls are patched if and only if it is a jump
    there, as long as the placeholder is no address. -/
theorem target_written {o : OpenInstruction} (ho : o ∈ code)
    (inside : ∀ name entry, d.functions.find? name = some entry → entry ≤ d.here)
    (small : d.here + code.length < placeholder) :
    (o.written d.functions).target? = some (d.here + code.length) ↔
      o.target? = some (d.here + code.length) := by
  cases o with
  | settled i => rfl
  | call callee =>
      have nonempty := List.length_pos_of_mem ho
      refine iff_of_false ?_ nofun
      rw [OpenInstruction.written, Instruction.target?]
      cases found : d.functions.find? callee with
      | none =>
          simp only [Instruction.call, Opcode.isBranch, Option.getD_none]
          simp
          omega
      | some entry =>
          have low := inside callee entry found
          simp only [Instruction.call, Opcode.isBranch, Option.getD_some]
          simp
          omega

/-- A draft needs a return behind a function's code exactly if emission adds one. Calls do not
    mislead it: a placeholder is no address so far, and entries lie before the function's end. -/
theorem needsReturn_append {lo hi : Nat} (within : CodeWithin builtins lo hi code)
    (inside : ∀ name entry, d.functions.find? name = some entry → entry ≤ d.here)
    (small : d.here + code.length < placeholder) :
    (d.append code).needsReturn d.here = !endsInReturn d.here code := by
  have body : (d.append code).code.drop d.here = code.map (·.written d.functions) := by
    simp [append, here]
  have skips : ((code.map (·.written d.functions)).any fun i =>
      decide (i.target? = some (d.here + code.length))) =
        !code.all fun o => decide (o.target? ≠ some (d.here + code.length)) := by
    rw [List.any_map, List.not_all_eq_any_not, Bool.eq_iff_iff, List.any_eq_true,
      List.any_eq_true]
    refine exists_congr fun o => and_congr_right fun ho => ?_
    simp [target_written ho inside small]
  have ends : (decide (d.here < d.here + code.length) &&
      decide ((d.append code).code.getLast?.map (·.opcode) = some .ret)) =
        decide (code.getLast? = some (.plain .ret)) := by
    cases code with
    | nil => simp
    | cons o rest =>
        have last : (d.append (o :: rest)).code.getLast? =
            ((o :: rest).map (·.written d.functions)).getLast? :=
          List.getLast?_append_of_ne_nil _ (List.cons_ne_nil _ _)
        rw [Bool.eq_iff_iff, Bool.and_eq_true, decide_eq_true_iff, decide_eq_true_iff,
          decide_eq_true_iff, last]
        exact (and_iff_right (by simp)).trans (ends_written within)
  rw [needsReturn, here_append, body, skips, ends, endsInReturn, Bool.not_and]

end Draft

/-! ### Functions

A function adds its stores, its body and perhaps a return, exactly as its emission does. The errors
are those of emission, too, as the table of a draft lists the names of the declarations so far. -/

variable {d t : Draft} {scope : Scope}

/-- A draft of a node succeeds with the node's code behind it. -/
theorem draft_ok {node : Node} :
    draft scope d node = .ok t ↔
      ∃ code, emit scope d.here node = .ok code ∧ d.append code = t := by
  rw [draft_eq]
  cases emit scope d.here node <;> simp

theorem draftAll_ok {nodes : List Node} :
    draftAll scope d nodes = .ok t ↔
      ∃ code, emitAll scope d.here nodes = .ok code ∧ d.append code = t := by
  rw [draftAll_eq]
  cases emitAll scope d.here nodes <;> simp

/-- A declaration that passes the check has a new name. -/
theorem fresh_of_checked {declared : NameTable Nat} {declaration : Declaration}
    (h : checkDeclaration builtins declared declaration = .ok ()) :
    declared.contains declaration.name = false := by
  rw [checkDeclaration] at h
  split at h
  · cases h
  · rename_i fresh
    simpa using fresh

/-- A draft of a function succeeds only for a new name. The code that it adds has the calls of the
    body, and it is the emitted code of the function if the placeholder is no address of it. -/
theorem draftFunction_holds {declaration : Declaration} (holds : d.Holds code)
    (h : draftFunction builtins d declaration = .ok t) :
    ∃ added, t.Holds (code ++ added) ∧
      t.functions = d.functions.insert declaration.name d.here ∧
      checkDeclaration builtins d.functions declaration = .ok () ∧
      added.calls = Scope.codeOfCalls ⟨builtins, some declaration.name⟩ declaration.body.calls ∧
      (d.here + added.length < Draft.placeholder →
        emitFunction builtins d.here declaration = .ok added) := by
  simp only [draftFunction, bind_ok_iff, Draft.writeStores_eq, draft_ok, Draft.append_append,
    Except.ok.injEq] at h
  obtain ⟨_, checked, _, ⟨body, emitted, rfl⟩, rfl⟩ := h
  have declared := holds.declare (fresh_of_checked checked)
  have start : (d.declare declaration.name).here = d.here := rfl
  rw [Draft.here_append, start] at emitted
  have shape : emitFunction builtins d.here declaration =
      .ok (if endsInReturn d.here (declaration.stores ++ body) then declaration.stores ++ body
        else declaration.stores ++ body ++ [.plain .ret]) :=
    (congrArg (· >>= _) emitted).trans rfl
  rw [Declaration.length_stores] at emitted
  obtain ⟨within, calls⟩ := Declaration.code_within emitted
  -- the draft looks at what it has written, and emission at open code; both see the same returns
  have ends (small : d.here + (declaration.stores ++ body).length < Draft.placeholder) :
      ((d.declare declaration.name).append (declaration.stores ++ body)).needsReturn d.here =
        !endsInReturn d.here (declaration.stores ++ body) :=
    Draft.needsReturn_append within declared.inside small
  rw [shape]
  split
  · rename_i needs
    refine ⟨declaration.stores ++ body ++ [.plain .ret], ?_, rfl, checked, ?_, fun small => ?_⟩
    · rw [Draft.write_eq, Draft.append_append]
      exact declared.append _
    · rw [OpenCode.calls_append, calls]
      exact List.append_nil _
    · rw [List.length_append, ← Nat.add_assoc] at small
      have more : endsInReturn d.here (declaration.stores ++ body) = false := by
        simpa [needs] using ends (by omega)
      rw [if_neg (by simp [more])]
  · rename_i needs
    refine ⟨declaration.stores ++ body, declared.append _, rfl, checked, calls, fun small => ?_⟩
    have enough : endsInReturn d.here (declaration.stores ++ body) = true := by
      simpa [needs] using ends small
    rw [if_pos enough]

/-- Drafts of functions add the code of one after the other. What stays open in it are the calls of
    functions that have no entry in the end. -/
theorem draftFunctions_holds {ds : List Declaration} : ∀ {d : Draft} {code : OpenCode},
    d.Holds code → draftFunctions builtins d ds = .ok t →
      ∃ added, t.Holds (code ++ added) ∧
        t.functions.names = d.functions.names ++ ds.map (·.name) ∧
        (∀ entries, OpenCode.unlinked entries added =
          unknownCallees builtins entries.names (ds.flatMap (·.body.calls))) ∧
        (t.here < Draft.placeholder →
          emitFunctions builtins d.here d.functions ds = .ok (added, t.functions)) := by
  induction ds with
  | nil =>
      intro d code holds h
      cases h
      refine ⟨[], by rwa [List.append_nil], ?_, fun entries => rfl, fun _ => rfl⟩
      exact (List.append_nil _).symm
  | cons declaration rest ih =>
      intro d code holds h
      obtain ⟨d', first, h⟩ := bind_ok_iff.1 h
      obtain ⟨added, holds', functions, checked, calls, whole⟩ := draftFunction_holds holds first
      obtain ⟨later, held, names, unlinked, all⟩ := ih holds' h
      refine ⟨added ++ later, by rwa [← List.append_assoc], ?_, fun entries => ?_, fun small => ?_⟩
      · rw [names, functions, NameTable.names,
          NameTable.entries_insert _ (fresh_of_checked checked)]
        simp [NameTable.names]
      · rw [OpenCode.unlinked_append, unlinked, ← OpenCode.unlinked_calls entries added, calls,
          unlinked_codeOfCalls, List.flatMap_cons, unknownCallees_append]
      · have length : t.here = d'.here + later.length := by
          rw [held.here_eq, holds'.here_eq, List.length_append]
        have length' : d'.here = d.here + added.length := by
          rw [holds'.here_eq, holds.here_eq, List.length_append]
        -- the whole draft is below the placeholder, so this function is, too
        have tail := all small
        rw [functions, length'] at tail
        simp [emitFunctions, bind_ok_iff, checked, whole (by omega), tail]

/-! ### Declarations

The leading jump has a placeholder while the functions are written. They all stand behind it, so
patching the first address at the end gives the jump its target and touches none of their code. -/

/-- The draft of all declarations holds their code. What stays open in it are the calls of functions
    that are not declared. -/
theorem draftDeclarations_holds {ds : List Declaration}
    (h : draftDeclarations builtins ds = .ok t) :
    ∃ added, t.Holds added ∧ t.functions.names = ds.map (·.name) ∧
      (∀ entries, OpenCode.unlinked entries added =
        unknownCallees builtins entries.names (ds.flatMap (·.body.calls))) ∧
      (t.here < Draft.placeholder → emitDeclarations builtins ds = .ok (added, t.functions)) := by
  cases ds with
  | nil =>
      cases h
      exact ⟨[], .empty, rfl, fun _ => rfl, fun _ => rfl⟩
  | cons declaration rest =>
      obtain ⟨d, drafted, h⟩ := bind_ok_iff.1 h
      cases h
      rw [Draft.write_eq] at drafted
      obtain ⟨added, holds, names, unlinked, whole⟩ :=
        draftFunctions_holds (Draft.Holds.empty.append _) drafted
      refine ⟨.settled (.jump d.here) :: added, holds.patch_first, names, fun entries => ?_,
        fun small => ?_⟩
      · exact unlinked entries
      · have length : d.here = 1 + added.length := by
          rw [holds.here_eq]
          simp [Nat.add_comm]
        have functions : emitFunctions builtins 1 NameTable.empty (declaration :: rest) =
            .ok (added, d.functions) := whole (by rwa [Draft.here_patch] at small)
        rw [emitDeclarations, functions, length]
        · rfl
        · simp

/-! ### Programs

A draft of a whole program stops at its first fault, as compilation does, and otherwise holds the
code that compilation links. The placeholder must not be an address of the program, since a branch
to it could not be told from one that waits. -/

/-- Behind its last statement, the draft of a program holds code in which the calls of functions
    that are not declared stay open. It is the code that is linked when the program is compiled, if
    the placeholder is no address of it. -/
theorem draft_holds_program {p : Program} {d d' : Draft}
    (functions : draftDeclarations builtins p.declarations = .ok d)
    (body : draftAll ⟨builtins, none⟩ d p.body = .ok d') :
    ∃ code, (d'.write (.plain .halt)).Holds code ∧
      OpenCode.unlinked d'.functions code =
        unknownCallees builtins (p.declarations.map (·.name)) p.calls ∧
      (d'.here < Draft.placeholder → compile builtins p =
        (fun linked => ⟨linked.toArray, d'.functions⟩) <$> link builtins d'.functions code) := by
  obtain ⟨added, holds, names, unlinked, whole⟩ := draftDeclarations_holds functions
  obtain ⟨main, emitted, rfl⟩ := draftAll_ok.1 body
  refine ⟨added ++ main ++ [.plain .halt], ?_, ?_, fun small => ?_⟩
  · rw [Draft.write_eq]
    exact (holds.append main).append _
  · rw [OpenCode.unlinked_append, OpenCode.unlinked_append, unlinked, emitAll_unlinked emitted,
      ← names, Program.calls, unknownCallees_append]
    exact List.append_nil _
  · rw [Draft.here_append] at small
    rw [holds.here_eq] at emitted
    have compiled : compile builtins p = link builtins d.functions
        (added ++ main ++ [.plain .halt]) >>= fun linked => .ok ⟨linked.toArray, d.functions⟩ := by
      rw [compile, whole (by omega)]
      show emitAll ⟨builtins, none⟩ added.length p.body >>= _ = _
      rw [emitted]
      rfl
    exact compiled.trans (map_eq_pure_bind _ _).symm

/-- Drafting nodes stops at the first declaration among them. -/
theorem draftAll_stops (scope : Scope) (d : Draft) (nodes : List Node) :
    StopsAt (nestedFaults scope.enclosing (Node.nestedAll nodes)) (draftAll scope d nodes) := by
  rw [draftAll_eq, map_eq_pure_bind]
  exact (emitAll_stops scope nodes d.here).map

/-- Drafting a function stops at its first fault. -/
theorem draftFunction_stops {earlier : List String} (lists : d.functions.Lists earlier)
    (declaration : Declaration) :
    StopsAt (declaration.faults builtins earlier) (draftFunction builtins d declaration) := by
  refine (checkDeclaration_stops lists declaration).bind fun _ _ => StopsAt.map ?_
  rw [draft_eq, map_eq_pure_bind]
  exact (emit_stops ⟨builtins, some declaration.name⟩ declaration.body _).map

/-- Drafting functions stops at the first fault of the first one that has any. -/
theorem draftFunctions_stops (ds : List Declaration) :
    ∀ {d : Draft} {code : OpenCode} {earlier : List String}, d.Holds code →
      d.functions.Lists earlier →
        StopsAt (declarationFaults builtins earlier ds) (draftFunctions builtins d ds) := by
  induction ds with
  | nil => exact fun _ _ => .ok _
  | cons declaration rest ih =>
      intro d code earlier holds lists
      refine (draftFunction_stops lists declaration).bind fun d' drafted => ?_
      obtain ⟨added, holds', functions, -⟩ := draftFunction_holds holds drafted
      refine ih holds' fun name => ?_
      rw [functions, NameTable.contains_insert, List.mem_cons, lists name]

/-- The draft of a program fails with the first of its faults. -/
theorem draftProgram_stops (builtins : List String) (p : Program) :
    StopsAt (p.faults builtins) (draftProgram builtins p) := by
  have declarations : StopsAt (declarationFaults builtins [] p.declarations)
      (draftDeclarations builtins p.declarations) := by
    cases p.declarations with
    | nil => exact .ok _
    | cons d rest =>
        have skip : (Draft.empty.write (.jump Draft.placeholder)).Holds
            [.settled (.jump Draft.placeholder)] := by
          rw [Draft.write_eq]
          exact Draft.Holds.empty.append _
        refine StopsAt.map (draftFunctions_stops (d :: rest) skip fun name => ?_)
        exact iff_of_false Bool.false_ne_true List.not_mem_nil
  refine declarations.bind fun d functions => ?_
  refine (draftAll_stops ⟨builtins, none⟩ d p.body).bind fun d' body => ?_
  obtain ⟨code, holds, unlinked, -⟩ := draft_holds_program functions body
  dsimp only
  rw [holds.patchCalls_eq, ← unlinked, bind_map_left]
  exact (link_stops builtins d'.functions code).map

/-- Writing a program in one pass, with placeholders that are patched later, is compiling it. -/
theorem draftProgram_eq {p : Program}
    (small : ∀ b, draftProgram builtins p = .ok b → b.size ≤ Draft.placeholder) :
    draftProgram builtins p = compile builtins p := by
  cases drafted : draftProgram builtins p with
  | error e =>
      -- both stop at the first fault of the program
      have first := ((draftProgram_stops builtins p).error_iff e).1 drafted
      exact (((compile_stops builtins p).error_iff e).2 first).symm
  | ok b =>
      have fits := small b drafted
      simp only [draftProgram, bind_ok_iff, Except.ok.injEq] at drafted
      obtain ⟨d, functions, d', body, t, patched, rfl⟩ := drafted
      obtain ⟨code, holds, -, compiled⟩ := draft_holds_program functions body
      rw [holds.patchCalls_eq, map_eq_pure_bind, bind_ok_iff] at patched
      obtain ⟨is, linked, patched⟩ := patched
      cases patched
      have linked : link builtins d'.functions code = .ok is := linked
      -- the halt is the last instruction, so the statements before it end below the placeholder
      have size := holds.here_eq
      have length := congrArg List.length (link_ok.1 linked)
      simp only [Draft.write, Draft.here, List.length_append, List.length_singleton,
        List.length_map] at size length
      have below : d'.here < Draft.placeholder := by
        simp only [Bytecode.size, List.size_toArray] at fits
        rw [Draft.here]
        omega
      rw [compiled below, linked]
      rfl

end ImpStack
