/-
Module: ImpStack.Proofs.Drafting
Purpose: Code written in one pass. A draft grows at its end; a branch whose target is not known yet
  is written with a placeholder and patched once the target is reached, and a call whose callee has
  no entry yet waits with a placeholder too. A draft of a node is the code of the node behind what
  was there before, so drafts from different starts differ in their addresses only.
Main exports: Draft, Draft.patch, draft, Draft.append, draft_eq, Instruction.Moved, Draft.Extends,
  drafts_are_relocatable
-/
import ImpStack.Proofs.Position
import ImpStack.Proofs.Rejection

namespace ImpStack

/-! ### Drafts

A draft is what a pass over the source has written so far: instructions, the entries of the
functions it has come across, and the calls that still wait for an entry. Unlike open code it holds
concrete addresses from the start, so it has to come back to those it could not know. -/

/-- Code that is being written. -/
structure Draft where
  /-- The instructions so far. -/
  code : List Instruction
  /-- The entries of the functions that were declared so far. -/
  functions : NameTable Nat
  /-- The places of the calls whose callees had no entry when they were written. -/
  pending : List (Nat × String)

namespace Draft

/-- What stands in a branch for a target that is not known yet: the largest address of 64 bits. -/
def placeholder : Nat := UInt64.size - 1

/-- The address that the next instruction gets. -/
def here (d : Draft) : Nat := d.code.length

/-- Write an instruction behind the others. -/
def write (d : Draft) (i : Instruction) : Draft := { d with code := d.code ++ [i] }

/-- Write instructions without operands. -/
def writeAll (d : Draft) (ops : List Opcode) : Draft :=
  { d with code := d.code ++ ops.map .plain }

/-- Put a target into the branch at a place. -/
def patch (d : Draft) (place target : Nat) : Draft :=
  { d with code := d.code.modify place fun i => (i.retarget? target).getD i }

/-- Write what follows the arguments of a call. -/
def writeCall (scope : Scope) (d : Draft) (callee : String) (argumentCount : Nat) : Draft :=
  if scope.builtins.contains callee then d.write (.func callee argumentCount)
  else
    match d.functions.find? callee with
    | some entry => d.write (.call entry)
    | none => { d.write (.call placeholder) with pending := d.pending ++ [(d.here, callee)] }

end Draft

mutual

/-- Write a node: its parts in the order in which they run, and what belongs between them. -/
def draft (scope : Scope) (d : Draft) : Node → Except CompileError Draft
  | .literal value => .ok (d.write (.push value))
  | .ident name => .ok (d.write (.load name))
  | .assign name value => do
    let d ← draft scope d value
    .ok (d.write (.store name))
  | .binary op left right => do
    let d ← draft scope d left
    let d ← draft scope d right
    .ok (d.writeAll op.opcodes)
  | .unary op operand => do
    let d ← draft scope d operand
    match op with
    | .not => .ok (d.write (.plain .not))
    | .neg => .ok ((d.write (.push (.int (-1)))).write (.plain .mul))
  | .call callee args => do
    let d ← draftAll scope d args
    .ok (d.writeCall scope callee args.length)
  | .ret value => do
    let d ← draft scope d value
    .ok (d.write (.plain .ret))
  | .block children => draftAll scope d children
  | .ifThen condition thenBranch => do
    let d ← draft scope d condition
    let d := d.write (.plain .not)
    let skipThen := d.here
    let d ← draft scope (d.write (.jumpIf Draft.placeholder)) thenBranch
    .ok (d.patch skipThen d.here)
  | .ifElse condition thenBranch elseBranch => do
    let d ← draft scope d condition
    let d := d.write (.plain .not)
    let skipThen := d.here
    let d ← draft scope (d.write (.jumpIf Draft.placeholder)) thenBranch
    let skipElse := d.here
    let d := d.write (.jump Draft.placeholder)
    let d ← draft scope (d.patch skipThen d.here) elseBranch
    .ok (d.patch skipElse d.here)
  | .whileLoop condition body => do
    let top := d.here
    let d ← draft scope d condition
    let d := d.write (.plain .not)
    let exit := d.here
    let d ← draft scope (d.write (.jumpIf Draft.placeholder)) body
    let d := d.write (.jump top)
    .ok (d.patch exit d.here)
  | .doWhile body condition => do
    let top := d.here
    let d ← draft scope d body
    let d ← draft scope d condition
    .ok (d.write (.jumpIf top))
  | .forRange var start stop body => do
    let d ← draft scope d start
    let d := d.write (.store var)
    let top := d.here
    let d ← draft scope (d.write (.load var)) stop
    let d := d.write (.plain .isGe)
    let exit := d.here
    let d ← draft scope (d.write (.jumpIf Draft.placeholder)) body
    let d := (((d.write (.load var)).write (.push (.int 1))).write (.plain .add)).write (.store var)
    let d := d.write (.jump top)
    .ok (d.patch exit d.here)
  | .function name _ _ => .error (.nestedFunction name scope.enclosing)

/-- Write a sequence of nodes. -/
def draftAll (scope : Scope) (d : Draft) : List Node → Except CompileError Draft
  | [] => .ok d
  | node :: rest => do
    let d ← draft scope d node
    draftAll scope d rest

end

/-! ### Emitted code behind a draft

The open code of a node can be put behind a draft by writing its calls with the entries that are
known. Every operation of drafting has an equation that says which open code it adds; patching is
undone by it, as the patched branch is the one that was open in between. -/

/-- An instruction as a draft holds it: a call of a function without an entry has a placeholder. -/
def OpenInstruction.written (functions : NameTable Nat) : OpenInstruction → Instruction
  | .settled i => i
  | .call callee => .call ((functions.find? callee).getD Draft.placeholder)

/-- The callee of a call that a draft cannot write with its entry. -/
def OpenInstruction.awaited? (functions : NameTable Nat) : OpenInstruction → Option String
  | .settled _ => none
  | .call callee => if (functions.find? callee).isSome then none else some callee

namespace Draft

/-- The places of the calls in code from an address on that wait for entries. -/
def awaiting (functions : NameTable Nat) (base : Nat) (code : OpenCode) : List (Nat × String) :=
  (code.zipIdx base).filterMap fun (o, place) => (o.awaited? functions).map (place, ·)

/-- A draft with the code of a node behind it. -/
def append (d : Draft) (code : OpenCode) : Draft where
  code := d.code ++ code.map (·.written d.functions)
  functions := d.functions
  pending := d.pending ++ awaiting d.functions d.here code

variable {d : Draft} {code : OpenCode}

/-- Code behind a draft moves the next address by its length. -/
@[simp] theorem here_append (d : Draft) (code : OpenCode) :
    (d.append code).here = d.here + code.length := by
  simp [here, append]

@[simp] theorem append_append (d : Draft) (code code' : OpenCode) :
    (d.append code).append code' = d.append (code ++ code') := by
  simp [append, awaiting, here, List.zipIdx_append]

theorem append_nil (d : Draft) : d.append [] = d := by
  simp [append, awaiting]

/-- Writing an instruction puts settled code behind the draft. -/
theorem write_eq (d : Draft) (i : Instruction) : d.write i = d.append [.settled i] := by
  simp [write, append, awaiting, OpenInstruction.written, OpenInstruction.awaited?]

/-- Only open calls wait for entries. -/
theorem awaiting_eq_nil {functions : NameTable Nat} {base : Nat}
    (h : ∀ o ∈ code, o.awaited? functions = none) : awaiting functions base code = [] := by
  rw [awaiting, List.filterMap_eq_nil_iff]
  intro ⟨o, place⟩ ho
  show (o.awaited? functions).map (place, ·) = none
  rw [h o (List.fst_mem_of_mem_zipIdx ho), Option.map_none]

theorem writeAll_eq (d : Draft) (ops : List Opcode) :
    d.writeAll ops = d.append (ops.map .plain) := by
  have none : awaiting d.functions d.here (ops.map .plain) = [] := by
    refine awaiting_eq_nil fun o ho => ?_
    obtain ⟨op, -, rfl⟩ := List.mem_map.1 ho
    rfl
  rw [writeAll, append, none, List.append_nil, List.map_map]
  rfl

/-- A call is written with its entry if its callee has one by then, and else waits for it. -/
theorem writeCall_eq (scope : Scope) (d : Draft) (callee : String) (argumentCount : Nat) :
    d.writeCall scope callee argumentCount = d.append (scope.callCode callee argumentCount) := by
  rw [writeCall, Scope.callCode]
  split
  · exact write_eq d _
  · cases found : d.functions.find? callee with
    | none =>
        simp [append, awaiting, write, OpenInstruction.written, OpenInstruction.awaited?, found]
    | some entry =>
        simp [append, awaiting, write, OpenInstruction.written, OpenInstruction.awaited?, found]

@[simp] theorem here_patch (d : Draft) (place target : Nat) :
    (d.patch place target).here = d.here := by
  simp [here, patch]

/-- Changing the entry right behind a prefix leaves the prefix and the rest as they are. -/
theorem modify_append_cons {α : Type} (f : α → α) (before after : List α) (a : α) :
    (before ++ a :: after).modify before.length f = before ++ f a :: after := by
  induction before with
  | nil => rfl
  | cons b before ih => rw [List.cons_append, List.length_cons, List.modify_succ_cons, ih]; rfl

/-- A settled instruction is written as it is, and nothing waits for it. -/
theorem append_settled (d : Draft) (before after : OpenCode) (i : Instruction) :
    d.append (before ++ .settled i :: after) =
      ⟨d.code ++ before.map (·.written d.functions) ++ i :: after.map (·.written d.functions),
        d.functions, d.pending ++ (awaiting d.functions d.here before ++
          awaiting d.functions (d.here + before.length + 1) after)⟩ := by
  simp [append, awaiting, OpenInstruction.written, OpenInstruction.awaited?, List.zipIdx_append]

/-- Patching a branch changes that branch and nothing else. -/
theorem patch_append {d : Draft} {before after : OpenCode} {i i' : Instruction} {place target : Nat}
    (h : i.retarget? target = some i') (hplace : place = d.here + before.length) :
    (d.append (before ++ .settled i :: after)).patch place target =
      d.append (before ++ .settled i' :: after) := by
  have place : place = (d.code ++ before.map (·.written d.functions)).length := by
    simpa [here] using hplace
  rw [append_settled, append_settled, patch, place, modify_append_cons, h, Option.getD_some]

/-- A branch forward gets its target, whether it is conditional or not. -/
theorem patch_branch (branch : Nat → Instruction) {d : Draft} {code code' : OpenCode}
    {place target : Nat} (before after : OpenCode) (target' : Nat)
    (retargets : (branch placeholder).retarget? target' = some (branch target'))
    (hcode : code = before ++ .settled (branch placeholder) :: after)
    (hplace : place = d.here + before.length) (htarget : target = target')
    (hcode' : code' = before ++ .settled (branch target') :: after) :
    (d.append code).patch place target = d.append code' := by
  rw [hcode, hcode', htarget]
  exact patch_append retargets hplace

end Draft

/-! ### The draft of a node

By induction on the node, the draft and the open code come from the same steps: writing a branch
with a placeholder and patching it behind the branch's code is emitting that code first and then the
branch with its target. -/

open Draft (write_eq writeAll_eq writeCall_eq append_append here_append here_patch patch_branch)

/-- The next part of a node starts behind the parts before it, however their lengths are added. -/
theorem emit_bind_congr {scope : Scope} {node : Node} {base base' : Nat}
    {f g : OpenCode → Except CompileError Draft} (h : base = base')
    (next : ∀ code, f code = g code) :
    (emit scope base node >>= f) = emit scope base' node >>= g :=
  h ▸ bind_congr next

mutual

/-- The draft of a node is the code of the node behind what was there before. -/
theorem draft_eq (scope : Scope) : ∀ (d : Draft) (node : Node),
    draft scope d node = d.append <$> emit scope d.here node
  | d, .literal value => congrArg Except.ok (d.write_eq _)
  | d, .ident name => congrArg Except.ok (d.write_eq _)
  | d, .assign name value => by
      simp only [draft, emit, draft_eq scope d value, map_bind, bind_map_left, write_eq,
        append_append, Except.map_ok]
  | d, .binary op left right => by
      have right := fun d => draft_eq scope d right
      simp only [draft, emit, draft_eq scope d left, right, map_bind, bind_map_left, writeAll_eq,
        append_append, here_append, List.append_assoc, Except.map_ok]
  | d, .unary op operand => by
      simp only [draft, emit, draft_eq scope d operand, map_bind, bind_map_left, Except.map_ok]
      refine congrArg _ (funext fun code => ?_)
      cases op with
      | not => exact congrArg Except.ok (by rw [write_eq, append_append]; rfl)
      | neg =>
          simp only [write_eq, append_append, List.append_assoc]
          rfl
  | d, .call callee args => by
      simp only [draft, emit, draftAll_eq scope d args, map_bind, bind_map_left, writeCall_eq,
        append_append, Except.map_ok]
  | d, .ret value => by
      simp only [draft, emit, draft_eq scope d value, map_bind, bind_map_left, write_eq,
        append_append, Except.map_ok]
      rfl
  | d, .block children => by
      rw [draft, emit, draftAll_eq scope d children]
  | d, .ifThen condition thenBranch => by
      have thenBranch := fun d => draft_eq scope d thenBranch
      simp only [draft, emit, draft_eq scope d condition, thenBranch, map_bind, bind_map_left,
        write_eq, append_append, here_append, Except.map_ok]
      -- up to here both are the same open code, except for the branch that is patched
      refine bind_congr fun conditionCode => emit_bind_congr ?_ fun thenCode => ?_
      · simp [Nat.add_assoc]
      · refine congrArg Except.ok (patch_branch .jumpIf (conditionCode ++ [.plain .not]) thenCode
          (d.here + conditionCode.length + 2 + thenCode.length) rfl ?_ ?_ ?_ ?_)
        · simp [OpenInstruction.plain]
        · simp [Nat.add_assoc]
        · simp only [List.length_append, List.length_cons, List.length_nil]
          omega
        · simp
  | d, .ifElse condition thenBranch elseBranch => by
      have thenBranch := fun d => draft_eq scope d thenBranch
      have elseBranch := fun d => draft_eq scope d elseBranch
      simp only [draft, emit, draft_eq scope d condition, thenBranch, elseBranch, map_bind,
        bind_map_left, write_eq, append_append, here_append, here_patch, Except.map_ok]
      refine bind_congr fun conditionCode => emit_bind_congr ?_ fun thenCode =>
        emit_bind_congr ?_ fun elseCode => ?_
      · simp [Nat.add_assoc]
      · simp only [List.length_append, List.length_cons, List.length_nil]
        omega
      · let elseBase := d.here + conditionCode.length + 2 + thenCode.length + 1
        let head : OpenCode :=
          conditionCode ++ [.plain .not, .settled (.jumpIf elseBase)] ++ thenCode
        -- two branches are patched, the first one behind the jump that is still open
        rw [patch_branch .jumpIf (d := d) (conditionCode ++ [.plain .not])
          (thenCode ++ [.settled (.jump Draft.placeholder)]) elseBase rfl
          (by simp [OpenInstruction.plain]) (by simp [Nat.add_assoc])
          (by simp [elseBase]; omega) rfl, append_append]
        refine congrArg Except.ok
          (patch_branch .jump head elseCode (elseBase + elseCode.length) rfl ?_ ?_ ?_ ?_)
        · simp [head]
        · simp only [head, List.length_append, List.length_cons, List.length_nil]
          omega
        · simp only [elseBase, List.length_append, List.length_cons, List.length_nil]
          omega
        · simp [head, elseBase]
  | d, .whileLoop condition body => by
      have body := fun d => draft_eq scope d body
      simp only [draft, emit, draft_eq scope d condition, body, map_bind, bind_map_left,
        write_eq, append_append, here_append, Except.map_ok]
      refine bind_congr fun conditionCode => emit_bind_congr ?_ fun bodyCode => ?_
      · simp [Nat.add_assoc]
      · refine congrArg Except.ok (patch_branch .jumpIf (conditionCode ++ [.plain .not])
          (bodyCode ++ [.settled (.jump d.here)])
          (d.here + conditionCode.length + 2 + bodyCode.length + 1) rfl ?_ ?_ ?_ ?_)
        · simp [OpenInstruction.plain]
        · simp [Nat.add_assoc]
        · simp only [List.length_append, List.length_cons, List.length_nil]
          omega
        · simp
  | d, .doWhile body condition => by
      have condition := fun d => draft_eq scope d condition
      simp only [draft, emit, draft_eq scope d body, condition, map_bind, bind_map_left,
        write_eq, append_append, here_append, List.append_assoc, Except.map_ok]
  | d, .forRange var start stop body => by
      have stop := fun d => draft_eq scope d stop
      have body := fun d => draft_eq scope d body
      simp only [draft, emit, draft_eq scope d start, stop, body, map_bind, bind_map_left,
        write_eq, append_append, here_append, Except.map_ok]
      refine bind_congr fun startCode => emit_bind_congr ?_ fun stopCode =>
        emit_bind_congr ?_ fun bodyCode => ?_
      · simp [Nat.add_assoc]
      · simp only [List.length_append, List.length_cons, List.length_nil]
        omega
      · refine congrArg Except.ok (patch_branch .jumpIf
          (startCode ++ [.settled (.store var), .settled (.load var)] ++ stopCode ++ [.plain .isGe])
          (bodyCode ++ [.settled (.load var), .settled (.push (.int 1)), .plain .add,
            .settled (.store var), .settled (.jump (d.here + startCode.length + 1))])
          (d.here + startCode.length + 1 + 1 + stopCode.length + 2 + bodyCode.length + 5) rfl
          ?_ ?_ ?_ ?_)
        · simp [OpenInstruction.plain]
        · simp only [List.length_append, List.length_cons, List.length_nil]
          omega
        · simp only [List.length_append, List.length_cons, List.length_nil]
          omega
        · simp
  | d, .function name params body => rfl

/-- The same of a sequence of nodes. -/
theorem draftAll_eq (scope : Scope) : ∀ (d : Draft) (nodes : List Node),
    draftAll scope d nodes = d.append <$> emitAll scope d.here nodes
  | d, [] => congrArg Except.ok d.append_nil.symm
  | d, node :: rest => by
      have rest := fun d => draftAll_eq scope d rest
      simp only [draftAll, emitAll, draft_eq scope d node, rest, map_bind, bind_map_left,
        here_append, Except.map_ok]
      exact bind_congr fun code => (map_eq_pure_bind _ _).trans
        (bind_congr fun restCode => congrArg Except.ok (append_append d code restCode))

end

/-! ### Relocation

A node's draft does not depend on what stands before it, except that addresses count from there.
Jumps move along with the code, calls do not, since their targets lie outside of it, and calls that
wait are listed at their moved places. -/

/-- The same instruction in code that starts `δ` addresses further: jumps move along, and all other
    instructions, calls among them, stay as they are. -/
inductive Instruction.Moved (δ : Int) : Instruction → Instruction → Prop where
  | same {i : Instruction} (h : i.opcode ≠ .jump ∧ i.opcode ≠ .jumpIf) : Moved δ i i
  | jump {target target' : Nat} (h : (target' : Int) = target + δ) :
      Moved δ (.jump target) (.jump target')
  | jumpIf {target target' : Nat} (h : (target' : Int) = target + δ) :
      Moved δ (.jumpIf target) (.jumpIf target')

/-- The same pending call `δ` addresses further. -/
structure PendingMoved (δ : Int) (c c' : Nat × String) : Prop where
  place : (c'.1 : Int) = c.1 + δ
  callee : c'.2 = c.2

/-- What a draft becomes when some instructions and pending calls are added: nothing before them
    changes, jumps among them stay among them, and the pending calls are calls among them that have
    a placeholder. -/
structure Draft.Extends (d t : Draft) (segment : List Instruction) (calls : List (Nat × String)) :
    Prop where
  code : t.code = d.code ++ segment
  functions : t.functions = d.functions
  pending : t.pending = d.pending ++ calls
  placeholders : ∀ c ∈ calls,
    d.here ≤ c.1 ∧ c.1 < t.here ∧ t.code[c.1]? = some (.call Draft.placeholder)
  targets : ∀ i ∈ segment, i.opcode = .jump ∨ i.opcode = .jumpIf →
    ∃ target, i.target? = some target ∧ d.here ≤ target ∧ target ≤ t.here

variable {δ : Int} {functions : NameTable Nat} {builtins : List String} {lo hi : Nat}
  {o o' : OpenInstruction}

/-- The jumps among the instructions of a node are settled, and they stay within the node. -/
theorem Emittable.written_target (h : Emittable builtins lo hi o)
    (jumps : (o.written functions).opcode = .jump ∨ (o.written functions).opcode = .jumpIf) :
    ∃ target, o.target? = some target ∧ (o.written functions).target? = some target ∧
      lo ≤ target ∧ target ≤ hi := by
  cases h with
  | jump low high => exact ⟨_, rfl, rfl, low, high⟩
  | jumpIf low high => exact ⟨_, rfl, rfl, low, high⟩
  | operation h =>
      rcases jumps with rfl | rfl
      · simp at h
      · simp at h
  | push | load | store | ret | func | call =>
      rcases jumps with other | other
      · cases other
      · cases other

/-- An instruction of a node moves when it is written. -/
theorem Emittable.written_moved (h : Emittable builtins lo hi o) (moved : o.Moved δ o') :
    (o.written functions).Moved δ (o'.written functions) := by
  cases moved with
  | jump move => exact .jump move
  | jumpIf move => exact .jumpIf move
  | same none =>
      exact .same (not_or.1 (mt h.written_target (by simp [none])))

/-- The code of a node moves when it is written. -/
theorem CodeWithin.written_moved {code code' : OpenCode} (h : CodeWithin builtins lo hi code)
    (moved : code.Moved δ code') :
    List.Forall₂ (Instruction.Moved δ) (code.map (·.written functions))
      (code'.map (·.written functions)) := by
  induction moved with
  | nil => exact .nil
  | cons first _ ih =>
      obtain ⟨head, tail⟩ := codeWithin_cons.1 h
      exact .cons (head.written_moved first) (ih tail)

namespace Draft

/-- The calls that wait for entries move along with their code. -/
theorem awaiting_moved {code code' : OpenCode} (moved : code.Moved δ code') :
    ∀ {base base' : Nat}, (base' : Int) = base + δ →
      List.Forall₂ (PendingMoved δ) (awaiting functions base code)
        (awaiting functions base' code') := by
  induction moved with
  | nil => exact fun _ => .nil
  | @cons o o' rest rest' first _ ih =>
      intro base base' move
      have later := @ih (base + 1) (base' + 1) (by omega)
      have same : o'.awaited? functions = o.awaited? functions := by
        cases first with
        | same => rfl
        | jump => rfl
        | jumpIf => rfl
      simp only [awaiting, List.zipIdx_cons, List.filterMap_cons, same] at later ⊢
      cases o.awaited? functions with
      | none => exact later
      | some callee => exact .cons ⟨move, rfl⟩ later

/-- Only the calls that a draft holds with a placeholder wait for entries. -/
theorem getElem?_awaiting {d : Draft} {code : OpenCode} {c : Nat × String}
    (h : c ∈ awaiting d.functions d.here code) :
    d.here ≤ c.1 ∧ c.1 < (d.append code).here ∧
      (d.append code).code[c.1]? = some (.call placeholder) := by
  obtain ⟨⟨o, place⟩, indexed, waits⟩ := List.mem_filterMap.1 h
  obtain ⟨callee, awaited, rfl⟩ := Option.map_eq_some_iff.1 waits
  obtain ⟨low, found⟩ := List.mk_mem_zipIdx_iff_le_and_getElem?_sub.1 indexed
  have inside := (List.getElem?_eq_some_iff.1 found).1
  refine ⟨low, by rw [here_append]; omega, ?_⟩
  rw [append, List.getElem?_append_right low, List.getElem?_map]
  show (code[place - d.here]?).map _ = _
  rw [found]
  cases o with
  | settled i => cases awaited
  | call name =>
      cases entry : d.functions.find? name with
      | none => simp [OpenInstruction.written, entry]
      | some a => simp [OpenInstruction.awaited?, entry] at awaited

/-- A draft with the code of a node behind it extends the draft. -/
theorem extends_append (d : Draft) {code : OpenCode}
    (h : CodeWithin builtins d.here (d.here + code.length) code) :
    d.Extends (d.append code) (code.map (·.written d.functions))
      (awaiting d.functions d.here code) where
  code := rfl
  functions := rfl
  pending := rfl
  placeholders _ := getElem?_awaiting
  targets i hi jumps := by
    obtain ⟨o, ho, rfl⟩ := List.mem_map.1 hi
    obtain ⟨target, -, found, low, high⟩ := (h o ho).written_target jumps
    exact ⟨target, found, low, by rwa [here_append]⟩

end Draft

/-- Whether a node can be drafted, and how its draft fails, does not depend on where it starts. -/
theorem emit_error {scope : Scope} {node : Node} {base : Nat} {e : CompileError}
    (h : emit scope base node = .error e) (base' : Nat) : emit scope base' node = .error e :=
  ((emit_stops scope node base').error_iff e).2 (((emit_stops scope node base).error_iff e).1 h)

/-- Drafts only grow, and they can be moved. Drafting a node adds its code behind a draft. Behind
    two drafts with the same functions it fails with the same error, or it succeeds for both: what
    was there stays, the jumps in what is added stay within it, and it is the same both times,
    except that jumps and the places of pending calls are as far apart as the ends of the drafts. -/
theorem drafts_are_relocatable (scope : Scope) (node : Node) {d d' : Draft}
    (same : d'.functions = d.functions) :
    draft scope d node = d.append <$> emit scope d.here node ∧
      ((∃ e, draft scope d node = .error e ∧ draft scope d' node = .error e) ∨
        ∃ t t' segment segment' calls calls',
          draft scope d node = .ok t ∧ draft scope d' node = .ok t' ∧
          d.Extends t segment calls ∧ d'.Extends t' segment' calls' ∧
          List.Forall₂ (Instruction.Moved (d'.here - d.here)) segment segment' ∧
          List.Forall₂ (PendingMoved (d'.here - d.here)) calls calls') := by
  refine ⟨draft_eq scope d node, ?_⟩
  rw [draft_eq, draft_eq]
  cases emitted : emit scope d.here node with
  | error e => exact .inl ⟨e, rfl, by rw [emit_error emitted]; rfl⟩
  | ok code =>
      obtain ⟨code', emitted', moved⟩ :=
        emit_moved (d := d'.here - d.here) emitted d'.here (by omega)
      refine .inr ⟨d.append code, d'.append code', _, _, _, _, rfl, by rw [emitted']; rfl,
        d.extends_append (emit_within emitted), d'.extends_append (emit_within emitted'), ?_, ?_⟩
      · rw [same]
        exact (emit_within emitted).written_moved moved
      · rw [same]
        exact Draft.awaiting_moved moved (by omega)

/-- A loop that calls two functions; only one of them may have an entry. -/
def Node.polling : Node :=
  .whileLoop (.call "ready" []) (.call "poll" [.ident "x"])

/-- The loop behind nothing, and behind three instructions of which one waits for its entry. -/
theorem drafts_are_relocatable_polling :
    let table : NameTable Nat := .ofList [("ready", 1)]
    let later : Draft := ⟨[.jump 9, .call Draft.placeholder, .plain .ret], table, [(1, "wait")]⟩
    let loop : List Instruction :=
      [.call 1, .plain .not, .jumpIf 6, .load "x", .call Draft.placeholder, .jump 0]
    draft ⟨[], none⟩ ⟨[], table, []⟩ .polling = .ok ⟨loop, table, [(4, "poll")]⟩ ∧
      ∃ loop', List.Forall₂ (Instruction.Moved 3) loop loop' ∧
        draft ⟨[], none⟩ later .polling =
          .ok ⟨later.code ++ loop', table, [(1, "wait"), (7, "poll")]⟩ := by
  intro table later loop
  have same : later.functions = (Draft.mk [] table []).functions := rfl
  obtain ⟨-, ⟨e, failed, -⟩ | ⟨t, t', segment, loop', calls, calls', drafted, drafted', extended,
    extended', moved, pending⟩⟩ :=
    drafts_are_relocatable ⟨[], none⟩ .polling same
  · cases failed
  · cases drafted
    cases drafted'
    obtain rfl : segment = loop := extended.code.symm
    refine ⟨rfl, loop', moved, ?_⟩
    rw [← extended'.code]
    rfl

end ImpStack
