/-
Module: ImpStack.Proofs.Faults
Purpose: How runs of compiled programs can fail. Their instructions are well formed and stay inside
  the program, and the host has the functions that they call; out of the outermost frame returns
  only a return in a top-level statement.
Main exports: Program.CanFailWith, Assembly.step_fault, compiled_faults
-/
import ImpStack.Proofs.Action
import ImpStack.Proofs.ControlFlow
import ImpStack.Proofs.Discipline
import ImpStack.Proofs.Session

namespace ImpStack

variable {scope : Scope} {base : Nat} {code : OpenCode}

/-! ### Returns in the code of a node

A function's code ends with a return of its own, but in top-level statements a return can only come
from the source. It is found there by following the emission through the nodes. -/

/-- Whether the code of a node, wherever it starts, holds a return. -/
def EmitsReturn (scope : Scope) (node : Node) : Prop :=
  ∃ base code, emit scope base node = .ok code ∧ .plain .ret ∈ code

theorem ret_not_mem_opcodes (op : BinaryOp) :
    OpenInstruction.plain .ret ∉ op.opcodes.map OpenInstruction.plain := by
  cases op <;> decide

theorem ret_not_mem_unary (op : UnaryOp) : OpenInstruction.plain .ret ∉ op.code := by
  cases op <;> decide

theorem ret_not_mem_callCode (callee : String) (count : Nat) :
    OpenInstruction.plain .ret ∉ scope.callCode callee count := by
  intro mem
  rw [Scope.callCode] at mem
  split at mem <;> cases List.mem_singleton.1 mem

/-- Only a return without operands is one. -/
theorem ret_eq_settled {i : Instruction} :
    OpenInstruction.plain .ret = .settled i ↔ i.opcode = .ret ∧ i.operands = [] := by
  obtain ⟨op, operands⟩ := i
  rw [OpenInstruction.plain, Instruction.plain, OpenInstruction.settled.injEq,
    Instruction.mk.injEq, eq_comm, eq_comm (a := [])]

theorem ret_eq_plain {op : Opcode} : OpenInstruction.plain .ret = .plain op ↔ op = .ret :=
  ret_eq_settled.trans (and_iff_left rfl)

/-- A return in the code of a sequence is in the code of one of its nodes. -/
theorem emitAll_ret {nodes : List Node} :
    ∀ {base : Nat} {code : OpenCode}, emitAll scope base nodes = .ok code →
      .plain .ret ∈ code → ∃ node ∈ nodes, EmitsReturn scope node := by
  induction nodes with
  | nil =>
      intro base code h mem
      rw [← emitAll_nil_ok.1 h] at mem
      cases mem
  | cons node rest ih =>
      intro base code h mem
      obtain ⟨nodeCode, hn, restCode, hr, rfl⟩ := emitAll_cons_ok.1 h
      rcases List.mem_append.1 mem with mem | mem
      · exact ⟨node, List.mem_cons_self, _, _, hn, mem⟩
      · obtain ⟨node', mem', found⟩ := ih hr mem
        exact ⟨node', List.mem_cons_of_mem _ mem', found⟩

/-- A return in the code of a node is that of the node, or in the code of a node right below it. -/
theorem EmitsReturn.of_children {node : Node} (h : EmitsReturn scope node) :
    (∃ value, node = .ret value) ∨ ∃ child ∈ node.children, EmitsReturn scope child := by
  obtain ⟨base, code, h, mem⟩ := h
  cases node with
  | literal value =>
      rw [← emit_literal_ok.1 h, List.mem_singleton] at mem
      cases mem
  | ident name =>
      rw [← emit_ident_ok.1 h, List.mem_singleton] at mem
      cases mem
  | assign name value =>
      obtain ⟨valueCode, hv, rfl⟩ := emit_assign_ok.1 h
      simp only [List.mem_append, List.mem_singleton, ret_eq_settled, Instruction.store,
        reduceCtorEq, false_and, or_false] at mem
      exact Or.inr ⟨value, by simp [Node.children, Node.operands], _, _, hv, mem⟩
  | binary op left right =>
      obtain ⟨leftCode, hl, rightCode, hr, rfl⟩ := emit_binary_ok.1 h
      simp only [List.mem_append, ret_not_mem_opcodes, or_false] at mem
      rcases mem with mem | mem
      · exact Or.inr ⟨left, by simp [Node.children, Node.operands], _, _, hl, mem⟩
      · exact Or.inr ⟨right, by simp [Node.children, Node.operands], _, _, hr, mem⟩
  | unary op operand =>
      obtain ⟨operandCode, ho, rfl⟩ := emit_unary_ok.1 h
      simp only [List.mem_append, ret_not_mem_unary, or_false] at mem
      exact Or.inr ⟨operand, by simp [Node.children, Node.operands], _, _, ho, mem⟩
  | call callee args =>
      obtain ⟨argsCode, ha, rfl⟩ := emit_call_ok.1 h
      simp only [List.mem_append, ret_not_mem_callCode, or_false] at mem
      obtain ⟨arg, mem', found⟩ := emitAll_ret ha mem
      exact Or.inr ⟨arg, by simpa [Node.children, Node.operands, Node.bodies] using mem', found⟩
  | ret value => exact Or.inl ⟨value, rfl⟩
  | block children =>
      obtain ⟨child, mem', found⟩ := emitAll_ret (emit_block_ok.1 h) mem
      exact Or.inr ⟨child, by simpa [Node.children, Node.operands, Node.bodies] using mem', found⟩
  | ifThen condition thenBranch =>
      obtain ⟨conditionCode, hc, thenCode, ht, rfl⟩ := emit_ifThen_ok.1 h
      simp only [List.mem_append, List.mem_cons, List.not_mem_nil, ret_eq_settled, ret_eq_plain,
        Instruction.jumpIf, reduceCtorEq, false_and, or_false] at mem
      rcases mem with mem | mem
      · exact Or.inr ⟨condition, by simp [Node.children, Node.operands], _, _, hc, mem⟩
      · exact Or.inr ⟨thenBranch, by simp [Node.children, Node.bodies], _, _, ht, mem⟩
  | ifElse condition thenBranch elseBranch =>
      obtain ⟨conditionCode, hc, thenCode, ht, elseCode, he, rfl⟩ := emit_ifElse_ok.1 h
      simp only [List.mem_append, List.mem_cons, List.not_mem_nil, ret_eq_settled, ret_eq_plain,
        Instruction.jumpIf, Instruction.jump, reduceCtorEq, false_and, or_false, or_assoc] at mem
      rcases mem with mem | mem | mem
      · exact Or.inr ⟨condition, by simp [Node.children, Node.operands], _, _, hc, mem⟩
      · exact Or.inr ⟨thenBranch, by simp [Node.children, Node.bodies], _, _, ht, mem⟩
      · exact Or.inr ⟨elseBranch, by simp [Node.children, Node.bodies], _, _, he, mem⟩
  | whileLoop condition body =>
      obtain ⟨conditionCode, hc, bodyCode, hb, rfl⟩ := emit_whileLoop_ok.1 h
      simp only [List.mem_append, List.mem_cons, List.not_mem_nil, ret_eq_settled, ret_eq_plain,
        Instruction.jumpIf, Instruction.jump, reduceCtorEq, false_and, or_false] at mem
      rcases mem with mem | mem
      · exact Or.inr ⟨condition, by simp [Node.children, Node.operands], _, _, hc, mem⟩
      · exact Or.inr ⟨body, by simp [Node.children, Node.bodies], _, _, hb, mem⟩
  | doWhile body condition =>
      obtain ⟨bodyCode, hb, conditionCode, hc, rfl⟩ := emit_doWhile_ok.1 h
      simp only [List.mem_append, List.mem_singleton, ret_eq_settled, Instruction.jumpIf,
        reduceCtorEq, false_and, or_false] at mem
      rcases mem with mem | mem
      · exact Or.inr ⟨body, by simp [Node.children, Node.bodies], _, _, hb, mem⟩
      · exact Or.inr ⟨condition, by simp [Node.children, Node.operands], _, _, hc, mem⟩
  | forRange var start stop body =>
      obtain ⟨startCode, hs, stopCode, hp, bodyCode, hb, rfl⟩ := emit_forRange_ok.1 h
      simp only [List.mem_append, List.mem_cons, List.not_mem_nil, ret_eq_settled, ret_eq_plain,
        Instruction.store, Instruction.load, Instruction.push, Instruction.jumpIf,
        Instruction.jump, reduceCtorEq, false_and, or_false, or_assoc] at mem
      rcases mem with mem | mem | mem
      · exact Or.inr ⟨start, by simp [Node.children, Node.operands], _, _, hs, mem⟩
      · exact Or.inr ⟨stop, by simp [Node.children, Node.operands], _, _, hp, mem⟩
      · exact Or.inr ⟨body, by simp [Node.children, Node.bodies], _, _, hb, mem⟩
  | function name params body => exact absurd h emit_function_error

/-- A return in the code of a node is that of a return in the node. -/
theorem EmitsReturn.part (node : Node) (h : EmitsReturn scope node) :
    ∃ value, .ret value ∈ node.parts := by
  induction node using Node.induction_on_children with
  | step node ih =>
      rcases h.of_children with ⟨value, rfl⟩ | ⟨child, mem, below⟩
      · exact ⟨value, Node.self_mem_parts _⟩
      · obtain ⟨value, found⟩ := ih child mem below
        exact ⟨value, Node.parts_of_child mem found⟩

/-! ### Instructions of compiled programs

Linking fills in addresses and changes nothing else. So a return at the top level is one that a
statement emits, and the name in a call of the host is one of those that the compiler was told. -/

variable {σ : Type} {builtins : List String} {p : Program} {b : Bytecode}
  {functions : List FunctionCode} {start : Nat} {main : OpenCode}

/-- A linked return is one of the code, and a linked call of the host goes to one of its names. -/
theorem Emittable.linked_ret_func {lo hi : Nat} {entries : NameTable Nat} {o : OpenInstruction}
    {i : Instruction} (h : Emittable builtins lo hi o) (link : o.linked? entries = some i) :
    (i.opcode = .ret → o = .plain .ret) ∧
      (i.opcode = .func → ∃ name count, name ∈ builtins ∧ i = .func name count) := by
  cases h with
  | push value => cases link; exact ⟨nofun, nofun⟩
  | load name => cases link; exact ⟨nofun, nofun⟩
  | store name => cases link; exact ⟨nofun, nofun⟩
  | @operation op mem =>
      cases link
      refine ⟨fun ret => ?_, fun func => ?_⟩
      · cases ret
        simp at mem
      · cases func
        simp at mem
  | jump low high => cases link; exact ⟨nofun, nofun⟩
  | jumpIf low high => cases link; exact ⟨nofun, nofun⟩
  | ret => exact ⟨fun _ => rfl, fun func => by cases link; cases func⟩
  | @func name count known =>
      cases link
      exact ⟨nofun, fun _ => ⟨name, count, List.contains_iff_mem.1 known, rfl⟩⟩
  | call unknown =>
      obtain ⟨entry, _, rfl⟩ := Option.map_eq_some_iff.1 link
      exact ⟨nofun, nofun⟩

namespace Assembly

/-- Control is always at an instruction of the program. -/
theorem fetch (h : Assembly builtins p b functions start main) {s : State σ}
    (confined : Confined b s) : ∃ i, b.get? s.ip = some i := by
  have inside {r : Region} {last : Instruction} (sealed : r.Sealed b last) {a : Nat}
      (mem : a ∈ r) : ∃ i, b.get? a = some i := by
    rcases sealed.fetch mem with ⟨_, i, fetched, _⟩ | ⟨_, fetched⟩
    · exact ⟨i, fetched⟩
    · exact ⟨last, fetched⟩
  obtain ⟨r, chain, mem | ⟨_, first⟩⟩ := confined.region
  · obtain ⟨last, sealed, _⟩ := h.sealed_of_chain chain
    exact inside sealed mem
  · rw [first]
    rcases h.first_instruction with mem | jump
    · exact inside h.main_sealed mem
    · exact ⟨_, jump⟩

/-- The names in calls of the host are those that the program was compiled against. -/
theorem func_name (h : Assembly builtins p b functions start main) {a : Nat} {i : Instruction}
    {name : String} (fetched : b.get? a = some i) (func : i.opcode = .func)
    (operand : i.operands[0]? = some (.name name)) : name ∈ builtins := by
  rcases h.origin fetched with rfl | rfl | ⟨lo, hi, o, _, emittable, linked⟩
  · cases func
  · cases func
  · obtain ⟨name', count, known, rfl⟩ := (emittable.linked_ret_func linked).2 func
    cases operand
    exact known

/-- A return in the top-level code is that of a top-level statement. -/
theorem ret_of_main (h : Assembly builtins p b functions start main) {a : Nat} {i : Instruction}
    (mem : a ∈ b.mainRegion) (fetched : b.get? a = some i) (ret : i.opcode = .ret) :
    ∃ s ∈ p.body, ∃ value, .ret value ∈ s.parts := by
  rcases h.main_origin mem fetched with rfl | ⟨o, ho, linked⟩
  · cases ret
  · have plain := ((emitAll_within h.mainEmitted o ho).linked_ret_func linked).1 ret
    subst plain
    obtain ⟨s, mem, emits⟩ := emitAll_ret h.mainEmitted ho
    exact ⟨s, mem, emits.part s⟩

/-- Only the top-level code returns out of the outermost frame. -/
theorem ret_at_root (h : Assembly builtins p b functions start main) {s : State σ}
    (confined : Confined b s) (root : s.frames.callers = []) {i : Instruction}
    (fetched : b.get? s.ip = some i) (ret : i.opcode = .ret) :
    ∃ s ∈ p.body, ∃ value, .ret value ∈ s.parts := by
  obtain ⟨r, chain, mem | ⟨_, first⟩⟩ := confined.region
  · have outermost : r = b.mainRegion := by
      rw [CallStack.frames, root] at chain
      cases chain with
      | root _ => rfl
      | call below inside next call function returns => cases below
    exact h.ret_of_main (outermost ▸ mem) fetched ret
  · rw [first] at fetched
    rcases h.first_instruction with mem | jump
    · exact h.ret_of_main mem fetched ret
    · rw [jump, Option.some.injEq] at fetched
      subst fetched
      cases ret

end Assembly

/-! ### Runs of compiled programs

What is left of all possible errors comes from the operators, the variables, the stack, the bounds
and the host. The instructions are never the reason. -/

/-- The errors that a run of a compiled program can end in. -/
def Program.CanFailWith (p : Program) : RuntimeError → Prop
  | .unsupportedInstruction _ => False
  | .malformedInstruction .. => False
  | .invalidAddress .. => False
  | .unknownBuiltin _ => False
  | .stackUnderflow .frame _ => ∃ s ∈ p.body, ∃ value, .ret value ∈ s.parts
  | _ => True

/-- An instruction of a compiled program fails only in one of these ways, if the host has the
    functions that the program was compiled against. -/
theorem Assembly.handler_fault (h : Assembly builtins p b functions start main) {s t : State σ}
    (confined : Confined b s)
    (hosted : ∀ name ∈ builtins, s.builtins.contains name = true) {i : Instruction}
    (fetched : b.get? s.ip = some i) {e : RuntimeError}
    (failed : Handler.ofOpcode i.opcode i.operands (Machine.fetched s i) = .error e t) :
    p.CanFailWith e := by
  rcases Handler.ofOpcode_error failed with fault | ⟨k, rfl⟩ | ⟨k, rfl⟩ | ⟨ret, popped, rfl⟩
  · cases fault with
    | malformed reason kinds => exact kinds (kinds_of_check h.check fetched)
    | unknown name func operand missing =>
        have known := hosted name (h.func_name fetched func operand)
        rw [Builtins.contains, NameTable.contains] at known
        rw [show s.builtins.functions.find? name = none from missing] at known
        cases known
    | underflow => trivial
    | operator e => cases e <;> trivial
    | unbound name => trivial
    | builtin name message => trivial
  · trivial
  · trivial
  · refine h.ret_at_root confined ?_ fetched ret
    cases callers : s.frames.callers with
    | nil => rfl
    | cons caller rest =>
        obtain ⟨left, found, _⟩ := CallStack.pop?_of_call callers
        rw [show s.frames.pop? = none from popped] at found
        cases found

/-- One step of a compiled program that is confined to its code fails only as its source allows. -/
theorem Assembly.step_fault (h : Assembly builtins p b functions start main) {m : Machine σ}
    (program : m.program = b) (table : m.table = .standard) (running : m.state.status = .running)
    (confined : Confined b m.state)
    (hosted : ∀ name ∈ builtins, m.state.builtins.contains name = true) {e : RuntimeError}
    (failed : m.step.state.status = .failed e) : p.CanFailWith e := by
  obtain ⟨i, fetched⟩ := h.fetch confined
  have arity : i.operands.length = i.opcode.arity := by
    rw [Opcode.arity, ← kinds_of_check h.check fetched, List.length_map]
  cases left : m.state.stepLimit? with
  | some limit =>
      rw [Machine.step_of_running running, Machine.execute_apply, left] at failed
      cases failed
      trivial
  | none =>
      have handled := Machine.step_eq table running left (program.symm ▸ fetched) arity
      rw [handled] at failed
      cases done : Handler.ofOpcode i.opcode i.operands (Machine.fetched m.state i) with
      | error e' t =>
          rw [done] at failed
          cases failed
          exact h.handler_fault confined hosted fetched done
      | ok _ t =>
          rw [done] at failed
          have succeeds := (Handler.ofOpcode_transfer done).succeeds running
          simp only [Machine.settle] at failed
          simp [State.error?, failed] at succeeds

/-- However a host steps a machine with a compiled program, and whatever functions it registers in
    between: control stays in place, and an error is one of those that compiled programs have. -/
theorem Session.compiled (h : Assembly builtins p b functions start main) {host : Builtins σ}
    {limits : Limits} {m : Machine σ} {past : List (Machine σ)}
    (hosted : ∀ name ∈ builtins, host.contains name = true)
    (session : Session (.start b host limits) past m) :
    (m.state.status = .running → Confined b m.state) ∧
      ∀ e, m.state.status = .failed e → p.CanFailWith e := by
  induction session with
  | start => exact ⟨fun _ => .initial b host limits, nofun⟩
  | @step past m before ih =>
      obtain ⟨confined, faults⟩ := ih
      cases halted : m.state.isHalted with
      | true =>
          rw [Machine.step_of_halted halted]
          exact ⟨confined, faults⟩
      | false =>
          have running := Machine.isHalted_eq_false_iff.1 halted
          have confined := confined running
          refine ⟨fun goes => confined.step h before.program before.table running goes, ?_⟩
          intro e failed
          refine h.step_fault before.program before.table running confined ?_ failed
          exact fun name known => before.contains rfl (hosted name known)
  | register before name f ih =>
      obtain ⟨confined, faults⟩ := ih
      exact ⟨fun running => ⟨(confined running).region, (confined running).balance⟩, faults⟩

/-- Compiled programs fail only in the documented ways. -/
theorem compiled_faults {host : Builtins σ} (compiled : compile host.names p = .ok b)
    {limits : Limits} {m : Machine σ} {past : List (Machine σ)}
    (session : Session (.start b host limits) past m) {e : RuntimeError}
    (failed : m.outcome = .error e) : p.CanFailWith e := by
  obtain ⟨functions, start, main, h⟩ := compile_assembly compiled
  have hosted : ∀ name ∈ host.names, host.contains name = true :=
    fun name known => Builtins.mem_names.1 known
  exact (session.compiled h hosted).2 e (Machine.failed_of_outcome failed)

/-- A call of the host, and a return out of the top-level statements. -/
def Program.early : Program where
  statements := [.call "print" [.literal (.int 1)], .ret (.literal (.int 2))]

/-- The bytecode of `Program.early`. -/
def Bytecode.early : Bytecode :=
  ⟨#[.push (.int 1), .func "print" 1, .push (.int 2), .plain .ret, .plain .halt], NameTable.empty⟩

/-- A program with a return at its top level compiles to code that returns from the outermost frame.
    -/
theorem compile_early : compile ["print"] .early = .ok .early := rfl

/-- The host registers a function after the first step. -/
theorem compiled_faults_early :
    ∃ (past : List (Machine (List String))) (m : Machine (List String)),
      Session (.start .early .printer .unbounded) past m ∧
      m.outcome = .error (.stackUnderflow .frame .ret) ∧
      ∃ s ∈ Program.early.body, ∃ value, .ret value ∈ s.parts := by
  have compiled : compile Builtins.printer.names .early = .ok .early := by
    rw [Builtins.names_printer]
    exact compile_early
  have session : Session (.start .early .printer .unbounded) _ _ :=
    ((Session.start.step.register "now" fun _ lines => (.ok (.int 0), lines)).step.step).step
  exact ⟨_, _, session, rfl, compiled_faults compiled session rfl⟩

end ImpStack
