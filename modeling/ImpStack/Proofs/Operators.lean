/-
Module: ImpStack.Proofs.Operators
Purpose: What the code of a binary operator does once its operands are on the stack: it leaves the
  operator's result in their place, or it fails because there is none.
Main exports: Machine.Leaves, Machine.Fails, BinaryOp.result, Machine.Applies, Machine.Operates,
  Applies.finished
-/
import ImpStack.Proofs.Traversal

namespace ImpStack

variable {σ : Type} {m : Machine σ} {op : BinaryOp} {a b : Value} {below : List Value}

namespace Machine

/-- The machine goes on, with a value on top of others. -/
structure Leaves (m : Machine σ) (v : Value) (below : List Value) : Prop where
  running : m.state.status = .running
  stack : m.state.stack = v :: below

/-- The machine was stopped by an error. -/
def Fails (m : Machine σ) : Prop := ∃ e, m.state.status = .failed e

theorem Leaves.not_fails {v : Value} (h : m.Leaves v below) : ¬ m.Fails := by
  rintro ⟨e, failed⟩
  rw [h.running] at failed
  cases failed

theorem Leaves.unique {v w : Value} {below' : List Value} (h : m.Leaves v below)
    (h' : m.Leaves w below') : v = w :=
  (List.cons.inj (h.stack.symm.trans h'.stack)).1

/-- The machine after as many steps as an operator has operations. -/
def operated (m : Machine σ) (op : BinaryOp) : Machine σ := m.after op.opcodes.length

/-- The machine runs without bounds, is about to execute the operations of a binary operator, and
    has the operands on the stack, the right one on top. -/
structure Applies (m : Machine σ) (op : BinaryOp) (a b : Value) (below : List Value) : Prop where
  table : m.table = .standard
  running : m.state.status = .running
  limits : m.state.limits = .unbounded
  placed : Placed m.program m.state.ip (op.opcodes.map .plain)
  stack : m.state.stack = b :: a :: below

/-- The machine runs without bounds and has come through the code of both operands of a binary node,
    which was compiled to its place in the program; the operands' values are on the stack. -/
structure Operates (m : Machine σ) (op : BinaryOp) (a b : Value) (below : List Value) : Prop where
  table : m.table = .standard
  running : m.state.status = .running
  limits : m.state.limits = .unbounded
  compiled : ∃ (scope : Scope) (base : Nat) (left right : Node)
    (leftCode rightCode code : OpenCode),
    emit scope base (.binary op left right) = .ok code ∧
      emit scope base left = .ok leftCode ∧
      emit scope (base + leftCode.length) right = .ok rightCode ∧
      Placed m.program base code ∧
      m.state.ip = base + leftCode.length + rightCode.length
  stack : m.state.stack = b :: a :: below

/-- What is left of the code of a binary node behind its operands are the operator's operations. -/
theorem Operates.applies (h : m.Operates op a b below) : m.Applies op a b below := by
  obtain ⟨scope, base, left, right, leftCode, rightCode, code, emitted, hl, hr, placed, ip⟩ :=
    h.compiled
  obtain ⟨leftCode', hl', rightCode', hr', rfl⟩ := emit_binary_ok.1 emitted
  cases hl.symm.trans hl'
  cases hr.symm.trans hr'
  rw [placed_append, List.length_append, ← Nat.add_assoc, ← ip] at placed
  exact ⟨h.table, h.running, h.limits, placed.2, h.stack⟩

end Machine

/-- What an operator makes of two values. -/
def BinaryOp.result (op : BinaryOp) (a b : Value) : Except OperatorError Value :=
  (fun v => if op.negated then .bool !v.truthy else v) <$> op.compute a b

namespace Machine.Applies

/-- The operations of an operator leave its result in place of the operands, or fail if there is
    none. -/
theorem finished (h : m.Applies op a b below) :
    (∀ v, op.result a b = .ok v → (m.operated op).Leaves v below) ∧
      ∀ e, op.result a b = .error e →
        (m.operated op).state.status = .failed (.ofOperator op.opcode e) := by
  have here := Machine.at_of_running (t := 0) h.table h.limits h.running
  have combined := @Eval.combine_apply σ op.opcode op.compute a b below
    ⟨m.state.stack, m.state.frames.active.bindings, m.state.builtins, m.hostCalls 0⟩ h.stack
  have arity : op.opcode.arity = 0 := by cases op <;> rfl
  have other : op.opcode ≠ .func := by cases op <;> nofun
  have placed := h.placed
  rw [op.opcodes_eq, List.map_cons, placed_plain_cons] at placed
  rw [operated, op.opcodes_eq, BinaryOp.result]
  cases computed : op.compute a b with
  | error e =>
      rw [computed] at combined
      have failed := here.failed h.table placed.1 arity.symm other (Handler.refines_opcode op)
        combined
      constructor
      · intro v same
        cases same
      · intro e' same
        cases same
        exact failed_of_le (Nat.le_add_left 1 _) failed
  | ok v =>
      rw [computed] at combined
      have arrived := here.computed h.table placed.1 arity.symm other (Handler.refines_opcode op)
        combined
      constructor
      · intro v' same
        cases same
        -- three of the comparisons have one more operation
        cases negated : op.negated with
        | false => exact ⟨arrived.running, arrived.stack⟩
        | true =>
            rw [negated] at placed
            have arrived := arrived.computed h.table (placed_plain_cons.1 placed.2).1 rfl
              (by decide) Handler.refines_not rfl
            exact ⟨arrived.running, arrived.stack⟩
      · intro e same
        cases same

/-- The code of an operator leaves just the operator's result. -/
theorem leaves_iff (h : m.Applies op a b below) {v : Value} :
    (m.operated op).Leaves v below ↔ op.result a b = .ok v := by
  obtain ⟨leaves, fails⟩ := h.finished
  refine ⟨fun left => ?_, leaves v⟩
  cases result : op.result a b with
  | ok w => rw [(leaves w result).unique left]
  | error e => exact absurd ⟨_, fails e result⟩ left.not_fails

/-- It fails exactly if there is no result. -/
theorem fails_iff (h : m.Applies op a b below) :
    (m.operated op).Fails ↔ ∃ e, op.result a b = .error e := by
  obtain ⟨leaves, fails⟩ := h.finished
  refine ⟨fun failed => ?_, fun ⟨e, result⟩ => ⟨_, fails e result⟩⟩
  cases result : op.result a b with
  | ok v => exact absurd failed (leaves v result).not_fails
  | error e => exact ⟨e, rfl⟩

end Machine.Applies

/-! ### Operators on constants

An operator on two constants is the smallest program that comes to the point where the theorems on
operators start, so it serves as their example. -/

/-- The bytecode of an operator on two constants. -/
def Bytecode.onConstants (op : BinaryOp) (a b : Value) : Bytecode :=
  ⟨(.push a :: .push b :: (op.opcodes.map .plain ++ [.plain .halt])).toArray, NameTable.empty⟩

/-- An operator on constants is compiled to its two constants and its operations. -/
theorem compile_onConstants (op : BinaryOp) (a b : Value) :
    compile [] ⟨[.binary op (.literal a) (.literal b)]⟩ = .ok (.onConstants op a b) := by
  cases op <;> rfl

/-- The machine of an operator on two constants when it has pushed both. -/
def Machine.onConstants (op : BinaryOp) (a b : Value) : Machine Unit :=
  (start (.onConstants op a b) (.empty ()) .unbounded).after 2

/-- After two steps the operation comes next, with both constants on the stack. -/
theorem Machine.operates_onConstants (op : BinaryOp) (a b : Value) :
    (onConstants op a b).Operates op a b [] where
  table := rfl
  running := rfl
  limits := rfl
  compiled := by
    have linked : link [] NameTable.empty
        ([.settled (.push a)] ++ [.settled (.push b)] ++ op.opcodes.map .plain ++ [.plain .halt]) =
          .ok (.push a :: .push b :: (op.opcodes.map .plain ++ [.plain .halt])) := by
      cases op <;> rfl
    exact ⟨default, 0, .literal a, .literal b, _, _, _, emit_binary_ok.2 ⟨_, rfl, _, rfl, rfl⟩,
      rfl, rfl, (placed_append.1 (placed_of_link linked)).1, rfl⟩
  stack := rfl

end ImpStack
