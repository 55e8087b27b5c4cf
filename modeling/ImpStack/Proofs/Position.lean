/-
Module: ImpStack.Proofs.Position
Purpose: Code at other addresses. The code of a node is the same wherever it starts, except that its
  jumps go as many addresses further as the code itself; so whether a node has code at all, and
  whether a function ends in its own return, does not depend on the position.
Main exports: OpenInstruction.Moved, OpenCode.Moved, emit_moved, emitFunction_moved
-/
import ImpStack.Proofs.Region
import Mathlib.Data.List.Forall2

namespace ImpStack

variable {d : Int}

/-- The same instruction in code that starts `d` addresses further. -/
inductive OpenInstruction.Moved (d : Int) : OpenInstruction → OpenInstruction → Prop where
  | same {o : OpenInstruction} (h : o.target? = none) : Moved d o o
  | jump {target target' : Nat} (h : (target' : Int) = target + d) :
      Moved d (.settled (.jump target)) (.settled (.jump target'))
  | jumpIf {target target' : Nat} (h : (target' : Int) = target + d) :
      Moved d (.settled (.jumpIf target)) (.settled (.jumpIf target'))

/-- The same code `d` addresses further. -/
def OpenCode.Moved (d : Int) (code code' : OpenCode) : Prop :=
  List.Forall₂ (OpenInstruction.Moved d) code code'

namespace OpenInstruction

@[simp] theorem target?_plain (op : Opcode) : (plain op).target? = none := by
  simp [plain, target?, Instruction.target?, Instruction.plain]

theorem Moved.symm {o o' : OpenInstruction} (h : Moved d o o') : Moved (-d) o' o := by
  cases h with
  | same none => exact .same none
  | jump h => exact .jump (by omega)
  | jumpIf h => exact .jumpIf (by omega)

/-- Jumps move along. -/
theorem Moved.target {o o' : OpenInstruction} (h : Moved d o o') {a a' : Nat}
    (move : (a' : Int) = a + d) (target : o.target? = some a) : o'.target? = some a' := by
  cases h with
  | same none =>
      rw [none] at target
      cases target
  | jump h =>
      cases target
      exact congrArg some (by omega)
  | jumpIf h =>
      cases target
      exact congrArg some (by omega)

end OpenInstruction

namespace OpenCode.Moved

variable {code code' code₁ code₁' code₂ code₂' : OpenCode}

theorem symm (h : Moved d code code') : Moved (-d) code' code := by
  induction h with
  | nil => exact .nil
  | cons first _ ih => exact .cons first.symm ih

theorem length_eq (h : Moved d code code') : code.length = code'.length := List.Forall₂.length_eq h

theorem append (h₁ : Moved d code₁ code₁') (h₂ : Moved d code₂ code₂') :
    Moved d (code₁ ++ code₂) (code₁' ++ code₂') := List.rel_append h₁ h₂

/-- Code without jumps is the same everywhere. -/
theorem refl (h : ∀ o ∈ code, o.target? = none) : Moved d code code :=
  List.forall₂_same.2 fun o ho => .same (h o ho)

theorem plain (ops : List Opcode) : Moved d (ops.map .plain) (ops.map .plain) := by
  refine refl fun o ho => ?_
  obtain ⟨op, _, rfl⟩ := List.mem_map.1 ho
  exact OpenInstruction.target?_plain op

/-- Moving keeps every instruction at its place in the code. -/
theorem getElem? (h : Moved d code code') {k : Nat} {o : OpenInstruction}
    (found : code[k]? = some o) : ∃ o', code'[k]? = some o' ∧ o.Moved d o' := by
  induction h generalizing k with
  | nil => cases found
  | @cons first first' rest rest' moved _ ih =>
      cases k with
      | zero =>
          cases found
          exact ⟨first', rfl, moved⟩
      | succ k => exact ih found

theorem mem (h : Moved d code code') {o : OpenInstruction} (ho : o ∈ code) :
    ∃ o' ∈ code', o.Moved d o' := by
  obtain ⟨k, found⟩ := List.mem_iff_getElem?.1 ho
  obtain ⟨o', found', moved⟩ := h.getElem? found
  exact ⟨o', List.mem_of_getElem? found', moved⟩

end OpenCode.Moved

open OpenInstruction (target?_plain)

/-! ### The code of a node

By induction on the node: every address in its code is counted from where the code starts, so it
moves along. The parts move by the same distance, as the code before them keeps its length. -/

variable {scope : Scope}

theorem moved_unary (op : UnaryOp) : OpenCode.Moved d op.code op.code := by
  cases op with
  | not => exact .plain [.not]
  | neg => exact .cons (.same rfl) (OpenCode.Moved.plain [.mul])

/-- Calls name their callees and no addresses, so they do not change. -/
theorem moved_callCode (callee : String) (count : Nat) :
    OpenCode.Moved d (scope.callCode callee count) (scope.callCode callee count) := by
  rw [Scope.callCode]
  split
  · exact .cons (.same rfl) .nil
  · exact .cons (.same rfl) .nil

theorem moved_stores (declaration : Declaration) :
    OpenCode.Moved d declaration.stores declaration.stores := by
  refine .refl fun o ho => ?_
  obtain ⟨param, _, rfl⟩ := List.mem_map.1 ho
  rfl

mutual

/-- The code of a node moves with its first address. -/
theorem emit_moved : ∀ {node : Node} {base : Nat} {code : OpenCode},
    emit scope base node = .ok code → ∀ base' : Nat, (base' : Int) = base + d →
      ∃ code', emit scope base' node = .ok code' ∧ OpenCode.Moved d code code'
  | .literal value, base, code, h, base', move => by
      rw [← emit_literal_ok.1 h]
      exact ⟨_, emit_literal_ok.2 rfl, .cons (.same rfl) .nil⟩
  | .ident name, base, code, h, base', move => by
      rw [← emit_ident_ok.1 h]
      exact ⟨_, emit_ident_ok.2 rfl, .cons (.same rfl) .nil⟩
  | .assign name value, base, code, h, base', move => by
      obtain ⟨valueCode, hv, rfl⟩ := emit_assign_ok.1 h
      obtain ⟨valueCode', hv', mv⟩ := emit_moved hv base' move
      exact ⟨_, emit_assign_ok.2 ⟨_, hv', rfl⟩, mv.append (.cons (.same rfl) .nil)⟩
  | .binary op left right, base, code, h, base', move => by
      obtain ⟨leftCode, hl, rightCode, hr, rfl⟩ := emit_binary_ok.1 h
      obtain ⟨leftCode', hl', ml⟩ := emit_moved hl base' move
      have left := ml.length_eq
      -- the moved code is as long as the other, so the next part moves by the same distance
      obtain ⟨rightCode', hr', mr⟩ :=
        emit_moved hr (base' + leftCode'.length) (by omega)
      exact ⟨_, emit_binary_ok.2 ⟨_, hl', _, hr', rfl⟩, (ml.append mr).append (.plain op.opcodes)⟩
  | .unary op operand, base, code, h, base', move => by
      obtain ⟨operandCode, ho, rfl⟩ := emit_unary_ok.1 h
      obtain ⟨operandCode', ho', mo⟩ := emit_moved ho base' move
      exact ⟨_, emit_unary_ok.2 ⟨_, ho', rfl⟩, mo.append (moved_unary op)⟩
  | .call callee args, base, code, h, base', move => by
      obtain ⟨argsCode, ha, rfl⟩ := emit_call_ok.1 h
      obtain ⟨argsCode', ha', ma⟩ := emitAll_moved ha base' move
      exact ⟨_, emit_call_ok.2 ⟨_, ha', rfl⟩, ma.append (moved_callCode callee args.length)⟩
  | .ret value, base, code, h, base', move => by
      obtain ⟨valueCode, hv, rfl⟩ := emit_ret_ok.1 h
      obtain ⟨valueCode', hv', mv⟩ := emit_moved hv base' move
      exact ⟨_, emit_ret_ok.2 ⟨_, hv', rfl⟩, mv.append (.plain [.ret])⟩
  | .block children, base, code, h, base', move => by
      obtain ⟨code', hc', mc⟩ := emitAll_moved (emit_block_ok.1 h) base' move
      exact ⟨code', emit_block_ok.2 hc', mc⟩
  | .ifThen condition thenBranch, base, code, h, base', move => by
      obtain ⟨conditionCode, hc, thenCode, ht, rfl⟩ := emit_ifThen_ok.1 h
      obtain ⟨conditionCode', hc', mc⟩ := emit_moved hc base' move
      have condition := mc.length_eq
      obtain ⟨thenCode', ht', mt⟩ :=
        emit_moved ht (base' + conditionCode'.length + 2) (by omega)
      have thenBranch := mt.length_eq
      refine ⟨_, emit_ifThen_ok.2 ⟨_, hc', _, ht', rfl⟩, (mc.append ?_).append mt⟩
      exact .cons (.same (target?_plain _)) (.cons (.jumpIf (by omega)) .nil)
  | .ifElse condition thenBranch elseBranch, base, code, h, base', move => by
      obtain ⟨conditionCode, hc, thenCode, ht, elseCode, he, rfl⟩ := emit_ifElse_ok.1 h
      obtain ⟨conditionCode', hc', mc⟩ := emit_moved hc base' move
      have condition := mc.length_eq
      obtain ⟨thenCode', ht', mt⟩ :=
        emit_moved ht (base' + conditionCode'.length + 2) (by omega)
      have thenBranch := mt.length_eq
      obtain ⟨elseCode', he', me⟩ :=
        emit_moved he (base' + conditionCode'.length + 2 + thenCode'.length + 1) (by omega)
      have elseBranch := me.length_eq
      refine ⟨_, emit_ifElse_ok.2 ⟨_, hc', _, ht', _, he', rfl⟩,
        (((mc.append ?_).append mt).append ?_).append me⟩
      · exact .cons (.same (target?_plain _)) (.cons (.jumpIf (by omega)) .nil)
      · exact .cons (.jump (by omega)) .nil
  | .whileLoop condition body, base, code, h, base', move => by
      obtain ⟨conditionCode, hc, bodyCode, hb, rfl⟩ := emit_whileLoop_ok.1 h
      obtain ⟨conditionCode', hc', mc⟩ := emit_moved hc base' move
      have condition := mc.length_eq
      obtain ⟨bodyCode', hb', mb⟩ :=
        emit_moved hb (base' + conditionCode'.length + 2) (by omega)
      have body := mb.length_eq
      refine ⟨_, emit_whileLoop_ok.2 ⟨_, hc', _, hb', rfl⟩, ((mc.append ?_).append mb).append ?_⟩
      · exact .cons (.same (target?_plain _)) (.cons (.jumpIf (by omega)) .nil)
      · exact .cons (.jump move) .nil
  | .doWhile body condition, base, code, h, base', move => by
      obtain ⟨bodyCode, hb, conditionCode, hc, rfl⟩ := emit_doWhile_ok.1 h
      obtain ⟨bodyCode', hb', mb⟩ := emit_moved hb base' move
      have body := mb.length_eq
      obtain ⟨conditionCode', hc', mc⟩ :=
        emit_moved hc (base' + bodyCode'.length) (by omega)
      exact ⟨_, emit_doWhile_ok.2 ⟨_, hb', _, hc', rfl⟩,
        (mb.append mc).append (.cons (.jumpIf move) .nil)⟩
  | .forRange var start stop body, base, code, h, base', move => by
      obtain ⟨startCode, hs, stopCode, hp, bodyCode, hb, rfl⟩ := emit_forRange_ok.1 h
      obtain ⟨startCode', hs', ms⟩ := emit_moved hs base' move
      have start := ms.length_eq
      obtain ⟨stopCode', hp', mp⟩ :=
        emit_moved hp (base' + startCode'.length + 1 + 1) (by omega)
      have stop := mp.length_eq
      obtain ⟨bodyCode', hb', mb⟩ :=
        emit_moved hb (base' + startCode'.length + 1 + 1 + stopCode'.length + 2) (by omega)
      have body := mb.length_eq
      refine ⟨_, emit_forRange_ok.2 ⟨_, hs', _, hp', _, hb', rfl⟩,
        ((((ms.append ?_).append mp).append ?_).append mb).append ?_⟩
      · exact .cons (.same rfl) (.cons (.same rfl) .nil)
      · exact .cons (.same (target?_plain _)) (.cons (.jumpIf (by omega)) .nil)
      · exact .cons (.same rfl) (.cons (.same rfl) (.cons (.same (target?_plain _))
          (.cons (.same rfl) (.cons (.jump (by omega)) .nil))))
  | .function name params body, base, code, h, base', move => absurd h emit_function_error

/-- The same of a sequence of nodes. -/
theorem emitAll_moved : ∀ {nodes : List Node} {base : Nat} {code : OpenCode},
    emitAll scope base nodes = .ok code → ∀ base' : Nat, (base' : Int) = base + d →
      ∃ code', emitAll scope base' nodes = .ok code' ∧ OpenCode.Moved d code code'
  | [], base, code, h, base', move => by
      rw [← emitAll_nil_ok.1 h]
      exact ⟨_, emitAll_nil_ok.2 rfl, .nil⟩
  | node :: rest, base, code, h, base', move => by
      obtain ⟨nodeCode, hn, restCode, hr, rfl⟩ := emitAll_cons_ok.1 h
      obtain ⟨nodeCode', hn', mn⟩ := emit_moved hn base' move
      have node := mn.length_eq
      obtain ⟨restCode', hr', mr⟩ :=
        emitAll_moved hr (base' + nodeCode'.length) (by omega)
      exact ⟨_, emitAll_cons_ok.2 ⟨_, hn', _, hr', rfl⟩, mn.append mr⟩

end

/-! ### The code of a function

A function's own return is added unless its code ends in one that no branch goes past. Moving the
code does not make or remove returns, and the branches to its end move along, so the decision is the
same everywhere. -/

/-- Code that ends in a return which nothing skips does so wherever it starts. -/
theorem OpenCode.Moved.endsInReturn {base : Nat} {code code' : OpenCode}
    (h : OpenCode.Moved d code code') (base' : Nat) (move : (base' : Int) = base + d)
    (ends : ImpStack.endsInReturn base code = true) :
    ImpStack.endsInReturn base' code' = true := by
  rw [ImpStack.endsInReturn, Bool.and_eq_true, decide_eq_true_iff, List.all_eq_true] at ends ⊢
  obtain ⟨last, unskipped⟩ := ends
  have length := h.length_eq
  constructor
  · rw [List.getLast?_eq_getElem?] at last ⊢
    obtain ⟨o', last', moved⟩ := h.getElem? last
    cases moved
    rw [← length, last']
  · intro o' ho'
    obtain ⟨o, ho, moved⟩ := h.symm.mem ho'
    refine decide_eq_true fun target => of_decide_eq_true (unskipped o ho) ?_
    exact moved.target (by omega) target

/-- The code of a function moves with its entry; in particular it does not depend on the entry
    whether the function gets a return of its own. -/
theorem emitFunction_moved {builtins : List String} {base : Nat} {f : Declaration}
    {code : OpenCode} (h : emitFunction builtins base f = .ok code) (base' : Nat)
    (move : (base' : Int) = base + d) :
    ∃ code', emitFunction builtins base' f = .ok code' ∧ OpenCode.Moved d code code' := by
  simp only [emitFunction, bind_ok_iff, List.length_map, List.length_reverse, Except.ok.injEq]
    at h ⊢
  obtain ⟨body, hb, rfl⟩ := h
  obtain ⟨body', hb', mb⟩ := emit_moved (d := d) hb (base' + f.params.length) (by omega)
  have whole : OpenCode.Moved d (f.stores ++ body) (f.stores ++ body') :=
    (moved_stores f).append mb
  have ends : endsInReturn base' (f.stores ++ body') = endsInReturn base (f.stores ++ body) :=
    Bool.eq_iff_iff.2 ⟨whole.symm.endsInReturn base (by omega), whole.endsInReturn base' move⟩
  refine ⟨_, ⟨body', hb', rfl⟩, ?_⟩
  rw [← Declaration.stores, ends]
  split
  · exact whole
  · exact whole.append (.plain [.ret])

end ImpStack
