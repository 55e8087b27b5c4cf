/-
Module: ImpStack.Proofs.Evaluation
Purpose: What syntax trees mean, without code: nodes are evaluated by recursion on their structure,
  with one stack of values that all calls share and flat variables for each call. Rounds of loops
  and nested calls are counted, so that an evaluation that does not end is told from one that does.
Main exports: Env, Interruption, Eval, evalNode, evalNodes, enterFunction, Program.evaluate
-/
import ImpStack.Program
import ImpStack.Proofs.HostCalls

namespace ImpStack

/-- What evaluation reads and changes. -/
structure Env (σ : Type) where
  /-- The values of all calls, the last one first. -/
  stack : List Value
  /-- The variables of the running function. -/
  bindings : NameTable Value
  builtins : Builtins σ
  /-- The calls of host functions so far, in order. -/
  calls : List HostCall

/-- Why an evaluation does not go on with the next node. -/
inductive Interruption where
  /-- The running function returns. -/
  | returned
  | failed (e : RuntimeError)
  /-- More rounds of a loop or more nested calls than were allowed. -/
  | unfinished

/-- An evaluation. -/
abbrev Eval (σ : Type) := EStateM Interruption (Env σ)

/-! ### Operators

Six comparisons come down to three, so the machine computes some of them as negations. Evaluation
does the same; that an operator then means what its name says is a theorem about comparisons and no
part of the definition. -/

namespace BinaryOp

/-- The opcode that computes the operator or its negation. -/
def opcode : BinaryOp → Opcode
  | .add => .add
  | .sub => .sub
  | .mul => .mul
  | .div => .div
  | .eq | .ne => .isEq
  | .lt | .ge => .isGe
  | .gt | .le => .isGt
  | .and => .and
  | .or => .or

/-- Whether the operator is the negation of what its opcode computes. -/
def negated : BinaryOp → Bool
  | .ne | .lt | .le => true
  | _ => false

/-- What the operator, or else its negation, makes of two values. -/
def compute : BinaryOp → Value → Value → Except OperatorError Value
  | .add => Value.add
  | .sub => Value.sub
  | .mul => Value.mul
  | .div => Value.div
  | .eq | .ne => fun left right => .ok (.bool (left.equal right))
  | .lt | .ge => fun left right => Value.bool <$> left.greaterOrEqual right
  | .gt | .le => fun left right => Value.bool <$> left.greater right
  | .and => fun left right => .ok (.bool (left.truthy && right.truthy))
  | .or => fun left right => .ok (.bool (left.truthy || right.truthy))

end BinaryOp

/-! ### Parts of an evaluation

What nodes do to the stack, the variables and the host. The stack is shared by all calls; a value
that nothing takes stays there, also beyond the call that has pushed it. -/

namespace Eval

variable {σ α : Type}

def fail (e : RuntimeError) : Eval σ α := throw (.failed e)

def push (v : Value) : Eval σ Unit := modify fun env => { env with stack := v :: env.stack }

/-- Pop a value on behalf of an opcode. -/
def pop (op : Opcode) : Eval σ Value := do
  let env ← get
  match env.stack with
  | [] => fail (.stackUnderflow .operand op)
  | v :: rest => do
    set { env with stack := rest }
    pure v

/-- Replace the top value by the opposite of its truth. -/
def negate : Eval σ Unit := do
  let v ← pop .not
  push (.bool !v.truthy)

/-- Replace the two top values by what `f` makes of them, on behalf of an opcode. -/
def combine (op : Opcode) (f : Value → Value → Except OperatorError Value) : Eval σ Unit := do
  let right ← pop op
  let left ← pop op
  match f left right with
  | .ok v => push v
  | .error e => fail (.ofOperator op e)

/-- Replace the two top values by what an operator makes of them. -/
def operate (op : BinaryOp) : Eval σ Unit := do
  combine op.opcode op.compute
  if op.negated then negate else pure ()

/-- Pop a condition on behalf of an opcode. -/
def test (op : Opcode) : Eval σ Bool := do
  let v ← pop op
  pure v.truthy

def load (name : String) : Eval σ Unit := do
  let env ← get
  match env.bindings.find? name with
  | some v => push v
  | none => fail (.unboundVariable name)

def store (name : String) : Eval σ Unit := do
  let v ← pop .store
  modify fun env => { env with bindings := env.bindings.insert name v }

/-- Add one to a variable. -/
def increment (name : String) : Eval σ Unit := do
  load name
  push (.int 1)
  operate .add
  store name

/-- Store the top values in variables, the topmost one in the first. -/
def storeAll : List String → Eval σ Unit
  | [] => pure ()
  | name :: rest => do
    store name
    storeAll rest

/-- Call a host function with the top values as arguments, the topmost one last. -/
def callHost (name : String) (count : Nat) : Eval σ Unit := do
  let env ← get
  if count ≤ env.stack.length then
    let args := (env.stack.take count).reverse
    let called := env.builtins.call name args
    let calls := env.calls ++ [⟨name, args, called.1⟩]
    set { env with stack := env.stack.drop count, builtins := called.2, calls }
    match called.1 with
    | .ok v => push v
    | .error e => fail e
  else fail (.stackUnderflow .operand .func)

theorem bind_apply {β : Type} (x : Eval σ α) (f : α → Eval σ β) (env : Env σ) :
    (x >>= f) env = match x env with
      | .ok a env' => f a env'
      | .error cause env' => .error cause env' := by
  cases h : x env <;> simp [Bind.bind, EStateM.bind, h]

/-- A variable is pushed if it is bound, and unbound otherwise. -/
theorem load_apply (name : String) (env : Env σ) :
    load name env = match env.bindings.find? name with
      | some v => push v env
      | none => fail (.unboundVariable name) env := by
  have read : (get : Eval σ (Env σ)) env = .ok env env := rfl
  rw [load, bind_apply, read]
  cases found : env.bindings.find? name <;> simp only [found]

/-- With two values on the stack, combining fails only for the operator's own reasons. -/
theorem combine_apply {op : Opcode} {f : Value → Value → Except OperatorError Value}
    {left right : Value} {s : List Value} {env : Env σ} (stack : env.stack = right :: left :: s) :
    combine op f env = match f left right with
      | .ok v => .ok () { env with stack := v :: s }
      | .error e => .error (.failed (.ofOperator op e)) { env with stack := s } := by
  obtain ⟨_, bindings, builtins, calls⟩ := env
  cases stack
  show (match f left right with
    | .ok v => push v
    | .error e => fail (.ofOperator op e) : Eval σ Unit) _ = _
  cases f left right <;> rfl

/-- An operator that is what its opcode computes. -/
theorem operate_apply {op : BinaryOp} {left right v : Value} {s : List Value} {env : Env σ}
    (plain : op.negated = false) (stack : env.stack = right :: left :: s)
    (computed : op.compute left right = .ok v) :
    operate op env = .ok () { env with stack := v :: s } := by
  rw [operate, bind_apply, combine_apply stack, computed, plain]
  rfl

/-- A call without enough arguments does not reach the host. -/
theorem callHost_of_lt {name : String} {count : Nat} {env : Env σ}
    (missing : ¬ count ≤ env.stack.length) :
    callHost name count env = .error (.failed (.stackUnderflow .operand .func)) env := by
  show (if count ≤ env.stack.length then _ else _ : Eval σ Unit) env = _
  rw [if_neg missing]
  rfl

/-- A call with enough arguments takes them, and the host answers. -/
theorem callHost_of_le {name : String} {count : Nat} {env : Env σ} {args : List Value}
    (enough : count ≤ env.stack.length) (taken : (env.stack.take count).reverse = args) :
    callHost name count env =
      (match (env.builtins.call name args).1 with
      | .ok v => push v
      | .error e => fail e : Eval σ Unit)
        ⟨env.stack.drop count, env.bindings, (env.builtins.call name args).2,
          env.calls ++ [⟨name, args, (env.builtins.call name args).1⟩]⟩ := by
  subst taken
  show (if count ≤ env.stack.length then _ else _ : Eval σ Unit) env = _
  rw [if_pos enough]
  rfl

/-- Run a function's body with variables of its own, its parameters popped from the last to the
    first. It ends when it returns or at its end; the values it leaves stay on the stack. -/
def invoke (params : List String) (body : Eval σ Unit) : Eval σ Unit := fun env =>
  match (do storeAll params.reverse; body) { env with bindings := NameTable.empty } with
  | .ok _ env' => .ok () { env' with bindings := env.bindings }
  | .error .returned env' => .ok () { env' with bindings := env.bindings }
  | .error cause env' => .error cause env'

/-- Repeat a round until it says that it was the last one, at most as often as told. -/
def loop (round : Eval σ Bool) : Nat → Eval σ Unit
  | 0 => throw .unfinished
  | n + 1 => do
    if ← round then loop round n else pure ()

end Eval

/-! ### Evaluation of nodes

The recursion is on the node. Calls of the program's own functions go through a parameter, which is
then tied to evaluation within one nested call less, so that everything is structural. -/

section

variable {σ : Type} (hosted : List String) (rounds : Nat) (enter : String → Eval σ Unit)

open Eval

mutual

/-- Evaluate a node. Calls of the names `hosted` go to the host, any other call is made by `enter`;
    a loop runs for at most `rounds` rounds. -/
def evalNode : Node → Eval σ Unit
  | .literal value => push value
  | .ident name => load name
  | .binary op left right => do
    evalNode left
    evalNode right
    operate op
  | .unary .not operand => do
    evalNode operand
    negate
  | .unary .neg operand => do
    evalNode operand
    push (.int (-1))
    operate .mul
  | .call callee args => do
    evalNodes args
    if hosted.contains callee then callHost callee args.length else enter callee
  | .assign name value => do
    evalNode value
    store name
  | .block children => evalNodes children
  | .ifThen condition thenBranch => do
    evalNode condition
    if ← test .not then evalNode thenBranch else pure ()
  | .ifElse condition thenBranch elseBranch => do
    evalNode condition
    if ← test .not then evalNode thenBranch else evalNode elseBranch
  | .whileLoop condition body =>
    let round := do
      evalNode condition
      if ← test .not then do
        evalNode body
        pure true
      else pure false
    loop round rounds
  | .doWhile body condition =>
    let round := do
      evalNode body
      evalNode condition
      test .jumpIf
    loop round rounds
  | .forRange var start stop body => do
    evalNode start
    store var
    let round := do
      load var
      evalNode stop
      operate .ge
      if ← test .jumpIf then pure false
      else do
        evalNode body
        increment var
        pure true
    loop round rounds
  -- a declaration inside a node is not compiled, so it has no meaning
  | .function .. => pure ()
  | .ret value => do
    evalNode value
    throw .returned

/-- Evaluate nodes one after the other. -/
def evalNodes : List Node → Eval σ Unit
  | [] => pure ()
  | node :: rest => do
    evalNode node
    evalNodes rest

end

end

/-- Enter a function of the program, within a number of nested calls and of rounds of each loop. -/
def enterFunction {σ : Type} (hosted : List String) (declarations : List Declaration) :
    Nat → String → Eval σ Unit
  | 0, _ => throw .unfinished
  | n + 1, callee =>
    match declarations.find? (·.name = callee) with
    | some d =>
      Eval.invoke d.params (evalNode hosted n (enterFunction hosted declarations n) d.body)
    -- a call of a name that stands for nothing is not compiled, so it has no meaning
    | none => throw .unfinished

/-- Evaluate the top-level statements of a program, within a number of nested calls and of rounds of
    each loop. There is no function to return from. -/
def Program.evaluate {σ : Type} (p : Program) (host : Builtins σ) (n : Nat) :
    EStateM.Result Interruption (Env σ) Unit :=
  match evalNodes host.names n (enterFunction host.names p.declarations n) p.body
      ⟨[], NameTable.empty, host, []⟩ with
  | .error .returned env => .error (.failed (.stackUnderflow .frame .ret)) env
  | result => result

end ImpStack
