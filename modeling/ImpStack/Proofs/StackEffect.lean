/-
Module: ImpStack.Proofs.StackEffect
Purpose: What evaluations leave on the stack. In a disciplined program an expression adds one value,
  and a tidy statement nothing but the value that it returns, provided that all functions which they
  call are tidy.
Main exports: Eval.Leaves, Program.Admits, expression_effect, statement_effect,
  enterFunction_effect
-/
import ImpStack.Proofs.Discipline
import ImpStack.Proofs.Evaluation

namespace ImpStack

variable {σ α β : Type}

namespace Eval

/-- If an evaluation is done, then `Q` holds of its result and the stack; if it returns, then `R`
    holds of the stack; and it does not fail because it finds too few values on the stack. -/
def Leaves (x : Eval σ α) (env : Env σ) (Q : α → List Value → Prop) (R : List Value → Prop) :
    Prop :=
  match x env with
  | .ok a env' => Q a env'.stack
  | .error .returned env' => R env'.stack
  | .error (.failed e) _ => ∀ op, e ≠ .stackUnderflow .operand op
  | .error .unfinished _ => True

variable {env : Env σ} {Q : α → List Value → Prop} {R : List Value → Prop}

theorem leaves_bind {x : Eval σ α} {f : α → Eval σ β} {P : α → List Value → Prop}
    {Q : β → List Value → Prop} (first : Leaves x env P R)
    (next : ∀ a env', P a env'.stack → Leaves (f a) env' Q R) : Leaves (x >>= f) env Q R := by
  rw [Leaves] at first ⊢
  rw [bind_apply]
  match x env, first with
  | .ok a env', first => exact next a env' first
  | .error .returned _, first => exact first
  | .error (.failed _) _, first => exact first
  | .error .unfinished _, _ => trivial

theorem Leaves.mono {x : Eval σ α} {Q' : α → List Value → Prop} {R' : List Value → Prop}
    (h : Leaves x env Q R) (done : ∀ a s, Q a s → Q' a s) (returned : ∀ s, R s → R' s) :
    Leaves x env Q' R' := by
  rw [Leaves] at h ⊢
  match x env, h with
  | .ok a env', h => exact done a env'.stack h
  | .error .returned env', h => exact returned env'.stack h
  | .error (.failed _) _, h => exact h
  | .error .unfinished _, _ => trivial

theorem leaves_pop {op : Opcode} {v : Value} {s : List Value} (stack : env.stack = v :: s) :
    Leaves (pop op) env (fun a s' => a = v ∧ s' = s) R := by
  obtain ⟨_, bindings, builtins, calls⟩ := env
  cases stack
  exact ⟨rfl, rfl⟩

theorem leaves_push {v : Value} : Leaves (push v) env (fun _ s' => s' = v :: env.stack) R := rfl

theorem leaves_negate {v : Value} {s : List Value} (stack : env.stack = v :: s) :
    Leaves negate env (fun _ s' => ∃ w, s' = w :: s) R := by
  refine leaves_bind (leaves_pop stack) ?_
  rintro _ env' ⟨rfl, rfl⟩
  exact ⟨_, rfl⟩

theorem leaves_operate {op : BinaryOp} {left right : Value} {s : List Value}
    (stack : env.stack = right :: left :: s) :
    Leaves (operate op) env (fun _ s' => ∃ v, s' = v :: s) R := by
  have combined : Leaves (combine op.opcode op.compute) env (fun _ s' => ∃ v, s' = v :: s) R := by
    refine leaves_bind (leaves_pop stack) ?_
    rintro _ env₁ ⟨rfl, stack₁⟩
    refine leaves_bind (leaves_pop stack₁) ?_
    rintro _ env₂ ⟨rfl, rfl⟩
    cases op.compute _ _ with
    | ok v => exact ⟨v, rfl⟩
    | error e => cases e <;> exact nofun
  refine leaves_bind combined ?_
  rintro _ env₁ ⟨v, stack₁⟩
  cases op.negated with
  | false => exact ⟨v, stack₁⟩
  | true => exact leaves_negate stack₁

theorem leaves_test {op : Opcode} {v : Value} {s : List Value} (stack : env.stack = v :: s) :
    Leaves (test op) env (fun _ s' => s' = s) R := by
  refine leaves_bind (leaves_pop stack) ?_
  rintro _ env' ⟨rfl, rest⟩
  exact rest

theorem leaves_load {name : String} :
    Leaves (load name) env (fun _ s' => ∃ v, s' = v :: env.stack) R := by
  rw [Leaves, load_apply]
  cases env.bindings.find? name with
  | some v => exact ⟨v, rfl⟩
  | none => exact nofun

theorem leaves_store {name : String} {v : Value} {s : List Value} (stack : env.stack = v :: s) :
    Leaves (store name) env (fun _ s' => s' = s) R := by
  refine leaves_bind (leaves_pop stack) ?_
  rintro _ env' ⟨rfl, rest⟩
  exact rest

theorem leaves_increment {name : String} :
    Leaves (increment name) env (fun _ s' => s' = env.stack) R := by
  refine leaves_bind leaves_load ?_
  rintro _ env₁ ⟨v, stack₁⟩
  refine leaves_bind leaves_push ?_
  rintro _ env₂ stack₂
  rw [stack₁] at stack₂
  refine leaves_bind (leaves_operate stack₂) ?_
  rintro _ env₃ ⟨w, stack₃⟩
  exact leaves_store stack₃

/-- As many values as there are parameters are popped. -/
theorem leaves_storeAll {names : List String} : ∀ {env : Env σ} {args s : List Value},
    env.stack = args ++ s → args.length = names.length →
      Leaves (storeAll names) env (fun _ s' => s' = s) R := by
  induction names with
  | nil =>
      intro env args s stack length
      cases args with
      | nil => exact stack
      | cons v rest => cases length
  | cons name rest ih =>
      intro env args s stack length
      cases args with
      | nil => cases length
      | cons v values =>
          refine leaves_bind (leaves_store stack) ?_
          rintro _ env' stack'
          exact ih stack' (Nat.succ.inj length)

theorem leaves_callHost {name : String} {args s : List Value} (stack : env.stack = args ++ s) :
    Leaves (callHost name args.length) env (fun _ s' => ∃ v, s' = v :: s) R := by
  have enough : args.length ≤ env.stack.length := by
    rw [stack, List.length_append]
    exact Nat.le_add_right _ _
  have rest : env.stack.drop args.length = s := by
    rw [stack]
    exact List.drop_left
  rw [Leaves, callHost_of_le enough rfl, rest]
  cases answer : (env.builtins.call name _).1 with
  | ok v => exact ⟨v, rfl⟩
  | error e =>
      rcases Exec.call_error answer with ⟨_, rfl⟩ | ⟨message, rfl⟩
      · exact nofun
      · exact nofun

theorem leaves_invoke {params : List String} {body : Eval σ Unit} {Q : List Value → Prop}
    (h : Leaves (do storeAll params.reverse; body) { env with bindings := NameTable.empty }
      (fun _ s' => Q s') Q) :
    Leaves (invoke params body) env (fun _ s' => Q s') R := by
  rw [Leaves] at h ⊢
  rw [invoke]
  match (do storeAll params.reverse; body : Eval σ Unit)
      { env with bindings := NameTable.empty }, h with
  | .ok _ env', h => exact h
  | .error .returned env', h => exact h
  | .error (.failed _) _, h => exact h
  | .error .unfinished _, _ => trivial

/-- What every round keeps of the stack the loop keeps. -/
theorem leaves_loop {round : Eval σ Bool} {I : List Value → Prop} {P : Prop}
    (h : ∀ env : Env σ, I env.stack → Leaves round env (fun _ s' => I s' ∧ P) R)
    (rounds : Nat) : ∀ env : Env σ, I env.stack →
      Leaves (loop round rounds) env (fun _ s' => I s' ∧ P) R := by
  induction rounds with
  | zero => exact fun _ _ => trivial
  | succ rounds ih =>
      intro env stack
      refine leaves_bind (h env stack) ?_
      intro again env' stack'
      cases again with
      | true => exact ih env' stack'.1
      | false => exact stack'

end Eval

/-! ### What nodes admit

The rules are about all nodes of a program. What they say of a node's parts is collected here in a
form that passes from a node to the nodes right below it, so that inductions on nodes have it at
hand. -/

/-- The operands in a node are expressions, and the functions that it calls belong to `G`. -/
structure Program.Admits (p : Program) (hosted : List String) (G : Declaration → Prop)
    (node : Node) : Prop where
  operands : ∀ part ∈ node.parts, ∀ e ∈ part.operands, p.isExpression hosted e = true
  calls : ∀ site ∈ node.calls, ∀ d, p.callee? site.callee = some d → G d

/-- Besides, the statements in a node are tidy. -/
structure Program.AdmitsTidy (p : Program) (hosted : List String) (G : Declaration → Prop)
    (node : Node) : Prop extends p.Admits hosted G node where
  bodies : ∀ part ∈ node.parts, ∀ c ∈ part.bodies, p.isTidyCommand hosted c = true

/-- An expression all of whose operands are expressions, and which calls functions of `G` only. -/
def Program.SoundExpression (p : Program) (hosted : List String) (G : Declaration → Prop)
    (node : Node) : Prop :=
  p.isExpression hosted node = true ∧ p.Admits hosted G node

/-- A tidy statement all of whose statements are tidy as well, and so on. -/
def Program.SoundCommand (p : Program) (hosted : List String) (G : Declaration → Prop)
    (node : Node) : Prop :=
  p.isTidyCommand hosted node = true ∧ p.AdmitsTidy hosted G node

section

variable {p : Program} {hosted : List String} {G : Declaration → Prop} {node part : Node}

theorem Program.Admits.child (h : p.Admits hosted G node) (mem : part ∈ node.children) :
    p.Admits hosted G part :=
  ⟨fun inner inside => h.operands inner (Node.parts_of_child mem inside),
    fun site call => h.calls site (Node.calls_of_child mem call)⟩

theorem Program.Admits.operand (h : p.Admits hosted G node) (mem : part ∈ node.operands) :
    p.SoundExpression hosted G part :=
  ⟨h.operands node node.self_mem_parts part mem, h.child (List.mem_append_left _ mem)⟩

theorem Program.AdmitsTidy.body (h : p.AdmitsTidy hosted G node) (mem : part ∈ node.bodies) :
    p.SoundCommand hosted G part := by
  have below : part ∈ node.children := List.mem_append_right _ mem
  exact ⟨h.bodies node node.self_mem_parts part mem, h.toAdmits.child below,
    fun inner inside => h.bodies inner (Node.parts_of_child below inside)⟩

end

/-- Entering a function of `G` with as many values on the stack as it has parameters pops them, and
    adds one value if the function always returns and none if it never does. -/
def EntersBalanced (p : Program) (G : Declaration → Prop) (enter : String → Eval σ Unit) : Prop :=
  ∀ callee d, p.callee? callee = some d → G d → ∀ env args s, env.stack = args ++ s →
    args.length = d.params.length →
      Eval.Leaves (enter callee) env
        (fun _ s' => (d.body.returns = true → ∃ v, s' = v :: s) ∧
          (d.body.mayReturn = false → s' = s))
        (fun _ => False)

section

variable {p : Program} {hosted : List String} {G : Declaration → Prop} {n : Nat}
  {enter : String → Eval σ Unit}

open Eval

/-! ### Expressions

Every expression adds one value. Operators take the values of their operands, and a call takes its
arguments and adds what its function returns, by the assumption on entering. -/

mutual

/-- An expression adds one value to the stack. -/
theorem expression_effect (enters : EntersBalanced p G enter) : ∀ {node : Node},
    p.SoundExpression hosted G node →
    ∀ (env : Env σ) {R : List Value → Prop},
      Leaves (evalNode hosted n enter node) env (fun _ s => ∃ v, s = v :: env.stack) R
  | .literal value, _, env, _ => leaves_push.mono (fun _ s stack => ⟨value, stack⟩) fun _ r => r
  | .ident name, _, env, _ => leaves_load
  | .binary op left right, ⟨_, admits⟩, env, _ => by
      have hl : p.SoundExpression hosted G left := admits.operand (by simp [Node.operands])
      have hr : p.SoundExpression hosted G right := admits.operand (by simp [Node.operands])
      refine leaves_bind (expression_effect enters hl env) ?_
      rintro _ env₁ ⟨v, stack₁⟩
      refine leaves_bind (expression_effect enters hr env₁) ?_
      rintro _ env₂ ⟨w, stack₂⟩
      rw [stack₁] at stack₂
      exact leaves_operate stack₂
  | .unary .not operand, ⟨_, admits⟩, env, _ => by
      have ho : p.SoundExpression hosted G operand := admits.operand (by simp [Node.operands])
      refine leaves_bind (expression_effect enters ho env) ?_
      rintro _ env₁ ⟨v, stack₁⟩
      exact leaves_negate stack₁
  | .unary .neg operand, ⟨_, admits⟩, env, _ => by
      have ho : p.SoundExpression hosted G operand := admits.operand (by simp [Node.operands])
      refine leaves_bind (expression_effect enters ho env) ?_
      rintro _ env₁ ⟨v, stack₁⟩
      refine leaves_bind leaves_push ?_
      rintro _ env₂ stack₂
      rw [stack₁] at stack₂
      exact leaves_operate stack₂
  | .call callee args, ⟨expression, admits⟩, env, _ => by
      have sound : ∀ e ∈ args, p.SoundExpression hosted G e := fun e he => admits.operand he
      refine leaves_bind (expressions_effect enters sound env) ?_
      rintro _ env₁ ⟨values, stack₁, length⟩
      -- a call is an expression for one of two reasons: its callee is of the host, or it always
      -- returns
      rw [Program.isExpression, Bool.or_eq_true] at expression
      cases host : hosted.contains callee with
      | true =>
          rw [← length]
          exact leaves_callHost stack₁
      | false =>
          rcases expression with other | expression
          · rw [host] at other
            cases other
          cases found : p.callee? callee with
          | none =>
              rw [found] at expression
              cases expression
          | some d =>
              rw [found, Bool.and_eq_true, beq_iff_eq] at expression
              have good := admits.calls ⟨callee, args.length⟩ (by simp [Node.calls]) d found
              have entered := enters callee d found good env₁ values env.stack stack₁
                (length.trans expression.1)
              exact entered.mono (fun _ s effect => effect.1 expression.2) fun _ none => none.elim
  | .assign .., ⟨expression, _⟩, _, _ => nomatch expression
  | .block .., ⟨expression, _⟩, _, _ => nomatch expression
  | .ifThen .., ⟨expression, _⟩, _, _ => nomatch expression
  | .ifElse .., ⟨expression, _⟩, _, _ => nomatch expression
  | .whileLoop .., ⟨expression, _⟩, _, _ => nomatch expression
  | .doWhile .., ⟨expression, _⟩, _, _ => nomatch expression
  | .forRange .., ⟨expression, _⟩, _, _ => nomatch expression
  | .function .., ⟨expression, _⟩, _, _ => nomatch expression
  | .ret .., ⟨expression, _⟩, _, _ => nomatch expression

/-- Several expressions add one value each. -/
theorem expressions_effect (enters : EntersBalanced p G enter) : ∀ {nodes : List Node},
    (∀ e ∈ nodes, p.SoundExpression hosted G e) → ∀ (env : Env σ) {R : List Value → Prop},
      Leaves (evalNodes hosted n enter nodes) env
        (fun _ s => ∃ values, s = values ++ env.stack ∧ values.length = nodes.length) R
  | [], _, env, _ => ⟨[], rfl, rfl⟩
  | node :: rest, admits, env, _ => by
      refine leaves_bind (expression_effect enters (admits node List.mem_cons_self) env) ?_
      rintro _ env₁ ⟨v, stack₁⟩
      have others : ∀ e ∈ rest, p.SoundExpression hosted G e := fun e he =>
        admits e (List.mem_cons_of_mem node he)
      refine (expressions_effect enters others env₁).mono ?_ fun _ r => r
      rintro _ s ⟨values, stack₂, length⟩
      refine ⟨values ++ [v], ?_, by simp [length]⟩
      rw [stack₂, stack₁, List.append_assoc]
      rfl

end

/-- A condition is popped before it is decided how to go on. -/
theorem condition_effect (enters : EntersBalanced p G enter) {condition : Node}
    (sound : p.SoundExpression hosted G condition) (env : Env σ) {op : Opcode}
    {f : Bool → Eval σ α} {Q : α → List Value → Prop} {R : List Value → Prop}
    (next : ∀ holds env', env'.stack = env.stack → Leaves (f holds) env' Q R) :
    Leaves (evalNode hosted n enter condition >>= fun _ => test op >>= f) env Q R := by
  refine leaves_bind (expression_effect enters sound env) ?_
  rintro _ env₁ ⟨v, stack₁⟩
  exact leaves_bind (leaves_test stack₁) next

/-! ### Statements

A tidy statement leaves the stack as it was; if it returns, there is one value more, the returned
one. Loops keep this round by round. -/

mutual

/-- A tidy statement leaves the stack as it is if it is done, which it never is if it always
    returns, and adds the value that it returns if it returns, which it only does if there is a
    return. -/
theorem statement_effect (enters : EntersBalanced p G enter) : ∀ {node : Node},
    p.SoundCommand hosted G node → ∀ env : Env σ,
      Leaves (evalNode hosted n enter node) env
        (fun _ s => s = env.stack ∧ node.returns = false)
        (fun s => (∃ v, s = v :: env.stack) ∧ node.mayReturn = true)
  | .assign name value, ⟨_, admits⟩, env => by
      have hv : p.SoundExpression hosted G value := admits.operand (by simp [Node.operands])
      refine leaves_bind (expression_effect enters hv env) ?_
      rintro _ env₁ ⟨v, stack₁⟩
      exact (leaves_store stack₁).mono (fun _ s stack => ⟨stack, rfl⟩) fun _ r => r
  | .call callee args, ⟨tidy, admits⟩, env => by
      have sound : ∀ e ∈ args, p.SoundExpression hosted G e := fun e he => admits.operand he
      refine leaves_bind (expressions_effect enters sound env) ?_
      rintro _ env₁ ⟨values, stack₁, length⟩
      rw [Program.isTidyCommand, Bool.and_eq_true] at tidy
      cases host : hosted.contains callee with
      | true =>
          rw [host] at tidy
          cases tidy.1
      | false =>
          cases found : p.callee? callee with
          | none =>
              rw [found] at tidy
              cases tidy.2
          | some d =>
              rw [found, Bool.and_eq_true, beq_iff_eq] at tidy
              -- a tidy call is one of a function that never returns a value
              have silent : d.body.mayReturn = false := by simpa using tidy.2.2
              have good := admits.calls ⟨callee, args.length⟩ (by simp [Node.calls]) d found
              have entered := enters callee d found good env₁ values env.stack stack₁
                (length.trans tidy.2.1)
              exact entered.mono (fun _ s effect => ⟨effect.2 silent, rfl⟩) fun _ none => none.elim
  | .block children, ⟨_, admits⟩, env => by
      exact statements_effect enters (fun c hc => admits.body hc) env
  | .ifThen condition thenBranch, ⟨_, admits⟩, env => by
      have hc : p.SoundExpression hosted G condition := admits.operand (by simp [Node.operands])
      have ht : p.SoundCommand hosted G thenBranch := admits.body (by simp [Node.bodies])
      apply condition_effect enters hc env
      intro holds env₁ stack₁
      cases holds with
      | false => exact ⟨stack₁, rfl⟩
      | true =>
          have branch := statement_effect enters ht env₁
          rw [stack₁] at branch
          exact branch.mono (fun _ s done => ⟨done.1, rfl⟩) fun _ r => r
  | .ifElse condition thenBranch elseBranch, ⟨_, admits⟩, env => by
      have hc : p.SoundExpression hosted G condition := admits.operand (by simp [Node.operands])
      have ht : p.SoundCommand hosted G thenBranch := admits.body (by simp [Node.bodies])
      have he : p.SoundCommand hosted G elseBranch := admits.body (by simp [Node.bodies])
      apply condition_effect enters hc env
      intro holds env₁ stack₁
      cases holds with
      | false =>
          have branch := statement_effect enters he env₁
          rw [stack₁] at branch
          refine branch.mono (fun _ s done => ⟨done.1, ?_⟩) fun _ r => ⟨r.1, ?_⟩
          · rw [Node.returns, done.2, Bool.and_false]
          · rw [Node.mayReturn, r.2, Bool.or_true]
      | true =>
          have branch := statement_effect enters ht env₁
          rw [stack₁] at branch
          refine branch.mono (fun _ s done => ⟨done.1, ?_⟩) fun _ r => ⟨r.1, ?_⟩
          · rw [Node.returns, done.2, Bool.false_and]
          · rw [Node.mayReturn, r.2, Bool.true_or]
  | .whileLoop condition body, ⟨_, admits⟩, env => by
      have hc : p.SoundExpression hosted G condition := admits.operand (by simp [Node.operands])
      have hb : p.SoundCommand hosted G body := admits.body (by simp [Node.bodies])
      refine leaves_loop (fun env' stack => ?_) n env rfl
      -- every round starts with the stack that the loop was entered with
      rw [← stack]
      apply condition_effect enters hc env'
      intro holds env₁ stack₁
      cases holds with
      | false => exact ⟨stack₁, rfl⟩
      | true =>
          have round := statement_effect enters hb env₁
          rw [stack₁] at round
          exact leaves_bind round fun _ env₂ done => ⟨done.1, rfl⟩
  | .doWhile body condition, ⟨_, admits⟩, env => by
      have hc : p.SoundExpression hosted G condition := admits.operand (by simp [Node.operands])
      have hb : p.SoundCommand hosted G body := admits.body (by simp [Node.bodies])
      refine leaves_loop (fun env' stack => ?_) n env rfl
      rw [← stack]
      refine leaves_bind (statement_effect enters hb env') ?_
      -- the body runs before the condition, so what it says of returning holds of the loop
      rintro _ env₁ ⟨stack₁, open₁⟩
      refine leaves_bind (expression_effect enters hc env₁) ?_
      rintro _ env₂ ⟨v, stack₂⟩
      rw [stack₁] at stack₂
      exact (leaves_test stack₂).mono (fun _ s stack₃ => ⟨stack₃, open₁⟩) fun _ r => r
  | .forRange var start stop body, ⟨_, admits⟩, env => by
      have hs : p.SoundExpression hosted G start := admits.operand (by simp [Node.operands])
      have hp : p.SoundExpression hosted G stop := admits.operand (by simp [Node.operands])
      have hb : p.SoundCommand hosted G body := admits.body (by simp [Node.bodies])
      refine leaves_bind (expression_effect enters hs env) ?_
      rintro _ env₁ ⟨v, stack₁⟩
      refine leaves_bind (leaves_store stack₁) ?_
      intro _ env₂ stack₂
      refine leaves_loop (fun env' stack => ?_) n env₂ stack₂
      rw [← stack]
      refine leaves_bind leaves_load ?_
      rintro _ env₃ ⟨i, stack₃⟩
      refine leaves_bind (expression_effect enters hp env₃) ?_
      rintro _ env₄ ⟨j, stack₄⟩
      rw [stack₃] at stack₄
      refine leaves_bind (leaves_operate stack₄) ?_
      rintro _ env₅ ⟨reached, stack₅⟩
      refine leaves_bind (leaves_test stack₅) ?_
      intro holds env₆ stack₆
      cases holds with
      | true => exact ⟨stack₆, rfl⟩
      | false =>
          have round := statement_effect enters hb env₆
          rw [stack₆] at round
          refine leaves_bind round ?_
          rintro _ env₇ ⟨stack₇, _⟩
          refine leaves_bind leaves_increment ?_
          rintro _ env₈ stack₈
          exact ⟨stack₈.trans stack₇, rfl⟩
  | .ret value, ⟨_, admits⟩, env => by
      have hv : p.SoundExpression hosted G value := admits.operand (by simp [Node.operands])
      refine leaves_bind (expression_effect enters hv env) ?_
      rintro _ env₁ stack₁
      exact ⟨stack₁, rfl⟩
  | .literal _, ⟨tidy, _⟩, _ => nomatch tidy
  | .ident _, ⟨tidy, _⟩, _ => nomatch tidy
  | .binary .., ⟨tidy, _⟩, _ => nomatch tidy
  | .unary .., ⟨tidy, _⟩, _ => nomatch tidy
  | .function .., ⟨tidy, _⟩, _ => nomatch tidy

/-- Tidy statements one after the other. -/
theorem statements_effect (enters : EntersBalanced p G enter) : ∀ {nodes : List Node},
    (∀ c ∈ nodes, p.SoundCommand hosted G c) → ∀ env : Env σ,
      Leaves (evalNodes hosted n enter nodes) env
        (fun _ s => s = env.stack ∧ Node.returnsAny nodes = false)
        (fun s => (∃ v, s = v :: env.stack) ∧ Node.mayReturnAny nodes = true)
  | [], _, env => ⟨rfl, rfl⟩
  | node :: rest, admits, env => by
      refine leaves_bind ((statement_effect enters (admits node List.mem_cons_self) env).mono
        (fun _ _ done => done) fun _ r => ⟨r.1, ?_⟩) ?_
      · rw [Node.mayReturnAny, r.2, Bool.true_or]
      rintro _ env₁ ⟨stack₁, open₁⟩
      have others := statements_effect enters
        (fun c hc => admits c (List.mem_cons_of_mem node hc)) env₁
      rw [stack₁] at others
      refine others.mono (fun _ s done => ⟨done.1, ?_⟩) fun _ r => ⟨r.1, ?_⟩
      · rw [Node.returnsAny, open₁, done.2]
        rfl
      · rw [Node.mayReturnAny, r.2, Bool.or_true]

end

end

/-! ### Functions

The assumption on entering is discharged by induction on the number of nested calls that are
allowed. -/

/-- If all functions of `G` are tidy and call functions of `G` only, then entering them is balanced,
    within any number of nested calls. -/
theorem enterFunction_effect {p : Program} {hosted : List String} {G : Declaration → Prop}
    (sound : ∀ d, G d → p.SoundCommand hosted G d.body) (n : Nat) :
    EntersBalanced (σ := σ) p G (enterFunction hosted p.declarations n) := by
  induction n with
  | zero => exact fun _ _ _ _ _ _ _ _ _ => trivial
  | succ n ih =>
      intro callee d found good env args s stack arity
      have lookup : p.declarations.find? (·.name = callee) = some d := found
      rw [enterFunction, lookup]
      refine Eval.leaves_invoke (Eval.leaves_bind (Eval.leaves_storeAll stack ?_) ?_)
      · rw [arity, List.length_reverse]
      intro _ env' popped
      have effect := statement_effect ih (sound d good) (n := n) env'
      rw [popped] at effect
      refine effect.mono (fun _ s' done => ⟨fun always => ?_, fun _ => done.1⟩)
        fun s' returned => ⟨fun _ => returned.1, fun never => ?_⟩
      · rw [done.2] at always
        cases always
      · rw [returned.2] at never
        cases never

end ImpStack
