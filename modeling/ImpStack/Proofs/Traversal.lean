/-
Module: ImpStack.Proofs.Traversal
Purpose: What the code of an expression does to the operand stack of a run: in a disciplined program
  it adds one value, provided that all functions which the expression can call are tidy. Without
  that, what a called function leaves behind gets between the operands of its caller.
Main exports: Traverses, AddsOne, expression_adds_one, discipline_is_not_enough
-/
import ImpStack.Proofs.Correctness
import ImpStack.Proofs.StackEffect

namespace ImpStack

variable {σ α : Type}

/-! ### Passing through code

A stretch of the run passes through code if it enters at the start, stays inside, and leaves behind
the end. The first time outside is the time at which the evaluation is done, since following stays
inside until then. -/

/-- From step `t` to step `t'` a machine runs code from its start to its end in one frame: it
    arrives at the end for the first time, and in between it runs that code or functions called
    from it. -/
structure Traverses (m : Machine σ) (start stop t t' : Nat) : Prop where
  entered : (m.after t).state.ip = start
  le : t ≤ t'
  inside : ∀ j, t ≤ j → j < t' →
    Inside m start stop (m.after t).state.frames.callers.length j
  left : (m.after t').state.ip = stop
  frame : (m.after t').state.frames.callers.length = (m.after t).state.frames.callers.length
  running : (m.after t').state.status = .running

instance (m : Machine σ) (start stop t t' : Nat) : Decidable (Traverses m start stop t t') :=
  decidable_of_iff
    ((m.after t).state.ip = start ∧ t ≤ t' ∧
      (∀ j, j < t' → t ≤ j → Inside m start stop (m.after t).state.frames.callers.length j) ∧
      (m.after t').state.ip = stop ∧
      (m.after t').state.frames.callers.length = (m.after t).state.frames.callers.length ∧
      (m.after t').state.status = .running)
    ⟨fun ⟨entered, le, inside, left, frame, running⟩ =>
        ⟨entered, le, fun j after before => inside j before after, left, frame, running⟩,
      fun h => ⟨h.entered, h.le, fun j before after => h.inside j after before, h.left, h.frame,
        h.running⟩⟩

/-- Wherever the code of a node lies, running it from its start to its end adds one value to the
    operand stack. The values that a binary operator finds there are those which the code of its
    left operand and then the code of its right operand have added. -/
def AddsOne (m : Machine σ) (hosted : List String) (e : Node) : Prop :=
  ∀ scope base code, scope.builtins = hosted → emit scope base e = .ok code →
    Placed m.program base code → ∀ t t', Traverses m base (base + code.length) t t' →
      (∃ v, (m.after t').state.stack = v :: (m.after t).state.stack) ∧
      ∀ op left right leftCode rightCode, e = .binary op left right →
        emit scope base left = .ok leftCode →
          emit scope (base + leftCode.length) right = .ok rightCode →
            ∃ t₁ t₂ l r, Traverses m base (base + leftCode.length) t t₁ ∧
              Traverses m (base + leftCode.length)
                (base + leftCode.length + rightCode.length) t₁ t₂ ∧ t₂ < t' ∧
              (m.after t₁).state.stack = l :: (m.after t).state.stack ∧
              (m.after t₂).state.stack = r :: l :: (m.after t).state.stack

namespace Machine

variable {m : Machine σ}

/-- The bounds of a machine never change. -/
theorem limits_of_running (table : m.table = .standard) (n : Nat) :
    (m.after n).state.status = .running → (m.after n).state.limits = m.state.limits := by
  induction n with
  | zero => exact fun _ => rfl
  | succ n ih =>
      intro goes
      have running := running_of_step goes
      have table' : (m.after n).table = .standard := by rw [after_table, table]
      rw [← ih running]
      rcases step_cases table' running with ⟨e, failed⟩ | ⟨i, _, transfer⟩
      · rw [after, failed] at goes
        cases goes
      exact transfer.limits

/-- A running machine is at some place of an evaluation. -/
theorem at_of_running (table : m.table = .standard) (unbounded : m.state.limits = .unbounded)
    {t : Nat} (running : (m.after t).state.status = .running) :
    At m t ⟨(m.after t).state.frames.active.returnTo, (m.after t).state.frames.callers⟩
      (m.after t).state.ip ⟨(m.after t).state.stack, (m.after t).state.frames.active.bindings,
        (m.after t).state.builtins, m.hostCalls t⟩ where
  running := running
  limits := (limits_of_running table t running).trans unbounded
  ip := rfl
  stack := rfl
  bindings := rfl
  returnTo := rfl
  callers := rfl
  builtins := rfl
  calls := rfl

end Machine

/-- Behind the end of code a machine is outside of it. -/
theorem At.outside {m : Machine σ} {t ip lo hi : Nat} {act : Activation} {env : Env σ}
    (here : At m t act ip env) (beyond : hi ≤ ip) : ¬ Inside m lo hi act.depth t := by
  intro inside
  rcases inside.place with ⟨_, _, below⟩ | deeper
  · rw [here.ip] at below
    exact Nat.not_lt_of_le beyond below
  · rw [here.callers] at deeper
    exact Nat.lt_irrefl _ deeper

/-- Two places of one activation that a run comes to. -/
theorem Traverses.of_at {m : Machine σ} {t t' start stop : Nat} {act : Activation}
    {env env' : Env σ} (here : At m t act start env) (there : At m t' act stop env') (le : t ≤ t')
    (inside : ∀ j, t ≤ j → j < t' → Inside m start stop act.depth j) :
    Traverses m start stop t t' where
  entered := here.ip
  le := le
  inside := by
    rw [here.callers]
    exact inside
  left := there.ip
  frame := by rw [there.callers, here.callers]
  running := there.running

theorem Traverses.outside {m : Machine σ} {start stop hi t t' : Nat}
    (h : Traverses m start stop t t') (lo : Nat) (beyond : hi ≤ stop) :
    ¬ Inside m lo hi (m.after t).state.frames.callers.length t' := by
  intro inside
  rcases inside.place with ⟨_, _, below⟩ | deeper
  · rw [h.left] at below
    exact Nat.not_lt_of_le beyond below
  · rw [h.frame] at deeper
    exact Nat.lt_irrefl _ deeper

/-- A machine that runs and is outside by a step has followed the evaluation to its end, or to a
    return, unless that takes more steps. -/
theorem Follows.arrived {m : Machine σ} {I : Nat → Prop} {N t t' : Nat} {act : Activation}
    {outcome : EStateM.Result Interruption (Env σ) α} {Q : Nat → α → Env σ → Prop}
    (h : Follows m I N act t outcome Q) (le : t ≤ t') (outside : ¬ I t')
    (running : (m.after t').state.status = .running) (enough : t' < N) :
    ∃ u, t ≤ u ∧ u ≤ t' ∧ (∀ j, t ≤ j → j < u → I j) ∧
      ((∃ a env, outcome = .ok a env ∧ Q u a env) ∨
        ∃ env, outcome = .error .returned env ∧ I u ∧
          ∃ ip, At m u act ip env ∧ m.program.get? ip = some (.plain .ret)) := by
  obtain ⟨u, after, inside, arrives⟩ := h
  have early : u ≤ t' := by
    rcases Nat.lt_or_ge t' u with late | early
    · exact absurd (inside t' le late) outside
    · exact early
  refine ⟨u, after, early, inside, ?_⟩
  match outcome, arrives with
  | .ok a env, arrives => exact Or.inl ⟨a, env, rfl, arrives⟩
  | .error .returned env, arrives => exact Or.inr ⟨env, rfl, arrives⟩
  | .error (.failed e) env, ⟨failed, _⟩ =>
      rw [Machine.running_of_le early running] at failed
      cases failed
  | .error .unfinished _, ⟨late, _⟩ =>
      exact absurd (Nat.le_trans late early) (Nat.not_le_of_lt enough)

/-! ### Where expressions lie

An expression of the source lies in the bytecode wherever the code around it was placed. It is found
by going down from the statements and the functions through the nodes. -/

/-- The code of a node holds the code of the nodes below it. -/
def Holds (b : Bytecode) (scope : Scope) (node : Node) : Prop :=
  ∃ base code, emit scope base node = .ok code ∧ Placed b base code

/-- Code that is placed holds all of its nodes. -/
theorem holds_of_emitAll {b : Bytecode} {scope : Scope} {nodes : List Node} :
    ∀ {base : Nat} {code : OpenCode}, emitAll scope base nodes = .ok code → Placed b base code →
      ∀ node ∈ nodes, Holds b scope node := by
  induction nodes with
  | nil =>
      intro _ _ _ _ node mem
      cases mem
  | cons first rest ih =>
      intro base code h placed node mem
      obtain ⟨firstCode, hf, restCode, hr, rfl⟩ := emitAll_cons_ok.1 h
      rw [placed_append] at placed
      rcases List.mem_cons.1 mem with rfl | mem
      · exact ⟨_, _, hf, placed.1⟩
      · exact ih hr placed.2 node mem

theorem Holds.child {b : Bytecode} {scope : Scope} {node child : Node} (h : Holds b scope node)
    (mem : child ∈ node.children) : Holds b scope child := by
  obtain ⟨base, code, emitted, placed⟩ := h
  cases node with
  | literal value => cases mem
  | ident name => cases mem
  | binary op left right =>
      obtain ⟨leftCode, hl, rightCode, hr, rfl⟩ := emit_binary_ok.1 emitted
      rw [placed_append, placed_append] at placed
      rcases List.mem_cons.1 mem with rfl | mem
      · exact ⟨_, _, hl, placed.1.1⟩
      · rw [List.mem_singleton.1 mem]
        exact ⟨_, _, hr, placed.1.2⟩
  | unary op operand =>
      obtain ⟨operandCode, ho, rfl⟩ := emit_unary_ok.1 emitted
      rw [List.mem_singleton.1 mem]
      exact ⟨_, _, ho, (placed_append.1 placed).1⟩
  | call callee args =>
      obtain ⟨argsCode, ha, rfl⟩ := emit_call_ok.1 emitted
      rw [Node.children, Node.bodies, List.append_nil] at mem
      exact holds_of_emitAll ha (placed_append.1 placed).1 child mem
  | assign name value =>
      obtain ⟨valueCode, hv, rfl⟩ := emit_assign_ok.1 emitted
      rw [List.mem_singleton.1 mem]
      exact ⟨_, _, hv, (placed_append.1 placed).1⟩
  | block children => exact holds_of_emitAll (emit_block_ok.1 emitted) placed child mem
  | ifThen condition thenBranch =>
      obtain ⟨conditionCode, hc, thenCode, ht, rfl⟩ := emit_ifThen_ok.1 emitted
      simp only [placed_append, List.length_append, List.length_cons, List.length_nil,
        ← Nat.add_assoc] at placed
      simp only [Node.children, Node.operands, Node.bodies, List.cons_append, List.nil_append,
        List.mem_cons, List.not_mem_nil, or_false] at mem
      rcases mem with rfl | rfl
      · exact ⟨_, _, hc, placed.1.1⟩
      · exact ⟨_, _, ht, placed.2⟩
  | ifElse condition thenBranch elseBranch =>
      obtain ⟨conditionCode, hc, thenCode, ht, elseCode, he, rfl⟩ := emit_ifElse_ok.1 emitted
      simp only [placed_append, List.length_append, List.length_cons, List.length_nil,
        ← Nat.add_assoc] at placed
      simp only [Node.children, Node.operands, Node.bodies, List.cons_append, List.nil_append,
        List.mem_cons, List.not_mem_nil, or_false] at mem
      rcases mem with rfl | rfl | rfl
      · exact ⟨_, _, hc, placed.1.1.1.1⟩
      · exact ⟨_, _, ht, placed.1.1.2⟩
      · exact ⟨_, _, he, placed.2⟩
  | whileLoop condition body =>
      obtain ⟨conditionCode, hc, bodyCode, hb, rfl⟩ := emit_whileLoop_ok.1 emitted
      simp only [placed_append, List.length_append, List.length_cons, List.length_nil,
        ← Nat.add_assoc] at placed
      simp only [Node.children, Node.operands, Node.bodies, List.cons_append, List.nil_append,
        List.mem_cons, List.not_mem_nil, or_false] at mem
      rcases mem with rfl | rfl
      · exact ⟨_, _, hc, placed.1.1.1⟩
      · exact ⟨_, _, hb, placed.1.2⟩
  | doWhile body condition =>
      obtain ⟨bodyCode, hb, conditionCode, hc, rfl⟩ := emit_doWhile_ok.1 emitted
      simp only [placed_append, List.length_append, ← Nat.add_assoc] at placed
      simp only [Node.children, Node.operands, Node.bodies, List.cons_append, List.nil_append,
        List.mem_cons, List.not_mem_nil, or_false] at mem
      rcases mem with rfl | rfl
      · exact ⟨_, _, hc, placed.1.2⟩
      · exact ⟨_, _, hb, placed.1.1⟩
  | forRange var start stop body =>
      obtain ⟨startCode, hs, stopCode, hp, bodyCode, hb, rfl⟩ := emit_forRange_ok.1 emitted
      simp only [placed_append, List.length_append, List.length_cons, List.length_nil,
        ← Nat.add_assoc] at placed
      simp only [Node.children, Node.operands, Node.bodies, List.cons_append, List.nil_append,
        List.mem_cons, List.not_mem_nil, or_false] at mem
      rcases mem with rfl | rfl | rfl
      · exact ⟨_, _, hs, placed.1.1.1.1.1⟩
      · exact ⟨_, _, hp, placed.1.1.1.2⟩
      · exact ⟨_, _, hb, placed.1.2⟩
  | function name params body => exact absurd emitted emit_function_error
  | ret value =>
      obtain ⟨valueCode, hv, rfl⟩ := emit_ret_ok.1 emitted
      rw [List.mem_singleton.1 mem]
      exact ⟨_, _, hv, (placed_append.1 placed).1⟩

/-- The code of a node holds the code of all nodes below it. -/
theorem Holds.part {b : Bytecode} {scope : Scope} {part : Node} (node : Node)
    (mem : part ∈ node.parts) (h : Holds b scope node) : Holds b scope part := by
  induction node using Node.induction_on_children with
  | step node ih =>
      rw [Node.parts_eq, List.mem_cons, List.mem_flatMap] at mem
      rcases mem with rfl | ⟨child, below, mem⟩
      · exact h
      · exact ih child below mem (h.child below)

section

variable {host : Builtins σ} {p : Program} {b : Bytecode} {functions : List FunctionCode}
  {start : Nat} {main : OpenCode}

/-- What stands in the position of an expression below such a node does so in the program. -/
theorem Program.expressions_of_part {e part x : Node} (mem : e ∈ p.expressions)
    (inside : part ∈ e.parts) (operand : x ∈ part.operands) : x ∈ p.expressions := by
  obtain ⟨s, hs, mem⟩ := List.mem_flatMap.1 mem
  obtain ⟨above, ha, mem⟩ := List.mem_flatMap.1 mem
  have below : part ∈ above.parts := Node.parts_of_child (List.mem_append_left _ mem) inside
  exact List.mem_flatMap.2 ⟨s, hs, List.mem_flatMap.2 ⟨part, Node.parts_trans s ha below, operand⟩⟩

/-- The operands in a function's body are expressions of the program. -/
theorem Program.expressions_of_body {d : Declaration} {part x : Node} (mem : d ∈ p.declarations)
    (inside : part ∈ d.body.parts) (operand : x ∈ part.operands) : x ∈ p.expressions := by
  have below : part ∈ (Node.function d.name d.params d.body).parts :=
    Node.parts_of_child (List.mem_singleton.2 rfl) inside
  exact List.mem_flatMap.2
    ⟨_, statement_of_declaration mem, List.mem_flatMap.2 ⟨part, below, operand⟩⟩

theorem Program.Reaches.declared {e : Node} {d : Declaration} (h : p.Reaches e d) :
    d ∈ p.declarations := by
  cases h with
  | calls _ found => exact (mem_of_callee found).1
  | through _ _ found => exact (mem_of_callee found).1

/-- In a disciplined program the functions that an expression reaches are sound if they are tidy. -/
theorem Program.Disciplined.sound {hosted : List String} (disciplined : p.Disciplined hosted)
    {e : Node} (tidy : ∀ d, p.Reaches e d → p.Tidy hosted d) {d : Declaration}
    (reached : p.Reaches e d) : p.SoundCommand hosted (p.Reaches e) d.body where
  left := tidy d reached d.body List.mem_cons_self
  right :=
    { operands := fun _ inside x operand =>
        disciplined x (expressions_of_body reached.declared inside operand)
      calls := fun _ call _ found => .through reached call found
      bodies := fun part inside c body =>
        tidy d reached c (List.mem_cons_of_mem _ (List.mem_flatMap.2 ⟨part, inside, body⟩)) }

/-- So is any node in the position of an expression. -/
theorem Program.Disciplined.expression {hosted : List String} (disciplined : p.Disciplined hosted)
    {e x : Node} (part : x ∈ e.parts) (operand : x ∈ p.expressions) :
    p.SoundExpression hosted (p.Reaches e) x where
  left := disciplined x operand
  right :=
    { operands := fun _ inside y below =>
        disciplined y (expressions_of_part operand inside below)
      calls := fun _ call _ found => .calls (Node.calls_of_part e part call) found }

/-- Every node below a statement has code somewhere in the program, unless it is a declaration. -/
theorem Assembly.part_placed (h : Assembly host.names p b functions start main) {s part : Node}
    (statement : s ∈ p.statements) (mem : part ∈ s.parts) (inner : part.declaration? = none) :
    ∃ scope, scope.builtins = host.names ∧ Holds b scope part := by
  cases declared : s.declaration? with
  | none =>
      have inBody : s ∈ p.body := List.mem_filter.2 ⟨statement, by rw [declared]; rfl⟩
      have holds := holds_of_emitAll h.mainEmitted (placed_append.1 h.mainPlaced).1 s inBody
      exact ⟨_, rfl, holds.part s mem⟩
  | some d =>
      have listed : d ∈ p.declarations := List.mem_filterMap.2 ⟨s, statement, declared⟩
      rw [← h.declarations] at listed
      obtain ⟨f, hf, rfl⟩ := List.mem_map.1 listed
      obtain ⟨body, hb, _, _, placed⟩ := h.body_placed hf
      have holds : Holds b ⟨host.names, some f.declaration.name⟩ f.declaration.body :=
        ⟨_, _, hb, placed⟩
      cases s with
      | function name params body =>
          have same := Option.some.inj declared
          rw [← same] at holds
          rw [Node.parts_eq, List.mem_cons, List.mem_flatMap] at mem
          rcases mem with rfl | ⟨child, only, mem⟩
          · cases inner
          · rw [List.mem_singleton.1 only] at mem
            exact ⟨_, rfl, holds.part body mem⟩
      | _ => cases declared

/-- Every node in the position of an expression has code somewhere in the program. -/
theorem Assembly.expression_placed (h : Assembly host.names p b functions start main) {e : Node}
    (mem : e ∈ p.expressions) : ∃ scope, scope.builtins = host.names ∧ Holds b scope e := by
  obtain ⟨s, hs, mem⟩ := List.mem_flatMap.1 mem
  obtain ⟨above, ha, operand⟩ := List.mem_flatMap.1 mem
  have inner : above.declaration? = none := by
    cases above with
    | function name params body => cases operand
    | _ => rfl
  obtain ⟨scope, names, holds⟩ := h.part_placed hs ha inner
  exact ⟨scope, names, holds.child (List.mem_append_left _ operand)⟩

/-- A machine that has left the code of a node has first come to its end, as the node's evaluation
    has, or to a return, as the evaluation has too. -/
theorem Assembly.node_passed (h : Assembly host.names p b functions start main) {x : Node}
    {scope : Scope} {base : Nat} {code : OpenCode} (names : scope.builtins = host.names)
    (emitted : emit scope base x = .ok code) (placed : Placed b base code) {t t' : Nat}
    {act : Activation} {env : Env σ} (here : At (Machine.start b host .unbounded) t act base env)
    (le : t ≤ t') (running : ((Machine.start b host .unbounded).after t').state.status = .running)
    (outside : ¬ Inside (Machine.start b host .unbounded) base (base + code.length) act.depth t') :
    ∃ u, t ≤ u ∧ u ≤ t' ∧
      (∀ j, t ≤ j → j < u →
        Inside (Machine.start b host .unbounded) base (base + code.length) act.depth j) ∧
      ((∃ a env', evalNode host.names (t' + 1)
            (enterFunction host.names p.declarations (t' + 1)) x env = .ok a env' ∧
          At (Machine.start b host .unbounded) u act (base + code.length) env') ∨
        ∃ env', evalNode host.names (t' + 1)
            (enterFunction host.names p.declarations (t' + 1)) x env = .error .returned env' ∧
          Inside (Machine.start b host .unbounded) base (base + code.length) act.depth u ∧
          ∃ ip, At (Machine.start b host .unbounded) u act ip env' ∧
            (Machine.start b host .unbounded).program.get? ip = some (.plain .ret)) := by
  have table : (Machine.start b host .unbounded).table = .standard := rfl
  have enters := h.enterFunction_follows host (t' + 1) (t' + 1)
  rw [← names] at enters ⊢
  have run := evalNode_follows table enters emitted placed (Nat.le_refl base) (Nat.le_refl _) here
    (Nat.le_add_right _ t)
  exact run.arrived le outside running (Nat.lt_succ_self t')

/-- A machine that has left the code of an expression has first come to its end, with one value more
    on the stack. -/
theorem Assembly.expression_passed (h : Assembly host.names p b functions start main)
    {G : Declaration → Prop} (sound : ∀ d, G d → p.SoundCommand host.names G d.body) {x : Node}
    (expression : p.SoundExpression host.names G x) {scope : Scope} {base : Nat} {code : OpenCode}
    (names : scope.builtins = host.names) (emitted : emit scope base x = .ok code)
    (placed : Placed b base code) {t t' : Nat} {act : Activation} {env : Env σ}
    (here : At (Machine.start b host .unbounded) t act base env) (le : t ≤ t')
    (running : ((Machine.start b host .unbounded).after t').state.status = .running)
    (outside : ¬ Inside (Machine.start b host .unbounded) base (base + code.length) act.depth t') :
    ∃ u, t ≤ u ∧ u ≤ t' ∧
      (∀ j, t ≤ j → j < u →
        Inside (Machine.start b host .unbounded) base (base + code.length) act.depth j) ∧
      ∃ v env', env'.stack = v :: env.stack ∧
        At (Machine.start b host .unbounded) u act (base + code.length) env' := by
  obtain ⟨u, after, early, inside, outcome⟩ :=
    h.node_passed names emitted placed here le running outside
  have effect := expression_effect (enterFunction_effect sound (t' + 1)) expression env
    (n := t' + 1) (R := fun _ => False)
  rw [Eval.Leaves] at effect
  refine ⟨u, after, early, inside, ?_⟩
  rcases outcome with ⟨_, env', done, arrived⟩ | ⟨env', returned, _⟩
  · rw [done] at effect
    obtain ⟨v, stack⟩ := effect
    exact ⟨v, env', stack, arrived⟩
  · rw [returned] at effect
    exact effect.elim

/-- A machine that has run past two expressions has first come to the end of the one, then of the
    other, each with one value more on the stack. -/
theorem Assembly.operands_passed (h : Assembly host.names p b functions start main)
    {G : Declaration → Prop} (sound : ∀ d, G d → p.SoundCommand host.names G d.body)
    {left right : Node} (leftSound : p.SoundExpression host.names G left)
    (rightSound : p.SoundExpression host.names G right) {scope : Scope} {base stop : Nat}
    {leftCode rightCode : OpenCode} (names : scope.builtins = host.names)
    (leftEmitted : emit scope base left = .ok leftCode)
    (rightEmitted : emit scope (base + leftCode.length) right = .ok rightCode)
    (leftPlaced : Placed b base leftCode)
    (rightPlaced : Placed b (base + leftCode.length) rightCode) {t t' : Nat} {act : Activation}
    {env : Env σ} (here : At (Machine.start b host .unbounded) t act base env)
    (traverses : Traverses (Machine.start b host .unbounded) base stop t t')
    (beyond : base + leftCode.length + rightCode.length < stop) :
    ∃ t₁ t₂ l r, Traverses (Machine.start b host .unbounded) base (base + leftCode.length) t t₁ ∧
      Traverses (Machine.start b host .unbounded) (base + leftCode.length)
        (base + leftCode.length + rightCode.length) t₁ t₂ ∧ t₂ < t' ∧
      ((Machine.start b host .unbounded).after t₁).state.stack = l :: env.stack ∧
      ((Machine.start b host .unbounded).after t₂).state.stack = r :: l :: env.stack := by
  have callers : ((Machine.start b host .unbounded).after t).state.frames.callers.length =
      act.depth := congrArg List.length here.callers
  have outside (lo : Nat) {hi : Nat} (low : hi ≤ stop) :
      ¬ Inside (Machine.start b host .unbounded) lo hi act.depth t' := by
    rw [← callers]
    exact traverses.outside lo low
  obtain ⟨t₁, after₁, early₁, inside₁, l, env₁, stack₁, at₁⟩ := h.expression_passed sound leftSound
    names leftEmitted leftPlaced here traverses.le traverses.running (outside base (by omega))
  obtain ⟨t₂, after₂, early₂, inside₂, r, env₂, stack₂, at₂⟩ := h.expression_passed sound rightSound
    names rightEmitted rightPlaced at₁ early₁ traverses.running (outside _ (Nat.le_of_lt beyond))
  -- there is code left behind the right operand
  have before : t₂ < t' := by
    rcases Nat.lt_or_eq_of_le early₂ with before | rfl
    · exact before
    · rw [← at₂.ip, traverses.left] at beyond
      exact absurd beyond (Nat.lt_irrefl stop)
  refine ⟨t₁, t₂, l, r, .of_at here at₁ after₁ inside₁, .of_at at₁ at₂ after₂ inside₂, before,
    ?_, ?_⟩
  · exact at₁.stack.trans stack₁
  · rw [at₂.stack, stack₂, stack₁]

theorem Assembly.addsOne (h : Assembly host.names p b functions start main)
    (disciplined : p.Disciplined host.names) {e : Node} (mem : e ∈ p.expressions)
    (tidy : ∀ d, p.Reaches e d → p.Tidy host.names d) :
    AddsOne (Machine.start b host .unbounded) host.names e := by
  intro scope base code names emitted placed t t' traverses
  have table : (Machine.start b host .unbounded).table = .standard := rfl
  have here := Machine.at_of_running table rfl
    (Machine.running_of_le traverses.le traverses.running)
  rw [traverses.entered] at here
  have sound := fun d (reached : p.Reaches e d) => disciplined.sound tidy reached
  constructor
  · have outside := traverses.outside base (Nat.le_refl _)
    obtain ⟨u, after, early, _, v, env', stack, arrived⟩ := h.expression_passed sound
      (disciplined.expression e.self_mem_parts mem) names emitted placed here traverses.le
      traverses.running outside
    rcases Nat.lt_or_eq_of_le early with before | rfl
    -- the expression is done at the first time outside of its code, which is the end of the
    -- traversal
    · exact absurd (traverses.inside u after before) (arrived.outside (Nat.le_refl _))
    · exact ⟨v, arrived.stack.trans stack⟩
  · rintro op left right leftCode rightCode rfl leftEmitted rightEmitted
    obtain ⟨leftCode', hl, rightCode', hr, rfl⟩ := emit_binary_ok.1 emitted
    cases leftEmitted.symm.trans hl
    cases rightEmitted.symm.trans hr
    rw [placed_append, placed_append] at placed
    have operand {x : Node} (below : x ∈ (Node.binary op left right).operands) :
        p.SoundExpression host.names (p.Reaches (.binary op left right)) x :=
      disciplined.expression (Node.parts_of_child (List.mem_append_left _ below) x.self_mem_parts)
        (Program.expressions_of_part mem (Node.self_mem_parts _) below)
    have operator : 0 < op.opcodes.length := by
      rw [op.opcodes_eq]
      exact Nat.zero_lt_succ _
    apply h.operands_passed sound (operand (by simp [Node.operands]))
      (operand (by simp [Node.operands])) names hl hr placed.1.1 placed.1.2 here traverses
    rw [List.length_append, List.length_append, List.length_map, ← Nat.add_assoc, ← Nat.add_assoc]
    exact Nat.lt_add_of_pos_right operator

/-- In a disciplined program the code of every expression lies somewhere, and it adds one value,
    provided that all functions which the expression can call are tidy. -/
theorem expression_adds_one (compiled : compile host.names p = .ok b)
    (disciplined : p.Disciplined host.names) {e : Node} (mem : e ∈ p.expressions)
    (tidy : ∀ d, p.Reaches e d → p.Tidy host.names d) :
    (∃ scope, scope.builtins = host.names ∧ Holds b scope e) ∧
      AddsOne (Machine.start b host .unbounded) host.names e := by
  obtain ⟨functions, start, main, h⟩ := compile_assembly compiled
  exact ⟨h.expression_placed mem, h.addsOne disciplined mem tidy⟩

end

/-- In `Program.parity` the call of `even` adds one value while four calls come and go. -/
theorem expression_adds_one_parity :
    Traverses (Machine.start .parity Builtins.printer .unbounded) 27 29 1 44 ∧
      AddsOne (Machine.start .parity Builtins.printer .unbounded) Builtins.printer.names
        (.call "even" [.literal (.int 3)]) := by
  have compiled : compile Builtins.printer.names .parity = .ok .parity := by
    rw [Builtins.names_printer]
    exact compile_parity
  have disciplined : Program.parity.Disciplined Builtins.printer.names := by
    rw [Builtins.names_printer]
    decide +kernel
  have tidy : ∀ d ∈ Program.parity.declarations, Program.parity.Tidy Builtins.printer.names d := by
    rw [Builtins.names_printer]
    decide +kernel
  constructor
  · decide +kernel
  · have mem : Node.call "even" [.literal (.int 3)] ∈ Program.parity.expressions :=
      List.mem_of_getElem? (i := 8) rfl
    have call := expression_adds_one compiled disciplined mem fun d reached =>
      tidy d reached.declared
    exact call.2

/-- A function that calls another one for its value and does not use it, and an expression that
    calls the first function while an operand is waiting. -/
def Program.leftover : Program where
  statements := [
    .function "five" [] (.ret (.literal (.int 5))),
    .function "one" [] (.block [.call "five" [], .ret (.literal (.int 1))]),
    .assign "x" (.binary .sub (.literal (.int 10)) (.call "one" []))]

/-- The bytecode of `Program.leftover`. -/
def Bytecode.leftover : Bytecode :=
  match compile [] .leftover with
  | .ok b => b
  | .error _ => default

theorem compile_leftover : compile [] .leftover = .ok .leftover := rfl

/-- Discipline alone does not keep the stack in order: in `Program.leftover` the value that `one`
    leaves behind comes between the operands of its caller. -/
theorem discipline_is_not_enough :
    ¬ ∀ (p : Program) (b : Bytecode) (host : Builtins Unit), compile host.names p = .ok b →
      p.Disciplined host.names → ∀ e ∈ p.expressions,
        AddsOne (Machine.start b host .unbounded) host.names e := by
  intro claim
  have names : (Builtins.empty ()).names = [] := Builtins.names_empty ()
  have adds := claim .leftover .leftover (Builtins.empty ()) (by rw [names]; exact compile_leftover)
    (by rw [names]; decide +kernel) (.call "one" []) (List.mem_of_getElem? (i := 4) rfl)
  have placed : Placed Bytecode.leftover 7 [.call "one"] :=
    placed_call_cons.2 ⟨⟨3, by decide +kernel, by decide +kernel⟩, placed_nil⟩
  rw [names] at adds
  obtain ⟨⟨v, stack⟩, _⟩ := adds ⟨[], none⟩ 7 [.call "one"] rfl rfl placed 2 8 (by decide +kernel)
  have before : ((Machine.start .leftover (Builtins.empty ()) .unbounded).after 2).state.stack =
      [.int 10] := by decide +kernel
  have after : ((Machine.start .leftover (Builtins.empty ()) .unbounded).after 8).state.stack =
      [.int 1, .int 5, .int 10] := by decide +kernel
  rw [before, after] at stack
  cases stack

end ImpStack
