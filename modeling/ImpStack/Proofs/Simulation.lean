/-
Module: ImpStack.Proofs.Simulation
Purpose: The code of a node follows the node's evaluation, wherever it lies in the program, from any
  state and with any caller, as long as entering a function follows entering it.
Main exports: EntersFollowed, evalNode_follows, evalNodes_follows
-/
import ImpStack.Proofs.Emission
import ImpStack.Proofs.Placement
import ImpStack.Proofs.Refinement

namespace ImpStack

variable {σ α : Type}

/-- Every call instruction of the program follows entering the function that it goes to. -/
def EntersFollowed (m : Machine σ) (N n : Nat) (enter : String → Eval σ Unit) : Prop :=
  ∀ callee entry, m.program.functions.find? callee = some entry →
    ∀ ip, m.program.get? ip = some (.call entry) → ∀ lo hi, lo ≤ ip → ip < hi →
      ∀ t act env, At m t act ip env → N ≤ n + t →
        Follows m (Inside m lo hi act.depth) N act t (enter callee env) fun t' _ env' =>
          At m t' act (ip + 1) env'

/-- An operator is its opcode and, if that computes the negation, a negation. -/
theorem BinaryOp.opcodes_eq (op : BinaryOp) :
    op.opcodes = op.opcode :: if op.negated then [.not] else [] := by
  cases op <;> rfl

section

variable {m : Machine σ} (table : m.table = .standard) {scope : Scope} {n N lo hi : Nat}
  {enter : String → Eval σ Unit} {act : Activation} {t : Nat} {env : Env σ}

include table

namespace At

variable {ip : Nat}

theorem push (here : At m t act ip env) (low : lo ≤ ip) (high : ip < hi) {v : Value}
    (fetch : m.program.get? ip = some (.push v)) :
    Follows m (Inside m lo hi act.depth) N act t (Eval.push v env) fun t' _ env' =>
      At m t' act (ip + 1) env' :=
  here.compute table low high fetch rfl nofun (Handler.refines_push v)

theorem load (here : At m t act ip env) (low : lo ≤ ip) (high : ip < hi) {name : String}
    (fetch : m.program.get? ip = some (.load name)) :
    Follows m (Inside m lo hi act.depth) N act t (Eval.load name env) fun t' _ env' =>
      At m t' act (ip + 1) env' :=
  here.compute table low high fetch rfl nofun (Handler.refines_load name)

theorem store (here : At m t act ip env) (low : lo ≤ ip) (high : ip < hi) {name : String}
    (fetch : m.program.get? ip = some (.store name)) :
    Follows m (Inside m lo hi act.depth) N act t (Eval.store name env) fun t' _ env' =>
      At m t' act (ip + 1) env' :=
  here.compute table low high fetch rfl nofun (Handler.refines_store name)

theorem combine (here : At m t act ip env) {op : BinaryOp} (low : lo ≤ ip) (high : ip < hi)
    (fetch : m.program.get? ip = some (.plain op.opcode)) :
    Follows m (Inside m lo hi act.depth) N act t (Eval.combine op.opcode op.compute env)
      fun t' _ env' => At m t' act (ip + 1) env' := by
  have arity : op.opcode.arity = 0 := by cases op <;> rfl
  have other : op.opcode ≠ .func := by cases op <;> nofun
  exact here.compute table low high fetch arity.symm other (Handler.refines_opcode op)

/-- An operator that is what its opcode computes. -/
theorem operate_plain (here : At m t act ip env) {op : BinaryOp} (plain : op.negated = false)
    (low : lo ≤ ip) (high : ip < hi) (fetch : m.program.get? ip = some (.plain op.opcode)) :
    Follows m (Inside m lo hi act.depth) N act t (Eval.operate op env) fun t' _ env' =>
      At m t' act (ip + 1) env' := by
  refine .seq (here.combine table low high fetch) fun t' _ env' _ arrived => ?_
  rw [plain]
  exact .here arrived

/-- The code of an operator follows the evaluation that operates. -/
theorem operate (here : At m t act ip env) {op : BinaryOp} (low : lo ≤ ip)
    (high : ip + op.opcodes.length ≤ hi)
    (placed : Placed m.program ip (op.opcodes.map .plain)) :
    Follows m (Inside m lo hi act.depth) N act t (Eval.operate op env) fun t' _ env' =>
      At m t' act (ip + op.opcodes.length) env' := by
  rw [op.opcodes_eq] at placed high ⊢
  rw [List.map_cons, placed_plain_cons] at placed
  cases negated : op.negated with
  | false =>
      rw [negated] at high
      exact here.operate_plain table negated low high placed.1
  | true =>
      rw [negated] at placed high
      have negation := (placed_plain_cons.1 placed.2).1
      refine .seq (here.combine table low (Nat.lt_of_succ_lt high) placed.1) ?_
      intro t' _ env' _ arrived
      rw [negated]
      exact arrived.compute table (Nat.le_succ_of_le low) high negation rfl nofun
        Handler.refines_not

theorem increment (here : At m t act ip env) {var : String} (low : lo ≤ ip) (high : ip + 3 < hi)
    (load : m.program.get? ip = some (.load var))
    (one : m.program.get? (ip + 1) = some (.push (.int 1)))
    (add : m.program.get? (ip + 2) = some (.plain .add))
    (store : m.program.get? (ip + 3) = some (.store var)) :
    Follows m (Inside m lo hi act.depth) N act t (Eval.increment var env) fun t' _ env' =>
      At m t' act (ip + 4) env' := by
  refine .seq (here.load table low (by omega) load) fun t₁ _ env₁ _ arrived₁ => ?_
  refine .seq (arrived₁.push table (by omega) (by omega) one) fun t₂ _ env₂ _ arrived₂ => ?_
  refine .seq (arrived₂.operate_plain table rfl (by omega) (by omega) add) ?_
  intro t₃ _ env₃ _ arrived₃
  exact arrived₃.store table (by omega) high store

end At

/-- A condition and the branch behind it are followed by going on at one of two places. -/
theorem Follows.branch {condition : Eval σ Unit} {f : Bool → Eval σ α} {ip target : Nat}
    {Q : Nat → α → Env σ → Prop}
    (first : Follows m (Inside m lo hi act.depth) N act t (condition env) fun t' _ env' =>
      At m t' act ip env')
    (low : lo ≤ ip) (high : ip + 1 < hi) (not : m.program.get? ip = some (.plain .not))
    (jump : m.program.get? (ip + 1) = some (.jumpIf target))
    (next : ∀ t' holds env', t < t' → At m t' act (if holds then ip + 2 else target) env' →
      Follows m (Inside m lo hi act.depth) N act t' (f holds env') Q) :
    Follows m (Inside m lo hi act.depth) N act t
      ((condition >>= fun _ => Eval.test .not >>= f) env) Q := by
  apply Follows.seq first
  intro t₁ _ env₁ later₁ arrived₁
  apply Follows.seq (arrived₁.branch table low high not jump)
  intro t₂ holds env₂ later₂ arrived₂
  exact next t₂ holds env₂ (Nat.lt_of_le_of_lt later₁ arrived₂.1) arrived₂.2

end

section

variable {m : Machine σ} {scope : Scope} {n N lo hi : Nat} {enter : String → Eval σ Unit}
  {act : Activation}

mutual

/-- The code of a node follows the evaluation of the node. -/
theorem evalNode_follows (table : m.table = .standard)
    (enters : EntersFollowed m N n enter) : ∀ {node : Node} {base : Nat} {code : OpenCode},
    emit scope base node = .ok code → Placed m.program base code → lo ≤ base →
      base + code.length ≤ hi → ∀ {t : Nat} {env : Env σ}, At m t act base env → N ≤ n + t →
        Follows m (Inside m lo hi act.depth) N act t
          (evalNode scope.builtins n enter node env) fun t' _ env' =>
            At m t' act (base + code.length) env'
  | .literal value, base, code, h, placed, low, high, t, env, here, enough => by
      rw [← emit_literal_ok.1 h] at placed high ⊢
      exact here.push table low high (placed_settled_cons.1 placed).1
  | .ident name, base, code, h, placed, low, high, t, env, here, enough => by
      rw [← emit_ident_ok.1 h] at placed high ⊢
      exact here.load table low high (placed_settled_cons.1 placed).1
  | .assign name value, base, code, h, placed, low, high, t, env, here, enough => by
      obtain ⟨valueCode, hv, rfl⟩ := emit_assign_ok.1 h
      rw [List.length_append, ← Nat.add_assoc] at high ⊢
      rw [placed_append, placed_settled_cons] at placed
      have value :=
        evalNode_follows table enters hv placed.1 low (Nat.le_of_succ_le high) here enough
      refine .seq value fun t' _ env' later arrived => ?_
      exact arrived.store table (Nat.le_add_right_of_le low) high placed.2.1
  | .binary op left right, base, code, h, placed, low, high, t, env, here, enough => by
      obtain ⟨leftCode, hl, rightCode, hr, rfl⟩ := emit_binary_ok.1 h
      simp only [List.length_append, List.length_map, ← Nat.add_assoc, placed_append]
        at placed high ⊢
      refine .seq (evalNode_follows table enters hl placed.1.1 low (by omega) here enough) ?_
      intro t₁ _ env₁ later₁ arrived₁
      refine .seq (evalNode_follows table enters hr placed.1.2
        (by omega) (by omega) arrived₁ (by omega)) ?_
      intro t₂ _ env₂ later₂ arrived₂
      exact arrived₂.operate table (by omega) high placed.2
  | .unary .not operand, base, code, h, placed, low, high, t, env, here, enough => by
      obtain ⟨operandCode, ho, rfl⟩ := emit_unary_ok.1 h
      rw [List.length_append, ← Nat.add_assoc] at high ⊢
      rw [placed_append] at placed
      have operand :=
        evalNode_follows table enters ho placed.1 low (Nat.le_of_succ_le high) here enough
      refine .seq operand fun t' _ env' later arrived => ?_
      exact arrived.compute table (Nat.le_add_right_of_le low) high
        (placed_plain_cons.1 placed.2).1 rfl nofun Handler.refines_not
  | .unary .neg operand, base, code, h, placed, low, high, t, env, here, enough => by
      obtain ⟨operandCode, ho, rfl⟩ := emit_unary_ok.1 h
      rw [List.length_append, ← Nat.add_assoc] at high ⊢
      rw [placed_append] at placed
      have stop : base + operandCode.length + 2 ≤ hi := high
      obtain ⟨minusOne, product⟩ := placed_settled_cons.1 placed.2
      have product := (placed_plain_cons.1 product).1
      have operand := evalNode_follows table enters ho placed.1 low (by omega) here enough
      refine .seq operand fun t₁ _ env₁ _ arrived₁ => ?_
      refine .seq (arrived₁.push table (by omega) (by omega) minusOne) ?_
      intro t₂ _ env₂ _ arrived₂
      exact arrived₂.operate_plain table rfl (by omega) stop product
  | .call callee args, base, code, h, placed, low, high, t, env, here, enough => by
      obtain ⟨argsCode, ha, rfl⟩ := emit_call_ok.1 h
      have one : (scope.callCode callee args.length).length = 1 := by
        rw [Scope.callCode]
        split <;> rfl
      rw [List.length_append, ← Nat.add_assoc, one] at high ⊢
      rw [placed_append] at placed
      have args :=
        evalNodes_follows table enters ha placed.1 low (Nat.le_of_succ_le high) here enough
      refine .seq args fun t' _ env' later arrived => ?_
      have low' : lo ≤ base + argsCode.length := Nat.le_add_right_of_le low
      rw [Scope.callCode] at placed
      cases hosted : scope.builtins.contains callee with
      | true =>
          rw [hosted] at placed
          exact arrived.host table low' high (placed_settled_cons.1 placed.2).1
      | false =>
          rw [hosted] at placed
          obtain ⟨entry, found, fetch⟩ := (placed_call_cons.1 placed.2).1
          -- the only case that does not stay in this code: what is called is left to `enters`
          exact enters callee entry found _ fetch lo hi low' high t' act env' arrived (by omega)
  | .ret value, base, code, h, placed, low, high, t, env, here, enough => by
      obtain ⟨valueCode, hv, rfl⟩ := emit_ret_ok.1 h
      rw [List.length_append, ← Nat.add_assoc] at high ⊢
      rw [placed_append, placed_plain_cons] at placed
      have value :=
        evalNode_follows table enters hv placed.1 low (Nat.le_of_succ_le high) here enough
      refine .seq value fun t' _ env' later arrived => ?_
      -- the evaluation ends here, so it is enough that the return comes next
      have inside := arrived.inside (Nat.le_add_right_of_le low) high
      exact .here ⟨inside, _, arrived, placed.2.1⟩
  | .block children, base, code, h, placed, low, high, t, env, here, enough => by
      rw [evalNode]
      exact evalNodes_follows table enters (emit_block_ok.1 h) placed low high here enough
  | .ifThen condition thenBranch, base, code, h, placed, low, high, t, env, here, enough => by
      obtain ⟨conditionCode, hc, thenCode, ht, rfl⟩ := emit_ifThen_ok.1 h
      simp only [List.length_append, List.length_cons, List.length_nil, ← Nat.add_assoc,
        placed_append, placed_plain_cons, placed_settled_cons] at placed high ⊢
      obtain ⟨⟨conditionPlaced, not, jump, _⟩, thenPlaced⟩ := placed
      have first := evalNode_follows table enters hc conditionPlaced low (by omega) here enough
      apply Follows.branch table first (by omega) (by omega) not jump
      intro t₁ holds env₁ later₁ arrived₁
      cases holds with
      | true =>
          exact evalNode_follows table enters ht thenPlaced (by omega) high arrived₁ (by omega)
      | false => exact .here arrived₁
  | .ifElse condition thenBranch elseBranch, base, code, h, placed, low, high, t, env, here,
      enough => by
      obtain ⟨conditionCode, hc, thenCode, ht, elseCode, he, rfl⟩ := emit_ifElse_ok.1 h
      simp only [List.length_append, List.length_cons, List.length_nil, ← Nat.add_assoc,
        placed_append, placed_plain_cons, placed_settled_cons] at placed high ⊢
      obtain ⟨⟨⟨⟨conditionPlaced, not, jump, _⟩, thenPlaced⟩, leave, _⟩, elsePlaced⟩ := placed
      have first := evalNode_follows table enters hc conditionPlaced low (by omega) here enough
      apply Follows.branch table first (by omega) (by omega) not jump
      intro t₁ holds env₁ later₁ arrived₁
      cases holds with
      | true =>
          have branch :=
            evalNode_follows table enters ht thenPlaced (by omega) (by omega) arrived₁ (by omega)
          refine branch.extend fun t₂ _ env₂ _ arrived₂ => ?_
          -- the jump over the other branch is one step more
          exact .later (arrived₂.inside (by omega) (by omega)) (.here (arrived₂.jump table leave))
      | false =>
          exact evalNode_follows table enters he elsePlaced (by omega) high arrived₁ (by omega)
  | .whileLoop condition body, base, code, h, placed, low, high, t, env, here, enough => by
      obtain ⟨conditionCode, hc, bodyCode, hb, rfl⟩ := emit_whileLoop_ok.1 h
      simp only [List.length_append, List.length_cons, List.length_nil, ← Nat.add_assoc,
        placed_append, placed_plain_cons, placed_settled_cons] at placed high ⊢
      obtain ⟨⟨⟨conditionPlaced, not, jump, _⟩, bodyPlaced⟩, again, _⟩ := placed
      -- each round starts at the same address, so one round is followed from any environment
      refine Follows.loop (fun t env later here => ?_) n t env (Nat.le_refl t) enough here
      have first := evalNode_follows table enters hc conditionPlaced low (by omega) here (by omega)
      apply Follows.branch table first (by omega) (by omega) not jump
      intro t₁ holds env₁ later₁ arrived₁
      cases holds with
      | true =>
          have bodyRun :=
            evalNode_follows table enters hb bodyPlaced (by omega) (by omega) arrived₁ (by omega)
          refine .seq bodyRun ?_
          intro t₂ _ env₂ later₂ arrived₂
          refine .later (arrived₂.inside (by omega) (by omega)) (.here ?_)
          exact ⟨by omega, arrived₂.jump table again⟩
      | false => exact .here arrived₁
  | .doWhile body condition, base, code, h, placed, low, high, t, env, here, enough => by
      obtain ⟨bodyCode, hb, conditionCode, hc, rfl⟩ := emit_doWhile_ok.1 h
      simp only [List.length_append, List.length_cons, List.length_nil, ← Nat.add_assoc,
        placed_append, placed_settled_cons] at placed high ⊢
      obtain ⟨⟨bodyPlaced, conditionPlaced⟩, again, _⟩ := placed
      refine Follows.loop (fun t env later here => ?_) n t env (Nat.le_refl t) enough here
      refine .seq (evalNode_follows table enters hb bodyPlaced low (by omega) here (by omega)) ?_
      intro t₁ _ env₁ later₁ arrived₁
      refine .seq (evalNode_follows table enters hc conditionPlaced
        (by omega) (by omega) arrived₁ (by omega)) ?_
      intro t₂ _ env₂ later₂ arrived₂
      refine (arrived₂.test table (by omega) (by omega) again).mono (fun _ inside => inside) ?_
      intro t₃ taken env₃ later₃ arrived₃
      cases taken with
      | true => exact ⟨by omega, arrived₃.2⟩
      | false => exact arrived₃.2
  | .forRange var start stop body, base, code, h, placed, low, high, t, env, here, enough => by
      obtain ⟨startCode, hs, stopCode, hp, bodyCode, hb, rfl⟩ := emit_forRange_ok.1 h
      simp only [List.length_append, List.length_cons, List.length_nil, ← Nat.add_assoc,
        placed_append, placed_plain_cons, placed_settled_cons] at placed high ⊢
      obtain ⟨⟨⟨⟨⟨startPlaced, init, load, _⟩, stopPlaced⟩, compare, exit, _⟩, bodyPlaced⟩, reload,
        one, add, update, again, _⟩ := placed
      refine .seq (evalNode_follows table enters hs startPlaced low (by omega) here enough) ?_
      intro t₁ _ env₁ later₁ arrived₁
      refine .seq (arrived₁.store table (by omega) (by omega) init) ?_
      intro t₂ _ env₂ later₂ arrived₂
      -- the rounds start behind the first store, where the variable is loaded again
      refine Follows.loop ?_ n t₂ env₂ (Nat.le_refl t₂) (by omega) arrived₂
      intro t env later here
      refine .seq (here.load table (by omega) (by omega) load) ?_
      intro u₁ _ env₁ later₁ arrived₁
      refine .seq (evalNode_follows table enters hp stopPlaced
        (by omega) (by omega) arrived₁ (by omega)) ?_
      intro u₂ _ env₂ later₂ arrived₂
      refine .seq (arrived₂.operate_plain table rfl (by omega) (by omega) compare) ?_
      intro u₃ _ env₃ later₃ arrived₃
      refine .seq (arrived₃.test table (by omega) (by omega) exit) ?_
      intro u₄ taken env₄ later₄ arrived₄
      cases taken with
      | true => exact .here arrived₄.2
      | false =>
          have bodyRun :=
            evalNode_follows table enters hb bodyPlaced (by omega) (by omega) arrived₄.2 (by omega)
          refine .seq bodyRun ?_
          intro u₅ _ env₅ later₅ arrived₅
          refine .seq (arrived₅.increment table (by omega) (by omega) reload one add update) ?_
          intro u₆ _ env₆ later₆ arrived₆
          refine .later (arrived₆.inside (by omega) (by omega)) (.here ?_)
          exact ⟨by omega, arrived₆.jump table again⟩
  | .function .., _, _, h, _, _, _, _, _, _, _ => absurd h emit_function_error

/-- The code of a sequence of nodes follows their evaluation one after the other. -/
theorem evalNodes_follows (table : m.table = .standard)
    (enters : EntersFollowed m N n enter) : ∀ {nodes : List Node} {base : Nat} {code : OpenCode},
    emitAll scope base nodes = .ok code → Placed m.program base code → lo ≤ base →
      base + code.length ≤ hi → ∀ {t : Nat} {env : Env σ}, At m t act base env → N ≤ n + t →
        Follows m (Inside m lo hi act.depth) N act t
          (evalNodes scope.builtins n enter nodes env) fun t' _ env' =>
            At m t' act (base + code.length) env'
  | [], base, code, h, placed, low, high, t, env, here, enough => by
      rw [← emitAll_nil_ok.1 h]
      exact .here here
  | node :: rest, base, code, h, placed, low, high, t, env, here, enough => by
      obtain ⟨nodeCode, hn, restCode, hr, rfl⟩ := emitAll_cons_ok.1 h
      rw [List.length_append, ← Nat.add_assoc] at high ⊢
      rw [placed_append] at placed
      have node := evalNode_follows table enters hn placed.1 low (by omega) here enough
      refine .seq node fun t' _ env' later arrived => ?_
      exact evalNodes_follows table enters hr placed.2 (by omega) high arrived (by omega)

end

end

/-! ### Calls of functions

A call is followed in a frame of its own: the arguments go into the parameters, then the body runs.
However the body is left, by its end or by a return inside, it comes to a return, which brings the
caller back with its variables. -/

section

variable {m : Machine σ} (table : m.table = .standard) {N lo hi : Nat} {act : Activation} {t : Nat}
  {env : Env σ}

include table

/-- The parameters of a function are popped one after the other. -/
theorem storeAll_follows {names : List String} :
    ∀ {base t : Nat} {env : Env σ}, lo ≤ base → base + names.length ≤ hi →
      Placed m.program base (names.map fun name => .settled (.store name)) → At m t act base env →
        Follows m (Inside m lo hi act.depth) N act t (Eval.storeAll names env) fun t' _ env' =>
          At m t' act (base + names.length) env' := by
  induction names with
  | nil => exact fun _ _ _ here => .here here
  | cons name rest ih =>
      intro base t env low high placed here
      rw [List.map_cons, placed_settled_cons] at placed
      rw [List.length_cons] at high ⊢
      refine .seq (here.store table low (by omega) placed.1) fun t' _ env' _ arrived => ?_
      have shift : base + (rest.length + 1) = base + 1 + rest.length := by omega
      rw [shift] at high ⊢
      exact ih (Nat.le_succ_of_le low) high placed.2 arrived

/-- A call is followed once the code of the callee, in the frame of the call, follows the callee's
    body up to some return. -/
theorem invoke_follows {next : Nat} {params : List String} {body : Eval σ Unit}
    (run : Follows m (Inside m lo hi (act.depth + 1)) N
      ⟨some next, ⟨act.returnTo, env.bindings⟩ :: act.callers⟩ t
      ((do Eval.storeAll params.reverse; body) { env with bindings := NameTable.empty })
      fun t' _ env' => ∃ ip,
        At m t' ⟨some next, ⟨act.returnTo, env.bindings⟩ :: act.callers⟩ ip env' ∧
          m.program.get? ip = some (.plain .ret)) (lo' hi' : Nat) :
    Follows m (Inside m lo' hi' act.depth) N act t (Eval.invoke params body env) fun t' _ env' =>
      At m t' act next env' := by
  obtain ⟨t', after, inside, arrives⟩ := run
  have within : ∀ j, t ≤ j → j < t' → Inside m lo' hi' act.depth j :=
    fun j low high => (inside j low high).deeper
  rw [Eval.invoke]
  generalize (do Eval.storeAll params.reverse; body : Eval σ Unit)
    { env with bindings := NameTable.empty } = outcome at arrives
  -- however the callee ends, it ends at a return, which brings the caller back
  have back {ip : Nat} {env' : Env σ}
      (here : At m t' ⟨some next, ⟨act.returnTo, env.bindings⟩ :: act.callers⟩ ip env')
      (fetch : m.program.get? ip = some (.plain .ret)) :
      Follows m (Inside m lo' hi' act.depth) N act t
        (.ok () { env' with bindings := env.bindings })
          fun t' _ env' => At m t' act next env' := by
    refine ⟨t' + 1, Nat.le_succ_of_le after, fun j low high => ?_, At.ret table here fetch⟩
    rcases Nat.lt_or_eq_of_le (Nat.le_of_lt_succ high) with before | rfl
    · exact within j low before
    · refine ⟨here.running, Or.inr ?_⟩
      rw [here.callers]
      exact Nat.lt_succ_self _
  match outcome, arrives with
  | .ok _ env', ⟨ip, here, fetch⟩ => exact back here fetch
  | .error .returned env', ⟨_, ip, here, fetch⟩ => exact back here fetch
  | .error (.failed _) _, arrives => exact ⟨t', after, within, arrives⟩
  | .error .unfinished _, arrives => exact ⟨t', after, within, arrives⟩

end

end ImpStack
