/-
Module: ImpStack.Proofs.Action
Purpose: Instructions in two stages. First an instruction draws: it decodes its operands, takes
  values from the operand stack, applies its operator and asks the host. What it draws decides on
  the action that it takes then: one push, one store, one move of control.
Main exports: Action, Action.perform, Handler.draw, Handler.ofOpcode_eq, Drawn, Fault,
  Exec.Draws, Handler.draw_draws
-/
import ImpStack.Proofs.Step

namespace ImpStack

variable {σ α β : Type}

/-! ### The two stages

Every handler first gathers what it needs and then changes the machine once. The first stage is
drawn out here as a value, the action, so that what follows can be proved of all instructions in two
steps: by cases on a handful of actions, and by one property of everything that is drawn. -/

/-- What an instruction does once it has drawn. -/
inductive Action where
  | skip
  | push (v : Value)
  | pushTwice (v : Value)
  | bind (name : String) (v : Value)
  | jump (target : Nat)
  | call (target : Nat)
  | ret
  | halt

/-- The work of an action. -/
def Action.perform : Action → Exec σ Unit
  | .skip => pure ()
  | .push v => Exec.push v
  | .pushTwice v => do
    Exec.push v
    Exec.push v
  | .bind name v => Exec.bind name v
  | .jump target => Exec.jump target
  | .call target => do
    let s ← get
    Exec.enter (.returningTo s.ip)
    Exec.jump target
  | .ret => do
    let frame ← Exec.leave
    Exec.jump frame.returnAddress
  | .halt => Exec.halt

namespace Action

/-- The second of two pushes is tried only if the bound on the stack lets the first one pass. -/
theorem perform_pushTwice (v : Value) (s : State σ) :
    (pushTwice v).perform s = match s.stackLimit? with
      | some limit => .error (.stackOverflow limit) s
      | none => Exec.push v { s with stack := v :: s.stack } := by
  rw [perform, Exec.bind_apply, Exec.push_apply]
  cases s.stackLimit? <;> rfl

/-- A call fails at the bound on frames; otherwise it enters a frame that returns to the next
    instruction and goes to the target. -/
theorem perform_call (target : Nat) (s : State σ) :
    (call target).perform s = match s.frameLimit? with
      | some limit => .error (.frameLimitExceeded limit) s
      | none => .ok () { s with
          ip := target
          frames := s.frames.push (.returningTo s.ip)
          stats := { s.stats with
            calls := s.stats.calls + 1
            maxDepth := max s.stats.maxDepth (s.frames.depth + 1) } } := by
  simp only [perform, Exec.bind_apply, Exec.get_apply, Exec.enter_apply]
  cases s.frameLimit? <;> rfl

/-- A return fails in the root frame; otherwise it leaves the active frame and goes to its return
    address. -/
theorem perform_ret (s : State σ) :
    ret.perform s = match s.frames.pop? with
      | none => .error (.stackUnderflow .frame s.opcode) s
      | some (frame, frames) => .ok () { s with
          ip := frame.returnAddress
          frames := frames
          stats := { s.stats with returns := s.stats.returns + 1 } } := by
  rw [perform, Exec.bind_apply, Exec.leave_apply]
  cases s.frames.pop? <;> rfl

/-- An action fails only at a bound, or if it is a return out of the outermost frame. -/
theorem perform_error {a : Action} {s t : State σ} {e : RuntimeError}
    (h : a.perform s = .error e t) :
    (∃ k, e = .stackOverflow k) ∨ (∃ k, e = .frameLimitExceeded k) ∨
      a = .ret ∧ s.frames.pop? = none ∧ e = .stackUnderflow .frame s.opcode := by
  cases a with
  | push v => exact Or.inl (Exec.push_failed h).1
  | pushTwice v =>
      rw [perform_pushTwice] at h
      cases bound : s.stackLimit? with
      | some k =>
          rw [bound] at h
          cases h
          exact Or.inl ⟨k, rfl⟩
      | none =>
          rw [bound] at h
          exact Or.inl (Exec.push_failed h).1
  | call target =>
      rw [perform_call] at h
      cases bound : s.frameLimit? <;> rw [bound] at h <;> cases h
      exact Or.inr (Or.inl ⟨_, rfl⟩)
  | ret =>
      rw [perform_ret] at h
      cases popped : s.frames.pop? <;> rw [popped] at h <;> cases h
      exact Or.inr (Or.inr ⟨rfl, rfl, rfl⟩)
  | skip => cases h
  | bind name v => cases h
  | jump target => cases h
  | halt => cases h

end Action

namespace Handler

/-- Take two values and apply an operator to them. -/
def combine (op : Value → Value → Except OperatorError Value) : Exec σ Action := do
  let right ← Exec.pop
  let left ← Exec.pop
  match op left right with
  | .ok v => pure (.push v)
  | .error e => do
    let s ← get
    throw (.ofOperator s.opcode e)

/-- What an instruction draws, as the action that it takes then. -/
def draw (op : Opcode) (operands : List Operand) : Exec σ Action :=
  match op with
  | .push => do
    let v ← valueOperand operands
    pure (.push v)
  | .pop => do
    let _ ← Exec.pop
    pure .skip
  | .dup => do
    let top ← Exec.pop
    pure (.pushTwice top)
  | .add => combine Value.add
  | .sub => combine Value.sub
  | .mul => combine Value.mul
  | .div => combine Value.div
  | .and => combine fun left right => .ok (.bool (left.truthy && right.truthy))
  | .or => combine fun left right => .ok (.bool (left.truthy || right.truthy))
  | .not => do
    let v ← Exec.pop
    pure (.push (.bool !v.truthy))
  | .isEq => combine fun left right => Value.bool <$> .ok (left.equal right)
  | .isGt => combine fun left right => Value.bool <$> left.greater right
  | .isGe => combine fun left right => Value.bool <$> left.greaterOrEqual right
  | .jump => do
    let target ← addressOperand operands
    pure (.jump target)
  | .jumpIf => do
    let target ← addressOperand operands
    let condition ← Exec.pop
    pure (if condition.truthy then .jump target else .skip)
  | .load => do
    let name ← nameOperand operands
    let s ← get
    match s.frames.active.lookup? name with
    | some v => pure (.push v)
    | none => throw (.unboundVariable name)
  | .store => do
    let name ← nameOperand operands
    let v ← Exec.pop
    pure (.bind name v)
  | .call => do
    let target ← addressOperand operands
    pure (.call target)
  | .ret => pure .ret
  | .func => do
    let name ← nameOperand operands
    let count ← countOperand operands
    let args ← popArguments count []
    let result ← Exec.callBuiltin name args
    pure (.push result)
  | .halt => pure .halt

/-- An operator's handler draws the result and pushes it. -/
theorem binary_eq (f : Value → Value → Except OperatorError Value) (operands : List Operand) :
    (binary f operands : Exec σ Unit) = combine f >>= Action.perform := by
  rw [binary, combine]
  simp only [bind_assoc]
  congr 1
  funext right
  congr 1
  funext left
  cases f left right with
  | ok v => rfl
  | error e => rfl

/-- Every instruction draws first and then acts. -/
theorem ofOpcode_eq (op : Opcode) (operands : List Operand) :
    (ofOpcode op operands : Exec σ Unit) = draw op operands >>= Action.perform := by
  cases op with
  | push => simp [ofOpcode, push, draw, Action.perform]
  | pop => simp [ofOpcode, pop, draw, Action.perform]
  | dup => simp [ofOpcode, dup, draw, Action.perform]
  | not => simp [ofOpcode, not, draw, Action.perform]
  | jump => simp [ofOpcode, jump, draw, Action.perform]
  | jumpIf =>
      simp only [ofOpcode, jumpIf, draw, bind_assoc, pure_bind]
      congr 1
      funext target
      congr 1
      funext condition
      cases condition.truthy <;> rfl
  | load =>
      simp only [ofOpcode, load, draw, bind_assoc]
      congr 1
      funext name
      congr 1
      funext s
      cases s.frames.active.lookup? name <;> rfl
  | store => simp [ofOpcode, store, draw, Action.perform]
  | call => simp [ofOpcode, call, draw, Action.perform]
  | ret => simp [ofOpcode, ret, draw, Action.perform]
  | func => simp [ofOpcode, func, draw, Action.perform]
  | halt => simp [ofOpcode, halt, draw, Action.perform]
  | and => exact binary_eq (fun left right => .ok (.bool (left.truthy && right.truthy))) operands
  | or => exact binary_eq (fun left right => .ok (.bool (left.truthy || right.truthy))) operands
  | isEq => exact binary_eq (fun left right => .ok (.bool (left.equal right))) operands
  | _ => exact binary_eq _ operands

end Handler

/-! ### What drawing changes and why it fails

Drawing takes values from the operand stack and may ask the host; it touches nothing else, and it
does not look at the bounds. Both are stated together with the reasons of failure, so that they are
carried through sequences of steps by one rule, `draws_bind`. -/

/-- A state under other bounds. -/
def State.under (s : State σ) (limits : Limits) : State σ := { s with limits }

/-- The same outcome under other bounds. -/
def underLimits (limits : Limits) :
    EStateM.Result RuntimeError (State σ) α → EStateM.Result RuntimeError (State σ) α
  | .ok a s => .ok a (s.under limits)
  | .error e s => .error e (s.under limits)

/-- Two states that differ at most by values taken from the operand stack and, if the instruction
    asks the host, by what that did to its own state. -/
structure Drawn (op : Opcode) (s s' : State σ) : Prop where
  stack : s'.stack <:+ s.stack
  functions : s'.builtins.functions = s.builtins.functions
  host : op ≠ .func → s'.builtins = s.builtins
  rest : s' = { s with stack := s'.stack, builtins := s'.builtins }

theorem Drawn.refl (op : Opcode) (s : State σ) : Drawn op s s :=
  ⟨List.suffix_refl _, rfl, fun _ => rfl, rfl⟩

theorem Drawn.trans {op : Opcode} {s t u : State σ} (h : Drawn op s t) (h' : Drawn op t u) :
    Drawn op s u := by
  refine ⟨h'.stack.trans h.stack, h'.functions.trans h.functions, ?_, ?_⟩
  · exact fun other => (h'.host other).trans (h.host other)
  · rw [h'.rest, h.rest]

/-- Why an instruction can fail to draw in a state. -/
inductive Fault (op : Opcode) (operands : List Operand) (s : State σ) : RuntimeError → Prop where
  /-- The operands are not of the kinds that the opcode takes. -/
  | malformed (reason : String) (kinds : operands.map Operand.kind ≠ op.operandKinds) :
      Fault op operands s (.malformedInstruction s.fetchedAt s.opcode reason)
  | underflow : Fault op operands s (.stackUnderflow .operand s.opcode)
  | operator (e : OperatorError) : Fault op operands s (.ofOperator s.opcode e)
  | unbound (name : String) : Fault op operands s (.unboundVariable name)
  /-- The host has no function of the name that the instruction calls. -/
  | unknown (name : String) (func : op = .func) (operand : operands[0]? = some (.name name))
      (missing : s.builtins.functions.find? name = none) :
      Fault op operands s (.unknownBuiltin name)
  | builtin (name message : String) : Fault op operands s (.builtin name message)

/-- Drawing does not change why an instruction can fail. -/
theorem Fault.of_drawn {op : Opcode} {operands : List Operand} {s s' : State σ} {e : RuntimeError}
    (drawn : Drawn op s s') (h : Fault op operands s' e) : Fault op operands s e := by
  have fetchedAt : s'.fetchedAt = s.fetchedAt := by rw [drawn.rest]
  have opcode : s'.opcode = s.opcode := by rw [drawn.rest]
  cases h with
  | malformed reason kinds =>
      rw [fetchedAt, opcode]
      exact .malformed reason kinds
  | underflow =>
      rw [opcode]
      exact .underflow
  | operator e =>
      rw [opcode]
      exact .operator e
  | unbound name => exact .unbound name
  | unknown name func operand missing =>
      rw [drawn.functions] at missing
      exact .unknown name func operand missing
  | builtin name message => exact .builtin name message

/-- An instruction with the operands that its opcode takes is not malformed. -/
theorem Fault.not_malformed {op : Opcode} {operands : List Operand} {s : State σ}
    {e : RuntimeError} (h : Fault op operands s e)
    (kinds : operands.map Operand.kind = op.operandKinds) (address : Nat) (opcode : Opcode)
    (reason : String) : e ≠ .malformedInstruction address opcode reason := by
  rintro rfl
  generalize same : RuntimeError.malformedInstruction address opcode reason = e at h
  cases h with
  | malformed _ other => exact other kinds
  | operator e => cases e <;> cases same
  | _ => cases same

/-- Work that draws on behalf of an instruction, whatever the bounds are: what it yields has a
    property, and it fails only for the reasons that the instruction has. -/
structure Exec.Draws (op : Opcode) (operands : List Operand) (P : α → Prop) (x : Exec σ α) :
    Prop where
  ok {s s' : State σ} {a : α} : x s = .ok a s' → Drawn op s s' ∧ P a
  error {s s' : State σ} {e : RuntimeError} : x s = .error e s' →
    Drawn op s s' ∧ Fault op operands s e
  under (s : State σ) (limits : Limits) : x (s.under limits) = underLimits limits (x s)

namespace Exec

variable {op : Opcode} {operands : List Operand} {P : α → Prop} {Q : β → Prop}

theorem draws_pure {a : α} (h : P a) : Draws op operands P (pure a : Exec σ α) where
  ok := by
    rintro s _ _ ⟨⟩
    exact ⟨.refl op s, h⟩
  error := nofun
  under _ _ := rfl

theorem draws_throw {e : RuntimeError} (h : ∀ s : State σ, Fault op operands s e) :
    Draws op operands P (throw e : Exec σ α) where
  ok := nofun
  error := by
    rintro s _ _ ⟨⟩
    exact ⟨.refl op s, h s⟩
  under _ _ := rfl

/-- Drawing in sequence: what the second part draws may depend on what the first part yielded. -/
theorem draws_bind {x : Exec σ α} {f : α → Exec σ β} (first : Draws op operands P x)
    (next : ∀ a, P a → Draws op operands Q (f a)) : Draws op operands Q (x >>= f) where
  ok := by
    intro s s' b h
    obtain ⟨a, t, hx, hf⟩ := bind_apply_ok h
    obtain ⟨drawn, yields⟩ := first.ok hx
    obtain ⟨drawn', yields'⟩ := (next a yields).ok hf
    exact ⟨drawn.trans drawn', yields'⟩
  error := by
    intro s s' e h
    rw [bind_apply] at h
    cases hx : x s with
    | error e' t =>
        rw [hx] at h
        cases h
        exact first.error hx
    | ok a t =>
        rw [hx] at h
        obtain ⟨drawn, yields⟩ := first.ok hx
        obtain ⟨drawn', fault⟩ := (next a yields).error h
        exact ⟨drawn.trans drawn', fault.of_drawn drawn⟩
  under := by
    intro s limits
    rw [bind_apply, bind_apply, first.under]
    cases hx : x s with
    | error e t => rfl
    | ok a t => exact (next a (first.ok hx).2).under t limits

theorem Draws.weaken {P' : α → Prop} {x : Exec σ α} (h : Draws op operands P x)
    (weaker : ∀ a, P a → P' a) : Draws op operands P' x where
  ok := fun done => ⟨(h.ok done).1, weaker _ (h.ok done).2⟩
  error := h.error
  under := h.under

/-- Reading something of the state that is no bound. -/
theorem draws_read {f : State σ → Exec σ α} (next : ∀ s, Draws op operands P (f s))
    (free : ∀ s limits, f (s.under limits) = f s) : Draws op operands P (get >>= f) where
  ok := fun {s _ _} h => (next s).ok h
  error := fun {s _ _} h => (next s).error h
  under := by
    intro s limits
    show f (s.under limits) (s.under limits) = underLimits limits (f s s)
    rw [free, (next s).under]

/-- Failing with an error that tells of the state. -/
theorem draws_fail {e : State σ → RuntimeError} (h : ∀ s, Fault op operands s (e s))
    (free : ∀ s limits, e (s.under limits) = e s) :
    Draws op operands P (get >>= fun s => throw (e s) : Exec σ α) where
  ok := nofun
  error := by
    rintro s _ _ ⟨⟩
    exact ⟨.refl op s, h s⟩
  under := by
    intro s limits
    show EStateM.Result.error (e (s.under limits)) (s.under limits) = _
    rw [free]
    rfl

/-- Operands of the wrong kinds are the only reason to call an instruction malformed. -/
theorem draws_malformed (reason : String) (kinds : operands.map Operand.kind ≠ op.operandKinds) :
    Draws op operands P (malformed reason : Exec σ α) :=
  draws_fail (fun _ => .malformed reason kinds) fun _ _ => rfl

theorem draws_pop : Draws op operands (fun _ => True) (pop : Exec σ Value) where
  ok := by
    intro s s' v h
    rw [pop_apply] at h
    cases stack : s.stack with
    | nil =>
        rw [stack] at h
        cases h
    | cons top rest =>
        rw [stack] at h
        cases h
        refine ⟨⟨?_, rfl, fun _ => rfl, rfl⟩, trivial⟩
        rw [stack]
        exact List.suffix_cons _ rest
  error := by
    intro s s' e h
    rw [pop_apply] at h
    cases stack : s.stack with
    | nil =>
        rw [stack] at h
        cases h
        exact ⟨.refl op s, .underflow⟩
    | cons top rest =>
        rw [stack] at h
        cases h
  under := by
    rintro ⟨ip, stack, frames, status, builtins, limits, stats, fetchedAt, opcode⟩ limits'
    cases stack <;> rfl

/-- Asking the host is left to the instruction for it, which names the function first. -/
theorem draws_callBuiltin {name : String} (func : op = .func)
    (operand : operands[0]? = some (.name name)) (args : List Value) :
    Draws op operands (fun _ => True) (callBuiltin name args : Exec σ Value) where
  ok := by
    intro s s' v h
    have functions := call_functions s.builtins name args
    rw [callBuiltin_apply] at h
    cases answer : (s.builtins.call name args).1 with
    | ok v =>
        rw [answer] at h
        cases h
        exact ⟨⟨List.suffix_refl _, functions, fun other => absurd func other, rfl⟩, trivial⟩
    | error e =>
        rw [answer] at h
        cases h
  error := by
    intro s s' e h
    have functions := call_functions s.builtins name args
    rw [callBuiltin_apply] at h
    cases answer : (s.builtins.call name args).1 with
    | ok v =>
        rw [answer] at h
        cases h
    | error e =>
        rw [answer] at h
        cases h
        refine ⟨⟨List.suffix_refl _, functions, fun other => absurd func other, rfl⟩, ?_⟩
        rcases call_error answer with ⟨missing, rfl⟩ | ⟨message, rfl⟩
        · exact .unknown name func operand missing
        · exact .builtin name message
  under := by
    intro s limits
    have builtins : (s.under limits).builtins = s.builtins := rfl
    rw [callBuiltin_apply, callBuiltin_apply, builtins]
    cases (s.builtins.call name args).1 with
    | ok v => rfl
    | error e => rfl

end Exec

/-! ### What instructions draw

One lemma for each thing that is decoded or taken, and then one for each opcode: which action it
comes to, and where the action's name or target stands among the operands. -/

/-- The actions that an instruction can come to. -/
def Action.Suits (op : Opcode) (operands : List Operand) : Action → Prop
  | .jump target => (op = .jump ∨ op = .jumpIf) ∧ operands[0]? = some (.address target)
  | .call target => op = .call ∧ operands[0]? = some (.address target)
  | .ret => op = .ret
  | .halt => op = .halt
  | _ => op ∉ [.jump, .call, .ret, .halt]

namespace Handler

open Exec

variable {op : Opcode} {operands : List Operand}

/-- Decoding an operand yields the one in its place, and fails only if that is not of the kind which
    the opcode takes there. -/
theorem draws_operand {index : Nat} {kind : OperandKind} {read? : Operand → Option α}
    (takes : op.operandKinds[index]? = some kind)
    (reads : ∀ o, read? o = none → o.kind ≠ kind) :
    Draws op operands (fun a => ∃ o, operands[index]? = some o ∧ read? o = some a)
      (operand index kind read? operands : Exec σ α) := by
  have differ (found : Option OperandKind) (other : found ≠ some kind)
      (here : (operands.map Operand.kind)[index]? = found) :
      operands.map Operand.kind ≠ op.operandKinds := by
    intro same
    rw [same, takes] at here
    exact other here.symm
  rw [operand]
  cases found : operands[index]? with
  | none =>
      refine draws_malformed _ (differ none (Option.some_ne_none kind).symm ?_)
      rw [List.getElem?_map, found]
      rfl
  | some o =>
      simp only []
      cases read : read? o with
      | some a => exact draws_pure ⟨o, rfl, read⟩
      | none =>
          refine draws_malformed _ (differ (some o.kind) ?_ ?_)
          · exact fun same => reads o read (Option.some.inj same)
          · rw [List.getElem?_map, found]
            rfl

theorem draws_valueOperand (takes : op.operandKinds[0]? = some .value) :
    Draws op operands (fun _ => True) (valueOperand operands : Exec σ Value) :=
  (draws_operand takes (by rintro ⟨⟩ <;> simp [Operand.value?, Operand.kind])).weaken
    fun _ _ => trivial

theorem draws_nameOperand (takes : op.operandKinds[0]? = some .name) :
    Draws op operands (fun name => operands[0]? = some (.name name))
      (nameOperand operands : Exec σ String) := by
  refine (draws_operand takes (by rintro ⟨⟩ <;> simp [Operand.name?, Operand.kind])).weaken ?_
  rintro name ⟨o, found, read⟩
  cases o <;> cases read
  exact found

/-- The address that a branch draws is its first operand. -/
theorem draws_addressOperand (takes : op.operandKinds[0]? = some .address) :
    Draws op operands (fun target => operands[0]? = some (.address target))
      (addressOperand operands : Exec σ Nat) := by
  refine (draws_operand takes (by rintro ⟨⟩ <;> simp [Operand.address?, Operand.kind])).weaken ?_
  rintro target ⟨o, found, read⟩
  cases o <;> cases read
  exact found

theorem draws_countOperand (takes : op.operandKinds[1]? = some .count) :
    Draws op operands (fun _ => True) (countOperand operands : Exec σ Nat) :=
  (draws_operand takes (by rintro ⟨⟩ <;> simp [Operand.count?, Operand.kind])).weaken
    fun _ _ => trivial

/-- Arguments are taken one by one, so too few of them are an underflow of the operand stack. -/
theorem draws_popArguments (n : Nat) : ∀ args : List Value,
    Draws op operands (fun _ => True) (popArguments n args : Exec σ (List Value)) := by
  induction n with
  | zero => exact fun args => draws_pure trivial
  | succ n ih => exact fun args => draws_bind draws_pop fun v _ => ih (v :: args)

/-- An operator takes two values and fails for its own reasons, or comes to a push. -/
theorem draws_combine (f : Value → Value → Except OperatorError Value)
    (suits : ∀ v, (Action.push v).Suits op operands) :
    Draws op operands (Action.Suits op operands) (combine f : Exec σ Action) := by
  refine draws_bind draws_pop fun right _ => draws_bind draws_pop fun left _ => ?_
  cases f left right with
  | ok v => exact draws_pure (suits v)
  | error e => exact draws_fail (fun _ => .operator e) fun _ _ => rfl

/-- Every instruction draws an action that suits it. -/
theorem draw_draws (op : Opcode) (operands : List Operand) :
    Draws op operands (Action.Suits op operands) (draw op operands : Exec σ Action) := by
  cases op with
  | push => exact draws_bind (draws_valueOperand rfl) fun v _ => draws_pure (by simp [Action.Suits])
  | pop => exact draws_bind draws_pop fun _ _ => draws_pure (by simp [Action.Suits])
  | dup => exact draws_bind draws_pop fun _ _ => draws_pure (by simp [Action.Suits])
  | not => exact draws_bind draws_pop fun _ _ => draws_pure (by simp [Action.Suits])
  | jump =>
      exact draws_bind (draws_addressOperand rfl) fun target operand =>
        draws_pure ⟨Or.inl rfl, operand⟩
  | jumpIf =>
      refine draws_bind (draws_addressOperand rfl) fun target operand => ?_
      refine draws_bind draws_pop fun condition _ => draws_pure ?_
      cases condition.truthy with
      | true => exact ⟨Or.inr rfl, operand⟩
      | false => simp [Action.Suits]
  | load =>
      apply draws_bind (draws_nameOperand rfl)
      intro name _
      refine draws_read (fun s => ?_) fun _ _ => rfl
      cases s.frames.active.lookup? name with
      | some v => exact draws_pure (by simp [Action.Suits])
      | none => exact draws_throw fun _ => .unbound name
  | store =>
      refine draws_bind (draws_nameOperand rfl) fun name _ => ?_
      exact draws_bind draws_pop fun v _ => draws_pure (by simp [Action.Suits])
  | call =>
      exact draws_bind (draws_addressOperand rfl) fun target operand => draws_pure ⟨rfl, operand⟩
  | ret => exact draws_pure rfl
  | func =>
      refine draws_bind (draws_nameOperand rfl) fun name operand => ?_
      refine draws_bind (draws_countOperand rfl) fun count _ => ?_
      refine draws_bind (draws_popArguments count []) fun args _ => ?_
      refine draws_bind (draws_callBuiltin rfl operand args) fun result _ => ?_
      exact draws_pure (by simp [Action.Suits])
  | halt => exact draws_pure rfl
  | _ =>
      rw [draw]
      exact draws_combine _ fun v => by simp [Action.Suits]

/-- Calls, returns and halts take nothing from the state. -/
theorem draw_untouched {op : Opcode} {operands : List Operand} {a : Action} {s t : State σ}
    (moves : op ∈ [.call, .ret, .halt]) (h : draw op operands s = .ok a t) : t = s := by
  simp only [List.mem_cons, List.not_mem_nil, or_false] at moves
  obtain rfl | rfl | rfl := moves
  · obtain ⟨target, t', decoded, rest⟩ := bind_apply_ok h
    cases rest
    exact operand_untouched decoded
  · cases h
    rfl
  · cases h
    rfl

/-- An instruction fails to draw, or it draws an action that suits it and then takes it. -/
theorem ofOpcode_cases (op : Opcode) (operands : List Operand) (s : State σ) :
    (∃ e t, ofOpcode op operands s = .error e t ∧ draw op operands s = .error e t ∧ Drawn op s t ∧
      Fault op operands s e) ∨
    ∃ a t, ofOpcode op operands s = a.perform t ∧ draw op operands s = .ok a t ∧ Drawn op s t ∧
      a.Suits op operands := by
  have draws := draw_draws (σ := σ) op operands
  rw [ofOpcode_eq, bind_apply]
  cases drawn : draw op operands s with
  | error e t => exact Or.inl ⟨e, t, rfl, rfl, draws.error drawn⟩
  | ok a t => exact Or.inr ⟨a, t, rfl, rfl, draws.ok drawn⟩

/-- An instruction fails to draw, or at a bound, or because it returns out of the outermost
    frame. -/
theorem ofOpcode_error {op : Opcode} {operands : List Operand} {s t : State σ} {e : RuntimeError}
    (h : ofOpcode op operands s = .error e t) :
    Fault op operands s e ∨ (∃ k, e = .stackOverflow k) ∨ (∃ k, e = .frameLimitExceeded k) ∨
      op = .ret ∧ s.frames.pop? = none ∧ e = .stackUnderflow .frame s.opcode := by
  obtain ⟨e', t', fails, -, -, fault⟩ | ⟨a, t', acts, -, drawn, suits⟩ :=
    ofOpcode_cases op operands s
  · rw [fails] at h
    cases h
    exact Or.inl fault
  · rw [acts] at h
    have frames : t'.frames = s.frames := by rw [drawn.rest]
    have opcode : t'.opcode = s.opcode := by rw [drawn.rest]
    have failed := Action.perform_error h
    rw [frames, opcode] at failed
    refine Or.inr (failed.imp_right (Or.imp_right ?_))
    rintro ⟨rfl, popped, error⟩
    exact ⟨suits, popped, error⟩

end Handler

end ImpStack
