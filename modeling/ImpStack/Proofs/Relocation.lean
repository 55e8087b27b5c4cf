/-
Module: ImpStack.Proofs.Relocation
Purpose: The same program at other addresses. Where the instructions of two programs correspond, up
  to the addresses that they name, their machines go through corresponding states in lockstep: they
  differ in the instruction pointers and in the return addresses, and in nothing else.
Main exports: Instruction.Counterpart, Relocation, SameFrames, Relocated, Relocation.step, SameEnd,
  Relocation.run
-/
import ImpStack.Proofs.Locality

namespace ImpStack

variable {σ : Type} {R : Nat → Nat → Prop}

/-! ### Corresponding programs

A relation between addresses stands for the correspondence. Branches must go to related addresses,
and all other instructions must be the same. Where control never goes on to the next address, the
next addresses need not be related. -/

/-- An instruction and the one that does its work at the related addresses. -/
inductive Instruction.Counterpart (R : Nat → Nat → Prop) : Instruction → Instruction → Prop where
  | same {i : Instruction} (h : i.opcode.isBranch = false) : Counterpart R i i
  | branch {op : Opcode} {target target' : Nat} (h : op.isBranch = true)
      (related : R target target') :
      Counterpart R ⟨op, [.address target]⟩ ⟨op, [.address target']⟩

/-- At two addresses programs have instructions that do the same work, and so do the ones after
    them, unless control never goes on to these. -/
def Bytecode.SameWork (R : Nat → Nat → Prop) (b b' : Bytecode) (a a' : Nat) : Prop :=
  ∃ i i', b.get? a = some i ∧ b'.get? a' = some i' ∧ i.Counterpart R i' ∧
    i.operands.map Operand.kind = i.opcode.operandKinds ∧
    (i.opcode ∉ [.jump, .ret, .halt] → R (a + 1) (a' + 1))

/-- Two programs that do the same work at related addresses. -/
structure Relocation (b b' : Bytecode) (R : Nat → Nat → Prop) : Prop where
  start : R 0 0
  fetch {a a' : Nat} : R a a' → b.SameWork R b' a a'

namespace Instruction.Counterpart

variable {i i' : Instruction}

theorem opcode (h : i.Counterpart R i') : i'.opcode = i.opcode := by cases h <;> rfl

theorem kinds (h : i.Counterpart R i') :
    i'.operands.map Operand.kind = i.operands.map Operand.kind := by cases h <;> rfl

end Instruction.Counterpart

/-! ### Corresponding states

Return addresses are related one by one, and everything else is equal, the counters included.
Whatever does not look at addresses gives the same in both states: `alike` makes the locality of
instructions available here. -/

/-- The same frames, up to the return addresses, which are related. Only the outermost frame has
    none. -/
inductive SameFrames (R : Nat → Nat → Prop) : List Frame → List Frame → Prop where
  | root (bindings : NameTable Value) : SameFrames R [⟨none, bindings⟩] [⟨none, bindings⟩]
  | call {next next' : Nat} (bindings : NameTable Value) {callers callers' : List Frame}
      (related : R next next') (below : SameFrames R callers callers') :
      SameFrames R (⟨some next, bindings⟩ :: callers) (⟨some next', bindings⟩ :: callers')

namespace SameFrames

variable {s s' : CallStack}

theorem length_eq {fs fs' : List Frame} (h : SameFrames R fs fs') : fs'.length = fs.length := by
  induction h with
  | root => rfl
  | call _ _ _ ih => exact congrArg Nat.succ ih

theorem depth (h : SameFrames R s.frames s'.frames) : s'.depth = s.depth := by
  rw [← s.length_frames, ← s'.length_frames, h.length_eq]

theorem bindings (h : SameFrames R s.frames s'.frames) :
    s'.active.bindings = s.active.bindings := by
  obtain ⟨active, callers, _, _⟩ := s
  obtain ⟨active', callers', _, _⟩ := s'
  change SameFrames R (active :: callers) (active' :: callers') at h
  cases h <;> rfl

theorem bind (h : SameFrames R s.frames s'.frames) (name : String) (v : Value) :
    SameFrames R (s.setActive (s.active.bind name v)).frames
      (s'.setActive (s'.active.bind name v)).frames := by
  obtain ⟨active, callers, _, _⟩ := s
  obtain ⟨active', callers', _, _⟩ := s'
  change SameFrames R (active :: callers) (active' :: callers') at h
  cases h with
  | root bindings => exact .root (bindings.insert name v)
  | call bindings related below => exact .call (bindings.insert name v) related below

/-- The outermost frame is never left, and any other one goes on at related addresses. -/
theorem pop (h : SameFrames R s.frames s'.frames) :
    s.pop? = none ∧ s'.pop? = none ∨
      ∃ f f' t t', s.pop? = some (f, t) ∧ s'.pop? = some (f', t') ∧
        R f.returnAddress f'.returnAddress ∧ SameFrames R t.frames t'.frames := by
  obtain ⟨active, callers, _, _⟩ := s
  obtain ⟨active', callers', _, _⟩ := s'
  change SameFrames R (active :: callers) (active' :: callers') at h
  cases h with
  | root bindings => exact Or.inl ⟨rfl, rfl⟩
  | call bindings related below =>
      cases below with
      | root _ => exact Or.inr ⟨_, _, _, _, rfl, rfl, related, .root _⟩
      | call _ related' below =>
          exact Or.inr ⟨_, _, _, _, rfl, rfl, related, .call _ related' below⟩

theorem getLast? {fs fs' : List Frame} (h : SameFrames R fs fs') : fs'.getLast? = fs.getLast? := by
  induction h with
  | root => rfl
  | call _ _ below ih =>
      cases below with
      | root => rfl
      | call => exact ih

theorem outermost (h : SameFrames R s.frames s'.frames) : s'.outermost = s.outermost := by
  have last := h.getLast?
  rw [CallStack.frames, CallStack.frames, List.getLast?_cons, List.getLast?_cons] at last
  rw [CallStack.outermost, CallStack.outermost, List.getLastD_eq_getLast?,
    List.getLastD_eq_getLast?, Option.some.inj last]

end SameFrames

/-- Two states that differ at most in where control is and where it returns to, by related
    addresses. -/
structure Resembles (R : Nat → Nat → Prop) (s s' : State σ) : Prop where
  stack : s'.stack = s.stack
  frames : SameFrames R s.frames.frames s'.frames.frames
  status : s'.status = s.status
  builtins : s'.builtins = s.builtins
  limits : s'.limits = s.limits
  stats : s'.stats = s.stats
  opcode : s'.opcode = s.opcode

/-- Corresponding states: control is at related addresses as well, as long as it moves on. -/
structure Relocated (R : Nat → Nat → Prop) (s s' : State σ) : Prop extends Resembles R s s' where
  ip : s.status = .running → R s.ip s'.ip

namespace Resembles

variable {s s' t t' : State σ}

theorem start (host : Builtins σ) (limits : Limits) :
    Resembles R (State.start host limits) (State.start host limits) :=
  ⟨rfl, .root _, rfl, rfl, rfl, rfl, rfl⟩

/-- States that resemble each other look alike to an instruction. -/
theorem alike (h : Resembles R s s') : Alike [] s s' :=
  ⟨by rw [h.stack, List.append_nil], h.frames.bindings, h.builtins, h.opcode⟩

/-- Drawing keeps the resemblance. -/
theorem drawn (h : Resembles R s s') {op op' : Opcode} (drawn : Drawn op s t)
    (drawn' : Drawn op' s' t') (alike : Alike [] t t') : Resembles R t t' := by
  have stack := alike.stack
  rw [List.append_nil] at stack
  rw [drawn.rest, drawn'.rest]
  exact { h with stack := stack, builtins := alike.builtins }

theorem fetched (h : Resembles R s s') {i i' : Instruction} (opcode : i'.opcode = i.opcode) :
    Resembles R (Machine.fetched s i) (Machine.fetched s' i') :=
  { h with
    stats := congrArg (fun stats : Stats => { stats with steps := stats.steps + 1 }) h.stats
    opcode := opcode }

theorem stepLimit? (h : Resembles R s s') : s'.stepLimit? = s.stepLimit? := by
  rw [State.stepLimit?, State.stepLimit?, h.limits, h.stats]

theorem stackLimit? (h : Resembles R s s') : s'.stackLimit? = s.stackLimit? := by
  rw [State.stackLimit?, State.stackLimit?, h.limits, h.stack]

/-- After the same error it does not matter where control is. -/
theorem failed (h : Resembles R s s') (e : RuntimeError) :
    Relocated R { s with status := .failed e } { s' with status := .failed e } :=
  { h with status := rfl, ip := nofun }

theorem frameLimit? (h : Resembles R s s') : s'.frameLimit? = s.frameLimit? := by
  rw [State.frameLimit?, State.frameLimit?, h.limits, h.frames.depth]

end Resembles

theorem Relocated.isHalted {s s' : State σ} (h : Relocated R s s') : s'.isHalted = s.isHalted := by
  rw [State.isHalted, State.isHalted, h.status]

/-! ### Corresponding work

What an instruction draws is the same in both states, up to the target of a branch. What the action
then does leads from corresponding states to corresponding ones; only in these two steps addresses
play a part. -/

/-- Work that ends in corresponding states, or fails with the same error in states that resemble
    each other. -/
inductive SameResult (R : Nat → Nat → Prop) :
    EStateM.Result RuntimeError (State σ) Unit → EStateM.Result RuntimeError (State σ) Unit → Prop
    where
  | ok {t t' : State σ} (h : Relocated R t t') : SameResult R (.ok () t) (.ok () t')
  | error (e : RuntimeError) {t t' : State σ} (h : Resembles R t t') :
      SameResult R (.error e t) (.error e t')

/-- The address that an action names. -/
def Action.target? : Action → Option Nat
  | .jump target => some target
  | .call target => some target
  | _ => none

/-- Whether control goes on with the next instruction, at once or when a call returns. -/
def Action.Onward : Action → Prop
  | .jump _ => False
  | .ret => False
  | .halt => False
  | _ => True

/-- An action and the one that does the same at related addresses. -/
inductive Action.Counterpart (R : Nat → Nat → Prop) : Action → Action → Prop where
  | same {a : Action} (h : a.target? = none) : Counterpart R a a
  | jump {target target' : Nat} (related : R target target') :
      Counterpart R (.jump target) (.jump target')
  | call {target target' : Nat} (related : R target target') :
      Counterpart R (.call target) (.call target')

/-- Only branches name addresses. -/
theorem Action.Suits.target?_eq_none {op : Opcode} {operands : List Operand} {a : Action}
    (suits : a.Suits op operands) (plain : op.isBranch = false) : a.target? = none := by
  cases a with
  | jump =>
      obtain ⟨rfl | rfl, -⟩ := suits
      · cases plain
      · cases plain
  | call =>
      obtain ⟨rfl, -⟩ := suits
      cases plain
  | _ => rfl

/-- No jump, return or halt goes on. -/
theorem Action.Suits.goesOn {op : Opcode} {operands : List Operand} {a : Action}
    (suits : a.Suits op operands) (onward : a.Onward) : op ∉ [.jump, .ret, .halt] := by
  cases a with
  | jump => cases onward
  | ret => cases onward
  | halt => cases onward
  | call =>
      rw [suits.1]
      decide
  | _ => simp_all [Suits]

/-- A push has room in both states or in none. -/
theorem Exec.push_sameResult {s s' : State σ} (h : Resembles R s s')
    (next : s.status = .running → R s.ip s'.ip) (v : Value) :
    SameResult R (push v s) (push v s') := by
  rw [push_apply, push_apply, h.stackLimit?]
  cases s.stackLimit? with
  | some limit => exact .error _ h
  | none => exact .ok { h with stack := congrArg (v :: ·) h.stack, ip := next }

/-- Corresponding actions do the same. -/
theorem Action.perform_sameResult {a a' : Action} (corresponds : a.Counterpart R a')
    {s s' : State σ} (h : Resembles R s s')
    (next : a.Onward → R s.ip s'.ip) : SameResult R (a.perform s) (a'.perform s') := by
  cases corresponds with
  | jump related => exact .ok { h with ip := fun _ => related }
  | call related =>
      rw [perform_call, perform_call, h.frameLimit?]
      cases s.frameLimit? with
      | some limit => exact .error _ h
      | none =>
          refine .ok { h with frames := ?_, stats := ?_, ip := fun _ => related }
          · exact .call _ (next trivial) h.frames
          · rw [h.stats, h.frames.depth]
  | same none =>
      cases a with
      | jump => cases none
      | call => cases none
      | skip => exact .ok { h with ip := fun _ => next trivial }
      | push v => exact Exec.push_sameResult h (fun _ => next trivial) v
      | pushTwice v =>
          rw [perform_pushTwice, perform_pushTwice, h.stackLimit?]
          cases s.stackLimit? with
          | some limit => exact .error _ h
          | none =>
              have pushed : Resembles R { s with stack := v :: s.stack }
                  { s' with stack := v :: s'.stack } :=
                { h with stack := congrArg (v :: ·) h.stack }
              exact Exec.push_sameResult pushed (fun _ => next trivial) v
      | bind name v =>
          exact .ok { h with frames := h.frames.bind name v, ip := fun _ => next trivial }
      | ret =>
          rw [perform_ret, perform_ret]
          rcases h.frames.pop with ⟨root, root'⟩ | ⟨f, f', t, t', left, left', related, below⟩
          · rw [root, root', h.opcode]
            exact .error _ h
          · rw [left, left']
            refine .ok { h with frames := below, stats := ?_, ip := fun _ => related }
            rw [h.stats]
      | halt => exact .ok { h with status := rfl, ip := nofun }

/-- A conditional jump draws the jump if the value that it takes is true. -/
theorem Handler.draw_jumpIf (target : Nat) (s : State σ) :
    draw .jumpIf [.address target] s = match (Exec.pop : Exec σ Value) s with
      | .ok v t => .ok (if v.truthy then .jump target else .skip) t
      | .error e t => .error e t := by
  have decoded : addressOperand [.address target] s = .ok target s := rfl
  simp only [draw, Exec.bind_apply, decoded]
  cases (Exec.pop : Exec σ Value) s <;> rfl

/-- Corresponding instructions draw corresponding actions, or fail with the same error. -/
theorem Handler.draw_counterpart {i i' : Instruction} (corresponds : i.Counterpart R i')
    (kinds : i.operands.map Operand.kind = i.opcode.operandKinds) {s s' : State σ}
    (alike : Alike [] s s') :
    (∃ a a' t t', draw i.opcode i.operands s = .ok a t ∧
      draw i'.opcode i'.operands s' = .ok a' t' ∧ a.Counterpart R a' ∧ Alike [] t t') ∨
    ∃ e t t', draw i.opcode i.operands s = .error e t ∧
      draw i'.opcode i'.operands s' = .error e t' ∧ Alike [] t t' := by
  cases corresponds with
  | same plain =>
      -- the instruction is the same, and it is local
      have draws := draw_draws (σ := σ) i.opcode i.operands
      have locally := draw_local (σ := σ) i.opcode i.operands
      cases drawn : draw i.opcode i.operands s with
      | ok a t =>
          obtain ⟨t', drawn', alike'⟩ := locally.ok alike drawn
          have plainly := (draws.ok drawn).2.target?_eq_none plain
          exact Or.inl ⟨a, a, t, t', rfl, drawn', .same plainly, alike'⟩
      | error e t =>
          rcases locally.error alike drawn with ⟨t', drawn', alike'⟩ | ⟨a, opcode, reason, same⟩
          · exact Or.inr ⟨e, t, t', rfl, drawn', alike'⟩
          -- this error would tell the address, but the operands suit the opcode
          · exact absurd same ((draws.error drawn).2.not_malformed kinds a opcode reason)
  | @branch op target target' branch related =>
      cases op with
      | jump => exact Or.inl ⟨_, _, s, s', rfl, rfl, .jump related, alike⟩
      | call => exact Or.inl ⟨_, _, s, s', rfl, rfl, .call related, alike⟩
      | jumpIf =>
          have stack := alike.stack
          rw [List.append_nil] at stack
          simp only [draw_jumpIf, Exec.pop_apply, stack]
          cases s.stack with
          | nil =>
              simp only [alike.opcode]
              exact Or.inr ⟨_, s, s', rfl, rfl, alike⟩
          | cons condition rest =>
              refine Or.inl ⟨_, _, _, _, rfl, rfl, ?_,
                { alike with stack := (List.append_nil rest).symm }⟩
              cases condition.truthy with
              | true => exact .jump related
              | false => exact .same rfl
      | _ => cases branch

/-- Corresponding instructions do the same. -/
theorem Handler.ofOpcode_sameResult {i i' : Instruction} (corresponds : i.Counterpart R i')
    (kinds : i.operands.map Operand.kind = i.opcode.operandKinds) {s s' : State σ}
    (h : Resembles R s s') (next : i.opcode ∉ [.jump, .ret, .halt] → R s.ip s'.ip) :
    SameResult R (ofOpcode i.opcode i.operands s) (ofOpcode i'.opcode i'.operands s') := by
  have draws := draw_draws (σ := σ) i.opcode i.operands
  have draws' := draw_draws (σ := σ) i'.opcode i'.operands
  rw [ofOpcode_eq, ofOpcode_eq, Exec.bind_apply, Exec.bind_apply]
  rcases draw_counterpart corresponds kinds h.alike with
    ⟨a, a', t, t', drawn, drawn', same, alike⟩ | ⟨e, t, t', drawn, drawn', alike⟩
  · obtain ⟨changes, suits⟩ := draws.ok drawn
    obtain ⟨changes', _⟩ := draws'.ok drawn'
    rw [drawn, drawn']
    refine a.perform_sameResult same (h.drawn changes changes' alike) fun onward => ?_
    rw [changes.rest, changes'.rest]
    exact next (suits.goesOn onward)
  · rw [drawn, drawn']
    exact .error e (h.drawn (draws.error drawn).1 (draws'.error drawn').1 alike)

namespace Relocation

variable {b b' : Bytecode} {m m' : Machine σ}

/-- Corresponding machines do the same in one step. -/
theorem step (h : Relocation b b' R) (program : m.program = b) (program' : m'.program = b')
    (table : m.table = .standard) (table' : m'.table = .standard)
    (relocated : Relocated R m.state m'.state) : Relocated R m.step.state m'.step.state := by
  cases halted : m.state.isHalted with
  | true =>
      have halted' : m'.state.isHalted = true := relocated.isHalted.trans halted
      rw [Machine.step_of_halted halted, Machine.step_of_halted halted']
      exact relocated
  | false =>
      have running := Machine.isHalted_eq_false_iff.1 halted
      have running' := relocated.status.trans running
      obtain ⟨i, i', fetch, fetch', corresponds, kinds, next⟩ := h.fetch (relocated.ip running)
      rw [← program] at fetch
      rw [← program'] at fetch'
      have same := relocated.toResembles
      cases left : m.state.stepLimit? with
      | some limit =>
          have left' : m'.state.stepLimit? = some limit := same.stepLimit?.trans left
          rw [Machine.step_of_used running left, Machine.step_of_used running' left']
          exact same.failed _
      | none =>
          have left' : m'.state.stepLimit? = none := same.stepLimit?.trans left
          have arity : i.operands.length = i.opcode.arity := by
            rw [Opcode.arity, ← kinds, List.length_map]
          have arity' : i'.operands.length = i'.opcode.arity := by
            rw [Opcode.arity, corresponds.opcode, ← kinds, ← corresponds.kinds, List.length_map]
          rw [Machine.step_eq table running left fetch arity,
            Machine.step_eq table' running' left' fetch' arity']
          have result := Handler.ofOpcode_sameResult corresponds kinds
            (same.fetched corresponds.opcode) next
          generalize Handler.ofOpcode i.opcode i.operands _ = r at result ⊢
          generalize Handler.ofOpcode i'.opcode i'.operands _ = r' at result ⊢
          cases result with
          | ok relocated => exact relocated
          | error e resembles => exact resembles.failed e

/-- Corresponding machines stay so. -/
theorem after (h : Relocation b b' R) (host : Builtins σ) (limits : Limits) (n : Nat) :
    Relocated R ((Machine.start b host limits).after n).state
      ((Machine.start b' host limits).after n).state := by
  induction n with
  | zero => exact { Resembles.start host limits with ip := fun _ => h.start }
  | succ n ih =>
      exact h.step (Machine.after_program (.start b host limits) n)
        (Machine.after_program (.start b' host limits) n)
        (Machine.after_table (.start b host limits) n)
        (Machine.after_table (.start b' host limits) n) ih

end Relocation

/-! ### Corresponding runs

One step keeps the correspondence, hence all steps do, and both machines come to an end together. -/

/-- Two machines that have stopped in the same way: by a halt or with the same error, with the same
    values, top-level variables and counters, and the same done to the host. -/
structure SameEnd (m m' : Machine σ) : Prop where
  status : m'.state.status = m.state.status
  stack : m'.state.stack = m.state.stack
  outermost : m'.state.frames.outermost = m.state.frames.outermost
  stats : m'.state.stats = m.state.stats
  builtins : m'.state.builtins = m.state.builtins

/-- Corresponding machines both use up a number of steps, or both end in the same way. -/
theorem Relocation.run {b b' : Bytecode} (h : Relocation b b' R) (host : Builtins σ)
    (limits : Limits) (fuel : Nat) :
    Option.Rel SameEnd ((Machine.start b host limits).run fuel)
      ((Machine.start b' host limits).run fuel) := by
  have relocated := h.after host limits fuel
  cases halted : ((Machine.start b host limits).after fuel).state.isHalted with
  | true =>
      rw [Machine.run_eq_some_iff.2 ⟨rfl, halted⟩,
        Machine.run_eq_some_iff.2 ⟨rfl, relocated.isHalted.trans halted⟩]
      exact .some { relocated with outermost := relocated.frames.outermost }
  | false =>
      have unfinished {m : Machine σ} (running : (m.after fuel).state.isHalted = false) :
          m.run fuel = none := by
        cases result : m.run fuel with
        | none => rfl
        | some last =>
            obtain ⟨rfl, stopped⟩ := Machine.run_eq_some_iff.1 result
            rw [running] at stopped
            cases stopped
      rw [unfinished halted, unfinished (relocated.isHalted.trans halted)]
      exact .none

end ImpStack
