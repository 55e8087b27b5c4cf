/-
Module: ImpStack.Proofs.Trace
Purpose: How a run of a machine follows an evaluation: it gets where the evaluation's outcome says,
  and on the way it stays inside a piece of code or in calls made from there. Rules for sequences
  and for loops put such runs together.
Main exports: Activation, At, Inside, Follows, Follows.bind, Follows.loop
-/
import ImpStack.Proofs.Evaluation

namespace ImpStack

variable {σ α β : Type}

/-! ### Places in a run

What an evaluation has is put beside the state of a machine: the stack and the variables agree, and
the rest of the state says where the code is and to whom it returns. -/

/-- What the running function returns to: an address, and the frames below it. -/
structure Activation where
  returnTo : Option Nat
  callers : List Frame

/-- The number of calls that have not returned. -/
def Activation.depth (act : Activation) : Nat := act.callers.length

/-- A state of a machine that runs without bounds, is about to execute the instruction at `ip` on
    behalf of an activation, and has what the evaluation has. -/
structure Agrees (s : State σ) (act : Activation) (ip : Nat) (env : Env σ) : Prop where
  running : s.status = .running
  limits : s.limits = .unbounded
  ip : s.ip = ip
  stack : s.stack = env.stack
  bindings : s.frames.active.bindings = env.bindings
  returnTo : s.frames.active.returnTo = act.returnTo
  callers : s.frames.callers = act.callers
  builtins : s.builtins = env.builtins

/-- After `t` steps the machine agrees with the evaluation, and so do the calls of the host. -/
structure At (m : Machine σ) (t : Nat) (act : Activation) (ip : Nat) (env : Env σ) : Prop
    extends Agrees (m.after t).state act ip env where
  calls : m.hostCalls t = env.calls

/-- After `t` steps the machine runs code between two addresses in a frame at some depth, or a
    function that was called from there. -/
structure Inside (m : Machine σ) (lo hi depth t : Nat) : Prop where
  running : (m.after t).state.status = .running
  place : (m.after t).state.frames.callers.length = depth ∧
      lo ≤ (m.after t).state.ip ∧ (m.after t).state.ip < hi ∨
    depth < (m.after t).state.frames.callers.length

instance (m : Machine σ) (lo hi depth t : Nat) : Decidable (Inside m lo hi depth t) :=
  decidable_of_iff
    ((m.after t).state.status = .running ∧
      ((m.after t).state.frames.callers.length = depth ∧
          lo ≤ (m.after t).state.ip ∧ (m.after t).state.ip < hi ∨
        depth < (m.after t).state.frames.callers.length))
    ⟨fun ⟨running, place⟩ => ⟨running, place⟩, fun h => ⟨h.running, h.place⟩⟩

theorem Inside.mono {m : Machine σ} {lo hi lo' hi' depth t : Nat} (low : lo' ≤ lo)
    (high : hi ≤ hi') (h : Inside m lo hi depth t) : Inside m lo' hi' depth t := by
  refine ⟨h.running, ?_⟩
  rcases h.place with ⟨same, above, below⟩ | deeper
  · exact Or.inl ⟨same, Nat.le_trans low above, Nat.lt_of_lt_of_le below high⟩
  · exact Or.inr deeper

/-- The code of a called function is deeper than the code of the call. -/
theorem Inside.deeper {m : Machine σ} {lo hi lo' hi' depth t : Nat}
    (h : Inside m lo hi (depth + 1) t) : Inside m lo' hi' depth t := by
  refine ⟨h.running, Or.inr ?_⟩
  rcases h.place with ⟨same, _⟩ | deeper
  · rw [same]
    exact Nat.lt_succ_self depth
  · exact Nat.lt_of_succ_lt deeper

/-- A machine at an address is inside of any piece of code with that address. -/
theorem At.inside {m : Machine σ} {t : Nat} {act : Activation} {ip lo hi : Nat} {env : Env σ}
    (h : At m t act ip env) (low : lo ≤ ip) (high : ip < hi) : Inside m lo hi act.depth t := by
  refine ⟨h.running, Or.inl ⟨?_, ?_, ?_⟩⟩
  · rw [h.callers, Activation.depth]
  · rw [h.ip]
    exact low
  · rw [h.ip]
    exact high

/-! ### Following an evaluation

Following is defined by the outcome of the evaluation: done, returned or failed, each with its place
in the run. An evaluation that is unfinished is followed for as many steps as were asked for. -/

/-- What the machine has done after `t` steps if an evaluation has an outcome: one that is done
    leads to `Q`, one that returns to a return instruction, one that fails to the same error, and
    one that is unfinished to at least `N` steps. -/
def Arrives (m : Machine σ) (I : Nat → Prop) (N : Nat) (act : Activation)
    (Q : Nat → α → Env σ → Prop) (t : Nat) :
    EStateM.Result Interruption (Env σ) α → Prop
  | .ok a env => Q t a env
  | .error .returned env =>
    I t ∧ ∃ ip, At m t act ip env ∧ m.program.get? ip = some (.plain .ret)
  | .error (.failed e) env => (m.after t).state.status = .failed e ∧ m.hostCalls t = env.calls
  | .error .unfinished _ => N ≤ t ∧ (m.after t).state.status = .running

/-- From the step `t` on the machine follows an evaluation with some outcome, and `I` holds at every
    step before its end. -/
def Follows (m : Machine σ) (I : Nat → Prop) (N : Nat) (act : Activation) (t : Nat)
    (outcome : EStateM.Result Interruption (Env σ) α) (Q : Nat → α → Env σ → Prop) : Prop :=
  ∃ t', t ≤ t' ∧ (∀ j, t ≤ j → j < t' → I j) ∧ Arrives m I N act Q t' outcome

namespace Follows

variable {m : Machine σ} {I : Nat → Prop} {N : Nat} {act : Activation} {t : Nat}

/-- What has been reached at once has been followed. -/
theorem here {Q : Nat → α → Env σ → Prop} {outcome : EStateM.Result Interruption (Env σ) α}
    (h : Arrives m I N act Q t outcome) : Follows m I N act t outcome Q :=
  ⟨t, Nat.le_refl t, fun _ low high => absurd low (Nat.not_le_of_lt high), h⟩

/-- A step first. -/
theorem later {Q : Nat → α → Env σ → Prop} {outcome : EStateM.Result Interruption (Env σ) α}
    (first : I t) (h : Follows m I N act (t + 1) outcome Q) : Follows m I N act t outcome Q := by
  obtain ⟨t', after, inside, arrives⟩ := h
  refine ⟨t', Nat.le_of_succ_le after, fun j low high => ?_, arrives⟩
  rcases Nat.lt_or_eq_of_le low with next | rfl
  · exact inside j next high
  · exact first

/-- The place to stay in may be wider, and what is reached may be said more weakly. -/
theorem mono {I' : Nat → Prop} {Q Q' : Nat → α → Env σ → Prop}
    {outcome : EStateM.Result Interruption (Env σ) α} (h : Follows m I N act t outcome Q)
    (wider : ∀ j, I j → I' j) (weaker : ∀ t' a env, t ≤ t' → Q t' a env → Q' t' a env) :
    Follows m I' N act t outcome Q' := by
  obtain ⟨t', after, inside, arrives⟩ := h
  refine ⟨t', after, fun j low high => wider j (inside j low high), ?_⟩
  match outcome, arrives with
  | .ok a env, arrives => exact weaker t' a env after arrives
  | .error .returned _, arrives => exact ⟨wider t' arrives.1, arrives.2⟩
  | .error (.failed _) _, arrives => exact arrives
  | .error .unfinished _, arrives => exact arrives

/-- A sequence is followed by following its parts. -/
theorem bind {x : Eval σ α} {f : α → Eval σ β} {env : Env σ} {Q : Nat → β → Env σ → Prop}
    (h : Follows m I N act t (x env) fun t' a env' => Follows m I N act t' (f a env') Q) :
    Follows m I N act t ((x >>= f) env) Q := by
  obtain ⟨t', after, inside, arrives⟩ := h
  rw [Eval.bind_apply]
  match x env, arrives with
  | .ok a env', ⟨t'', later, inside', arrives'⟩ =>
      refine ⟨t'', Nat.le_trans after later, fun j low high => ?_, arrives'⟩
      by_cases first : j < t'
      · exact inside j low first
      · exact inside' j (Nat.le_of_not_lt first) high
  | .error .returned _, arrives => exact ⟨t', after, inside, arrives⟩
  | .error (.failed _) _, arrives => exact ⟨t', after, inside, arrives⟩
  | .error .unfinished _, arrives => exact ⟨t', after, inside, arrives⟩

/-- Steps after the end of an evaluation. -/
theorem extend {P Q : Nat → α → Env σ → Prop} {outcome : EStateM.Result Interruption (Env σ) α}
    (first : Follows m I N act t outcome P)
    (next : ∀ t' a env', t ≤ t' → P t' a env' → Follows m I N act t' (.ok a env') Q) :
    Follows m I N act t outcome Q := by
  obtain ⟨t', after, inside, arrives⟩ := first
  match outcome, arrives with
  | .ok a env, arrives =>
      obtain ⟨t'', later, inside', arrives'⟩ := next t' a env after arrives
      refine ⟨t'', Nat.le_trans after later, fun j low high => ?_, arrives'⟩
      by_cases first : j < t'
      · exact inside j low first
      · exact inside' j (Nat.le_of_not_lt first) high
  | .error .returned _, arrives => exact ⟨t', after, inside, arrives⟩
  | .error (.failed _) _, arrives => exact ⟨t', after, inside, arrives⟩
  | .error .unfinished _, arrives => exact ⟨t', after, inside, arrives⟩

/-- A sequence is followed by its first part and then, from wherever that gets, by its second. -/
theorem seq {x : Eval σ α} {f : α → Eval σ β} {env : Env σ} {P : Nat → α → Env σ → Prop}
    {Q : Nat → β → Env σ → Prop} (first : Follows m I N act t (x env) P)
    (next : ∀ t' a env', t ≤ t' → P t' a env' → Follows m I N act t' (f a env') Q) :
    Follows m I N act t ((x >>= f) env) Q :=
  .bind (first.mono (fun _ inside => inside) next)

/-- A loop is followed by following its rounds. Each of them takes a step at least, so a loop that
    uses up its rounds has taken as many steps. -/
theorem loop {round : Eval σ Bool} {top : Nat} {Q : Nat → Unit → Env σ → Prop}
    (follow : ∀ t' env, t ≤ t' → At m t' act top env →
      Follows m I N act t' (round env) fun t'' again env' =>
        if again then t' < t'' ∧ At m t'' act top env' else Q t'' () env')
    (rounds : Nat) :
    ∀ t' env, t ≤ t' → N ≤ rounds + t' → At m t' act top env →
      Follows m I N act t' (Eval.loop round rounds env) Q := by
  induction rounds with
  | zero =>
      intro t' env _ enough here
      rw [Nat.zero_add] at enough
      exact .here ⟨enough, here.running⟩
  | succ rounds ih =>
      intro t' env later enough here
      refine .seq (follow t' env later here) ?_
      intro t'' again env' _ arrived
      cases again with
      | false => exact .here arrived
      | true =>
          obtain ⟨progress, top⟩ := arrived
          exact ih t'' env' (by omega) (by omega) top

end Follows

end ImpStack
