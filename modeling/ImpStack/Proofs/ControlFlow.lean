/-
Module: ImpStack.Proofs.ControlFlow
Purpose: Control-flow integrity of compiled programs: the live frames always form a chain of calls,
  each made from the code of the function below it, and control stays in the region of the function
  that was called last.
Main exports: Bytecode.CallChain, Confined, Confined.step, control_flow_integrity
-/
import ImpStack.Proofs.Control
import ImpStack.Proofs.Layout

namespace ImpStack

/-- The frames, the active one first, are those of calls that have not returned, and the active one
    belongs to a region: the root frame to the top-level region, any other frame to the region of
    the function that a call goes to, and it returns behind that call, to the region of the frame
    below it. -/
inductive Bytecode.CallChain (b : Bytecode) : List Frame → Region → Prop where
  | root {frame : Frame} (root : frame.returnTo = none) : CallChain b [frame] b.mainRegion
  | call {frame : Frame} {callers : List Frame} {caller region : Region} {site : Nat}
      {name : String} (below : CallChain b callers caller) (inside : site ∈ caller)
      (next : site + 1 ∈ caller) (call : b.get? site = some (.call region.start))
      (function : (name, region) ∈ b.functionRegions) (returns : frame.returnTo = some (site + 1)) :
      CallChain b (frame :: callers) region

/-- Control is where it belongs: in the region of the active frame, or before the first instruction
    of all, and as many calls are open as have been made and have not returned. -/
structure Confined {σ : Type} (b : Bytecode) (s : State σ) : Prop where
  region : ∃ r, b.CallChain s.frames.frames r ∧
    (s.ip ∈ r ∨ s.frames.callers = [] ∧ s.ip = 0)
  balance : s.stats.calls = s.stats.returns + s.frames.callers.length

namespace Bytecode.CallChain

variable {b : Bytecode} {r : Region}

/-- Variables have no part in a chain of calls. -/
theorem congr {f g : Frame} {callers : List Frame} (h : b.CallChain (f :: callers) r)
    (same : g.returnTo = f.returnTo) : b.CallChain (g :: callers) r := by
  cases h with
  | root root => exact .root (same.trans root)
  | call below inside next call function returns =>
      exact .call below inside next call function (same.trans returns)

/-- The region of a frame above the root is that of a function. -/
theorem function_of_callers {f : Frame} {callers : List Frame}
    (h : b.CallChain (f :: callers) r) (called : callers ≠ []) :
    ∃ name, (name, r) ∈ b.functionRegions := by
  cases h with
  | root root => exact absurd rfl called
  | call below inside next call function returns => exact ⟨_, function⟩

end Bytecode.CallChain

variable {σ : Type} {builtins : List String} {p : Program} {b : Bytecode}
  {functions : List FunctionCode} {start : Nat} {main : OpenCode}

namespace Assembly

/-- Every frame of a chain belongs to a sealed region. -/
theorem sealed_of_chain (h : Assembly builtins p b functions start main) {frames : List Frame}
    {r : Region} (chain : b.CallChain frames r) :
    ∃ last, r.Sealed b last ∧ (last = .plain .ret ∨ last = .plain .halt) := by
  cases chain with
  | root root => exact ⟨_, h.main_sealed, Or.inr rfl⟩
  | call below inside next call function returns =>
      rw [h.functionRegions_eq] at function
      obtain ⟨f, hf, same⟩ := List.mem_map.1 function
      cases same
      exact ⟨_, h.function_sealed hf, Or.inl rfl⟩

/-- An instruction that is neither a return nor a halt has its successor in the same region. -/
theorem next_mem (h : Assembly builtins p b functions start main) {frames : List Frame}
    {r : Region} (chain : b.CallChain frames r) {a : Nat} (ha : a ∈ r) {i : Instruction}
    (fetched : b.get? a = some i) (goes : i.opcode ≠ .ret ∧ i.opcode ≠ .halt) : a + 1 ∈ r := by
  obtain ⟨last, sealed, final⟩ := h.sealed_of_chain chain
  rcases sealed.fetch ha with ⟨next, _⟩ | ⟨_, found⟩
  · exact next
  · rw [fetched, Option.some.injEq] at found
    subst found
    rcases final with rfl | rfl
    · exact absurd rfl goes.1
    · exact absurd rfl goes.2

/-- A halt is executed only by the top-level code. -/
theorem halt_at_root (h : Assembly builtins p b functions start main) {s : State σ}
    (confined : Confined b s) {i : Instruction} (fetched : b.get? s.ip = some i)
    (halt : i.opcode = .halt) : s.frames.callers = [] := by
  obtain ⟨r, chain, inside | ⟨root, _⟩⟩ := confined.region
  · by_cases root : s.frames.callers = []
    · exact root
    obtain ⟨name, function⟩ := chain.function_of_callers root
    rw [h.functionRegions_eq] at function
    obtain ⟨f, hf, same⟩ := List.mem_map.1 function
    cases same
    have last := h.halt_iff.1 ⟨i, fetched, halt⟩
    have below : s.ip < f.stop := inside.2
    have bounds := (h.function_bounds hf).2
    have size := h.size
    omega
  · exact root

/-- The instruction before the first one of all is the jump over the functions, unless the
    top-level code starts there. -/
theorem first_instruction (h : Assembly builtins p b functions start main) :
    0 ∈ b.mainRegion ∨ b.get? 0 = some (.jump start) := by
  rcases h.prologue with ⟨_, rfl⟩ | ⟨_, jump, _⟩
  · rw [h.mainRegion_eq]
    exact Or.inl ⟨Nat.le_refl 0, Nat.zero_lt_succ _⟩
  · exact Or.inr jump

/-- The region of the top-level statements has a first instruction, at least its halt. -/
theorem start_mem (h : Assembly builtins p b functions start main) : start ∈ b.mainRegion := by
  rw [h.mainRegion_eq]
  exact ⟨Nat.le_refl start, by simp only []; omega⟩

/-- An instruction that neither calls nor returns nor halts leads to an address of the same region,
    with the same calls open. -/
theorem stays_inside (h : Assembly builtins p b functions start main) {s s' : State σ}
    {i : Instruction} {r : Region} (chain : b.CallChain s.frames.frames r) (inside : s.ip ∈ r)
    (fetched : b.get? s.ip = some i)
    (transfer : Transfer i.opcode i.operands (Machine.fetched s i) s') (call : i.opcode ≠ .call)
    (ret : i.opcode ≠ .ret) (running : s'.status = .running) :
    s'.ip ∈ r ∧ b.CallChain s'.frames.frames r ∧
      s'.frames.callers.length = s.frames.callers.length ∧
      s'.stats.calls = s.stats.calls ∧ s'.stats.returns = s.stats.returns := by
  have kept {t : State σ} (ip : Nat) (same : SameControl { Machine.fetched s i with ip := ip } t) :
      b.CallChain t.frames.frames r ∧ t.frames.callers.length = s.frames.callers.length ∧
        t.stats.calls = s.stats.calls ∧ t.stats.returns = s.stats.returns := by
    rw [CallStack.frames, same.callers, same.stats]
    exact ⟨chain.congr same.returnTo, rfl, rfl, rfl⟩
  cases transfer with
  | next computes same =>
      have next := h.next_mem chain inside fetched
        ⟨ret, fun halt => computes (by simp [halt])⟩
      refine ⟨?_, kept _ same⟩
      rw [same.ip]
      exact next
  | jump target jump operand same =>
      obtain ⟨last, sealed, _⟩ := h.sealed_of_chain chain
      -- the region is sealed, so the jump stays in it
      obtain ⟨target', mem, found⟩ := sealed.jumps s.ip inside i fetched jump
      have target_eq : target' = target := by
        obtain ⟨op, operands⟩ := i
        cases operands with
        | nil => cases operand
        | cons first rest =>
            cases operand
            rcases jump with rfl | rfl <;> cases found <;> rfl
      refine ⟨?_, kept target same⟩
      rw [same.ip, ← target_eq]
      exact mem
  | call target is _ _ => exact absurd is call
  | ret frame frames is _ _ => exact absurd is ret
  | halt is state =>
      subst state
      cases running

/-- What an instruction in the region of the active frame does keeps control confined. -/
theorem confined_transfer (h : Assembly builtins p b functions start main) {s s' : State σ}
    {i : Instruction} {r : Region} (chain : b.CallChain s.frames.frames r) (inside : s.ip ∈ r)
    (balance : s.stats.calls = s.stats.returns + s.frames.callers.length)
    (fetched : b.get? s.ip = some i)
    (transfer : Transfer i.opcode i.operands (Machine.fetched s i) s')
    (running : s'.status = .running) : Confined b s' := by
  by_cases plain : i.opcode ≠ .call ∧ i.opcode ≠ .ret
  -- all but calls and returns stay in the region of the active frame
  · obtain ⟨ip, chain', callers, calls, returns⟩ :=
      h.stays_inside chain inside fetched transfer plain.1 plain.2 running
    refine ⟨⟨r, chain', Or.inl ip⟩, ?_⟩
    rw [calls, returns, callers]
    exact balance
  cases transfer with
  | next computes same =>
      have neither : i.opcode ≠ .call ∧ i.opcode ≠ .ret :=
        ⟨fun call => computes (by simp [call]), fun ret => computes (by simp [ret])⟩
      exact absurd neither plain
  | jump target jump operand same =>
      refine absurd ⟨fun call => ?_, fun ret => ?_⟩ plain
      · simp [call] at jump
      · simp [ret] at jump
  | call target call operand state =>
      have next := h.next_mem chain inside fetched ⟨by simp [call], by simp [call]⟩
      obtain ⟨f, hf, rfl⟩ := h.call_target fetched call
      cases operand
      -- a call extends the chain by the region of its callee
      have function : (f.declaration.name, f.region) ∈ b.functionRegions := by
        rw [h.functionRegions_eq]
        exact List.mem_map_of_mem hf
      have entered : f.entry ∈ f.region := ⟨Nat.le_refl _, (h.function_sealed hf).nonempty⟩
      subst state
      refine ⟨⟨f.region, .call chain inside next fetched function rfl, Or.inl entered⟩, ?_⟩
      show s.stats.calls + 1 = s.stats.returns + (s.frames.callers.length + 1)
      rw [balance, Nat.add_assoc]
  | ret frame frames ret left state =>
      obtain ⟨⟨active, callers, depth, depth_eq⟩, callers_eq⟩ : ∃ cs, s.frames = cs := ⟨_, rfl⟩
      have popped : s.frames.pop? = some (frame, frames) := left
      rw [callers_eq] at popped chain balance
      cases callers with
      | nil => cases popped
      | cons caller rest =>
          cases popped
          subst state
          -- a return takes the last link off the chain, which says where it goes
          cases chain with
          | @call _ _ callerRegion _ site _ below siteInside next call function returns =>
              refine ⟨⟨callerRegion, below, Or.inl ?_⟩, ?_⟩
              · show frame.returnAddress ∈ callerRegion
                rw [Frame.returnAddress, returns]
                exact next
              · show s.stats.calls = s.stats.returns + 1 + rest.length
                rw [balance, List.length_cons]
                omega
  | halt halt state =>
      subst state
      cases running

/-- The leading jump goes to the top-level code. -/
theorem confined_prologue (h : Assembly builtins p b functions start main) {s s' : State σ}
    {i : Instruction} (confined : Confined b s) (root : s.frames.callers = []) (first : s.ip = 0)
    (jump : b.get? 0 = some (.jump start)) (fetched : b.get? s.ip = some i)
    (transfer : Transfer i.opcode i.operands (Machine.fetched s i) s') : Confined b s' := by
  rw [first, jump, Option.some.injEq] at fetched
  subst fetched
  obtain ⟨r, chain, _⟩ := confined.region
  have outermost : r = b.mainRegion := by
    rw [CallStack.frames, root] at chain
    cases chain with
    | root _ => rfl
    | call below inside next call function returns => cases below
  subst outermost
  cases transfer with
  | jump target jump operand same =>
      cases operand
      refine ⟨⟨b.mainRegion, ?_, Or.inl ?_⟩, ?_⟩
      · rw [CallStack.frames, same.callers]
        exact chain.congr same.returnTo
      · rw [same.ip]
        exact h.start_mem
      · rw [same.stats, same.callers]
        exact confined.balance
  | next computes same => exact absurd (List.mem_cons_self ..) computes
  | call target call operand state => cases call
  | ret frame frames ret left state => cases ret
  | halt halt state => cases halt

end Assembly

/-! ### Steps and runs

The start is confined, and every step keeps what is confined so. The theorem on whole runs adds what
can be read off a confined state: the region of each frame, and how many calls and returns there
were when the program halts. -/

/-- At the start control is in front of the leading jump or of the first statement. -/
theorem Confined.initial (b : Bytecode) (host : Builtins σ) (limits : Limits) :
    Confined b (State.start host limits) :=
  ⟨⟨b.mainRegion, .root rfl, Or.inr ⟨rfl, rfl⟩⟩, rfl⟩

/-- A step after which the machine still runs keeps control confined. -/
theorem Confined.step (h : Assembly builtins p b functions start main) {m : Machine σ}
    (program : m.program = b) (table : m.table = .standard) (running : m.state.status = .running)
    (goes : m.step.state.status = .running) (confined : Confined b m.state) :
    Confined b m.step.state := by
  rcases Machine.step_cases table running with ⟨e, failed⟩ | ⟨i, fetched, transfer⟩
  · rw [failed] at goes
    cases goes
  rw [program] at fetched
  obtain ⟨r, chain, inside | ⟨root, first⟩⟩ := confined.region
  · exact h.confined_transfer chain inside confined.balance fetched transfer goes
  rcases h.first_instruction with main | jump
  · have outermost : b.CallChain m.state.frames.frames b.mainRegion := by
      rw [CallStack.frames, root] at chain ⊢
      cases chain with
      | root root => exact .root root
      | call below inside next call function returns => cases below
    exact h.confined_transfer outermost (first ▸ main) confined.balance fetched transfer goes
  · exact h.confined_prologue confined root first jump fetched transfer

/-- Control is confined as long as a machine runs. -/
theorem Confined.after (h : Assembly builtins p b functions start main) (host : Builtins σ)
    (limits : Limits) (n : Nat) :
    ((Machine.start b host limits).after n).state.status = .running →
      Confined b ((Machine.start b host limits).after n).state := by
  induction n with
  | zero => exact fun _ => Confined.initial b host limits
  | succ n ih =>
      intro goes
      have running := Machine.running_of_step goes
      exact (ih running).step h (Machine.after_program ..) (Machine.after_table ..) running goes

/-- Between calls and returns a step stays in the region it starts in. -/
theorem Confined.step_inside (h : Assembly builtins p b functions start main) {m : Machine σ}
    (program : m.program = b) (table : m.table = .standard) (running : m.state.status = .running)
    (goes : m.step.state.status = .running) {r : Region} {i : Instruction}
    (chain : b.CallChain m.state.frames.frames r) (inside : m.state.ip ∈ r)
    (fetched : b.get? m.state.ip = some i) (call : i.opcode ≠ .call) (ret : i.opcode ≠ .ret) :
    m.step.state.ip ∈ r := by
  rcases Machine.step_cases table running with ⟨e, failed⟩ | ⟨j, found, transfer⟩
  · rw [failed] at goes
    cases goes
  rw [program] at found
  have same : i = j := Option.some.inj (fetched.symm.trans found)
  subst same
  exact (h.stays_inside chain inside fetched transfer call ret goes).1

/-- Control-flow integrity. While a compiled program runs, the live frames form a chain of calls,
    each made from the code of the frame below it, and control is in the code of the function that
    the last of them called, or in the top-level code. Only the top-level code halts, and by then
    every call has returned. Between calls and returns control never leaves a function's code. -/
theorem control_flow_integrity (compiled : compile builtins p = .ok b) (host : Builtins σ)
    (limits : Limits) (n : Nat) (m : Machine σ)
    (reached : (Machine.start b host limits).after n = m)
    (running : m.state.status = .running) :
    (∃ r, b.CallChain m.state.frames.frames r ∧
      (m.state.ip ∈ r ∨ m.state.frames.callers = [] ∧ m.state.ip = 0)) ∧
    (∀ i, b.get? m.state.ip = some i → i.opcode = .halt →
      m.state.frames.callers = [] ∧ m.state.stats.calls = m.state.stats.returns) ∧
    ∀ r i, b.CallChain m.state.frames.frames r → m.state.ip ∈ r → b.get? m.state.ip = some i →
      i.opcode ≠ .call → i.opcode ≠ .ret → m.step.state.status = .running →
      m.step.state.ip ∈ r := by
  obtain ⟨functions, start, main, h⟩ := compile_assembly compiled
  have program : m.program = b := by
    rw [← reached, Machine.after_program]
    rfl
  have table : m.table = .standard := by
    rw [← reached, Machine.after_table]
    rfl
  have confined : Confined b m.state := by
    rw [← reached] at running ⊢
    exact Confined.after h host limits n running
  refine ⟨confined.region, ?_, ?_⟩
  · intro i fetched halt
    have root := h.halt_at_root confined fetched halt
    have balance := confined.balance
    rw [root] at balance
    exact ⟨root, balance⟩
  · intro r i chain inside fetched call ret goes
    exact Confined.step_inside h program table running goes chain inside fetched call ret

/-- Three nested calls below the top-level code, control is in the code of the second function. -/
theorem control_flow_integrity_parity :
    ∃ m : Machine Unit,
      (Machine.start .parity (Builtins.empty ()) .unbounded).after 30 = m ∧
      m.state.frames.callers.length = 3 ∧ m.state.status = .running ∧
      ∃ r, Bytecode.parity.CallChain m.state.frames.frames r ∧
        (m.state.ip ∈ r ∨ m.state.frames.callers = [] ∧ m.state.ip = 0) :=
  ⟨_, rfl, by decide +kernel, by decide +kernel,
    (control_flow_integrity compile_parity _ _ 30 _ rfl (by decide +kernel)).1⟩

end ImpStack
