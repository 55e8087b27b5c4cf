/-
Module: ImpStack.Proofs.Layout
Purpose: The layout of compiled programs: they pass the static check, end in their only halt, list
  their functions in the order of the declarations, and every call and every jump of the source has
  its target. Programs that are written in one pass and patched have this layout too.
Main exports: CallSite.instruction?, Layout, compile_layout
-/
import ImpStack.Bytecode.Check
import ImpStack.Proofs.ProgramDraft

namespace ImpStack

/-! ### The static check

The check goes through the instructions one by one, so it passes exactly if each instruction passes
at its own address. Emitted instructions do: their operands suit their opcodes, and their targets
are addresses of the program. -/

/-- The check passes if every instruction passes at its address. -/
theorem checkFrom_ok {size : Nat} {is : List Instruction} :
    ∀ {address : Nat}, Bytecode.checkFrom size address is = .ok () ↔
      ∀ k i, is[k]? = some i → Bytecode.checkInstruction size (address + k) i = .ok () := by
  induction is with
  | nil => simp [Bytecode.checkFrom]
  | cons i rest ih =>
      intro address
      simp only [Bytecode.checkFrom, bind_ok_iff, ih]
      constructor
      · rintro ⟨_, first, others⟩ k j found
        cases k with
        | zero =>
            cases found
            exact first
        | succ k =>
            have checked := others k j found
            rwa [Nat.add_assoc, Nat.add_comm 1] at checked
      · intro all
        refine ⟨(), all 0 i rfl, fun k j found => ?_⟩
        have checked := all (k + 1) j found
        rwa [Nat.add_comm k, ← Nat.add_assoc] at checked

/-- Entries pass if each of them is an address of the program. -/
theorem checkEntries_ok {size : Nat} {entries : List (String × Nat)} :
    Bytecode.checkEntries size entries = .ok () ↔ ∀ e ∈ entries, e.2 < size := by
  induction entries with
  | nil => simp [Bytecode.checkEntries]
  | cons e rest ih =>
      rw [Bytecode.checkEntries]
      by_cases inside : e.2 < size <;> simp [inside, ih]

/-- A linked instruction of a node passes the check if its jumps and the entries are inside. -/
theorem Emittable.checked {builtins : List String} {lo hi size : Nat} {entries : NameTable Nat}
    {o : OpenInstruction} {i : Instruction} (h : Emittable builtins lo hi o) (high : hi < size)
    (inside : ∀ e ∈ entries.entries, e.2 < size) (link : o.linked? entries = some i)
    (address : Nat) : Bytecode.checkInstruction size address i = .ok () := by
  cases h with
  | push value => cases link; rfl
  | load name => cases link; rfl
  | store name => cases link; rfl
  | @operation op h =>
      cases link
      cases op <;> first | rfl | simp at h
  | @jump target low below =>
      cases link
      exact if_pos (Nat.lt_of_le_of_lt below high)
  | @jumpIf target low below =>
      cases link
      exact if_pos (Nat.lt_of_le_of_lt below high)
  | ret => cases link; rfl
  | func count h => cases link; rfl
  | call h =>
      obtain ⟨entry, found, rfl⟩ := Option.map_eq_some_iff.1 link
      exact if_pos (inside _ (NameTable.find?_eq_some_iff.1 found))

/-! ### The calls of a region

Linking does not make or remove calls. So the calls in a region of the bytecode are, in order, those
of the call sites of its source, with the entries filled in. -/

/-- Whether an instruction calls a function, of the host or of the program. -/
def Instruction.isCall (i : Instruction) : Bool := i.opcode = .func ∨ i.opcode = .call

/-- The instruction of a call in the source: it names a function of the host with the number of
    arguments, or goes to the entry of a function of the program. -/
def CallSite.instruction? (builtins : List String) (entries : NameTable Nat) (c : CallSite) :
    Option Instruction :=
  if builtins.contains c.callee then some (.func c.callee c.argumentCount)
  else (entries.find? c.callee).map .call

/-- The call instructions of a region, in the order of their addresses. -/
def Bytecode.calls (b : Bytecode) (r : Region) : List Instruction :=
  (b.instructions r).filter Instruction.isCall

/-- Linking an instruction leaves a call a call. -/
theorem linked_isCall {entries : NameTable Nat} {o : OpenInstruction} {i : Instruction}
    (h : o.linked? entries = some i) : o.isCall = i.isCall := by
  cases o with
  | settled j => cases h; rfl
  | call callee =>
      obtain ⟨entry, _, rfl⟩ := Option.map_eq_some_iff.1 h
      rfl

/-- Linking keeps the calls of a sequence. -/
theorem calls_linked {entries : NameTable Nat} {code : OpenCode} :
    ∀ {linked : List Instruction},
      code.map (OpenInstruction.linked? entries) = linked.map some →
        (linked.filter Instruction.isCall).map some =
          (OpenCode.calls code).map (OpenInstruction.linked? entries) := by
  induction code with
  | nil =>
      intro linked h
      rw [List.map_nil, eq_comm, List.map_eq_nil_iff] at h
      subst h
      rfl
  | cons o rest ih =>
      intro linked h
      cases linked with
      | nil => simp at h
      | cons i linked =>
          rw [List.map_cons, List.map_cons, List.cons.injEq] at h
          have tail := ih h.2
          simp only [OpenCode.calls, List.filter_cons, linked_isCall h.1] at tail ⊢
          split
          · simp [h.1, tail]
          · exact tail

/-- What the calls of a node become. -/
theorem codeOfCalls_linked (scope : Scope) (entries : NameTable Nat) (calls : List CallSite) :
    (scope.codeOfCalls calls).map (OpenInstruction.linked? entries) =
      calls.map (CallSite.instruction? scope.builtins entries) := by
  induction calls with
  | nil => rfl
  | cons c rest ih =>
      have split : scope.codeOfCalls (c :: rest) =
        scope.callCode c.callee c.argumentCount ++ scope.codeOfCalls rest := rfl
      rw [split, List.map_append, List.map_cons, ih, Scope.callCode, CallSite.instruction?]
      split <;> rfl

/-- The instructions of a region that placed code fills. -/
theorem Placed.instructions {b : Bytecode} {base : Nat} {code : OpenCode}
    (h : Placed b base code) :
    code.map (OpenInstruction.linked? b.functions) =
      (b.instructions ⟨base, base + code.length⟩).map some := by
  apply List.ext_getElem?
  intro k
  simp only [Bytecode.instructions, Nat.add_sub_cancel_left, List.getElem?_map,
    List.getElem?_take, List.getElem?_drop]
  cases found : code[k]? with
  | none => simp [Nat.not_lt.2 (List.getElem?_eq_none_iff.1 found)]
  | some o =>
      obtain ⟨i, linked, fetched⟩ := h k o found
      rw [Bytecode.get?, ← Array.getElem?_toList] at fetched
      simp [linked, fetched, (List.getElem?_eq_some_iff.1 found).1]

/-- The calls of placed code whose calls are those of a node. -/
theorem Placed.calls {b : Bytecode} {base : Nat} {code : OpenCode} {scope : Scope}
    {sites : List CallSite} (h : Placed b base code)
    (calls : OpenCode.calls code = scope.codeOfCalls sites) :
    (b.calls ⟨base, base + code.length⟩).map some =
      sites.map (CallSite.instruction? scope.builtins b.functions) := by
  rw [Bytecode.calls, calls_linked h.instructions, calls, codeOfCalls_linked]

/-! ### Function entries

Functions lie one behind the other, and none of them is empty. Their entries are therefore
increasing, and an address is the entry of one function at most. -/

/-- Functions with code of their own have increasing entries. -/
theorem Contiguous.increasing {fs : List FunctionCode} :
    ∀ {base stop : Nat}, Contiguous base fs stop → (∀ f ∈ fs, f.entry < f.stop) →
      (fs.map (·.entry)).Pairwise (· < ·) := by
  induction fs with
  | nil => simp
  | cons f rest ih =>
      rintro base stop ⟨_, h⟩ nonempty
      have tail := ih h fun g hg => nonempty g (List.mem_cons_of_mem f hg)
      refine List.pairwise_cons.2 ⟨?_, tail⟩
      intro e he
      obtain ⟨g, hg, rfl⟩ := List.mem_map.1 he
      exact Nat.lt_of_lt_of_le (nonempty f List.mem_cons_self) (h.bounds g hg).1

/-- Among increasing entries, each one has a single name. -/
theorem find?_entry_eq {l : List (String × Nat)} (increasing : (l.map Prod.snd).Pairwise (· < ·))
    {name : String} {entry : Nat} (mem : (name, entry) ∈ l) :
    l.find? (·.2 == entry) = some (name, entry) := by
  induction l with
  | nil => cases mem
  | cons e rest ih =>
      rw [List.map_cons, List.pairwise_cons] at increasing
      rcases List.mem_cons.1 mem with rfl | mem
      · simp
      · have below : e.2 < entry := increasing.1 entry (List.mem_map.2 ⟨_, mem, rfl⟩)
        have other : (e.2 == entry) = false := beq_eq_false_iff_ne.2 (Nat.ne_of_lt below)
        rw [List.find?_cons, other]
        exact ih increasing.2 mem

namespace Assembly

variable {builtins : List String} {p : Program} {b : Bytecode} {functions : List FunctionCode}
  {start : Nat} {main : OpenCode}

/-- The entries of functions increase in the order of the table. -/
theorem increasing (h : Assembly builtins p b functions start main) :
    (b.functions.entries.map Prod.snd).Pairwise (· < ·) := by
  rw [h.entries, List.map_map]
  rcases h.prologue with ⟨rfl, _⟩ | ⟨_, _, contiguous⟩
  · exact List.Pairwise.nil
  · exact contiguous.increasing fun f hf => (h.function_sealed hf).nonempty

/-- Functions start inside of the program. -/
theorem entry_lt_size (h : Assembly builtins p b functions start main) :
    ∀ e ∈ b.functions.entries, e.2 < b.size := by
  intro e he
  rw [h.entries] at he
  obtain ⟨f, hf, rfl⟩ := List.mem_map.1 he
  have inside := (h.function_bounds hf).2
  have nonempty : f.entry < f.stop := (h.function_sealed hf).nonempty
  have size := h.size
  simp only []
  omega

/-- The only halt is the last instruction. -/
theorem halt_iff (h : Assembly builtins p b functions start main) {a : Nat} :
    (∃ i, b.get? a = some i ∧ i.opcode = .halt) ↔ a + 1 = b.size := by
  constructor
  · rintro ⟨i, fetched, halt⟩
    -- no sealed region has a halt before its last instruction
    have last {r : Region} {j : Instruction} (sealed : r.Sealed b j) (ha : a ∈ r) :
        a + 1 = r.stop ∧ j = i := by
      rcases sealed.fetch ha with ⟨_, k, found, other⟩ | ⟨stop, found⟩
      · rw [fetched, Option.some.injEq] at found
        exact absurd halt (found ▸ other)
      · rw [fetched, Option.some.injEq] at found
        exact ⟨stop, found.symm⟩
    have inside : a < b.size := (Array.getElem?_eq_some_iff.1 fetched).1
    rcases h.cover inside with ⟨rfl, jump⟩ | ⟨f, hf, ha⟩ | ha
    · rw [jump, Option.some.injEq] at fetched
      subst fetched
      cases halt
    · obtain ⟨_, rfl⟩ := last (h.function_sealed hf) ha
      cases halt
    · exact (last h.main_sealed ha).1
  · intro stop
    have fetched := h.main_sealed.last
    rw [Bytecode.mainRegion, ← stop] at fetched
    exact ⟨_, fetched, rfl⟩

/-- The program passes the static check. -/
theorem check (h : Assembly builtins p b functions start main) : b.check = .ok () := by
  rw [Bytecode.check, bind_ok_iff]
  refine ⟨(), checkFrom_ok.2 fun a i found => ?_, checkEntries_ok.2 h.entry_lt_size⟩
  rw [Nat.zero_add]
  have fetched : b.get? a = some i := by rw [Bytecode.get?, ← Array.getElem?_toList, found]
  rcases h.origin fetched with rfl | rfl | ⟨lo, hi, o, high, emittable, linked⟩
  · have size := h.size
    have target : start < b.size := by omega
    exact if_pos target
  · rfl
  · exact emittable.checked high h.entry_lt_size linked a

/-- The calls of the functions are those of their bodies. -/
theorem functionCalls (h : Assembly builtins p b functions start main) :
    b.functionRegions.map (fun r => (b.calls r.2).map some) =
      p.declarations.map fun d =>
        d.body.calls.map (CallSite.instruction? builtins b.functions) := by
  rw [h.functionRegions_eq, ← h.declarations, List.map_map, List.map_map]
  apply List.map_congr_left
  intro f hf
  exact (h.placed f hf).calls (emitFunction_sealed (h.emitted f hf)).2.2

/-- The calls of the top-level region are those of the top-level statements. -/
theorem mainCalls (h : Assembly builtins p b functions start main) :
    (b.calls b.mainRegion).map some =
      (Node.callsAll p.body).map (CallSite.instruction? builtins b.functions) := by
  have calls : OpenCode.calls (main ++ [.plain .halt]) =
      Scope.codeOfCalls ⟨builtins, none⟩ (Node.callsAll p.body) := by
    rw [OpenCode.calls_append, emitAll_calls h.mainEmitted]
    exact List.append_nil _
  have region : b.mainRegion = ⟨start, start + (main ++ [OpenInstruction.plain .halt]).length⟩ := by
    rw [h.mainRegion_eq, List.length_append, ← Nat.add_assoc, List.length_singleton]
  rw [region]
  exact h.mainPlaced.calls calls

end Assembly

/-! ### The layout of a compiled program

What the check has found is turned into facts about operands and targets, and put together with what
is known of the regions. The same bytecode is written in one pass by `draftProgram`, provided that
the placeholder is not an address of the program. -/

/-- The bytecode `b` is laid out as the program `p` asks for, where calls of the names `builtins` go
    to the host. -/
structure Layout (builtins : List String) (p : Program) (b : Bytecode) : Prop where
  /-- Operand counts, operand kinds, targets and entries are in order. -/
  checked : b.check = .ok ()
  /-- There is an instruction, so there is a last one. -/
  nonempty : 0 < b.size
  /-- There is exactly one halt, and it comes last. -/
  halt : ∀ a, (∃ i, b.get? a = some i ∧ i.opcode = .halt) ↔ a + 1 = b.size
  /-- The table lists the declared functions in the order of their declarations. -/
  names : b.functions.names = p.declarations.map (·.name)
  increasing : (b.functions.entries.map Prod.snd).Pairwise (· < ·)
  functionAt : ∀ name entry, (name, entry) ∈ b.functions.entries →
    b.functionAt? entry = some name
  /-- The functions start right behind a jump over them, if there are any. -/
  prologue : b.functions.entries = [] ∧ b.mainStart = 0 ∨
    b.functions.entries.head?.map Prod.snd = some 1 ∧ b.get? 0 = some (.jump b.mainStart)
  /-- The calls of each function's code are those of its body, one for one: a call of the host names
      its function and the number of arguments, any other goes to the entry of its callee. -/
  functionCalls : b.functionRegions.map (fun r => (b.calls r.2).map some) =
    p.declarations.map fun d => d.body.calls.map (CallSite.instruction? builtins b.functions)
  /-- So are the calls of the top-level code. -/
  mainCalls : (b.calls b.mainRegion).map some =
    (Node.callsAll p.body).map (CallSite.instruction? builtins b.functions)
  functionJumps : ∀ r ∈ b.functionRegions, b.JumpsInside r.2
  mainJumps : b.JumpsInside b.mainRegion
  /-- No jump and no call is left without an address of the program. -/
  targets : ∀ a i, b.get? a = some i → i.opcode.isBranch = true →
    ∃ target, i.target? = some target ∧ target < b.size

/-- In a checked program every instruction has passed the check. -/
theorem checked_of_check {b : Bytecode} (h : b.check = .ok ()) {a : Nat} {i : Instruction}
    (fetched : b.get? a = some i) : Bytecode.checkInstruction b.size a i = .ok () := by
  rw [Bytecode.check, bind_ok_iff] at h
  obtain ⟨_, instructions, _⟩ := h
  rw [Bytecode.get?, ← Array.getElem?_toList] at fetched
  have checked := checkFrom_ok.1 instructions a i fetched
  rwa [Nat.zero_add] at checked

/-- Operands without a mismatch have the kinds that were asked for. -/
theorem kinds_of_mismatch {kinds : List OperandKind} {operands : List Operand} :
    ∀ {index : Nat}, operands.length = kinds.length →
      Bytecode.mismatch? index kinds operands = none → operands.map Operand.kind = kinds := by
  induction kinds generalizing operands with
  | nil =>
      intro _ length _
      rw [List.length_eq_zero_iff.1 length, List.map_nil]
  | cons kind kinds ih =>
      intro index length fits
      cases operands with
      | nil => cases length
      | cons operand operands =>
          rw [Bytecode.mismatch?] at fits
          split at fits
          · rename_i same
            rw [List.map_cons, same, ih (Nat.succ.inj length) fits]
          · cases fits

/-- In a checked program every instruction has operands of the kinds that its opcode takes. -/
theorem kinds_of_check {b : Bytecode} (h : b.check = .ok ()) {a : Nat} {i : Instruction}
    (fetched : b.get? a = some i) : i.operands.map Operand.kind = i.opcode.operandKinds := by
  have checked := checked_of_check h fetched
  rw [Bytecode.checkInstruction] at checked
  split at checked
  · cases checked
  rename_i arity
  cases fits : Bytecode.mismatch? 0 i.opcode.operandKinds i.operands with
  | some fault =>
      rw [fits] at checked
      cases checked
  | none => exact kinds_of_mismatch (Decidable.not_not.1 arity) fits

/-- In a checked program every branch has a target inside. -/
theorem target_of_check {b : Bytecode} (h : b.check = .ok ()) {a : Nat} {i : Instruction}
    (fetched : b.get? a = some i) (branch : i.opcode.isBranch = true) :
    ∃ target, i.target? = some target ∧ target < b.size := by
  have checked := checked_of_check h fetched
  obtain ⟨op, operands⟩ := i
  rw [Bytecode.checkInstruction] at checked
  split at checked
  · cases checked
  rename_i arity
  split at checked
  · cases checked
  rename_i kinds
  split at checked
  · rename_i target found
    split at checked
    · rename_i inside
      exact ⟨target, found, inside⟩
    · cases checked
  · -- a branch takes one address, so it has a target
    rename_i missing
    cases operands with
    | nil => cases op <;> simp_all [Opcode.arity, Opcode.operandKinds, Opcode.isBranch]
    | cons operand rest =>
        cases op <;> simp_all [Opcode.isBranch, Opcode.operandKinds, Bytecode.mismatch?,
          Instruction.target?] <;> cases operand <;> simp_all [Operand.kind]

/-- Compiling yields a program that is laid out as the source asks for. Writing it in one pass, with
    placeholders for the targets of forward branches, of the jump over the functions and of calls of
    later functions, gives the same program once they are patched, unless it has so many
    instructions that the placeholder is an address. -/
theorem compile_layout {builtins : List String} {p : Program} {b : Bytecode}
    (h : compile builtins p = .ok b) :
    Layout builtins p b ∧
      ∃ t, draftProgram builtins p = .ok t ∧ (t.size ≤ Draft.placeholder → t = b) := by
  obtain ⟨functions, start, main, assembly⟩ := compile_assembly h
  refine ⟨⟨assembly.check, ?_, fun a => assembly.halt_iff, ?_, assembly.increasing, ?_, ?_,
    assembly.functionCalls, assembly.mainCalls, ?_, assembly.main_sealed.jumps,
    fun a i => target_of_check assembly.check⟩, ?_⟩
  · rw [assembly.size]
    exact Nat.succ_pos _
  · rw [NameTable.names, assembly.entries, ← assembly.declarations, List.map_map, List.map_map]
    rfl
  · intro name entry mem
    rw [Bytecode.functionAt?, find?_entry_eq assembly.increasing mem]
    rfl
  · rw [assembly.mainStart_eq, assembly.entries]
    rcases assembly.prologue with ⟨rfl, first⟩ | ⟨nonempty, jump, contiguous⟩
    · exact Or.inl ⟨rfl, first⟩
    · cases functions with
      | nil => exact absurd rfl nonempty
      | cons f rest => exact Or.inr ⟨congrArg Option.some contiguous.1, jump⟩
  · intro r hr
    rw [assembly.functionRegions_eq] at hr
    obtain ⟨f, hf, rfl⟩ := List.mem_map.1 hr
    exact (assembly.function_sealed hf).jumps
  · have faultless := (compile_stops builtins p).ok_iff.1 ⟨b, h⟩
    obtain ⟨t, drafted⟩ := (draftProgram_stops builtins p).ok_iff.2 faultless
    refine ⟨t, drafted, fun fits => ?_⟩
    -- a program without faults can be drafted, however long it is
    have same := draftProgram_eq fun t' drafted' => by
      obtain rfl : t = t' := Except.ok.inj (drafted.symm.trans drafted')
      exact fits
    rw [drafted, h] at same
    exact Except.ok.inj same

/-- Two functions that call each other, the first one before the other is declared, and a call of
    the host. -/
def Program.parity : Program where
  statements := [
    .function "even" ["n"] (.block [
      .ifThen (.binary .eq (.ident "n") (.literal (.int 0))) (.ret (.literal (.bool true))),
      .ret (.call "odd" [.binary .sub (.ident "n") (.literal (.int 1))])]),
    .call "print" [.call "even" [.literal (.int 3)]],
    .function "odd" ["n"] (.block [
      .ifThen (.binary .eq (.ident "n") (.literal (.int 0))) (.ret (.literal (.bool false))),
      .ret (.call "even" [.binary .sub (.ident "n") (.literal (.int 1))])])]

/-- The bytecode of `Program.parity`. -/
def Bytecode.parity : Bytecode :=
  match compile ["print"] .parity with
  | .ok b => b
  | .error _ => default

theorem compile_parity : compile ["print"] .parity = .ok .parity := rfl

/-- The layout of `Program.parity`, and its draft: a jump over two functions, and calls of a
    function before and after its entry is known. -/
theorem compile_layout_parity :
    Layout ["print"] .parity .parity ∧ draftProgram ["print"] .parity = .ok .parity :=
  ⟨(compile_layout compile_parity).1, rfl⟩

end ImpStack
