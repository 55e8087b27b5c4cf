/-
Module: ImpStack.Proofs.Region
Purpose: The code regions of a compiled program: one for each function and one for the top-level
  statements. A region is sealed: it ends in an instruction that leaves it for good, and no jump
  inside it goes anywhere else.
Main exports: Region, Bytecode.mainRegion, Bytecode.functionRegions, Region.Sealed,
  emitFunction_sealed, Assembly.functionRegions_eq, Assembly.cover
-/
import ImpStack.Proofs.Placement

namespace ImpStack

/-- A range of code addresses, without the last one. -/
structure Region where
  start : Nat
  stop : Nat
deriving DecidableEq

instance : Membership Nat Region := ⟨fun r a => r.start ≤ a ∧ a < r.stop⟩

/-- A region has its first address, and not the one behind its last. -/
theorem Region.mem_iff {r : Region} {a : Nat} : a ∈ r ↔ r.start ≤ a ∧ a < r.stop := Iff.rfl

namespace Bytecode

/-- The address of the first top-level instruction: where the leading jump goes, or the first of
    all if there are no functions to jump over. -/
def mainStart (b : Bytecode) : Nat :=
  if b.functions.isEmpty then 0 else ((b.get? 0).bind Instruction.target?).getD 0

/-- The region of the top-level statements, up to and including the final halt. -/
def mainRegion (b : Bytecode) : Region := ⟨b.mainStart, b.size⟩

/-- The regions that begin at entries: each ends where the next one begins, the last one at
    `stop`. -/
def regionsUpTo (stop : Nat) : List (String × Nat) → List (String × Region)
  | [] => []
  | (name, entry) :: rest =>
    (name, ⟨entry, (rest.head?.map Prod.snd).getD stop⟩) :: regionsUpTo stop rest

/-- The regions of the functions, in the order of their declarations. -/
def functionRegions (b : Bytecode) : List (String × Region) :=
  regionsUpTo b.mainStart b.functions.entries

/-- The instructions of a region. -/
def instructions (b : Bytecode) (r : Region) : List Instruction :=
  (b.code.toList.drop r.start).take (r.stop - r.start)

/-- Every jump of a region, conditional or not, goes to an address of the same region. -/
def JumpsInside (b : Bytecode) (r : Region) : Prop :=
  ∀ a ∈ r, ∀ i, b.get? a = some i → i.opcode = .jump ∨ i.opcode = .jumpIf →
    ∃ target ∈ r, i.target? = some target

end Bytecode

/-- A region that control leaves only by calls, by returns or by a halt: it ends in `last`, which
    does not go on to the next address, no other instruction of it is a halt, and its jumps stay
    inside. -/
structure Region.Sealed (b : Bytecode) (r : Region) (last : Instruction) : Prop where
  nonempty : r.start < r.stop
  last : b.get? (r.stop - 1) = some last
  inner : ∀ a ∈ r, a + 1 ∈ r → ∃ i, b.get? a = some i ∧ i.opcode ≠ .halt
  jumps : b.JumpsInside r

/-! ### The code of a function

A function is the stores of its parameters, its body, and a return unless the body ends in one that
nothing jumps over. Either way it ends in a return, and its branches stay inside. -/

/-- An instruction whose branches avoid the last address has them below it. -/
theorem Emittable.lower {builtins : List String} {lo hi : Nat} {o : OpenInstruction}
    (h : Emittable builtins lo hi o) (avoids : o.target? ≠ some hi) :
    Emittable builtins lo (hi - 1) o := by
  cases h with
  | push value => exact .push value
  | load name => exact .load name
  | store name => exact .store name
  | operation h => exact .operation h
  | jump low high =>
      refine .jump low ?_
      have other : _ ≠ hi := fun same => avoids (by rw [← same]; rfl)
      omega
  | jumpIf low high =>
      refine .jumpIf low ?_
      have other : _ ≠ hi := fun same => avoids (by rw [← same]; rfl)
      omega
  | ret => exact .ret
  | func count h => exact .func count h
  | call h => exact .call h

/-- The code that moves the arguments of a call into the parameters. -/
def Declaration.stores (d : Declaration) : OpenCode :=
  d.params.reverse.map fun param => .settled (.store param)

@[simp] theorem Declaration.length_stores (d : Declaration) :
    d.stores.length = d.params.length := by
  simp [Declaration.stores]

theorem Declaration.stores_within (d : Declaration) (builtins : List String) (lo hi : Nat) :
    CodeWithin builtins lo hi d.stores := by
  intro o ho
  obtain ⟨param, _, rfl⟩ := List.mem_map.1 ho
  exact .store param

theorem Declaration.calls_stores (d : Declaration) : OpenCode.calls d.stores = [] := by
  refine List.filter_eq_nil_iff.2 fun o ho => ?_
  obtain ⟨param, _, rfl⟩ := List.mem_map.1 ho
  exact Bool.false_ne_true

/-- The code of a function: its parameters, its body, and a return unless the body ends in one that
    no jump skips. -/
theorem emitFunction_ok {builtins : List String} {base : Nat} {d : Declaration} {code : OpenCode}
    (h : emitFunction builtins base d = .ok code) :
    ∃ body, emit ⟨builtins, some d.name⟩ (base + d.params.length) d.body = .ok body ∧
      (code = d.stores ++ body ∧ endsInReturn base code = true ∨
        code = d.stores ++ body ++ [.plain .ret]) := by
  simp only [emitFunction, bind_ok_iff, List.length_map, List.length_reverse, Except.ok.injEq] at h
  obtain ⟨body, hb, rfl⟩ := h
  refine ⟨body, hb, ?_⟩
  split
  · rename_i ends
    exact Or.inl ⟨rfl, ends⟩
  · exact Or.inr rfl

/-- The parameters and the body of a function branch no further than to the address behind them, and
    call what the body calls. -/
theorem Declaration.code_within {builtins : List String} {base : Nat} {d : Declaration}
    {body : OpenCode}
    (h : emit ⟨builtins, some d.name⟩ (base + d.params.length) d.body = .ok body) :
    CodeWithin builtins base (base + (d.stores ++ body).length) (d.stores ++ body) ∧
      OpenCode.calls (d.stores ++ body) =
        Scope.codeOfCalls ⟨builtins, some d.name⟩ d.body.calls := by
  constructor
  · rw [codeWithin_append, List.length_append, d.length_stores]
    exact ⟨d.stores_within _ _ _, (emit_within h).mono (by omega) (by omega)⟩
  · rw [OpenCode.calls_append, d.calls_stores, List.nil_append, emit_calls h]

/-- The code of a function ends in a return, its branches stay below its end, and its calls are
    those of its body. -/
theorem emitFunction_sealed {builtins : List String} {base : Nat} {d : Declaration}
    {code : OpenCode} (h : emitFunction builtins base d = .ok code) :
    code.getLast? = some (.plain .ret) ∧
      CodeWithin builtins base (base + code.length - 1) code ∧
      OpenCode.calls code = Scope.codeOfCalls ⟨builtins, some d.name⟩ d.body.calls := by
  obtain ⟨body, hb, shape⟩ := emitFunction_ok h
  obtain ⟨within, calls⟩ := Declaration.code_within hb
  rcases shape with ⟨rfl, ends⟩ | rfl
  · rw [endsInReturn, Bool.and_eq_true, decide_eq_true_iff, List.all_eq_true] at ends
    refine ⟨ends.1, fun o ho => (within o ho).lower ?_, calls⟩
    exact of_decide_eq_true (ends.2 o ho)
  · refine ⟨List.getLast?_concat .., ?_, ?_⟩
    · have stop : (d.stores ++ body ++ [OpenInstruction.plain .ret]).length =
          (d.stores ++ body).length + 1 := List.length_append
      rw [codeWithin_append, codeWithin_cons, stop]
      exact ⟨within, .ret, codeWithin_nil⟩
    · rw [OpenCode.calls_append, calls]
      exact List.append_nil _

/-! ### The regions of an assembled program

Where the regions are is read off the bytecode alone, from the table of functions and the leading
jump. It is shown here that this gives the places at which the functions and the statements were
assembled. -/

variable {builtins : List String} {p : Program} {b : Bytecode} {functions : List FunctionCode}
  {start : Nat} {main : OpenCode}

/-- The region of a function. -/
def FunctionCode.region (f : FunctionCode) : Region := ⟨f.entry, f.stop⟩

/-- Regions that end where the next one begins are those of contiguous functions. -/
theorem Contiguous.regionsUpTo_eq {fs : List FunctionCode} :
    ∀ {base stop : Nat}, Contiguous base fs stop →
      Bytecode.regionsUpTo stop (fs.map fun f => (f.declaration.name, f.entry)) =
        fs.map fun f => (f.declaration.name, f.region) := by
  induction fs with
  | nil => simp [Bytecode.regionsUpTo]
  | cons f rest ih =>
      rintro base stop ⟨rfl, h⟩
      simp only [List.map_cons, Bytecode.regionsUpTo, ih h, FunctionCode.region]
      cases rest with
      | nil =>
          have last : f.stop = stop := h
          simp [last]
      | cons g rest => simp [h.1]

/-- Every address of contiguous code lies in one of its functions. -/
theorem Contiguous.cover {fs : List FunctionCode} :
    ∀ {base stop : Nat}, Contiguous base fs stop → ∀ a, base ≤ a → a < stop →
      ∃ f ∈ fs, a ∈ f.region := by
  induction fs with
  | nil =>
      intro base stop h a low high
      have same : base = stop := h
      omega
  | cons f rest ih =>
      rintro base stop ⟨rfl, h⟩ a low high
      by_cases inside : a < f.stop
      · exact ⟨f, List.mem_cons_self, low, inside⟩
      · obtain ⟨g, hg, ha⟩ := ih h a (by omega) high
        exact ⟨g, List.mem_cons_of_mem f hg, ha⟩

namespace Assembly

/-- The table is empty if there are no functions. -/
theorem isEmpty_iff (h : Assembly builtins p b functions start main) :
    b.functions.isEmpty = true ↔ functions = [] := by
  rw [NameTable.isEmpty, List.isEmpty_iff, h.entries, List.map_eq_nil_iff]

/-- The leading jump goes to the first top-level instruction. -/
theorem mainStart_eq (h : Assembly builtins p b functions start main) : b.mainStart = start := by
  rw [Bytecode.mainStart]
  rcases h.prologue with ⟨none, rfl⟩ | ⟨some, jump, _⟩
  · rw [if_pos (h.isEmpty_iff.2 none)]
  · rw [if_neg (fun empty => some (h.isEmpty_iff.1 empty)), jump]
    rfl

/-- The top-level statements fill the rest, with the halt. -/
theorem mainRegion_eq (h : Assembly builtins p b functions start main) :
    b.mainRegion = ⟨start, start + main.length + 1⟩ := by
  rw [Bytecode.mainRegion, h.mainStart_eq, h.size]

/-- The regions of functions are where their code lies. -/
theorem functionRegions_eq (h : Assembly builtins p b functions start main) :
    b.functionRegions = functions.map fun f => (f.declaration.name, f.region) := by
  rw [Bytecode.functionRegions, h.mainStart_eq, h.entries]
  rcases h.prologue with ⟨rfl, _⟩ | ⟨_, _, contiguous⟩
  · rfl
  · exact contiguous.regionsUpTo_eq

/-- Functions lie before the top-level statements and after the leading jump. -/
theorem function_bounds (h : Assembly builtins p b functions start main) {f : FunctionCode}
    (hf : f ∈ functions) : 1 ≤ f.entry ∧ f.stop ≤ start := by
  rcases h.prologue with ⟨rfl, _⟩ | ⟨_, _, contiguous⟩
  · cases hf
  · exact contiguous.bounds f hf

/-- Every address is that of the leading jump, or in a function, or in the top-level region. -/
theorem cover (h : Assembly builtins p b functions start main) {a : Nat} (inside : a < b.size) :
    (a = 0 ∧ b.get? 0 = some (.jump start)) ∨ (∃ f ∈ functions, a ∈ f.region) ∨
      a ∈ b.mainRegion := by
  rw [h.size] at inside
  rw [h.mainRegion_eq, Region.mem_iff]
  rcases h.prologue with ⟨_, rfl⟩ | ⟨_, jump, contiguous⟩
  · exact Or.inr (Or.inr ⟨Nat.zero_le a, inside⟩)
  · by_cases first : a = 0
    · exact Or.inl ⟨first, jump⟩
    by_cases low : a < start
    · exact Or.inr (Or.inl (contiguous.cover a (by omega) low))
    · exact Or.inr (Or.inr ⟨Nat.le_of_not_lt low, inside⟩)

/-- A call of the program's functions goes to one of them. -/
theorem find?_entry (h : Assembly builtins p b functions start main) {name : String}
    {entry : Nat} :
    b.functions.find? name = some entry ↔
      ∃ f ∈ functions, f.declaration.name = name ∧ f.entry = entry := by
  rw [NameTable.find?_eq_some_iff, h.entries, List.mem_map]
  simp [Prod.ext_iff]

/-- No two functions have the same name. -/
theorem eq_of_name_eq (h : Assembly builtins p b functions start main) {f g : FunctionCode}
    (hf : f ∈ functions) (hg : g ∈ functions) (same : f.declaration.name = g.declaration.name) :
    f.entry = g.entry := by
  have found := h.find?_entry.2 ⟨f, hf, rfl, rfl⟩
  rw [same, h.find?_entry.2 ⟨g, hg, rfl, rfl⟩, Option.some.injEq] at found
  exact found.symm

end Assembly

/-! ### Sealed regions

That a region is sealed is carried over from its open code to the bytecode, since linking keeps
jumps, returns and halts. Any instruction can be traced back to the region that it is in. -/

/-- A linked instruction of a node is no halt, jumps only as far as its code reaches, and calls only
    functions of the table. -/
theorem Emittable.linked {lo hi : Nat} {entries : NameTable Nat} {o : OpenInstruction}
    {i : Instruction} (h : Emittable builtins lo hi o) (link : o.linked? entries = some i) :
    i.opcode ≠ .halt ∧
      (i.opcode = .jump ∨ i.opcode = .jumpIf →
        ∃ target, i.target? = some target ∧ lo ≤ target ∧ target ≤ hi) ∧
      (i.opcode = .call → ∃ name entry, entries.find? name = some entry ∧ i = .call entry) := by
  cases h with
  | push value => cases link; simp [Instruction.push]
  | load name => cases link; simp [Instruction.load]
  | store name => cases link; simp [Instruction.store]
  | @operation op h =>
      cases link
      cases op <;> simp_all [Instruction.plain]
  | jump low high => cases link; exact ⟨nofun, fun _ => ⟨_, rfl, low, high⟩, nofun⟩
  | jumpIf low high => cases link; exact ⟨nofun, fun _ => ⟨_, rfl, low, high⟩, nofun⟩
  | ret => cases link; simp [Instruction.plain]
  | func count h => cases link; simp [Instruction.func]
  | call h =>
      obtain ⟨entry, found, rfl⟩ := Option.map_eq_some_iff.1 link
      exact ⟨nofun, nofun, fun _ => ⟨_, entry, found, rfl⟩⟩

/-- Placed code whose branches stay between its first and its last address is a sealed region. -/
theorem Placed.sealed {base : Nat} {init : OpenCode} {last : Instruction}
    (placed : Placed b base (init ++ [.settled last]))
    (within : CodeWithin builtins base (base + init.length) init)
    (final : last.opcode.isBranch = false) :
    Region.Sealed b ⟨base, base + init.length + 1⟩ last := by
  rw [placed_append, placed_settled_cons] at placed
  -- an instruction of the region is one of `init` or the last one
  have fetch {a : Nat} {i : Instruction} (low : base ≤ a) (high : a < base + init.length)
      (fetched : b.get? a = some i) : ∃ o ∈ init, o.linked? b.functions = some i := by
    obtain ⟨o, ho, j, linked, found⟩ := placed.1.fetch low high
    rw [fetched, Option.some.injEq] at found
    exact ⟨o, ho, found ▸ linked⟩
  refine ⟨by simp only []; omega, placed.2.1, ?_, ?_⟩
  · rintro a ⟨low, _⟩ ⟨_, high⟩
    obtain ⟨o, ho, i, linked, found⟩ := placed.1.fetch low (Nat.lt_of_succ_lt_succ high)
    exact ⟨i, found, ((within o ho).linked linked).1⟩
  · rintro a ⟨low, high⟩ i fetched jump
    rcases Nat.lt_or_eq_of_le (Nat.le_of_lt_succ high) with inside | rfl
    · obtain ⟨o, ho, linked⟩ := fetch low inside fetched
      obtain ⟨target, found, lower, upper⟩ := ((within o ho).linked linked).2.1 jump
      exact ⟨target, ⟨lower, Nat.lt_succ_of_le upper⟩, found⟩
    · rw [placed.2.1, Option.some.injEq] at fetched
      subst fetched
      rcases jump with jump | jump <;> rw [jump] at final <;> cases final

/-- At an address of a sealed region, either the next address belongs to it as well, or the
    instruction is the last one. -/
theorem Region.Sealed.fetch {r : Region} {last : Instruction} (h : r.Sealed b last) {a : Nat}
    (ha : a ∈ r) :
    (a + 1 ∈ r ∧ ∃ i, b.get? a = some i ∧ i.opcode ≠ .halt) ∨
      (a + 1 = r.stop ∧ b.get? a = some last) := by
  by_cases next : a + 1 < r.stop
  · have inside : a + 1 ∈ r := ⟨Nat.le_succ_of_le ha.1, next⟩
    exact Or.inl ⟨inside, h.inner a ha inside⟩
  · have stop : a + 1 = r.stop := Nat.le_antisymm ha.2 (Nat.not_lt.1 next)
    have fetched := h.last
    rw [← stop, Nat.add_sub_cancel] at fetched
    exact Or.inr ⟨stop, fetched⟩

namespace Assembly

/-- The region of a function ends in a return and is sealed. -/
theorem function_sealed (h : Assembly builtins p b functions start main) {f : FunctionCode}
    (hf : f ∈ functions) : f.region.Sealed b (.plain .ret) := by
  obtain ⟨ends, within, _⟩ := emitFunction_sealed (h.emitted f hf)
  obtain ⟨init, code_eq⟩ := List.getLast?_eq_some_iff.1 ends
  have placed := h.placed f hf
  rw [code_eq] at placed within
  rw [codeWithin_append, List.length_append, List.length_singleton] at within
  have sealed := placed.sealed (within.1.mono (Nat.le_refl _) (Nat.le_refl _)) rfl
  rwa [Nat.add_assoc, ← List.length_singleton (a := OpenInstruction.plain .ret),
    ← List.length_append, ← code_eq] at sealed

/-- The region of the top-level statements ends in the halt and is sealed. -/
theorem main_sealed (h : Assembly builtins p b functions start main) :
    b.mainRegion.Sealed b (.plain .halt) := by
  rw [h.mainRegion_eq]
  exact h.mainPlaced.sealed (emitAll_within h.mainEmitted) rfl

/-- An instruction of the top-level region is the halt at its end, or from the code of the top-level
    statements. -/
theorem main_origin (h : Assembly builtins p b functions start main) {a : Nat} {i : Instruction}
    (ha : a ∈ b.mainRegion) (fetched : b.get? a = some i) :
    i = .plain .halt ∨ ∃ o ∈ main, o.linked? b.functions = some i := by
  rw [h.mainRegion_eq] at ha
  have inside : a < start + (main ++ [OpenInstruction.plain .halt]).length := by
    rw [List.length_append, ← Nat.add_assoc]
    exact ha.2
  obtain ⟨o, ho, j, linked, found⟩ := h.mainPlaced.fetch ha.1 inside
  rw [fetched, Option.some.injEq] at found
  subst found
  rcases List.mem_append.1 ho with ho | ho
  · exact Or.inr ⟨o, ho, linked⟩
  · rw [List.mem_singleton.1 ho] at linked
    cases linked
    exact Or.inl rfl

/-- An instruction of the program is the leading jump, or the halt at the end, or it may stand in
    the code of a node and branches only inside. -/
theorem origin (h : Assembly builtins p b functions start main) {a : Nat} {i : Instruction}
    (fetched : b.get? a = some i) :
    i = .jump start ∨ i = .plain .halt ∨
      ∃ lo hi o, hi < b.size ∧ Emittable builtins lo hi o ∧ o.linked? b.functions = some i := by
  have size := h.size
  have inside : a < b.size := (Array.getElem?_eq_some_iff.1 fetched).1
  rcases h.cover inside with ⟨rfl, jump⟩ | ⟨f, hf, low, high⟩ | main
  · rw [jump, Option.some.injEq] at fetched
    exact Or.inl fetched.symm
  · obtain ⟨o, ho, j, linked, found⟩ := (h.placed f hf).fetch low high
    rw [fetched, Option.some.injEq] at found
    subst found
    have stop : f.entry + f.code.length ≤ start := (h.function_bounds hf).2
    have within := (emitFunction_sealed (h.emitted f hf)).2.1
    exact Or.inr (Or.inr ⟨_, _, o, by omega, within o ho, linked⟩)
  · rcases h.main_origin main fetched with halt | ⟨o, ho, linked⟩
    · exact Or.inr (Or.inl halt)
    · exact Or.inr (Or.inr ⟨_, _, o, by omega, emitAll_within h.mainEmitted o ho, linked⟩)

/-- Every call of the program goes to the entry of one of its functions. -/
theorem call_target (h : Assembly builtins p b functions start main) {a : Nat} {i : Instruction}
    (fetched : b.get? a = some i) (call : i.opcode = .call) :
    ∃ f ∈ functions, i = .call f.entry := by
  rcases h.origin fetched with rfl | rfl | ⟨lo, hi, o, _, emittable, linked⟩
  · cases call
  · cases call
  · obtain ⟨name, entry, found, rfl⟩ := (emittable.linked linked).2.2 call
    obtain ⟨f, hf, _, rfl⟩ := h.find?_entry.1 found
    exact ⟨f, hf, rfl⟩

end Assembly

end ImpStack
