/-
Module: ImpStack.Proofs.Placement
Purpose: Where the code of a program's parts lies in its bytecode. Linking keeps every instruction
  at its place, the functions follow each other in the order of their declarations, and the
  top-level statements come last.
Main exports: OpenInstruction.linked?, Placed, placed_append, FunctionCode, Contiguous, Assembly,
  compile_assembly
-/
import ImpStack.Proofs.Emission
import ImpStack.Proofs.NameTable

namespace ImpStack

/-! ### Linking

Linking fills the entries into the open calls and leaves all else as it is. It goes through the code
in order and fails at the first call that has no entry. -/

/-- What linking makes of an instruction: an open call gets the entry of its callee. -/
def OpenInstruction.linked? (entries : NameTable Nat) : OpenInstruction → Option Instruction
  | .settled i => some i
  | .call callee => (entries.find? callee).map .call

/-- Linking succeeds where the callee has an entry. -/
theorem OpenInstruction.link_ok {builtins : List String} {entries : NameTable Nat}
    {o : OpenInstruction} {i : Instruction} :
    o.link builtins entries = .ok i ↔ o.linked? entries = some i := by
  cases o with
  | settled j => simp [link, linked?]
  | call callee => cases h : entries.find? callee <;> simp [link, linked?, h]

/-- Linking works instruction by instruction and succeeds if all of them have a target. -/
theorem link_ok {builtins : List String} {entries : NameTable Nat} {code : OpenCode} :
    ∀ {linked : List Instruction}, link builtins entries code = .ok linked ↔
      code.map (OpenInstruction.linked? entries) = linked.map some := by
  induction code with
  | nil =>
      intro linked
      cases linked <;> simp [link]
  | cons o rest ih =>
      intro linked
      cases linked with
      | nil => simp [link, bind_ok_iff]
      | cons i linked =>
          simp only [link, bind_ok_iff, OpenInstruction.link_ok, Except.ok.injEq, List.cons.injEq,
            List.map_cons, ← ih]
          constructor
          · rintro ⟨_, hi, _, hr, rfl, rfl⟩
            exact ⟨hi, hr⟩
          · rintro ⟨hi, hr⟩
            exact ⟨i, hi, linked, hr, rfl, rfl⟩

/-! ### Code at an address

That code lies at an address is taken apart like the code itself, by `++` and `::`. What a machine
fetches in the middle of a node's code is found with these. -/

/-- Code lies, linked, at an address of a program. -/
def Placed (b : Bytecode) (base : Nat) (code : OpenCode) : Prop :=
  ∀ (k : Nat) (o : OpenInstruction), code[k]? = some o →
    ∃ i, o.linked? b.functions = some i ∧ b.get? (base + k) = some i

variable {b : Bytecode} {base : Nat}

@[simp] theorem placed_nil : Placed b base [] := by
  intro k o h
  simp at h

/-- Code in two parts lies at an address if the second part lies behind the first. -/
theorem placed_append {code₁ code₂ : OpenCode} :
    Placed b base (code₁ ++ code₂) ↔
      Placed b base code₁ ∧ Placed b (base + code₁.length) code₂ := by
  constructor
  · intro h
    constructor
    · intro k o hk
      have inside : k < code₁.length := (List.getElem?_eq_some_iff.1 hk).1
      exact h k o (by rw [List.getElem?_append_left inside]; exact hk)
    · intro k o hk
      have at₂ := h (code₁.length + k) o
        (by rw [List.getElem?_append_right (by omega)]; simpa using hk)
      rwa [← Nat.add_assoc] at at₂
  · rintro ⟨h₁, h₂⟩ k o hk
    by_cases inside : k < code₁.length
    · rw [List.getElem?_append_left inside] at hk
      exact h₁ k o hk
    · rw [List.getElem?_append_right (by omega)] at hk
      have at₂ := h₂ (k - code₁.length) o hk
      rwa [show base + code₁.length + (k - code₁.length) = base + k by omega] at at₂

/-- The first instruction lies at the address, and the rest behind it. -/
theorem placed_cons {o : OpenInstruction} {code : OpenCode} :
    Placed b base (o :: code) ↔
      (∃ i, o.linked? b.functions = some i ∧ b.get? base = some i) ∧
        Placed b (base + 1) code := by
  have split := @placed_append b base [o] code
  rw [List.singleton_append] at split
  rw [split]
  refine and_congr ⟨fun h => h 0 o rfl, fun h k o' hk => ?_⟩ Iff.rfl
  cases k with
  | zero => cases hk; exact h
  | succ k => simp at hk

/-- The first instruction of placed code, if linking leaves it alone. -/
@[simp] theorem placed_settled_cons {i : Instruction} {code : OpenCode} :
    Placed b base (.settled i :: code) ↔ b.get? base = some i ∧ Placed b (base + 1) code := by
  simp [placed_cons, OpenInstruction.linked?, eq_comm]

@[simp] theorem placed_plain_cons {op : Opcode} {code : OpenCode} :
    Placed b base (.plain op :: code) ↔
      b.get? base = some (.plain op) ∧ Placed b (base + 1) code :=
  placed_settled_cons

/-- The first instruction of placed code, if it calls a function of the program. -/
@[simp] theorem placed_call_cons {callee : String} {code : OpenCode} :
    Placed b base (.call callee :: code) ↔
      (∃ entry, b.functions.find? callee = some entry ∧ b.get? base = some (.call entry)) ∧
        Placed b (base + 1) code := by
  rw [placed_cons]
  refine and_congr ⟨?_, ?_⟩ Iff.rfl
  · rintro ⟨i, linked, fetched⟩
    obtain ⟨entry, found, rfl⟩ := Option.map_eq_some_iff.1 linked
    exact ⟨entry, found, fetched⟩
  · rintro ⟨entry, found, fetched⟩
    exact ⟨.call entry, by simp [OpenInstruction.linked?, found], fetched⟩

/-- The instruction at an address inside placed code. -/
theorem Placed.fetch {code : OpenCode} (h : Placed b base code) {address : Nat}
    (low : base ≤ address) (high : address < base + code.length) :
    ∃ o ∈ code, ∃ i, o.linked? b.functions = some i ∧ b.get? address = some i := by
  have inside : address - base < code.length := by omega
  have found := h (address - base) _ (List.getElem?_eq_getElem inside)
  rw [show base + (address - base) = address by omega] at found
  exact ⟨_, List.getElem_mem inside, found⟩

/-! ### Functions one after the other

The functions fill a stretch of addresses without gaps, each at the entry that the one before
leaves. -/

/-- A function with its code before linking. -/
structure FunctionCode where
  declaration : Declaration
  entry : Nat
  code : OpenCode

/-- The address after the last instruction of a function. -/
def FunctionCode.stop (f : FunctionCode) : Nat := f.entry + f.code.length

/-- Functions whose code fills the addresses from `base` up to `stop` without gaps. -/
def Contiguous : Nat → List FunctionCode → Nat → Prop
  | base, [], stop => base = stop
  | base, f :: rest, stop => f.entry = base ∧ Contiguous f.stop rest stop

/-- The stretch is as long as the code of all functions. -/
theorem Contiguous.stop_eq {fs : List FunctionCode} :
    ∀ {base stop : Nat}, Contiguous base fs stop →
      stop = base + (fs.flatMap (·.code)).length := by
  induction fs with
  | nil =>
      intro base stop h
      simpa [Contiguous, eq_comm] using h
  | cons f rest ih =>
      rintro base stop ⟨rfl, h⟩
      rw [ih h, FunctionCode.stop, List.flatMap_cons, List.length_append, Nat.add_assoc]

/-- Every function lies between the first and the last address. -/
theorem Contiguous.bounds {fs : List FunctionCode} :
    ∀ {base stop : Nat}, Contiguous base fs stop → ∀ f ∈ fs, base ≤ f.entry ∧ f.stop ≤ stop := by
  induction fs with
  | nil => simp
  | cons f rest ih =>
      rintro base stop ⟨rfl, h⟩ g hg
      rcases List.mem_cons.1 hg with rfl | hg
      · refine ⟨Nat.le_refl _, ?_⟩
        rw [h.stop_eq]
        exact Nat.le_add_right ..
      · have inside := ih h g hg
        rw [FunctionCode.stop] at inside
        exact ⟨by omega, inside.2⟩

/-- Each function of contiguous code that is placed at its start is placed at its entry. -/
theorem Placed.function {fs : List FunctionCode} :
    ∀ {base stop : Nat}, Contiguous base fs stop → Placed b base (fs.flatMap (·.code)) →
      ∀ f ∈ fs, Placed b f.entry f.code := by
  induction fs with
  | nil => simp
  | cons f rest ih =>
      rintro base stop ⟨rfl, h⟩ placed g hg
      rw [List.flatMap_cons, placed_append] at placed
      rcases List.mem_cons.1 hg with rfl | hg
      · exact placed.1
      · exact ih h placed.2 g hg

/-- What the emission of declarations yields: their functions one after the other, each compiled at
    its entry, none named like a function of the host, with a table that lists their entries. -/
theorem emitFunctions_ok {builtins : List String} {ds : List Declaration} :
    ∀ {base : Nat} {declared table : NameTable Nat} {code : OpenCode},
      emitFunctions builtins base declared ds = .ok (code, table) →
        ∃ fs stop, fs.map (·.declaration) = ds ∧ Contiguous base fs stop ∧
          code = fs.flatMap (·.code) ∧
          table.entries = declared.entries ++ fs.map (fun f => (f.declaration.name, f.entry)) ∧
          ∀ f ∈ fs, emitFunction builtins f.entry f.declaration = .ok f.code ∧
            builtins.contains f.declaration.name = false := by
  induction ds with
  | nil =>
      intro base declared table code h
      simp only [emitFunctions, Except.ok.injEq, Prod.mk.injEq] at h
      obtain ⟨rfl, rfl⟩ := h
      exact ⟨[], base, rfl, rfl, rfl, by simp, by simp⟩
  | cons d rest ih =>
      intro base declared table code h
      simp only [emitFunctions, bind_ok_iff, Except.ok.injEq, Prod.mk.injEq, Prod.exists] at h
      obtain ⟨_, checked, dCode, hd, restCode, table', hr, rfl, rfl⟩ := h
      obtain ⟨fs, stop, rfl, contiguous, rfl, entries, emitted⟩ := ih hr
      -- the name is new, so its entry comes last in the table
      rw [checkDeclaration] at checked
      split at checked
      · cases checked
      split at checked
      · cases checked
      rename_i fresh notHost
      refine ⟨⟨d, base, dCode⟩ :: fs, stop, rfl, ⟨rfl, contiguous⟩, rfl, ?_, ?_⟩
      · rw [entries, NameTable.entries_insert _ (by simpa using fresh), List.append_assoc]
        rfl
      · intro f hf
        rcases List.mem_cons.1 hf with rfl | hf
        · exact ⟨hd, by simpa using notHost⟩
        · exact emitted f hf

/-! ### The whole program

An assembly says everything about how a bytecode came from its source: which code lies where and
that there is nothing else. What is proved of compiled programs starts from it. -/

/-- How a compiled program is put together: the code of its functions, the address `start` of its
    first top-level instruction, and the code of its top-level statements. -/
structure Assembly (builtins : List String) (p : Program) (b : Bytecode)
    (functions : List FunctionCode) (start : Nat) (main : OpenCode) : Prop where
  declarations : functions.map (·.declaration) = p.declarations
  /-- The table lists the functions in the order of their declarations. -/
  entries : b.functions.entries = functions.map fun f => (f.declaration.name, f.entry)
  emitted : ∀ f ∈ functions, emitFunction builtins f.entry f.declaration = .ok f.code
  notHost : ∀ f ∈ functions, builtins.contains f.declaration.name = false
  /-- Functions stand behind a jump over them. -/
  prologue : functions = [] ∧ start = 0 ∨
    functions ≠ [] ∧ b.get? 0 = some (.jump start) ∧ Contiguous 1 functions start
  placed : ∀ f ∈ functions, Placed b f.entry f.code
  mainEmitted : emitAll ⟨builtins, none⟩ start p.body = .ok main
  mainPlaced : Placed b start (main ++ [.plain .halt])
  size : b.size = start + main.length + 1

/-- Linked code is placed at the first address of the program that consists of it. -/
theorem placed_of_link {builtins : List String} {entries : NameTable Nat} {code : OpenCode}
    {linked : List Instruction} (h : link builtins entries code = .ok linked) :
    Placed ⟨linked.toArray, entries⟩ 0 code := by
  intro k o hk
  have image := congrArg (·[k]?) (link_ok.1 h)
  simp only [List.getElem?_map, hk, Option.map_some] at image
  cases found : linked[k]? with
  | none => simp [found] at image
  | some i =>
      rw [found] at image
      exact ⟨i, by simpa using image, by simpa [Bytecode.get?] using found⟩

/-- What the emission of all declarations yields: nothing for none of them, else their functions
    behind a jump over them. -/
theorem emitDeclarations_ok {builtins : List String} {ds : List Declaration} {code : OpenCode}
    {table : NameTable Nat} (h : emitDeclarations builtins ds = .ok (code, table)) :
    ∃ fs : List FunctionCode, fs.map (·.declaration) = ds ∧
      table.entries = fs.map (fun f => (f.declaration.name, f.entry)) ∧
      (∀ f ∈ fs, emitFunction builtins f.entry f.declaration = .ok f.code ∧
        builtins.contains f.declaration.name = false) ∧
      (fs = [] ∧ code = [] ∨ fs ≠ [] ∧ Contiguous 1 fs code.length ∧
        code = .settled (.jump code.length) :: fs.flatMap (·.code)) := by
  cases ds with
  | nil =>
      simp only [emitDeclarations, Except.ok.injEq, Prod.mk.injEq] at h
      obtain ⟨rfl, rfl⟩ := h
      exact ⟨[], rfl, rfl, by simp, Or.inl ⟨rfl, rfl⟩⟩
  | cons d rest =>
      simp only [emitDeclarations, bind_ok_iff, Except.ok.injEq, Prod.mk.injEq, Prod.exists] at h
      obtain ⟨body, table', hb, rfl, rfl⟩ := h
      obtain ⟨fs, stop, declarations, contiguous, rfl, entries, emitted⟩ := emitFunctions_ok hb
      have stop_eq := contiguous.stop_eq
      refine ⟨fs, declarations, entries, emitted, Or.inr ⟨?_, ?_, ?_⟩⟩
      · rintro rfl
        cases declarations
      · rw [List.length_cons, Nat.add_comm, ← stop_eq]
        exact contiguous
      · rw [List.length_cons, Nat.add_comm]

/-- Every compiled program is put together in this way. -/
theorem compile_assembly {builtins : List String} {p : Program} {b : Bytecode}
    (h : compile builtins p = .ok b) :
    ∃ functions start main, Assembly builtins p b functions start main := by
  simp only [compile, bind_ok_iff, Except.ok.injEq, Prod.exists] at h
  obtain ⟨code, entries, hd, main, hm, linked, hl, rfl⟩ := h
  obtain ⟨fs, declarations, listed, emitted, shape⟩ := emitDeclarations_ok hd
  have length_eq := congrArg List.length (link_ok.1 hl)
  have whole := placed_of_link hl
  rw [placed_append, placed_append, Nat.zero_add] at whole
  obtain ⟨⟨functionsPlaced, mainPlaced⟩, haltPlaced⟩ := whole
  refine ⟨fs, code.length, main, declarations, listed, fun f hf => (emitted f hf).1,
    fun f hf => (emitted f hf).2, ?_, ?_, hm, ?_, ?_⟩
  · rcases shape with ⟨rfl, rfl⟩ | ⟨some, contiguous, code_eq⟩
    · exact Or.inl ⟨rfl, rfl⟩
    · rw [code_eq, placed_settled_cons] at functionsPlaced
      exact Or.inr ⟨some, functionsPlaced.1, contiguous⟩
  · rcases shape with ⟨rfl, rfl⟩ | ⟨_, contiguous, code_eq⟩
    · simp
    · rw [code_eq, placed_settled_cons] at functionsPlaced
      exact Placed.function contiguous functionsPlaced.2
  · rw [placed_append]
    exact ⟨mainPlaced, by simpa [Nat.zero_add, List.length_append] using haltPlaced⟩
  · simp only [List.length_map, List.length_append, List.length_singleton] at length_eq
    simp only [Bytecode.size, List.size_toArray]
    omega

end ImpStack
