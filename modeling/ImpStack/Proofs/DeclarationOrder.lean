/-
Module: ImpStack.Proofs.DeclarationOrder
Purpose: The order of declarations does not matter. A program is accepted with its declarations in
  any order or in none; and two programs with the same declarations in any order compile to code
  that differs in its addresses only.
Main exports: Program.WellFormed.reordered, compile_reordered, SamePlace, Placed.counterpart,
  Assembly.relocation, declaration_order_is_irrelevant
-/
import ImpStack.Proofs.Position
import ImpStack.Proofs.Rejection
import ImpStack.Proofs.Relocation

namespace ImpStack

variable {σ : Type} {builtins : List String} {d : Int}

/-! ### Programs that are accepted

Acceptance asks that the names of functions are distinct and free, that nothing is declared below
the top level and that callees are known. None of this looks at where a declaration stands among the
others. -/

/-- The order of declarations is no part of what makes a program well-formed. -/
theorem Program.WellFormed.reordered {p q : Program} (h : p.WellFormed builtins)
    (perm : q.declarations.Perm p.declarations) (body : q.body = p.body) :
    q.WellFormed builtins where
  distinct := (perm.map _).nodup_iff.2 h.distinct
  unshadowed d mem := h.unshadowed d (perm.mem_iff.1 mem)
  params d mem := h.params d (perm.mem_iff.1 mem)
  flat := by
    obtain ⟨declarations, others⟩ := Program.forall_statements.1 h.flat
    refine Program.forall_statements.2 ⟨fun d mem => declarations d (perm.mem_iff.1 mem), ?_⟩
    rwa [body]
  known := by
    have same (name : String) : name ∈ q.declarations.map (·.name) ↔
        name ∈ p.declarations.map (·.name) := (perm.map _).mem_iff
    simp only [same]
    obtain ⟨declarations, others⟩ := Program.forall_statements.1 h.known
    refine Program.forall_statements.2 ⟨fun d mem => declarations d (perm.mem_iff.1 mem), ?_⟩
    rwa [body]

/-- A program with the declarations of an accepted one in any order, and with the same other
    statements, is accepted as well. -/
theorem compile_reordered {p q : Program} {b : Bytecode} (h : compile builtins p = .ok b)
    (perm : q.declarations.Perm p.declarations) (body : q.body = p.body) :
    ∃ b', compile builtins q = .ok b' :=
  compiles_iff.2 ((compiles_iff.1 ⟨b, h⟩).reordered perm body)

/-! ### Two assemblies of the same functions

Reordering the declarations moves each function as a whole. Its code is the same open code at
another entry, so it is a relocation, and so is the code of the top level. -/

/-- The code of a function at another entry. -/
theorem FunctionCode.moved {f f' : FunctionCode} (same : f.declaration = f'.declaration)
    (emitted : emitFunction builtins f.entry f.declaration = .ok f.code)
    (emitted' : emitFunction builtins f'.entry f'.declaration = .ok f'.code) :
    OpenCode.Moved ((f'.entry : Int) - f.entry) f.code f'.code := by
  obtain ⟨code', h, moved⟩ := emitFunction_moved (d := (f'.entry : Int) - f.entry)
    emitted f'.entry (by omega)
  rw [same, emitted', Except.ok.injEq] at h
  rw [h]
  exact moved

section

variable {p q : Program} {b b' : Bytecode} {functions functions' : List FunctionCode}
  {start start' : Nat} {main main' : OpenCode}

namespace Assembly

/-- The functions of an assembly are those that the program declares. -/
theorem declared (h : Assembly builtins p b functions start main) {f : FunctionCode}
    (hf : f ∈ functions) : f.declaration ∈ p.declarations := by
  rw [← h.declarations]
  exact List.mem_map_of_mem hf

/-- A declared function is among those of the assembly. -/
theorem exists_function (h : Assembly builtins p b functions start main) {f : Declaration}
    (mem : f ∈ p.declarations) : ∃ g ∈ functions, g.declaration = f := by
  rw [← h.declarations] at mem
  exact List.mem_map.1 mem

end Assembly

/-! ### The same places

The two bytecodes are related by a relation between addresses and not by one shift, since every
function moves by a distance of its own. Targets of branches stay in their function and targets of
calls are entries, so the relation leads from related places to related places. -/

/-- The addresses of the same place in two assemblies of the same functions: the leading jump, an
    instruction of a function, or one of the `length` top-level instructions or the halt after
    them. -/
inductive SamePlace (functions functions' : List FunctionCode) (start start' length : Nat) :
    Nat → Nat → Prop where
  | prologue (some : functions ≠ []) : SamePlace functions functions' start start' length 0 0
  | function {f f' : FunctionCode} (hf : f ∈ functions) (hf' : f' ∈ functions')
      (same : f.declaration = f'.declaration) {k : Nat} (inside : k < f.code.length) :
      SamePlace functions functions' start start' length (f.entry + k) (f'.entry + k)
  | main {k : Nat} (inside : k ≤ length) :
      SamePlace functions functions' start start' length (start + k) (start' + k)

variable {R : Nat → Nat → Prop}

/-- Linked, an instruction and the same one elsewhere correspond. -/
theorem OpenInstruction.Moved.counterpart {o o' : OpenInstruction} (h : o.Moved d o') {lo hi : Nat}
    (emittable : Emittable builtins lo hi o) {entries entries' : NameTable Nat}
    {i i' : Instruction} (linked : o.linked? entries = some i)
    (linked' : o'.linked? entries' = some i')
    (jumps : ∀ a a' : Nat, lo ≤ a → a ≤ hi → (a' : Int) = a + d → R a a')
    (calls : ∀ callee entry entry', entries.find? callee = some entry →
      entries'.find? callee = some entry' → R entry entry') : i.Counterpart R i' := by
  cases h with
  | jump move =>
      cases linked
      cases linked'
      cases emittable with
      | jump low high => exact .branch rfl (jumps _ _ low high move)
  | jumpIf move =>
      cases linked
      cases linked'
      cases emittable with
      | jumpIf low high => exact .branch rfl (jumps _ _ low high move)
  | same none =>
      cases emittable with
      | jump => cases none
      | jumpIf => cases none
      | call =>
          -- a call does not move with the code around it, but with its callee
          obtain ⟨entry, found, rfl⟩ := Option.map_eq_some_iff.1 linked
          obtain ⟨entry', found', rfl⟩ := Option.map_eq_some_iff.1 linked'
          exact .branch rfl (calls _ entry entry' found found')
      | @operation op operation =>
          cases linked
          cases linked'
          refine .same ?_
          cases op <;> simp_all [Instruction.plain, Opcode.isBranch]
      | _ =>
          cases linked
          cases linked'
          exact .same rfl

/-- Code that is placed in one program and has moved to where it is in another one. -/
theorem Placed.counterpart {base base' hi : Nat} {code code' : OpenCode}
    (placed : Placed b base code) (placed' : Placed b' base' code')
    (moved : OpenCode.Moved ((base' : Int) - base) code code')
    (within : CodeWithin builtins base hi code)
    (jumps : ∀ k, base + k ≤ hi → R (base + k) (base' + k))
    (calls : ∀ callee entry entry', b.functions.find? callee = some entry →
      b'.functions.find? callee = some entry' → R entry entry') {k : Nat}
    (inside : k < code.length) :
    ∃ i i', b.get? (base + k) = some i ∧ b'.get? (base' + k) = some i' ∧ i.Counterpart R i' := by
  have found := List.getElem?_eq_getElem inside
  obtain ⟨o', found', same⟩ := moved.getElem? found
  obtain ⟨i, linked, fetch⟩ := placed k _ found
  obtain ⟨i', linked', fetch'⟩ := placed' k o' found'
  refine ⟨i, i', fetch, fetch', same.counterpart (within _ (List.getElem_mem inside)) linked linked'
    (fun a a' low high move => ?_) calls⟩
  obtain ⟨j, rfl⟩ := Nat.exists_eq_add_of_le low
  obtain rfl : a' = base' + j := by omega
  exact jumps j high

namespace Assembly

/-- Calls of the same function go to the same place. -/
theorem samePlace_entry (h : Assembly builtins p b functions start main)
    (h' : Assembly builtins q b' functions' start' main')
    (declared : ∀ f ∈ q.declarations, f ∈ p.declarations) {callee : String} {entry entry' : Nat}
    (found : b.functions.find? callee = some entry)
    (found' : b'.functions.find? callee = some entry') :
    SamePlace functions functions' start start' main.length entry entry' := by
  obtain ⟨f, hf, name, rfl⟩ := h.find?_entry.1 found
  obtain ⟨f', hf', name', rfl⟩ := h'.find?_entry.1 found'
  obtain ⟨g, hg, same⟩ := h.exists_function (declared _ (h'.declared hf'))
  have entry : g.entry = f.entry := h.eq_of_name_eq hg hf (by rw [same, name', name])
  have nonempty : g.entry < g.entry + g.code.length := (h.function_sealed hg).nonempty
  rw [← entry]
  exact .function (k := 0) hg hf' same (by omega)

/-- The top-level code of both is the same up to its place. -/
theorem main_moved (h : Assembly builtins p b functions start main)
    (h' : Assembly builtins q b' functions' start' main') (body : q.body = p.body) :
    OpenCode.Moved ((start' : Int) - start) main main' := by
  obtain ⟨code', emitted, moved⟩ := emitAll_moved (d := (start' : Int) - start)
    h.mainEmitted start' (by omega)
  rw [← body, h'.mainEmitted, Except.ok.injEq] at emitted
  rw [emitted]
  exact moved

/-- Functions do the same work at the same places. -/
theorem sameWork_function (h : Assembly builtins p b functions start main)
    (h' : Assembly builtins q b' functions' start' main')
    (declared : ∀ f ∈ q.declarations, f ∈ p.declarations) {f f' : FunctionCode}
    (hf : f ∈ functions) (hf' : f' ∈ functions') (same : f.declaration = f'.declaration) {k : Nat}
    (inside : k < f.code.length) :
    b.SameWork (SamePlace functions functions' start start' main.length) b'
      (f.entry + k) (f'.entry + k) := by
  have moved := FunctionCode.moved same (h.emitted f hf) (h'.emitted f' hf')
  obtain ⟨-, within, -⟩ := emitFunction_sealed (h.emitted f hf)
  obtain ⟨i, i', fetch, fetch', corresponds⟩ := (h.placed f hf).counterpart (h'.placed f' hf')
    moved within (fun j low => SamePlace.function hf hf' same (by omega))
    (fun _ _ _ found found' => h.samePlace_entry h' declared found found') inside
  refine ⟨i, i', fetch, fetch', corresponds, kinds_of_check h.check fetch, fun onward => ?_⟩
  have here : f.entry + k ∈ f.region := ⟨Nat.le_add_right _ k, Nat.add_lt_add_left inside _⟩
  rcases (h.function_sealed hf).fetch here with ⟨⟨-, next⟩, -⟩ | ⟨-, last⟩
  · exact .function (k := k + 1) hf hf' same (Nat.lt_of_add_lt_add_left next)
  · -- the last instruction is a return, behind which control does not go on
    rw [fetch, Option.some.injEq] at last
    subst last
    exact absurd onward (by decide)

/-- So does the top-level code. -/
theorem sameWork_main (h : Assembly builtins p b functions start main)
    (h' : Assembly builtins q b' functions' start' main')
    (declared : ∀ f ∈ q.declarations, f ∈ p.declarations) (body : q.body = p.body) {k : Nat}
    (inside : k ≤ main.length) :
    b.SameWork (SamePlace functions functions' start start' main.length) b'
      (start + k) (start' + k) := by
  have moved := h.main_moved h' body
  have placed := placed_append.1 h.mainPlaced
  have placed' := placed_append.1 h'.mainPlaced
  rcases Nat.lt_or_eq_of_le inside with inner | rfl
  · obtain ⟨i, i', fetch, fetch', corresponds⟩ := placed.1.counterpart placed'.1 moved
      (emitAll_within h.mainEmitted) (fun j low => SamePlace.main (by omega))
      (fun _ _ _ found found' => h.samePlace_entry h' declared found found') inner
    exact ⟨i, i', fetch, fetch', corresponds, kinds_of_check h.check fetch,
      fun _ => .main (k := k + 1) inner⟩
  · have halt := (placed_plain_cons.1 placed.2).1
    have halt' := (placed_plain_cons.1 placed'.2).1
    rw [← moved.length_eq] at halt'
    exact ⟨_, _, halt, halt', .same rfl, rfl, fun onward => absurd onward (by decide)⟩

/-- Two assemblies of the same functions and top-level statements do the same work place by
    place. -/
theorem relocation (h : Assembly builtins p b functions start main)
    (h' : Assembly builtins q b' functions' start' main')
    (perm : q.declarations.Perm p.declarations) (body : q.body = p.body) :
    Relocation b b' (SamePlace functions functions' start start' main.length) := by
  have declared (f : Declaration) (mem : f ∈ q.declarations) : f ∈ p.declarations :=
    perm.mem_iff.1 mem
  have size : functions'.length = functions.length := by
    rw [← List.length_map FunctionCode.declaration, h'.declarations, perm.length_eq,
      ← h.declarations, List.length_map]
  -- either none of the two programs starts with a jump over functions, or both do
  rcases h.prologue with ⟨rfl, rfl⟩ | ⟨some, jump, -⟩
  · obtain rfl := List.length_eq_zero_iff.1 size
    rcases h'.prologue with ⟨-, rfl⟩ | ⟨some, -, -⟩
    · refine ⟨.main (k := 0) (Nat.zero_le _), fun place => ?_⟩
      cases place with
      | prologue some => exact absurd rfl some
      | function hf => cases hf
      | main inside => exact h.sameWork_main h' declared body inside
    · exact absurd rfl some
  · rcases h'.prologue with ⟨rfl, -⟩ | ⟨-, jump', -⟩
    · exact absurd (List.length_eq_zero_iff.1 size.symm) some
    refine ⟨.prologue some, fun place => ?_⟩
    cases place with
    | prologue =>
        exact ⟨_, _, jump, jump', .branch rfl (.main (k := 0) (Nat.zero_le _)), rfl,
          fun onward => absurd List.mem_cons_self onward⟩
    | function hf hf' same inside => exact h.sameWork_function h' declared hf hf' same inside
    | main inside => exact h.sameWork_main h' declared body inside

end Assembly

end

/-- The order of declarations does not matter. A program with the declarations of an accepted one in
    any order, anywhere among the same other statements, is accepted as well; and with the same host
    and bounds their runs are both unfinished after any number of steps, or both end in the same
    way. -/
theorem declaration_order_is_irrelevant {p q : Program} {b : Bytecode}
    (h : compile builtins p = .ok b) (perm : q.declarations.Perm p.declarations)
    (body : q.body = p.body) :
    ∃ b', compile builtins q = .ok b' ∧ ∀ {σ : Type} (host : Builtins σ) (limits : Limits)
      (fuel : Nat), Option.Rel SameEnd ((Machine.start b host limits).run fuel)
        ((Machine.start b' host limits).run fuel) := by
  obtain ⟨b', h'⟩ := compile_reordered h perm body
  obtain ⟨functions, start, main, assembly⟩ := compile_assembly h
  obtain ⟨functions', start', main', assembly'⟩ := compile_assembly h'
  -- both are assemblies of the same functions, so one relocates the other
  have relocation := assembly.relocation assembly' perm body
  exact ⟨b', h', fun host limits fuel => relocation.run host limits fuel⟩

/-- Whether three is even comes out the same if the two functions trade places. -/
theorem declaration_order_is_irrelevant_parity :
    ∃ b', compile ["print"] ⟨Program.parity.statements.reverse⟩ = .ok b' ∧
      ∃ m m', (Machine.start .parity Builtins.printer .unbounded).run 46 = some m ∧
        (Machine.start b' Builtins.printer .unbounded).run 46 = some m' ∧ SameEnd m m' := by
  have perm : (Program.mk Program.parity.statements.reverse).declarations.Perm
      Program.parity.declarations := .swap _ _ _
  obtain ⟨b', accepted, runs⟩ := declaration_order_is_irrelevant compile_parity perm rfl
  refine ⟨b', accepted, ?_⟩
  have same := runs Builtins.printer .unbounded 46
  have ends : ((Machine.start .parity Builtins.printer .unbounded).run 46).isSome = true := by
    decide +kernel
  generalize (Machine.start .parity Builtins.printer .unbounded).run 46 = run at same ends ⊢
  generalize (Machine.start b' Builtins.printer .unbounded).run 46 = run' at same ⊢
  cases same with
  | none => cases ends
  | some same => exact ⟨_, _, rfl, rfl, same⟩

end ImpStack
