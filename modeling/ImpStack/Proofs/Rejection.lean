/-
Module: ImpStack.Proofs.Rejection
Purpose: Which programs are rejected, and why. The faults of a program are read off its source, in
  the order in which its parts are compiled; a program without a fault is accepted, and any other
  one is rejected with its first fault.
Main exports: StopsAt, Node.nested, Declaration.faults, Program.faults, Program.WellFormed,
  compile_stops, first_fault_decides
-/
import ImpStack.Proofs.Discipline
import ImpStack.Proofs.Region

namespace ImpStack

variable {ε α β : Type}

/-! ### Checks in sequence

A check comes with the list of its faults in the order in which it would find them. Checks in
sequence have their lists one after the other, so the first fault of all is the one that is
reported. -/

/-- A check that stops at the first of some faults, which are listed in the order in which it comes
    across them, and succeeds if there are none. -/
def StopsAt (faults : List ε) (x : Except ε α) : Prop :=
  match faults with
  | [] => ∃ a, x = .ok a
  | e :: _ => x = .error e

namespace StopsAt

variable {faults faults' : List ε} {x : Except ε α}

theorem ok (a : α) : StopsAt ([] : List ε) (.ok a) := ⟨a, rfl⟩

theorem error (e : ε) (faults : List ε) : StopsAt (e :: faults) (.error e : Except ε α) := rfl

/-- What is checked next matters only if nothing was found before. -/
theorem bind {f : α → Except ε β} (h : StopsAt faults x)
    (next : ∀ a, x = .ok a → StopsAt faults' (f a)) : StopsAt (faults ++ faults') (x >>= f) := by
  cases faults with
  | nil =>
      obtain ⟨a, rfl⟩ := h
      exact next a rfl
  | cons e faults =>
      obtain rfl : x = .error e := h
      rfl

theorem map {f : α → β} (h : StopsAt faults x) : StopsAt faults (x >>= fun a => .ok (f a)) := by
  rw [← List.append_nil faults]
  exact h.bind fun a _ => .ok (f a)

/-- A check succeeds if there is no fault. -/
theorem ok_iff (h : StopsAt faults x) : (∃ a, x = .ok a) ↔ faults = [] := by
  cases faults with
  | nil => exact iff_of_true h rfl
  | cons e faults =>
      obtain rfl : x = .error e := h
      simp

/-- A check fails with a fault if it is the first one. -/
theorem error_iff (h : StopsAt faults x) (e : ε) : x = .error e ↔ faults.head? = some e := by
  cases faults with
  | nil =>
      obtain ⟨a, rfl⟩ := h
      simp
  | cons e' faults =>
      obtain rfl : x = .error e' := h
      simp

end StopsAt

/-! ### Nested declarations

The only thing that can be wrong in a node is a declaration, as calls are looked up at the end. They
are listed in the order of the code. -/

mutual

/-- The names of the functions that are declared in a node, in the order in which its parts are
    compiled. -/
def Node.nested : Node → List String
  | .literal _ | .ident _ => []
  | .binary _ left right => left.nested ++ right.nested
  | .unary _ operand => operand.nested
  | .call _ args => Node.nestedAll args
  | .assign _ value => value.nested
  | .block children => Node.nestedAll children
  | .ifThen condition thenBranch => condition.nested ++ thenBranch.nested
  | .ifElse condition thenBranch elseBranch =>
    condition.nested ++ (thenBranch.nested ++ elseBranch.nested)
  | .whileLoop condition body => condition.nested ++ body.nested
  | .doWhile body condition => body.nested ++ condition.nested
  | .forRange _ start stop body => start.nested ++ (stop.nested ++ body.nested)
  | .function name _ body => name :: body.nested
  | .ret value => value.nested

/-- The names of the functions that are declared in a sequence of nodes. -/
def Node.nestedAll : List Node → List String
  | [] => []
  | node :: rest => node.nested ++ Node.nestedAll rest

end

variable {builtins : List String} {scope : Scope}

/-- The faults of declarations where none may stand. -/
def nestedFaults (outer : Option String) (names : List String) : List CompileError :=
  names.map (.nestedFunction · outer)

theorem nestedFaults_append (outer : Option String) (names names' : List String) :
    nestedFaults outer (names ++ names') =
      nestedFaults outer names ++ nestedFaults outer names' := List.map_append

mutual

/-- The code of a node is refused because of the first declaration in it. -/
theorem emit_stops (scope : Scope) : ∀ (node : Node) (base : Nat),
    StopsAt (nestedFaults scope.enclosing node.nested) (emit scope base node)
  | .literal value, base => .ok _
  | .ident name, base => .ok _
  | .assign name value, base => (emit_stops scope value base).map
  | .binary op left right, base => by
      rw [Node.nested, nestedFaults_append]
      exact (emit_stops scope left base).bind fun leftCode _ => (emit_stops scope right _).map
  | .unary op operand, base => (emit_stops scope operand base).map
  | .call callee args, base => (emitAll_stops scope args base).map
  | .ret value, base => (emit_stops scope value base).map
  | .block children, base => emitAll_stops scope children base
  | .ifThen condition thenBranch, base => by
      rw [Node.nested, nestedFaults_append]
      exact (emit_stops scope condition base).bind fun _ _ => (emit_stops scope thenBranch _).map
  | .ifElse condition thenBranch elseBranch, base => by
      rw [Node.nested, nestedFaults_append, nestedFaults_append]
      exact (emit_stops scope condition base).bind fun _ _ =>
        (emit_stops scope thenBranch _).bind fun _ _ => (emit_stops scope elseBranch _).map
  | .whileLoop condition body, base => by
      rw [Node.nested, nestedFaults_append]
      exact (emit_stops scope condition base).bind fun _ _ => (emit_stops scope body _).map
  | .doWhile body condition, base => by
      rw [Node.nested, nestedFaults_append]
      exact (emit_stops scope body base).bind fun _ _ => (emit_stops scope condition _).map
  | .forRange var start stop body, base => by
      rw [Node.nested, nestedFaults_append, nestedFaults_append]
      exact (emit_stops scope start base).bind fun _ _ =>
        (emit_stops scope stop _).bind fun _ _ => (emit_stops scope body _).map
  | .function name params body, base => .error _ _

/-- The same of a sequence of nodes. -/
theorem emitAll_stops (scope : Scope) : ∀ (nodes : List Node) (base : Nat),
    StopsAt (nestedFaults scope.enclosing (Node.nestedAll nodes)) (emitAll scope base nodes)
  | [], base => .ok _
  | node :: rest, base => by
      rw [Node.nestedAll, nestedFaults_append]
      exact (emit_stops scope node base).bind fun _ _ => (emitAll_stops scope rest _).map

end

/-! ### Declarations

A declaration is looked at with the names of those before it. Its head comes first: its name, and
then its parameters; its body comes after. -/

/-- The elements of a list that are equal to an earlier one, or to one of those in `seen`. -/
def repeats (seen : List String) : List String → List String
  | [] => []
  | name :: rest =>
    if name ∈ seen then name :: repeats (name :: seen) rest else repeats (name :: seen) rest

/-- The first repetition in the list is the one that is searched for. -/
theorem head?_repeats (names : List String) : ∀ seen : List String,
    (repeats seen names).head? = firstRepeated? seen names := by
  induction names with
  | nil => exact fun _ => rfl
  | cons name rest ih =>
      intro seen
      by_cases earlier : name ∈ seen
      · simp [repeats, firstRepeated?, earlier]
      · simp [repeats, firstRepeated?, earlier, ih]

/-- There is no repetition if all names differ, also from those before. -/
theorem repeats_eq_nil_iff {names : List String} : ∀ {seen : List String},
    repeats seen names = [] ↔ names.Nodup ∧ ∀ name ∈ names, name ∉ seen := by
  induction names with
  | nil => simp [repeats]
  | cons name rest ih =>
      intro seen
      by_cases earlier : name ∈ seen
      · simp [repeats, earlier]
      · simp only [repeats, earlier, if_false, ih, List.nodup_cons, List.mem_cons]
        grind

/-- The faults in the head of a declaration behind those of the names `earlier`. -/
def Declaration.headFaults (builtins earlier : List String) (d : Declaration) :
    List CompileError :=
  (if d.name ∈ earlier then [.duplicateFunction d.name] else []) ++
    (if d.name ∈ builtins then [.shadowsBuiltin d.name] else []) ++
    (repeats [] d.params).map (.duplicateParameter d.name)

/-- The faults of a declaration behind those of the names `earlier`: a declaration within its body
    is found after those in its head. -/
def Declaration.faults (builtins earlier : List String) (d : Declaration) : List CompileError :=
  d.headFaults builtins earlier ++ nestedFaults (some d.name) d.body.nested

/-- The faults of declarations one after the other, behind those of the names `earlier`. -/
def declarationFaults (builtins : List String) :
    List String → List Declaration → List CompileError
  | _, [] => []
  | earlier, d :: rest =>
    d.faults builtins earlier ++ declarationFaults builtins (d.name :: earlier) rest

/-- The names in a table are those of the declarations so far. -/
def NameTable.Lists (declared : NameTable Nat) (names : List String) : Prop :=
  ∀ name, declared.contains name = true ↔ name ∈ names

/-- The head of a declaration is checked for its name first and for its parameters after that. -/
theorem checkDeclaration_stops {declared : NameTable Nat} {earlier : List String}
    (lists : declared.Lists earlier) (d : Declaration) :
    StopsAt (d.headFaults builtins earlier) (checkDeclaration builtins declared d) := by
  rw [checkDeclaration, ← head?_repeats, Declaration.headFaults]
  by_cases repeated : d.name ∈ earlier
  · simp [StopsAt, (lists d.name).2 repeated, repeated]
  have fresh : declared.contains d.name = false := by
    rw [Bool.eq_false_iff]
    exact fun listed => repeated ((lists d.name).1 listed)
  by_cases shadows : d.name ∈ builtins
  · simp [StopsAt, fresh, repeated, shadows]
  · cases params : repeats [] d.params with
    | nil => simp [StopsAt, fresh, repeated, shadows]
    | cons param rest => simp [StopsAt, fresh, repeated, shadows]

/-- Behind its head, only declarations in its body can be wrong with a function. -/
theorem emitFunction_stops (builtins : List String) (base : Nat) (d : Declaration) :
    StopsAt (nestedFaults (some d.name) d.body.nested) (emitFunction builtins base d) :=
  (emit_stops ⟨builtins, some d.name⟩ d.body _).map

theorem emitFunctions_stops (builtins : List String) (ds : List Declaration) :
    ∀ (base : Nat) (declared : NameTable Nat) (earlier : List String), declared.Lists earlier →
      StopsAt (declarationFaults builtins earlier ds)
        (emitFunctions builtins base declared ds) := by
  induction ds with
  | nil => exact fun _ _ _ _ => .ok _
  | cons d rest ih =>
      intro base declared earlier lists
      rw [declarationFaults, Declaration.faults, List.append_assoc, emitFunctions]
      refine (checkDeclaration_stops lists d).bind fun _ _ => ?_
      refine (emitFunction_stops builtins base d).bind fun code _ => ?_
      refine StopsAt.map (ih _ _ (d.name :: earlier) fun name => ?_)
      rw [NameTable.contains_insert, List.mem_cons, lists name]

/-- The jump over the functions adds no fault. -/
theorem emitDeclarations_stops (builtins : List String) (ds : List Declaration) :
    StopsAt (declarationFaults builtins [] ds) (emitDeclarations builtins ds) := by
  cases ds with
  | nil => exact .ok _
  | cons d rest =>
      refine StopsAt.map (emitFunctions_stops builtins (d :: rest) 1 _ [] fun name => ?_)
      exact iff_of_false Bool.false_ne_true List.not_mem_nil

/-- Declarations are without fault if their names are new, different from one another and not those
    of host functions, their parameters are different from one another, and no declaration stands in
    their bodies. -/
theorem declarationFaults_eq_nil_iff {ds : List Declaration} : ∀ {earlier : List String},
    declarationFaults builtins earlier ds = [] ↔
      (ds.map (·.name)).Nodup ∧ (∀ d ∈ ds, d.name ∉ earlier) ∧
        ∀ d ∈ ds, d.name ∉ builtins ∧ d.params.Nodup ∧ d.body.nested = [] := by
  induction ds with
  | nil => simp [declarationFaults]
  | cons d rest ih =>
      intro earlier
      have head : d.faults builtins earlier = [] ↔
          d.name ∉ earlier ∧ d.name ∉ builtins ∧ d.params.Nodup ∧ d.body.nested = [] := by
        simp [Declaration.faults, Declaration.headFaults, nestedFaults, repeats_eq_nil_iff]
      rw [declarationFaults, List.append_eq_nil_iff, head, ih]
      simp only [List.map_cons, List.nodup_cons, List.mem_map, List.mem_cons]
      grind

/-! ### Unknown functions

Callees are looked up when the whole program has been emitted, in the order of the calls in the
code. Which of them are unknown is read off the call sites. -/

/-- The callees that are neither host functions nor declared, of calls in their order. -/
def unknownCallees (builtins declared : List String) (sites : List CallSite) : List String :=
  (sites.map (·.callee)).filter fun callee => callee ∉ builtins ∧ callee ∉ declared

theorem unknownCallees_append (declared : List String) (sites sites' : List CallSite) :
    unknownCallees builtins declared (sites ++ sites') =
      unknownCallees builtins declared sites ++ unknownCallees builtins declared sites' := by
  rw [unknownCallees, List.map_append, List.filter_append]
  rfl

/-- The callee of an open call without an entry. -/
def OpenInstruction.unlinked? (entries : NameTable Nat) : OpenInstruction → Option String
  | .settled _ => none
  | .call callee => if callee ∈ entries.names then none else some callee

/-- The callees of open calls without an entry. -/
def OpenCode.unlinked (entries : NameTable Nat) (code : OpenCode) : List String :=
  code.filterMap (·.unlinked? entries)

theorem OpenCode.unlinked_append (entries : NameTable Nat) (code code' : OpenCode) :
    OpenCode.unlinked entries (code ++ code') =
      OpenCode.unlinked entries code ++ OpenCode.unlinked entries code' := List.filterMap_append

/-- Open calls are found among the calls of a sequence. -/
theorem OpenCode.unlinked_calls (entries : NameTable Nat) (code : OpenCode) :
    OpenCode.unlinked entries code.calls = OpenCode.unlinked entries code := by
  rw [OpenCode.unlinked, OpenCode.calls, List.filterMap_filter]
  refine congrArg (List.filterMap · code) (funext fun o => ?_)
  cases o with
  | settled i => cases OpenInstruction.isCall (.settled i) <;> rfl
  | call callee => rfl

/-- The calls that stay open in a scope are those of unknown functions. -/
theorem unlinked_codeOfCalls (scope : Scope) (entries : NameTable Nat) (sites : List CallSite) :
    OpenCode.unlinked entries (scope.codeOfCalls sites) =
      unknownCallees scope.builtins entries.names sites := by
  induction sites with
  | nil => rfl
  | cons site rest ih =>
      have single : OpenCode.unlinked entries (scope.codeOfCalls [site]) =
          unknownCallees scope.builtins entries.names [site] := by
        rw [Scope.codeOfCalls, List.flatMap_singleton, Scope.callCode]
        by_cases hosted : site.callee ∈ scope.builtins
        · simp [OpenCode.unlinked, OpenInstruction.unlinked?, unknownCallees, hosted]
        · by_cases declared : site.callee ∈ entries.names <;>
            simp [OpenCode.unlinked, OpenInstruction.unlinked?, unknownCallees, hosted, declared]
      rw [← List.singleton_append, Scope.codeOfCalls_append, OpenCode.unlinked_append, ih, single,
        unknownCallees_append]

/-- The calls in the code of nodes that have no entry are their unknown callees. -/
theorem emitAll_unlinked {base : Nat} {nodes : List Node} {code : OpenCode}
    (emitted : emitAll scope base nodes = .ok code) (entries : NameTable Nat) :
    OpenCode.unlinked entries code =
      unknownCallees scope.builtins entries.names (Node.callsAll nodes) := by
  rw [← OpenCode.unlinked_calls, emitAll_calls emitted, unlinked_codeOfCalls]

theorem emitFunctions_unlinked {fs : List FunctionCode}
    (emitted : ∀ f ∈ fs, emitFunction builtins f.entry f.declaration = .ok f.code)
    (entries : NameTable Nat) :
    OpenCode.unlinked entries (fs.flatMap (·.code)) =
      unknownCallees builtins entries.names
        ((fs.map (·.declaration)).flatMap (·.body.calls)) := by
  induction fs with
  | nil => rfl
  | cons f rest ih =>
      have calls := (emitFunction_sealed (emitted f List.mem_cons_self)).2.2
      rw [List.flatMap_cons, OpenCode.unlinked_append, ← OpenCode.unlinked_calls entries f.code,
        calls, unlinked_codeOfCalls, ih fun g mem => emitted g (List.mem_cons_of_mem f mem),
        List.map_cons, List.flatMap_cons, unknownCallees_append]

/-- The table of entries lists the declared functions, and the open calls without an entry are those
    of unknown functions. -/
theorem emitDeclarations_unlinked {ds : List Declaration} {code : OpenCode}
    {entries : NameTable Nat} (emitted : emitDeclarations builtins ds = .ok (code, entries)) :
    entries.names = ds.map (·.name) ∧
      OpenCode.unlinked entries code =
        unknownCallees builtins entries.names (ds.flatMap (·.body.calls)) := by
  obtain ⟨fs, rfl, listed, functions, shape⟩ := emitDeclarations_ok emitted
  refine ⟨by rw [NameTable.names, listed, List.map_map, List.map_map]; rfl, ?_⟩
  rcases shape with ⟨rfl, rfl⟩ | ⟨_, _, code_eq⟩
  · rfl
  · rw [← emitFunctions_unlinked (fun f mem => (functions f mem).1) entries, code_eq]
    rfl

/-- The faults of calls of unknown functions; each lists the host functions. -/
def unknownFaults (builtins : List String) (callees : List String) : List CompileError :=
  callees.map (.unknownFunction · (Text.orderedNames builtins))

/-- Linking stops at the first call that has no entry. -/
theorem link_stops (builtins : List String) (entries : NameTable Nat) : ∀ code : OpenCode,
    StopsAt (unknownFaults builtins (OpenCode.unlinked entries code)) (link builtins entries code)
  | [] => .ok _
  | .settled i :: rest => (link_stops builtins entries rest).map
  | .call callee :: rest => by
      rw [link, OpenInstruction.link]
      cases found : entries.find? callee with
      | some entry =>
          have listed : callee ∈ entries.names := by
            rw [← NameTable.contains_iff, NameTable.contains, found]
            rfl
          have skipped : OpenCode.unlinked entries (.call callee :: rest) =
              OpenCode.unlinked entries rest := by
            simp [OpenCode.unlinked, OpenInstruction.unlinked?, listed]
          rw [skipped]
          exact (link_stops builtins entries rest).map
      | none =>
          have missing : callee ∉ entries.names := by
            rw [← NameTable.contains_iff, NameTable.contains, found]
            exact Bool.false_ne_true
          have first : OpenCode.unlinked entries (.call callee :: rest) =
              callee :: OpenCode.unlinked entries rest := by
            simp [OpenCode.unlinked, OpenInstruction.unlinked?, missing]
          rw [first]
          exact .error _ _

/-! ### Programs

The three lists in a row are the faults of a program. That there is none is then said without an
order, as one condition on the source. -/

namespace Program

/-- The calls of a program, in the order in which their code is emitted. -/
def calls (p : Program) : List CallSite :=
  p.declarations.flatMap (·.body.calls) ++ Node.callsAll p.body

/-- The faults of a program, in the order in which its parts are compiled: those of its declarations
    one after the other, the declarations within its other statements, and the calls of unknown
    functions. -/
def faults (builtins : List String) (p : Program) : List CompileError :=
  declarationFaults builtins [] p.declarations ++
    (nestedFaults none (Node.nestedAll p.body) ++
      unknownFaults builtins (unknownCallees builtins (p.declarations.map (·.name)) p.calls))

/-- What a program has to fulfil to be compiled. -/
structure WellFormed (builtins : List String) (p : Program) : Prop where
  /-- No two functions have the same name. -/
  distinct : (p.declarations.map (·.name)).Nodup
  /-- No function has the name of a host function. -/
  unshadowed : ∀ d ∈ p.declarations, d.name ∉ builtins
  /-- No function has two parameters of the same name. -/
  params : ∀ d ∈ p.declarations, d.params.Nodup
  /-- No function is declared below the top level. -/
  flat : ∀ s ∈ p.statements, ∀ child ∈ s.children, ∀ part ∈ child.parts, part.declaration? = none
  /-- Every call goes to a function of the host or of the program. -/
  known : ∀ s ∈ p.statements, ∀ site ∈ s.calls,
    site.callee ∈ builtins ∨ site.callee ∈ p.declarations.map (·.name)

end Program

variable {p : Program}

/-- Compilation stops at the first fault of the program. -/
theorem compile_stops (builtins : List String) (p : Program) :
    StopsAt (p.faults builtins) (compile builtins p) := by
  refine (emitDeclarations_stops builtins p.declarations).bind fun ⟨functions, entries⟩ hf => ?_
  refine (emitAll_stops ⟨builtins, none⟩ p.body functions.length).bind fun main hm => ?_
  obtain ⟨names, open_functions⟩ := emitDeclarations_unlinked hf
  have unlinked : OpenCode.unlinked entries (functions ++ main ++ [.plain .halt]) =
      unknownCallees builtins (p.declarations.map (·.name)) p.calls := by
    rw [OpenCode.unlinked_append, OpenCode.unlinked_append, open_functions, emitAll_unlinked hm,
      ← names, Program.calls, unknownCallees_append]
    exact List.append_nil _
  rw [← unlinked]
  exact (link_stops builtins entries _).map

namespace Node

theorem nestedAll_eq (nodes : List Node) : nestedAll nodes = nodes.flatMap nested := by
  induction nodes with
  | nil => rfl
  | cons node rest ih => rw [nestedAll, ih, List.flatMap_cons]

/-- No function is declared in a node if none of its parts is a declaration. -/
theorem nested_eq_nil_iff (node : Node) :
    node.nested = [] ↔ ∀ part ∈ node.parts, part.declaration? = none := by
  induction node using induction_on_children with
  | step node ih =>
      have here : node.nested = [] ↔
          node.declaration? = none ∧ ∀ child ∈ node.children, child.nested = [] := by
        cases node <;>
          simp [nested, nestedAll_eq, declaration?, children, operands, bodies, and_comm]
      rw [here, parts_eq, List.forall_mem_cons, List.forall_mem_flatMap]
      exact and_congr_right fun _ => forall₂_congr ih

end Node

namespace Program

/-- The top-level statements are the declarations and the statements of the body. -/
theorem forall_statements {P : Node → Prop} :
    (∀ s ∈ p.statements, P s) ↔
      (∀ d ∈ p.declarations, P (.function d.name d.params d.body)) ∧ ∀ s ∈ p.body, P s := by
  constructor
  · exact fun all => ⟨fun d mem => all _ (statement_of_declaration mem),
      fun s mem => all s (List.mem_filter.1 mem).1⟩
  · rintro ⟨declarations, body⟩ s statement
    cases declared : s.declaration? with
    | some d =>
        rw [Node.declaration?_eq_some_iff.1 declared]
        exact declarations d (List.mem_filterMap.2 ⟨s, statement, declared⟩)
    | none => exact body s (List.mem_filter.2 ⟨statement, by rw [declared]; rfl⟩)

/-- The bodies of the declarations and the other statements have no declarations in them if and only
    if none stands below the top level. -/
theorem flat_iff :
    (∀ s ∈ p.statements, ∀ child ∈ s.children, ∀ part ∈ child.parts, part.declaration? = none) ↔
      (∀ d ∈ p.declarations, d.body.nested = []) ∧ Node.nestedAll p.body = [] := by
  rw [forall_statements, Node.nestedAll_eq, List.flatMap_eq_nil_iff]
  refine and_congr (forall₂_congr fun d _ => ?_) (forall₂_congr fun s statement => ?_)
  · rw [Node.nested_eq_nil_iff]
    exact List.forall_mem_singleton
  · have undeclared : s.declaration? = none := by simpa using (List.mem_filter.1 statement).2
    rw [Node.nested_eq_nil_iff, Node.parts_eq, List.forall_mem_cons, List.forall_mem_flatMap]
    exact (and_iff_right undeclared).symm

/-- No call is one of an unknown function if and only if this holds of every statement. -/
theorem known_iff (declared : List String) :
    (∀ s ∈ p.statements, ∀ site ∈ s.calls, site.callee ∈ builtins ∨ site.callee ∈ declared) ↔
      unknownCallees builtins declared p.calls = [] := by
  have known : unknownCallees builtins declared p.calls = [] ↔
      ∀ site ∈ p.calls, site.callee ∈ builtins ∨ site.callee ∈ declared := by
    simp [unknownCallees, Decidable.or_iff_not_imp_left]
  rw [known, forall_statements, calls, List.forall_mem_append, List.forall_mem_flatMap,
    Node.callsAll_eq, List.forall_mem_flatMap]
  rfl

/-- The programs without a fault are the well-formed ones. -/
theorem faults_eq_nil_iff : p.faults builtins = [] ↔ p.WellFormed builtins := by
  rw [faults, List.append_eq_nil_iff, List.append_eq_nil_iff, declarationFaults_eq_nil_iff,
    nestedFaults, unknownFaults, List.map_eq_nil_iff, List.map_eq_nil_iff, ← known_iff]
  constructor
  · rintro ⟨⟨distinct, -, heads⟩, body, known⟩
    exact ⟨distinct, fun d mem => (heads d mem).1, fun d mem => (heads d mem).2.1,
      flat_iff.2 ⟨fun d mem => (heads d mem).2.2, body⟩, known⟩
  · rintro ⟨distinct, unshadowed, params, flat, known⟩
    obtain ⟨bodies, body⟩ := flat_iff.1 flat
    exact ⟨⟨distinct, fun _ _ => List.not_mem_nil, fun d mem =>
      ⟨unshadowed d mem, params d mem, bodies d mem⟩⟩, body, known⟩

end Program

/-- A program is compiled exactly if it is well formed. -/
theorem compiles_iff : (∃ b, compile builtins p = .ok b) ↔ p.WellFormed builtins :=
  (compile_stops builtins p).ok_iff.trans Program.faults_eq_nil_iff

/-- A program is compiled if and only if it is well-formed, and the error of any other one is the
    first of its faults in the order of compilation. -/
theorem first_fault_decides (builtins : List String) (p : Program) :
    ((∃ b, compile builtins p = .ok b) ↔ p.WellFormed builtins) ∧
      ∀ e, compile builtins p = .error e ↔ (p.faults builtins).head? = some e :=
  ⟨compiles_iff, (compile_stops builtins p).error_iff⟩

-- a call of an unknown function is found after a declaration behind it
example : compile [] ⟨[.call "g" [], .ret (.function "f" [] (.block []))]⟩ =
    .error (.nestedFunction "f" none) := rfl

end ImpStack
