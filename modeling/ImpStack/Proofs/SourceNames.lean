/-
Module: ImpStack.Proofs.SourceNames
Purpose: Where the names in a program's code come from. Every name that an instruction has as its
  operand, and every name in the table of functions, is written in the source.
Main exports: isIdentifier, Node.names, Program.names, CodeNames, emit_names,
  Assembly.names_instruction, Assembly.names_functions
-/
import ImpStack.Proofs.Region

namespace ImpStack

/-! ### Identifiers

Names in a source may be any texts; those that a listing can show without confusion are the ASCII
identifiers. -/

/-- Whether a text is a letter or an underscore with letters, digits and underscores behind it, all
    of them ASCII. -/
def isIdentifier (s : String) : Bool :=
  match s.toList with
  | [] => false
  | c :: rest => (c.isAlpha || c == '_') && rest.all fun d => d.isAlphanum || d == '_'

theorem not_isDigit_of_isAlpha {c : Char} (letter : c.isAlpha = true) : c.isDigit = false := by
  rw [Bool.eq_false_iff]
  intro digit
  have high : c.val ≤ '9'.val := of_decide_eq_true (Bool.and_eq_true_iff.1 digit).2
  rcases Bool.or_eq_true_iff.1 letter with upper | lower
  · have low : 'A'.val ≤ c.val := (of_decide_eq_true upper).1
    exact absurd (UInt32.le_trans low high) (by decide)
  · have low : 'a'.val ≤ c.val := of_decide_eq_true (Bool.and_eq_true_iff.1 lower).1
    exact absurd (UInt32.le_trans low high) (by decide)

/-- An identifier starts with no digit. -/
theorem first_identifier {s : String} (h : isIdentifier s = true) :
    ∃ c rest, s.toList = c :: rest ∧ c.isDigit = false ∧ c ≠ ' ' := by
  unfold isIdentifier at h
  split at h
  · cases h
  · rename_i c rest same
    rw [Bool.and_eq_true, Bool.or_eq_true, beq_iff_eq] at h
    refine ⟨c, rest, same, ?_⟩
    rcases h.1 with letter | rfl
    · refine ⟨not_isDigit_of_isAlpha letter, ?_⟩
      rintro rfl
      cases letter
    · decide

/-- Nothing but letters, digits and underscores is in an identifier. -/
theorem notMem_identifier {s : String} (h : isIdentifier s = true) {c : Char}
    (other : c.isAlphanum = false) (underscore : c ≠ '_') : c ∉ s.toList := by
  unfold isIdentifier at h
  split at h
  · cases h
  · rename_i d rest same
    simp only [Bool.and_eq_true, Bool.or_eq_true, beq_iff_eq, List.all_eq_true] at h
    have letter : c.isAlpha = false := (Bool.or_eq_false_iff.1 other).1
    rw [same, List.mem_cons, not_or]
    constructor
    · rintro rfl
      rcases h.1 with first | first
      · rw [letter] at first
        cases first
      · exact underscore first
    · intro mem
      rcases h.2 c mem with inner | inner
      · rw [other] at inner
        cases inner
      · exact underscore inner

/-! ### Names in the source

The names of a node are those of its variables, loops, parameters, functions and callees, in any
order of use. -/

mutual

/-- The names of variables, parameters and functions in a node. -/
def Node.names : Node → List String
  | .literal _ => []
  | .ident name => [name]
  | .binary _ left right => left.names ++ right.names
  | .unary _ operand => operand.names
  | .call callee args => callee :: Node.namesAll args
  | .assign name value => name :: value.names
  | .block children => Node.namesAll children
  | .ifThen condition thenBranch => condition.names ++ thenBranch.names
  | .ifElse condition thenBranch elseBranch =>
    condition.names ++ (thenBranch.names ++ elseBranch.names)
  | .whileLoop condition body => condition.names ++ body.names
  | .doWhile body condition => body.names ++ condition.names
  | .forRange var start stop body => var :: (start.names ++ (stop.names ++ body.names))
  | .function name params body => name :: (params ++ body.names)
  | .ret value => value.names

/-- The names in a sequence of nodes. -/
def Node.namesAll : List Node → List String
  | [] => []
  | node :: rest => node.names ++ Node.namesAll rest

end

/-- The names in a program. -/
def Program.names (p : Program) : List String := Node.namesAll p.statements

theorem Node.mem_namesAll {nodes : List Node} {s : String} :
    s ∈ Node.namesAll nodes ↔ ∃ node ∈ nodes, s ∈ node.names := by
  induction nodes with
  | nil => simp [Node.namesAll]
  | cons node nodes ih => simp [Node.namesAll, ih]

/-! ### Names in code

An instruction has a name as its operand only for a variable or a function of the host. By induction
on the node, all of them come from the node. -/

/-- The name that an instruction has as its first operand. -/
def Instruction.name? (i : Instruction) : Option String := i.operands.head?.bind Operand.name?

/-- The name that an instruction has before linking; an open call will have an address. -/
def OpenInstruction.name? : OpenInstruction → Option String
  | .settled i => i.name?
  | .call _ => none

/-- All names in code are among some names. -/
def CodeNames (names : List String) (code : OpenCode) : Prop :=
  ∀ o ∈ code, ∀ s ∈ o.name?, s ∈ names

variable {names : List String} {scope : Scope}

theorem CodeNames.mono {names' : List String} {code : OpenCode} (h : CodeNames names code)
    (more : names ⊆ names') : CodeNames names' code :=
  fun o ho s hs => more (h o ho s hs)

@[simp] theorem codeNames_nil : CodeNames names [] := by simp [CodeNames]

@[simp] theorem codeNames_cons {o : OpenInstruction} {code : OpenCode} :
    CodeNames names (o :: code) ↔ (∀ s ∈ o.name?, s ∈ names) ∧ CodeNames names code := by
  simp [CodeNames]

@[simp] theorem codeNames_append {code₁ code₂ : OpenCode} :
    CodeNames names (code₁ ++ code₂) ↔ CodeNames names code₁ ∧ CodeNames names code₂ := by
  simp [CodeNames, or_imp, forall_and]

@[simp] theorem name?_plain (op : Opcode) : (OpenInstruction.plain op).name? = none := rfl

@[simp] theorem name?_push (v : Value) : (OpenInstruction.settled (.push v)).name? = none := rfl

@[simp] theorem name?_load (name : String) :
    (OpenInstruction.settled (.load name)).name? = some name := rfl

@[simp] theorem name?_store (name : String) :
    (OpenInstruction.settled (.store name)).name? = some name := rfl

@[simp] theorem name?_jump (a : Nat) : (OpenInstruction.settled (.jump a)).name? = none := rfl

@[simp] theorem name?_jumpIf (a : Nat) : (OpenInstruction.settled (.jumpIf a)).name? = none := rfl

theorem codeNames_opcodes (ops : List Opcode) : CodeNames names (ops.map .plain) := by
  intro o ho
  obtain ⟨op, -, rfl⟩ := List.mem_map.1 ho
  exact nofun

theorem codeNames_unary (op : UnaryOp) : CodeNames names op.code := by
  cases op <;> simp [UnaryOp.code]

/-- A call has the name of its callee or none. -/
theorem codeNames_callCode {callee : String} (count : Nat) (mem : callee ∈ names) :
    CodeNames names (scope.callCode callee count) := by
  rw [Scope.callCode]
  split
  · refine codeNames_cons.2 ⟨?_, codeNames_nil⟩
    rintro _ ⟨⟩
    exact mem
  · simp [OpenInstruction.name?]

mutual

/-- The names in the code of a node are names in the node. -/
theorem emit_names : ∀ {node : Node} {base : Nat} {code : OpenCode},
    emit scope base node = .ok code → CodeNames node.names code
  | .literal value, base, code, h => by
      rw [← emit_literal_ok.1 h]
      simp
  | .ident name, base, code, h => by
      rw [← emit_ident_ok.1 h]
      simp [Node.names]
  | .assign name value, base, code, h => by
      obtain ⟨valueCode, hv, rfl⟩ := emit_assign_ok.1 h
      have value := emit_names hv
      simp only [codeNames_append, Node.names]
      exact ⟨value.mono (by simp), by simp⟩
  | .binary op left right, base, code, h => by
      obtain ⟨leftCode, hl, rightCode, hr, rfl⟩ := emit_binary_ok.1 h
      simp only [codeNames_append, Node.names]
      exact ⟨⟨(emit_names hl).mono (by simp), (emit_names hr).mono (by simp)⟩,
        codeNames_opcodes _⟩
  | .unary op operand, base, code, h => by
      obtain ⟨operandCode, ho, rfl⟩ := emit_unary_ok.1 h
      have operand := emit_names ho
      exact codeNames_append.2 ⟨operand, codeNames_unary op⟩
  | .call callee args, base, code, h => by
      obtain ⟨argsCode, ha, rfl⟩ := emit_call_ok.1 h
      exact codeNames_append.2 ⟨(emitAll_names ha).mono (by simp [Node.names]),
        codeNames_callCode _ (by simp [Node.names])⟩
  | .ret value, base, code, h => by
      obtain ⟨valueCode, hv, rfl⟩ := emit_ret_ok.1 h
      have value := emit_names hv
      exact codeNames_append.2 ⟨value, codeNames_opcodes [.ret]⟩
  | .block children, base, code, h => emitAll_names (emit_block_ok.1 h)
  | .ifThen condition thenBranch, base, code, h => by
      obtain ⟨conditionCode, hc, thenCode, ht, rfl⟩ := emit_ifThen_ok.1 h
      have condition := emit_names hc
      have thenBranch := emit_names ht
      simp only [codeNames_append, Node.names]
      exact ⟨⟨condition.mono (by simp), by simp⟩, thenBranch.mono (by simp)⟩
  | .ifElse condition thenBranch elseBranch, base, code, h => by
      obtain ⟨conditionCode, hc, thenCode, ht, elseCode, he, rfl⟩ := emit_ifElse_ok.1 h
      have condition := emit_names hc
      have thenBranch := emit_names ht
      have elseBranch := emit_names he
      simp only [codeNames_append, Node.names]
      exact ⟨⟨⟨⟨condition.mono (by simp), by simp⟩, thenBranch.mono (by simp)⟩, by simp⟩,
        elseBranch.mono (by simp)⟩
  | .whileLoop condition body, base, code, h => by
      obtain ⟨conditionCode, hc, bodyCode, hb, rfl⟩ := emit_whileLoop_ok.1 h
      have condition := emit_names hc
      have body := emit_names hb
      simp only [codeNames_append, Node.names]
      exact ⟨⟨⟨condition.mono (by simp), by simp⟩, body.mono (by simp)⟩, by simp⟩
  | .doWhile body condition, base, code, h => by
      obtain ⟨bodyCode, hb, conditionCode, hc, rfl⟩ := emit_doWhile_ok.1 h
      have body := emit_names hb
      have condition := emit_names hc
      simp only [codeNames_append, Node.names]
      exact ⟨⟨body.mono (by simp), condition.mono (by simp)⟩, by simp⟩
  | .forRange var start stop body, base, code, h => by
      obtain ⟨startCode, hs, stopCode, hp, bodyCode, hb, rfl⟩ := emit_forRange_ok.1 h
      have start := emit_names hs
      have stop := emit_names hp
      have body := emit_names hb
      simp only [codeNames_append, Node.names]
      exact ⟨⟨⟨⟨⟨start.mono fun s hs => by simp [hs], by simp⟩,
        stop.mono fun s hs => by simp [hs]⟩, by simp⟩, body.mono fun s hs => by simp [hs]⟩, by simp⟩
  | .function name params body, base, code, h => absurd h emit_function_error

/-- The same of a sequence of nodes. -/
theorem emitAll_names : ∀ {nodes : List Node} {base : Nat} {code : OpenCode},
    emitAll scope base nodes = .ok code → CodeNames (Node.namesAll nodes) code
  | [], base, code, h => by
      rw [← emitAll_nil_ok.1 h]
      exact codeNames_nil
  | node :: rest, base, code, h => by
      obtain ⟨nodeCode, hn, restCode, hr, rfl⟩ := emitAll_cons_ok.1 h
      have node := emit_names hn
      have rest := emitAll_names hr
      simp only [codeNames_append, Node.namesAll]
      exact ⟨node.mono (by simp), rest.mono (by simp)⟩

end

/-! ### Names in a program's code

Linking puts addresses for names and adds none, so what was said of open code is said of the
bytecode. -/

variable {builtins : List String} {p : Program} {b : Bytecode} {functions : List FunctionCode}
  {start : Nat} {main : OpenCode}

/-- Linking changes no name. -/
theorem name?_linked {entries : NameTable Nat} {o : OpenInstruction} {i : Instruction}
    (linked : o.linked? entries = some i) : i.name? = o.name? := by
  cases o with
  | settled j =>
      cases linked
      rfl
  | call callee =>
      obtain ⟨entry, -, rfl⟩ := Option.map_eq_some_iff.1 linked
      rfl

/-- The stores of a function have the names of its parameters. -/
theorem Declaration.codeNames_stores (d : Declaration) : CodeNames d.params d.stores := by
  intro o ho
  obtain ⟨param, mem, rfl⟩ := List.mem_map.1 ho
  rintro _ ⟨⟩
  exact List.mem_reverse.1 mem

/-- The names in the code of a function are its parameters and the names in its body. -/
theorem emitFunction_names {base : Nat} {d : Declaration} {code : OpenCode}
    (h : emitFunction builtins base d = .ok code) :
    CodeNames (d.params ++ d.body.names) code := by
  obtain ⟨body, hb, shape⟩ := emitFunction_ok h
  have whole : CodeNames (d.params ++ d.body.names) (d.stores ++ body) :=
    codeNames_append.2 ⟨d.codeNames_stores.mono (by simp), (emit_names hb).mono (by simp)⟩
  rcases shape with ⟨rfl, -⟩ | rfl
  · exact whole
  · exact codeNames_append.2 ⟨whole, codeNames_opcodes [.ret]⟩

/-- A declaration's names are names in the program. -/
theorem Program.names_declaration {d : Declaration} (h : d ∈ p.declarations) :
    d.name ∈ p.names ∧ d.params ++ d.body.names ⊆ p.names := by
  obtain ⟨node, mem, declares⟩ := List.mem_filterMap.1 h
  cases node with
  | function name params body =>
      cases declares
      have within : ∀ s ∈ (Node.function name params body).names, s ∈ p.names :=
        fun s hs => Node.mem_namesAll.2 ⟨_, mem, hs⟩
      exact ⟨within name (by simp [Node.names]), fun s hs => within s (List.mem_cons_of_mem _ hs)⟩
  | _ => cases declares

namespace Assembly

/-- Every name that an instruction has is written in the source. -/
theorem names_instruction (h : Assembly builtins p b functions start main) {a : Nat}
    {i : Instruction} (fetched : b.get? a = some i) : ∀ s ∈ i.name?, s ∈ p.names := by
  have inside : a < b.size := (Array.getElem?_eq_some_iff.1 fetched).1
  rcases h.cover inside with ⟨rfl, jump⟩ | ⟨f, hf, low, high⟩ | ha
  · rw [jump, Option.some.injEq] at fetched
    subst fetched
    exact nofun
  · obtain ⟨o, ho, j, linked, found⟩ := (h.placed f hf).fetch low high
    rw [fetched, Option.some.injEq] at found
    subst found
    have declared : f.declaration ∈ p.declarations := h.declarations ▸ List.mem_map_of_mem hf
    rw [name?_linked linked]
    intro s hs
    exact (Program.names_declaration declared).2 (emitFunction_names (h.emitted f hf) o ho s hs)
  · rcases h.main_origin ha fetched with rfl | ⟨o, ho, linked⟩
    · exact nofun
    · rw [name?_linked linked]
      intro s hs
      obtain ⟨node, mem, named⟩ := Node.mem_namesAll.1 (emitAll_names h.mainEmitted o ho s hs)
      exact Node.mem_namesAll.2 ⟨node, (List.mem_filter.1 mem).1, named⟩

/-- Every name in the table of functions is written in the source. -/
theorem names_functions (h : Assembly builtins p b functions start main) :
    ∀ e ∈ b.functions.entries, e.1 ∈ p.names := by
  intro e he
  rw [h.entries] at he
  obtain ⟨f, hf, rfl⟩ := List.mem_map.1 he
  have declared : f.declaration ∈ p.declarations := h.declarations ▸ List.mem_map_of_mem hf
  exact (Program.names_declaration declared).1

end Assembly

end ImpStack
