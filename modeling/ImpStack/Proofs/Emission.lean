/-
Module: ImpStack.Proofs.Emission
Purpose: The code of a node, part by part. Each kind of node has one lemma that takes a successful
  emission apart; from these follow, by induction on the node, which instructions the code may
  hold, where its branches go, and that its calls are the calls of the node in their order.
Main exports: emit_binary_ok and its companions, Emittable, CodeWithin, emit_within, CallSite,
  Node.calls, emit_calls
-/
import ImpStack.Compile

namespace ImpStack

/-- A sequence of two steps succeeds if and only if both do. -/
theorem bind_ok_iff {ε α β : Type} {x : Except ε α} {f : α → Except ε β} {b : β} :
    (x >>= f) = .ok b ↔ ∃ a, x = .ok a ∧ f a = .ok b := by
  cases x with
  | error e => simp [bind, Except.bind]
  | ok a => simp [bind, Except.bind]

variable {scope : Scope} {base : Nat} {code : OpenCode}

/-! ### Taking a successful emission apart

One equivalence for each kind of node: the code is what the parts come to, at the addresses where
they start, put together in one way. All later inductions on nodes take the code apart with these
and never unfold the emission again. -/

theorem emit_literal_ok {value : Value} :
    emit scope base (.literal value) = .ok code ↔ [.settled (.push value)] = code := by
  simp [emit]

theorem emit_ident_ok {name : String} :
    emit scope base (.ident name) = .ok code ↔ [.settled (.load name)] = code := by
  simp [emit]

theorem emit_assign_ok {name : String} {value : Node} :
    emit scope base (.assign name value) = .ok code ↔
      ∃ valueCode, emit scope base value = .ok valueCode ∧
        valueCode ++ [.settled (.store name)] = code := by
  simp [emit, bind_ok_iff]

/-- The operands' code comes first, the left one's before the right one's. -/
theorem emit_binary_ok {op : BinaryOp} {left right : Node} :
    emit scope base (.binary op left right) = .ok code ↔
      ∃ leftCode, emit scope base left = .ok leftCode ∧
        ∃ rightCode, emit scope (base + leftCode.length) right = .ok rightCode ∧
          leftCode ++ rightCode ++ op.opcodes.map .plain = code := by
  simp [emit, bind_ok_iff]

theorem emit_unary_ok {op : UnaryOp} {operand : Node} :
    emit scope base (.unary op operand) = .ok code ↔
      ∃ operandCode, emit scope base operand = .ok operandCode ∧
        operandCode ++ op.code = code := by
  simp [emit, bind_ok_iff]

/-- The code of the arguments stands before the call. -/
theorem emit_call_ok {callee : String} {args : List Node} :
    emit scope base (.call callee args) = .ok code ↔
      ∃ argsCode, emitAll scope base args = .ok argsCode ∧
        argsCode ++ scope.callCode callee args.length = code := by
  simp [emit, bind_ok_iff]

theorem emit_ret_ok {value : Node} :
    emit scope base (.ret value) = .ok code ↔
      ∃ valueCode, emit scope base value = .ok valueCode ∧ valueCode ++ [.plain .ret] = code := by
  simp [emit, bind_ok_iff]

/-- A block has no code of its own. -/
theorem emit_block_ok {children : List Node} :
    emit scope base (.block children) = .ok code ↔ emitAll scope base children = .ok code := by
  simp [emit]

/-- The branch is skipped if the negated condition holds, to right behind its code. -/
theorem emit_ifThen_ok {condition thenBranch : Node} :
    emit scope base (.ifThen condition thenBranch) = .ok code ↔
      ∃ conditionCode, emit scope base condition = .ok conditionCode ∧
        ∃ thenCode, emit scope (base + conditionCode.length + 2) thenBranch = .ok thenCode ∧
          conditionCode ++ [.plain .not,
            .settled (.jumpIf (base + conditionCode.length + 2 + thenCode.length))] ++
            thenCode = code := by
  simp [emit, bind_ok_iff]

/-- The first branch ends with a jump over the second one. -/
theorem emit_ifElse_ok {condition thenBranch elseBranch : Node} :
    emit scope base (.ifElse condition thenBranch elseBranch) = .ok code ↔
      ∃ conditionCode, emit scope base condition = .ok conditionCode ∧
        ∃ thenCode, emit scope (base + conditionCode.length + 2) thenBranch = .ok thenCode ∧
          ∃ elseCode,
            emit scope (base + conditionCode.length + 2 + thenCode.length + 1) elseBranch =
              .ok elseCode ∧
            conditionCode ++ [.plain .not,
              .settled (.jumpIf (base + conditionCode.length + 2 + thenCode.length + 1))] ++
              thenCode ++ [.settled (.jump (base + conditionCode.length + 2 + thenCode.length + 1 +
                elseCode.length))] ++ elseCode = code := by
  simp [emit, bind_ok_iff]

/-- The loop is left from its head, and its body jumps back to where the condition starts. -/
theorem emit_whileLoop_ok {condition body : Node} :
    emit scope base (.whileLoop condition body) = .ok code ↔
      ∃ conditionCode, emit scope base condition = .ok conditionCode ∧
        ∃ bodyCode, emit scope (base + conditionCode.length + 2) body = .ok bodyCode ∧
          conditionCode ++ [.plain .not,
            .settled (.jumpIf (base + conditionCode.length + 2 + bodyCode.length + 1))] ++
            bodyCode ++ [.settled (.jump base)] = code := by
  simp [emit, bind_ok_iff]

/-- The condition stands behind the body and needs no negation. -/
theorem emit_doWhile_ok {condition body : Node} :
    emit scope base (.doWhile body condition) = .ok code ↔
      ∃ bodyCode, emit scope base body = .ok bodyCode ∧
        ∃ conditionCode, emit scope (base + bodyCode.length) condition = .ok conditionCode ∧
          bodyCode ++ conditionCode ++ [.settled (.jumpIf base)] = code := by
  simp [emit, bind_ok_iff]

/-- The variable gets its first value before the loop and is compared with the other bound in each
    round. -/
theorem emit_forRange_ok {var : String} {start stop body : Node} :
    emit scope base (.forRange var start stop body) = .ok code ↔
      ∃ startCode, emit scope base start = .ok startCode ∧
        ∃ stopCode, emit scope (base + startCode.length + 1 + 1) stop = .ok stopCode ∧
          ∃ bodyCode,
            emit scope (base + startCode.length + 1 + 1 + stopCode.length + 2) body =
              .ok bodyCode ∧
            startCode ++ [.settled (.store var), .settled (.load var)] ++ stopCode ++
              [.plain .isGe, .settled (.jumpIf
                (base + startCode.length + 1 + 1 + stopCode.length + 2 + bodyCode.length + 5))] ++
              bodyCode ++ [.settled (.load var), .settled (.push (.int 1)), .plain .add,
                .settled (.store var), .settled (.jump (base + startCode.length + 1))] = code := by
  simp [emit, bind_ok_iff]

/-- A function is no code where it stands, so a declaration below the top level is refused. -/
theorem emit_function_error {name : String} {params : List String} {body : Node} :
    emit scope base (.function name params body) ≠ .ok code := by
  simp [emit]

theorem emitAll_nil_ok : emitAll scope base [] = .ok code ↔ [] = code := by
  simp [emitAll]

/-- A sequence is emitted in order, each node at the address behind the one before. -/
theorem emitAll_cons_ok {node : Node} {rest : List Node} :
    emitAll scope base (node :: rest) = .ok code ↔
      ∃ nodeCode, emit scope base node = .ok nodeCode ∧
        ∃ restCode, emitAll scope (base + nodeCode.length) rest = .ok restCode ∧
          nodeCode ++ restCode = code := by
  simp [emitAll, bind_ok_iff]

/-! ### The instructions of a node

The code of a node branches only to addresses from its start to right behind its end, and it
never halts the machine. Bounds can be widened, so the parts of a node are within the bounds of
the whole. -/

/-- What the code of a node may hold: instructions without a branch, branches into the addresses
    from `lo` to `hi`, returns, and calls. There is no halt among them. -/
inductive Emittable (builtins : List String) (lo hi : Nat) : OpenInstruction → Prop where
  | push (value : Value) : Emittable builtins lo hi (.settled (.push value))
  | load (name : String) : Emittable builtins lo hi (.settled (.load name))
  | store (name : String) : Emittable builtins lo hi (.settled (.store name))
  | operation {op : Opcode} (h : op ∈ [.add, .sub, .mul, .div, .and, .or, .not, .isEq, .isGt,
      .isGe]) : Emittable builtins lo hi (.plain op)
  | jump {target : Nat} (low : lo ≤ target) (high : target ≤ hi) :
      Emittable builtins lo hi (.settled (.jump target))
  | jumpIf {target : Nat} (low : lo ≤ target) (high : target ≤ hi) :
      Emittable builtins lo hi (.settled (.jumpIf target))
  | ret : Emittable builtins lo hi (.plain .ret)
  | func {name : String} (count : Nat) (h : builtins.contains name = true) :
      Emittable builtins lo hi (.settled (.func name count))
  | call {callee : String} (h : builtins.contains callee = false) :
      Emittable builtins lo hi (.call callee)

/-- Every instruction of a sequence may stand in the code of a node. -/
def CodeWithin (builtins : List String) (lo hi : Nat) (code : OpenCode) : Prop :=
  ∀ o ∈ code, Emittable builtins lo hi o

variable {builtins : List String} {lo hi : Nat}

theorem Emittable.mono {lo' hi' : Nat} {o : OpenInstruction} (h : Emittable builtins lo hi o)
    (low : lo' ≤ lo) (high : hi ≤ hi') : Emittable builtins lo' hi' o := by
  cases h with
  | push value => exact .push value
  | load name => exact .load name
  | store name => exact .store name
  | operation h => exact .operation h
  | jump l r => exact .jump (Nat.le_trans low l) (Nat.le_trans r high)
  | jumpIf l r => exact .jumpIf (Nat.le_trans low l) (Nat.le_trans r high)
  | ret => exact .ret
  | func count h => exact .func count h
  | call h => exact .call h

theorem CodeWithin.mono {lo' hi' : Nat} {code : OpenCode} (h : CodeWithin builtins lo hi code)
    (low : lo' ≤ lo) (high : hi ≤ hi') : CodeWithin builtins lo' hi' code :=
  fun o ho => (h o ho).mono low high

@[simp] theorem codeWithin_nil : CodeWithin builtins lo hi [] := by simp [CodeWithin]

@[simp] theorem codeWithin_cons {o : OpenInstruction} {code : OpenCode} :
    CodeWithin builtins lo hi (o :: code) ↔
      Emittable builtins lo hi o ∧ CodeWithin builtins lo hi code := by
  simp [CodeWithin]

@[simp] theorem codeWithin_append {code₁ code₂ : OpenCode} :
    CodeWithin builtins lo hi (code₁ ++ code₂) ↔
      CodeWithin builtins lo hi code₁ ∧ CodeWithin builtins lo hi code₂ := by
  simp [CodeWithin, or_imp, forall_and]

/-- The operations of an operator take no operands and never branch. -/
theorem codeWithin_opcodes (op : BinaryOp) :
    CodeWithin builtins lo hi (op.opcodes.map .plain) := by
  cases op <;> simp [BinaryOp.opcodes, Emittable.operation]

theorem codeWithin_unary (op : UnaryOp) : CodeWithin builtins lo hi op.code := by
  cases op <;> simp [UnaryOp.code, Emittable.operation, Emittable.push]

/-- A call goes to the host exactly if its name is one of the host's. -/
theorem codeWithin_callCode (callee : String) (count : Nat) :
    CodeWithin scope.builtins lo hi (scope.callCode callee count) := by
  rw [Scope.callCode]
  cases h : scope.builtins.contains callee with
  | true => simpa using Emittable.func count h
  | false => simpa using Emittable.call h

mutual

/-- The code of a node branches only to addresses from its first to the one after its last. -/
theorem emit_within : ∀ {node : Node} {base : Nat} {code : OpenCode},
    emit scope base node = .ok code →
      CodeWithin scope.builtins base (base + code.length) code
  | .literal value, base, code, h => by
      rw [← emit_literal_ok.1 h]
      simpa using Emittable.push value
  | .ident name, base, code, h => by
      rw [← emit_ident_ok.1 h]
      simpa using Emittable.load name
  | .assign name value, base, code, h => by
      obtain ⟨valueCode, hv, rfl⟩ := emit_assign_ok.1 h
      simp only [codeWithin_append, codeWithin_cons, List.length_append]
      exact ⟨(emit_within hv).mono (by omega) (by omega), .store name, codeWithin_nil⟩
  | .binary op left right, base, code, h => by
      obtain ⟨leftCode, hl, rightCode, hr, rfl⟩ := emit_binary_ok.1 h
      simp only [codeWithin_append, List.length_append]
      exact ⟨⟨(emit_within hl).mono (by omega) (by omega),
        (emit_within hr).mono (by omega) (by omega)⟩, codeWithin_opcodes op⟩
  | .unary op operand, base, code, h => by
      obtain ⟨operandCode, ho, rfl⟩ := emit_unary_ok.1 h
      simp only [codeWithin_append, List.length_append]
      exact ⟨(emit_within ho).mono (by omega) (by omega), codeWithin_unary op⟩
  | .call callee args, base, code, h => by
      obtain ⟨argsCode, ha, rfl⟩ := emit_call_ok.1 h
      simp only [codeWithin_append, List.length_append]
      exact ⟨(emitAll_within ha).mono (by omega) (by omega), codeWithin_callCode callee args.length⟩
  | .ret value, base, code, h => by
      obtain ⟨valueCode, hv, rfl⟩ := emit_ret_ok.1 h
      simp only [codeWithin_append, codeWithin_cons, List.length_append]
      exact ⟨(emit_within hv).mono (by omega) (by omega), .ret, codeWithin_nil⟩
  | .block children, base, code, h => emitAll_within (emit_block_ok.1 h)
  | .ifThen condition thenBranch, base, code, h => by
      obtain ⟨conditionCode, hc, thenCode, ht, rfl⟩ := emit_ifThen_ok.1 h
      simp only [codeWithin_append, codeWithin_cons, List.length_append, List.length_cons,
        List.length_nil]
      refine ⟨⟨(emit_within hc).mono (by omega) (by omega), .operation (by simp), ?_,
        codeWithin_nil⟩, (emit_within ht).mono (by omega) (by omega)⟩
      exact .jumpIf (by omega) (by omega)
  | .ifElse condition thenBranch elseBranch, base, code, h => by
      obtain ⟨conditionCode, hc, thenCode, ht, elseCode, he, rfl⟩ := emit_ifElse_ok.1 h
      simp only [codeWithin_append, codeWithin_cons, List.length_append, List.length_cons,
        List.length_nil]
      refine ⟨⟨⟨⟨(emit_within hc).mono (by omega) (by omega), .operation (by simp), ?_,
        codeWithin_nil⟩, (emit_within ht).mono (by omega) (by omega)⟩, ?_, codeWithin_nil⟩,
        (emit_within he).mono (by omega) (by omega)⟩
      · exact .jumpIf (by omega) (by omega)
      · exact .jump (by omega) (by omega)
  | .whileLoop condition body, base, code, h => by
      obtain ⟨conditionCode, hc, bodyCode, hb, rfl⟩ := emit_whileLoop_ok.1 h
      simp only [codeWithin_append, codeWithin_cons, List.length_append, List.length_cons,
        List.length_nil]
      refine ⟨⟨⟨(emit_within hc).mono (by omega) (by omega), .operation (by simp), ?_,
        codeWithin_nil⟩, (emit_within hb).mono (by omega) (by omega)⟩, ?_, codeWithin_nil⟩
      · exact .jumpIf (by omega) (by omega)
      · exact .jump (by omega) (by omega)
  | .doWhile body condition, base, code, h => by
      obtain ⟨bodyCode, hb, conditionCode, hc, rfl⟩ := emit_doWhile_ok.1 h
      simp only [codeWithin_append, codeWithin_cons, List.length_append, List.length_cons,
        List.length_nil]
      refine ⟨⟨(emit_within hb).mono (by omega) (by omega),
        (emit_within hc).mono (by omega) (by omega)⟩, ?_, codeWithin_nil⟩
      exact .jumpIf (by omega) (by omega)
  | .forRange var start stop body, base, code, h => by
      obtain ⟨startCode, hs, stopCode, hp, bodyCode, hb, rfl⟩ := emit_forRange_ok.1 h
      simp only [codeWithin_append, codeWithin_cons, List.length_append, List.length_cons,
        List.length_nil]
      refine ⟨⟨⟨⟨⟨(emit_within hs).mono (by omega) (by omega), .store var, .load var,
        codeWithin_nil⟩, (emit_within hp).mono (by omega) (by omega)⟩, .operation (by simp), ?_,
        codeWithin_nil⟩, (emit_within hb).mono (by omega) (by omega)⟩, .load var, .push _,
        .operation (by simp), .store var, ?_, codeWithin_nil⟩
      · exact .jumpIf (by omega) (by omega)
      · exact .jump (by omega) (by omega)
  | .function name params body, base, code, h => absurd h emit_function_error

/-- The same of a sequence of nodes. -/
theorem emitAll_within : ∀ {nodes : List Node} {base : Nat} {code : OpenCode},
    emitAll scope base nodes = .ok code →
      CodeWithin scope.builtins base (base + code.length) code
  | [], base, code, h => by
      rw [← emitAll_nil_ok.1 h]
      exact codeWithin_nil
  | node :: rest, base, code, h => by
      obtain ⟨nodeCode, hn, restCode, hr, rfl⟩ := emitAll_cons_ok.1 h
      simp only [codeWithin_append, List.length_append]
      exact ⟨(emit_within hn).mono (by omega) (by omega),
        (emitAll_within hr).mono (by omega) (by omega)⟩

end

/-! ### The calls of a node

The calls in a node's code are the call sites of the source in the order of evaluation, whatever
is between them. With that, what a compiler has to look up and to check is read off the source
alone. -/

/-- A call as the source writes it. -/
structure CallSite where
  callee : String
  argumentCount : Nat
deriving DecidableEq

mutual

/-- The calls in a node, in the order in which their code is emitted: those of the arguments before
    the call itself. -/
def Node.calls : Node → List CallSite
  | .literal _ | .ident _ => []
  | .binary _ left right => left.calls ++ right.calls
  | .unary _ operand => operand.calls
  | .call callee args => Node.callsAll args ++ [⟨callee, args.length⟩]
  | .assign _ value => value.calls
  | .block children => Node.callsAll children
  | .ifThen condition thenBranch => condition.calls ++ thenBranch.calls
  | .ifElse condition thenBranch elseBranch =>
    condition.calls ++ thenBranch.calls ++ elseBranch.calls
  | .whileLoop condition body => condition.calls ++ body.calls
  | .doWhile body condition => body.calls ++ condition.calls
  | .forRange _ start stop body => start.calls ++ stop.calls ++ body.calls
  | .function _ _ body => body.calls
  | .ret value => value.calls

/-- The calls in a sequence of nodes. -/
def Node.callsAll : List Node → List CallSite
  | [] => []
  | node :: rest => node.calls ++ Node.callsAll rest

end

/-- Whether an instruction calls a function, of the host or of the program. -/
def OpenInstruction.isCall : OpenInstruction → Bool
  | .settled i => i.opcode = .func ∨ i.opcode = .call
  | .call _ => true

/-- The instructions of a sequence that call functions. -/
def OpenCode.calls (code : OpenCode) : OpenCode := code.filter OpenInstruction.isCall

/-- The code that a scope gives to calls, without the code of their arguments. -/
def Scope.codeOfCalls (scope : Scope) (calls : List CallSite) : OpenCode :=
  calls.flatMap fun c => scope.callCode c.callee c.argumentCount

@[simp] theorem OpenCode.calls_append (code₁ code₂ : OpenCode) :
    OpenCode.calls (code₁ ++ code₂) = OpenCode.calls code₁ ++ OpenCode.calls code₂ :=
  List.filter_append ..

@[simp] theorem Scope.codeOfCalls_append (scope : Scope) (calls₁ calls₂ : List CallSite) :
    scope.codeOfCalls (calls₁ ++ calls₂) =
      scope.codeOfCalls calls₁ ++ scope.codeOfCalls calls₂ :=
  List.flatMap_append ..

theorem OpenCode.calls_opcodes (op : BinaryOp) :
    OpenCode.calls (op.opcodes.map .plain) = [] := by
  cases op <;> rfl

theorem OpenCode.calls_unary (op : UnaryOp) : OpenCode.calls op.code = [] := by
  cases op <;> rfl

theorem OpenCode.calls_callCode (scope : Scope) (callee : String) (count : Nat) :
    OpenCode.calls (scope.callCode callee count) = scope.codeOfCalls [⟨callee, count⟩] := by
  simp only [Scope.codeOfCalls, List.flatMap_singleton, Scope.callCode]
  cases scope.builtins.contains callee <;> rfl

mutual

/-- The calls in the code of a node are the node's calls, one for one and in their order. -/
theorem emit_calls : ∀ {node : Node} {base : Nat} {code : OpenCode},
    emit scope base node = .ok code → OpenCode.calls code = scope.codeOfCalls node.calls
  | .literal value, base, code, h => by
      rw [← emit_literal_ok.1 h]
      rfl
  | .ident name, base, code, h => by
      rw [← emit_ident_ok.1 h]
      rfl
  | .assign name value, base, code, h => by
      obtain ⟨valueCode, hv, rfl⟩ := emit_assign_ok.1 h
      have none : OpenCode.calls [.settled (.store name)] = [] := rfl
      rw [OpenCode.calls_append, emit_calls hv, none, List.append_nil, Node.calls]
  | .binary op left right, base, code, h => by
      obtain ⟨leftCode, hl, rightCode, hr, rfl⟩ := emit_binary_ok.1 h
      simp [emit_calls hl, emit_calls hr, OpenCode.calls_opcodes, Node.calls]
  | .unary op operand, base, code, h => by
      obtain ⟨operandCode, ho, rfl⟩ := emit_unary_ok.1 h
      simp [emit_calls ho, OpenCode.calls_unary, Node.calls]
  | .call callee args, base, code, h => by
      obtain ⟨argsCode, ha, rfl⟩ := emit_call_ok.1 h
      simp [emitAll_calls ha, OpenCode.calls_callCode, Node.calls]
  | .ret value, base, code, h => by
      obtain ⟨valueCode, hv, rfl⟩ := emit_ret_ok.1 h
      have none : OpenCode.calls [.plain .ret] = [] := rfl
      rw [OpenCode.calls_append, emit_calls hv, none, List.append_nil, Node.calls]
  | .block children, base, code, h => by
      rw [emitAll_calls (emit_block_ok.1 h), Node.calls]
  | .ifThen condition thenBranch, base, code, h => by
      obtain ⟨conditionCode, hc, thenCode, ht, rfl⟩ := emit_ifThen_ok.1 h
      have none (target : Nat) : OpenCode.calls [.plain .not, .settled (.jumpIf target)] = [] := rfl
      simp only [OpenCode.calls_append, emit_calls hc, emit_calls ht, none, List.append_nil,
        Node.calls, Scope.codeOfCalls_append]
  | .ifElse condition thenBranch elseBranch, base, code, h => by
      obtain ⟨conditionCode, hc, thenCode, ht, elseCode, he, rfl⟩ := emit_ifElse_ok.1 h
      have none (target : Nat) : OpenCode.calls [.plain .not, .settled (.jumpIf target)] = [] := rfl
      have none' (target : Nat) : OpenCode.calls [.settled (.jump target)] = [] := rfl
      simp only [OpenCode.calls_append, emit_calls hc, emit_calls ht, emit_calls he, none, none',
        List.append_nil, Node.calls, Scope.codeOfCalls_append]
  | .whileLoop condition body, base, code, h => by
      obtain ⟨conditionCode, hc, bodyCode, hb, rfl⟩ := emit_whileLoop_ok.1 h
      have none (target : Nat) : OpenCode.calls [.plain .not, .settled (.jumpIf target)] = [] := rfl
      have none' (target : Nat) : OpenCode.calls [.settled (.jump target)] = [] := rfl
      simp only [OpenCode.calls_append, emit_calls hc, emit_calls hb, none, none',
        List.append_nil, Node.calls, Scope.codeOfCalls_append]
  | .doWhile body condition, base, code, h => by
      obtain ⟨bodyCode, hb, conditionCode, hc, rfl⟩ := emit_doWhile_ok.1 h
      have none (target : Nat) : OpenCode.calls [.settled (.jumpIf target)] = [] := rfl
      simp only [OpenCode.calls_append, emit_calls hc, emit_calls hb, none, List.append_nil,
        Node.calls, Scope.codeOfCalls_append]
  | .forRange var start stop body, base, code, h => by
      obtain ⟨startCode, hs, stopCode, hp, bodyCode, hb, rfl⟩ := emit_forRange_ok.1 h
      have none₁ : OpenCode.calls [.settled (.store var), .settled (.load var)] = [] := rfl
      have none₂ (target : Nat) : OpenCode.calls [.plain .isGe, .settled (.jumpIf target)] = [] :=
        rfl
      have none₃ (target : Nat) : OpenCode.calls [.settled (.load var), .settled (.push (.int 1)),
        .plain .add, .settled (.store var), .settled (.jump target)] = [] := rfl
      simp only [OpenCode.calls_append, emit_calls hs, emit_calls hp, emit_calls hb, none₁, none₂,
        none₃, List.append_nil, Node.calls, Scope.codeOfCalls_append]
  | .function name params body, base, code, h => absurd h emit_function_error

/-- The same of a sequence of nodes. -/
theorem emitAll_calls : ∀ {nodes : List Node} {base : Nat} {code : OpenCode},
    emitAll scope base nodes = .ok code →
      OpenCode.calls code = scope.codeOfCalls (Node.callsAll nodes)
  | [], base, code, h => by
      rw [← emitAll_nil_ok.1 h]
      rfl
  | node :: rest, base, code, h => by
      obtain ⟨nodeCode, hn, restCode, hr, rfl⟩ := emitAll_cons_ok.1 h
      rw [OpenCode.calls_append, emit_calls hn, emitAll_calls hr, Node.callsAll,
        Scope.codeOfCalls_append]

end

end ImpStack
