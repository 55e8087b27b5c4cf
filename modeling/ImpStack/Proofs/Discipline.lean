/-
Module: ImpStack.Proofs.Discipline
Purpose: Rules for programs that keep the operand stack in order: what may stand in the position of
  an expression, and what may stand in the position of a statement of a function whose calls yield
  values.
Main exports: Node.operands, Node.bodies, Node.parts, Node.returns, Program.isExpression,
  Program.Disciplined, Program.isTidyCommand, Program.Tidy, Program.Reaches
-/
import ImpStack.Proofs.Emission

namespace ImpStack

/-! ### Positions

Every node below another one is in the position of an expression, whose value is used, or in the
position of a statement. The rules below are about positions anywhere in the program, so its nodes
are listed once, with an induction principle on the nodes right below. -/

namespace Node

/-- The nodes in the positions of expressions right below a node: operands, arguments, values that
    are assigned or returned, conditions, and bounds. -/
def operands : Node → List Node
  | .binary _ left right => [left, right]
  | .unary _ operand => [operand]
  | .call _ args => args
  | .assign _ value => [value]
  | .ifThen condition _ => [condition]
  | .ifElse condition _ _ => [condition]
  | .whileLoop condition _ => [condition]
  | .doWhile _ condition => [condition]
  | .forRange _ start stop _ => [start, stop]
  | .ret value => [value]
  | .literal _ | .ident _ | .block _ | .function .. => []

/-- The nodes in the positions of statements right below a node: the parts of a block, branches, and
    the bodies of loops and functions. -/
def bodies : Node → List Node
  | .block children => children
  | .ifThen _ thenBranch => [thenBranch]
  | .ifElse _ thenBranch elseBranch => [thenBranch, elseBranch]
  | .whileLoop _ body => [body]
  | .doWhile body _ => [body]
  | .forRange _ _ _ body => [body]
  | .function _ _ body => [body]
  | .literal _ | .ident _ | .binary .. | .unary .. | .call .. | .assign .. | .ret _ => []

/-- The nodes right below a node. -/
def children (node : Node) : List Node := node.operands ++ node.bodies

mutual

/-- A node and all nodes below it. -/
def parts : Node → List Node
  | .literal value => [.literal value]
  | .ident name => [.ident name]
  | .binary op left right => .binary op left right :: (left.parts ++ right.parts)
  | .unary op operand => .unary op operand :: operand.parts
  | .call callee args => .call callee args :: partsAll args
  | .assign name value => .assign name value :: value.parts
  | .block children => .block children :: partsAll children
  | .ifThen condition thenBranch =>
    .ifThen condition thenBranch :: (condition.parts ++ thenBranch.parts)
  | .ifElse condition thenBranch elseBranch =>
    .ifElse condition thenBranch elseBranch ::
      (condition.parts ++ thenBranch.parts ++ elseBranch.parts)
  | .whileLoop condition body => .whileLoop condition body :: (condition.parts ++ body.parts)
  | .doWhile body condition => .doWhile body condition :: (condition.parts ++ body.parts)
  | .forRange var start stop body =>
    .forRange var start stop body :: (start.parts ++ stop.parts ++ body.parts)
  | .function name params body => .function name params body :: body.parts
  | .ret value => .ret value :: value.parts

def partsAll : List Node → List Node
  | [] => []
  | node :: rest => node.parts ++ partsAll rest

end

/-- The parts of a list of nodes are those of each of them in turn. -/
theorem partsAll_eq (nodes : List Node) : partsAll nodes = nodes.flatMap parts := by
  induction nodes with
  | nil => rfl
  | cons node rest ih => rw [partsAll, ih, List.flatMap_cons]

/-- A node's parts are the node itself and the parts of the nodes right below it. -/
theorem parts_eq (node : Node) : node.parts = node :: node.children.flatMap parts := by
  cases node <;> simp [parts, children, operands, bodies, partsAll_eq]

theorem self_mem_parts (node : Node) : node ∈ node.parts := by
  rw [parts_eq]
  exact List.mem_cons_self

theorem parts_of_child {node child part : Node} (mem : child ∈ node.children)
    (h : part ∈ child.parts) : part ∈ node.parts := by
  rw [parts_eq]
  exact List.mem_cons_of_mem node (List.mem_flatMap.2 ⟨child, mem, h⟩)

/-- Nodes right below a node are smaller, which carries inductions on them. -/
theorem sizeOf_child {node child : Node} (mem : child ∈ node.children) :
    sizeOf child < sizeOf node := by
  cases node with
  | literal _ => cases mem
  | ident _ => cases mem
  | call callee args =>
      rw [children, operands, bodies, List.append_nil] at mem
      have smaller := List.sizeOf_lt_of_mem mem
      rw [call.sizeOf_spec]
      omega
  | block nodes =>
      rw [children, operands, bodies, List.nil_append] at mem
      have smaller := List.sizeOf_lt_of_mem mem
      rw [block.sizeOf_spec]
      omega
  | _ =>
      simp only [children, operands, bodies, List.cons_append, List.nil_append, List.mem_cons,
        List.not_mem_nil, or_false] at mem
      grind

theorem callsAll_eq (nodes : List Node) : callsAll nodes = nodes.flatMap calls := by
  induction nodes with
  | nil => rfl
  | cons node rest ih => rw [callsAll, ih, List.flatMap_cons]

/-- A call site in a node below is one of the node's own. -/
theorem calls_of_child {node child : Node} {site : CallSite} (mem : child ∈ node.children)
    (h : site ∈ child.calls) : site ∈ node.calls := by
  cases node <;>
    simp only [children, operands, bodies, calls, callsAll_eq, List.cons_append, List.nil_append,
      List.append_nil, List.mem_cons, List.mem_append, List.mem_flatMap, List.not_mem_nil,
      or_false] at mem ⊢ <;> grind

/-- What holds of a node whenever it holds of the nodes right below it holds of all nodes. -/
theorem induction_on_children {P : Node → Prop}
    (step : ∀ node, (∀ child ∈ node.children, P child) → P node) (node : Node) : P node :=
  step node fun child mem =>
    have := sizeOf_child mem
    induction_on_children step child
termination_by sizeOf node

/-- The nodes below a part of a node are parts of it. -/
theorem parts_trans {part inner : Node} (node : Node) (mem : part ∈ node.parts)
    (h : inner ∈ part.parts) : inner ∈ node.parts := by
  induction node using induction_on_children with
  | step node ih =>
      rw [parts_eq, List.mem_cons, List.mem_flatMap] at mem
      rcases mem with rfl | ⟨child, below, mem⟩
      · exact h
      · exact parts_of_child below (ih child below mem)

/-- The calls in a part of a node are calls in it. -/
theorem calls_of_part {part : Node} {site : CallSite} (node : Node) (mem : part ∈ node.parts)
    (h : site ∈ part.calls) : site ∈ node.calls := by
  induction node using induction_on_children with
  | step node ih =>
      rw [parts_eq, List.mem_cons, List.mem_flatMap] at mem
      rcases mem with rfl | ⟨child, below, mem⟩
      · exact h
      · exact calls_of_child below (ih child below mem)

/-! ### Returns

Whether a call yields a value depends on the body of its function: a body that returns on every path
always yields one, and a body without a return never does. Loops that may not be entered count as
not returning. -/

mutual

/-- Whether every way through a statement comes to a return. -/
def returns : Node → Bool
  | .ret _ => true
  | .block children => returnsAny children
  | .ifElse _ thenBranch elseBranch => thenBranch.returns && elseBranch.returns
  | .doWhile body _ => body.returns
  | _ => false

/-- Whether one of several statements returns, so that those behind it are not reached. -/
def returnsAny : List Node → Bool
  | [] => false
  | node :: rest => node.returns || returnsAny rest

end

mutual

/-- Whether there is a return in a statement. -/
def mayReturn : Node → Bool
  | .ret _ => true
  | .block children => mayReturnAny children
  | .ifThen _ thenBranch => thenBranch.mayReturn
  | .ifElse _ thenBranch elseBranch => thenBranch.mayReturn || elseBranch.mayReturn
  | .whileLoop _ body => body.mayReturn
  | .doWhile body _ => body.mayReturn
  | .forRange _ _ _ body => body.mayReturn
  | _ => false

def mayReturnAny : List Node → Bool
  | [] => false
  | node :: rest => node.mayReturn || mayReturnAny rest

end

end Node

/-- A statement declares a function exactly if it is that function's node. -/
theorem Node.declaration?_eq_some_iff {s : Node} {d : Declaration} :
    s.declaration? = some d ↔ s = .function d.name d.params d.body := by
  cases s <;> cases d <;> simp [declaration?]

/-- A function is declared by a statement. -/
theorem Program.statement_of_declaration {p : Program} {d : Declaration}
    (mem : d ∈ p.declarations) : .function d.name d.params d.body ∈ p.statements := by
  obtain ⟨s, statement, declared⟩ := List.mem_filterMap.1 mem
  rwa [Node.declaration?_eq_some_iff.1 declared] at statement

/-! ### Rules

A program is disciplined if only expressions stand where values are used. A function is tidy if its
statements leave nothing behind on the operand stack; together they say how high the stack is at any
place of the code. -/

namespace Program

variable (p : Program) (hosted : List String)

/-- The function of the program that a call goes to. -/
def callee? (name : String) : Option Declaration := p.declarations.find? (·.name = name)

/-- The function that a name stands for is declared under that name. -/
theorem mem_of_callee {p : Program} {callee : String} {d : Declaration}
    (found : p.callee? callee = some d) : d ∈ p.declarations ∧ d.name = callee :=
  ⟨List.mem_of_find?_eq_some found, by simpa using List.find?_some found⟩

/-- Whether a node may stand in the position of an expression. A call may if it goes to the host, or
    with as many arguments as there are parameters to a function that returns on every path. -/
def isExpression : Node → Bool
  | .literal _ | .ident _ | .binary .. | .unary .. => true
  | .call callee args =>
    hosted.contains callee ||
      match p.callee? callee with
      | some d => args.length == d.params.length && d.body.returns
      | none => false
  | _ => false

/-- Whether a node leaves nothing on the stack in the position of a statement. A call does if it
    goes with as many arguments as there are parameters to a function without a return. -/
def isTidyCommand : Node → Bool
  | .literal _ | .ident _ | .binary .. | .unary .. | .function .. => false
  | .call callee args =>
    !hosted.contains callee &&
      match p.callee? callee with
      | some d => args.length == d.params.length && !d.body.mayReturn
      | none => false
  | _ => true

/-- The nodes in the positions of expressions, anywhere in the program. -/
def expressions : List Node := p.statements.flatMap fun s => s.parts.flatMap Node.operands

/-- Only expressions stand in the positions of expressions. -/
def Disciplined : Prop := ∀ e ∈ p.expressions, p.isExpression hosted e = true

instance : Decidable (p.Disciplined hosted) :=
  inferInstanceAs (Decidable (∀ e ∈ p.expressions, _ = true))

/-- A function whose statements leave nothing on the stack. -/
def Tidy (d : Declaration) : Prop :=
  ∀ c ∈ d.body :: d.body.parts.flatMap Node.bodies, p.isTidyCommand hosted c = true

instance (d : Declaration) : Decidable (p.Tidy hosted d) :=
  inferInstanceAs (Decidable (∀ c ∈ d.body :: d.body.parts.flatMap Node.bodies, _ = true))

/-- The functions that the evaluation of a node can call, directly or through other functions. -/
inductive Reaches (node : Node) : Declaration → Prop where
  | calls {site : CallSite} {d : Declaration} (mem : site ∈ node.calls)
      (found : p.callee? site.callee = some d) : Reaches node d
  | through {c d : Declaration} {site : CallSite} (reached : Reaches node c)
      (mem : site ∈ c.body.calls) (found : p.callee? site.callee = some d) : Reaches node d

end Program

end ImpStack
