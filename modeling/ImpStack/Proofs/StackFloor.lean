/-
Module: ImpStack.Proofs.StackFloor
Purpose: Orderly programs never lack values on the operand stack. Every node leaves at least as many
  values as it finds, an expression at least one more, whatever else the functions that it calls
  leave behind. This is carried from the evaluation of the source to the machine, and from there to
  machines with bounds.
Main exports: Program.Orderly, node_floor, enterFunction_floor, no_operand_underflow
-/
import ImpStack.Proofs.Bounds
import ImpStack.Proofs.Traversal

namespace ImpStack

/-! ### Orderly programs

The rules are weaker than those for disciplined programs: calls pass all arguments wherever they
stand, but nothing is asked of what a call leaves behind in the position of a statement. So only a
lower bound for the height of the stack can be kept. -/

/-- Whether a node is of those that belong in the position of an expression. -/
def Node.isOperand : Node → Bool
  | .literal _ | .ident _ | .binary .. | .unary .. | .call .. => true
  | _ => false

namespace Program

variable (p : Program)

/-- Whether a call of a function of the program goes with as many arguments as that has
    parameters. -/
def passesAll : Node → Bool
  | .call callee args =>
    p.declarations.all fun d => d.name != callee || args.length == d.params.length
  | _ => true

/-- Whether a call of a function of the program is of one that returns on every path. -/
def yields : Node → Bool
  | .call callee _ => p.declarations.all fun d => d.name != callee || d.body.returns
  | _ => true

/-- Only expressions stand in the positions of expressions, calls go with as many arguments as there
    are parameters, and functions that are called for a value return one on every path. -/
structure Orderly : Prop where
  operands : ∀ e ∈ p.expressions, e.isOperand = true
  arguments : ∀ s ∈ p.statements, ∀ node ∈ s.parts, p.passesAll node = true
  values : ∀ e ∈ p.expressions, p.yields e = true

instance : Decidable p.Orderly :=
  decidable_of_iff ((∀ e ∈ p.expressions, e.isOperand = true) ∧
      (∀ s ∈ p.statements, ∀ node ∈ s.parts, p.passesAll node = true) ∧
      ∀ e ∈ p.expressions, p.yields e = true)
    ⟨fun ⟨operands, arguments, values⟩ => ⟨operands, arguments, values⟩,
      fun h => ⟨h.operands, h.arguments, h.values⟩⟩

/-- The same of a single node. -/
structure OrderlyIn (node : Node) : Prop where
  operands : ∀ part ∈ node.parts, ∀ e ∈ part.operands, e.isOperand = true ∧ p.yields e = true
  arguments : ∀ part ∈ node.parts, p.passesAll part = true

/-- The values that a node leaves at least. -/
def adds (node : Node) : Nat := (node.isOperand && p.yields node).toNat

/-- The values that several nodes leave at least. -/
def addsAll : List Node → Nat
  | [] => 0
  | node :: rest => p.adds node + addsAll rest

variable {p} {node part : Node}

theorem Orderly.statement (h : p.Orderly) (mem : node ∈ p.statements) : p.OrderlyIn node where
  operands part below e operand := by
    have expression : e ∈ p.expressions :=
      List.mem_flatMap.2 ⟨node, mem, List.mem_flatMap.2 ⟨part, below, operand⟩⟩
    exact ⟨h.operands e expression, h.values e expression⟩
  arguments := h.arguments node mem

theorem OrderlyIn.child (h : p.OrderlyIn node) (mem : part ∈ node.children) : p.OrderlyIn part :=
  ⟨fun inner below => h.operands inner (Node.parts_of_child mem below),
    fun inner below => h.arguments inner (Node.parts_of_child mem below)⟩

theorem OrderlyIn.body (h : p.OrderlyIn node) (c : Node) (mem : c ∈ node.bodies) :
    p.OrderlyIn c :=
  h.child (List.mem_append_right _ mem)

/-- Operands are orderly, and each of them leaves a value. -/
theorem OrderlyIn.operand (h : p.OrderlyIn node) (e : Node) (mem : e ∈ node.operands) :
    p.OrderlyIn e ∧ p.adds e = 1 := by
  obtain ⟨operand, yields⟩ := h.operands node node.self_mem_parts e mem
  refine ⟨h.child (List.mem_append_left _ mem), ?_⟩
  rw [adds, operand, yields]
  rfl

theorem Orderly.declaration (h : p.Orderly) {d : Declaration} (mem : d ∈ p.declarations) :
    p.OrderlyIn d.body :=
  (h.statement (Program.statement_of_declaration mem)).body d.body (List.mem_singleton_self d.body)

/-- A call that is orderly has as many arguments as its function has parameters. -/
theorem arguments_of_passesAll {callee : String} {args : List Node} {d : Declaration}
    (h : p.passesAll (.call callee args) = true) (found : p.callee? callee = some d) :
    args.length = d.params.length := by
  obtain ⟨mem, rfl⟩ := mem_of_callee found
  have passed := List.all_eq_true.1 h d mem
  simpa using passed

/-- A call does not have to leave more than its function returns. -/
theorem adds_call_le {callee : String} {args : List Node} {d : Declaration}
    (found : p.callee? callee = some d) : p.adds (.call callee args) ≤ d.body.returns.toNat := by
  obtain ⟨mem, rfl⟩ := mem_of_callee found
  cases yields : p.yields (.call d.name args) with
  | false =>
      rw [adds, yields, Bool.and_false]
      exact Nat.zero_le _
  | true =>
      have returns := List.all_eq_true.1 yields d mem
      rw [bne_self_eq_false, Bool.false_or] at returns
      rw [returns]
      exact Bool.toNat_le _

end Program

/-! ### Heights of the stack

The lemmas on what evaluations leave are restated for bounds from below: what takes values needs
them above the bound, and what adds one raises it. -/

namespace Eval

variable {σ : Type} {env : Env σ} {k : Nat} {R : List Value → Prop}

theorem exists_of_high {s : List Value} (h : k + 1 ≤ s.length) :
    ∃ v rest, s = v :: rest ∧ k ≤ rest.length := by
  cases s with
  | nil => cases h
  | cons v rest => exact ⟨v, rest, rfl, Nat.le_of_succ_le_succ h⟩

theorem floor_push {v : Value} (h : k ≤ env.stack.length) :
    Leaves (push v) env (fun _ s => k + 1 ≤ s.length) R := Nat.succ_le_succ h

theorem floor_negate (h : k + 1 ≤ env.stack.length) :
    Leaves negate env (fun _ s => k + 1 ≤ s.length) R := by
  obtain ⟨v, rest, stack, high⟩ := exists_of_high h
  refine (leaves_negate stack).mono ?_ fun _ r => r
  rintro _ _ ⟨w, rfl⟩
  exact Nat.succ_le_succ high

theorem floor_operate {op : BinaryOp} (h : k + 1 + 1 ≤ env.stack.length) :
    Leaves (operate op) env (fun _ s => k + 1 ≤ s.length) R := by
  obtain ⟨right, rest, stack, high⟩ := exists_of_high h
  obtain ⟨left, rest', rfl, high'⟩ := exists_of_high high
  refine (leaves_operate stack).mono ?_ fun _ r => r
  rintro _ _ ⟨w, rfl⟩
  exact Nat.succ_le_succ high'

theorem floor_test {op : Opcode} (h : k + 1 ≤ env.stack.length) :
    Leaves (test op) env (fun _ s => k ≤ s.length) R := by
  obtain ⟨v, rest, stack, high⟩ := exists_of_high h
  exact (leaves_test stack).mono (fun _ s same => same ▸ high) fun _ r => r

theorem floor_load {name : String} (h : k ≤ env.stack.length) :
    Leaves (load name) env (fun _ s => k + 1 ≤ s.length) R := by
  refine leaves_load.mono ?_ fun _ r => r
  rintro _ _ ⟨v, rfl⟩
  exact Nat.succ_le_succ h

theorem floor_store {name : String} (h : k + 1 ≤ env.stack.length) :
    Leaves (store name) env (fun _ s => k ≤ s.length) R := by
  obtain ⟨v, rest, stack, high⟩ := exists_of_high h
  exact (leaves_store stack).mono (fun _ s same => same ▸ high) fun _ r => r

theorem floor_increment {name : String} (h : k ≤ env.stack.length) :
    Leaves (increment name) env (fun _ s => k ≤ s.length) R :=
  leaves_increment.mono (fun _ _ same => same ▸ h) fun _ r => r

/-- The values that are taken, and those below them. -/
theorem take_append_of_high {s : List Value} {count : Nat} (h : k + count ≤ s.length) :
    s = s.take count ++ s.drop count ∧ (s.take count).length = count ∧
      k ≤ (s.drop count).length := by
  refine ⟨(List.take_append_drop count s).symm, ?_, ?_⟩
  · exact List.length_take_of_le (Nat.le_of_add_left_le h)
  · rw [List.length_drop]
    exact Nat.le_sub_of_add_le h

theorem floor_storeAll {names : List String} (h : k + names.length ≤ env.stack.length) :
    Leaves (storeAll names) env (fun _ s => k ≤ s.length) R := by
  obtain ⟨stack, taken, high⟩ := take_append_of_high h
  exact (leaves_storeAll stack taken).mono (fun _ s same => same ▸ high) fun _ r => r

theorem floor_callHost {name : String} {count : Nat} (h : k + count ≤ env.stack.length) :
    Leaves (callHost name count) env (fun _ s => k + 1 ≤ s.length) R := by
  obtain ⟨stack, taken, high⟩ := take_append_of_high h
  have called : Leaves (callHost name (env.stack.take count).length) env _ R :=
    leaves_callHost stack
  rw [taken] at called
  refine called.mono ?_ fun _ r => r
  rintro _ _ ⟨v, rfl⟩
  exact Nat.succ_le_succ high

end Eval

/-! ### Nodes

By induction on the node. A loop's body may add values in every round, and the bound holds
nevertheless, since more values are never in the way. -/

variable {σ : Type}

/-- Entering a function with as many values on the stack as it has parameters pops no others, and
    leaves one value at least if the function always returns. -/
def EntersAbove (p : Program) (enter : String → Eval σ Unit) : Prop :=
  ∀ callee (env : Env σ) k,
    (∀ d, p.callee? callee = some d → k + d.params.length ≤ env.stack.length) →
      Eval.Leaves (enter callee) env
        (fun _ s => ∃ d, p.callee? callee = some d ∧ k + d.body.returns.toNat ≤ s.length)
        (fun _ => False)

section

variable {p : Program} {hosted : List String} {n : Nat} {enter : String → Eval σ Unit}

open Eval

/-- Operands add one value each. -/
theorem addsAll_of_operands {nodes : List Node} (one : ∀ node ∈ nodes, p.adds node = 1) :
    p.addsAll nodes = nodes.length := by
  induction nodes with
  | nil => rfl
  | cons node rest ih =>
      rw [Program.addsAll, one node List.mem_cons_self,
        ih fun e mem => one e (List.mem_cons_of_mem node mem), List.length_cons, Nat.add_comm]

/-- An operand adds one value. -/
theorem operand_floor {e : Node} {x : Eval σ Unit} {env : Env σ} {j k : Nat} (one : p.adds e = 1)
    (h : Leaves x env (fun _ s => j + p.adds e ≤ s.length ∧ e.returns = false)
      fun s => j + 1 ≤ s.length) (le : k ≤ j) :
    Leaves x env (fun _ s => j + 1 ≤ s.length) fun s => k + 1 ≤ s.length := by
  rw [one] at h
  exact h.mono (fun _ _ high => high.1) fun _ => Nat.le_trans (Nat.succ_le_succ le)

/-- A statement leaves as many values as it finds. -/
theorem body_floor {c : Node} {x : Eval σ Unit} {env : Env σ} {k : Nat} {R : List Value → Prop}
    (h : Leaves x env (fun _ s => k + p.adds c ≤ s.length ∧ c.returns = false) R) :
    Leaves x env (fun _ s => k ≤ s.length ∧ c.returns = false) R :=
  h.mono (fun _ _ high => ⟨Nat.le_of_add_right_le high.1, high.2⟩) fun _ r => r

mutual

/-- A node of an orderly program leaves as many values as it finds and those that it adds, unless it
    always returns, and one more than it finds if it returns. -/
theorem node_floor (enters : EntersAbove p enter) : ∀ {node : Node}, p.OrderlyIn node →
    ∀ (env : Env σ) (k : Nat),
    k ≤ env.stack.length →
      Leaves (evalNode hosted n enter node) env
        (fun _ s => k + p.adds node ≤ s.length ∧ node.returns = false) (fun s => k + 1 ≤ s.length)
  | .literal value, _, env, k, high => (floor_push high).mono (fun _ _ h => ⟨h, rfl⟩) fun _ r => r
  | .ident name, _, env, k, high => (floor_load high).mono (fun _ _ h => ⟨h, rfl⟩) fun _ r => r
  | .binary op left right, orderly, env, k, high => by
      obtain ⟨hl, l⟩ := orderly.operand left (by simp [Node.operands])
      obtain ⟨hr, r⟩ := orderly.operand right (by simp [Node.operands])
      refine leaves_bind (operand_floor l (node_floor enters hl env k high) (Nat.le_refl k)) ?_
      intro _ env₁ high₁
      refine leaves_bind (operand_floor r (node_floor enters hr env₁ _ high₁) (Nat.le_succ k)) ?_
      intro _ env₂ high₂
      exact (floor_operate high₂).mono (fun _ _ h => ⟨h, rfl⟩) fun _ r => r
  | .unary .not operand, orderly, env, k, high => by
      obtain ⟨ho, o⟩ := orderly.operand operand (by simp [Node.operands])
      refine leaves_bind (operand_floor o (node_floor enters ho env k high) (Nat.le_refl k)) ?_
      intro _ env₁ high₁
      exact (floor_negate high₁).mono (fun _ _ h => ⟨h, rfl⟩) fun _ r => r
  | .unary .neg operand, orderly, env, k, high => by
      obtain ⟨ho, o⟩ := orderly.operand operand (by simp [Node.operands])
      refine leaves_bind (operand_floor o (node_floor enters ho env k high) (Nat.le_refl k)) ?_
      intro _ env₁ high₁
      refine leaves_bind (floor_push high₁) ?_
      intro _ env₂ high₂
      exact (floor_operate high₂).mono (fun _ _ h => ⟨h, rfl⟩) fun _ r => r
  | .call callee args, orderly, env, k, high => by
      have sound : ∀ e ∈ args, p.OrderlyIn e := fun e mem => (orderly.operand e mem).1
      have one : ∀ e ∈ args, p.adds e = 1 := fun e mem => (orderly.operand e mem).2
      refine leaves_bind (nodes_floor enters sound env k high) ?_
      rintro _ env₁ ⟨high₁, _⟩
      rw [addsAll_of_operands one] at high₁
      cases hosted.contains callee with
      | true =>
          refine (floor_callHost high₁).mono (fun _ _ h => ⟨?_, rfl⟩) fun _ r => r
          exact Nat.le_trans (Nat.add_le_add_left (Bool.toNat_le _) k) h
      | false =>
          have passes := orderly.arguments _ (Node.self_mem_parts _)
          -- the arguments are the values that the callee pops, and nothing below them is touched
          refine (enters callee env₁ k fun d found => ?_).mono ?_ fun _ none => none.elim
          · rwa [← Program.arguments_of_passesAll passes found]
          · rintro _ s ⟨d, found, h⟩
            exact ⟨Nat.le_trans (Nat.add_le_add_left (Program.adds_call_le found) k) h, rfl⟩
  | .assign name value, orderly, env, k, high => by
      obtain ⟨hv, v⟩ := orderly.operand value (by simp [Node.operands])
      refine leaves_bind (operand_floor v (node_floor enters hv env k high) (Nat.le_refl k)) ?_
      intro _ env₁ high₁
      exact (floor_store high₁).mono (fun _ _ h => ⟨h, rfl⟩) fun _ r => r
  | .block children, orderly, env, k, high => by
      refine (nodes_floor enters orderly.body env k high).mono ?_ fun _ r => r
      exact fun _ _ h => ⟨Nat.le_of_add_right_le h.1, h.2⟩
  | .ifThen condition thenBranch, orderly, env, k, high => by
      obtain ⟨hc, c⟩ := orderly.operand condition (by simp [Node.operands])
      have ht := orderly.body thenBranch (by simp [Node.bodies])
      refine leaves_bind (operand_floor c (node_floor enters hc env k high) (Nat.le_refl k)) ?_
      intro _ env₁ high₁
      refine leaves_bind (floor_test high₁) ?_
      intro holds env₂ high₂
      cases holds with
      | false => exact ⟨high₂, rfl⟩
      | true =>
          have branch := body_floor (node_floor enters ht env₂ k high₂)
          exact branch.mono (fun _ _ h => ⟨h.1, rfl⟩) fun _ r => r
  | .ifElse condition thenBranch elseBranch, orderly, env, k, high => by
      obtain ⟨hc, c⟩ := orderly.operand condition (by simp [Node.operands])
      have ht := orderly.body thenBranch (by simp [Node.bodies])
      have he := orderly.body elseBranch (by simp [Node.bodies])
      refine leaves_bind (operand_floor c (node_floor enters hc env k high) (Nat.le_refl k)) ?_
      intro _ env₁ high₁
      refine leaves_bind (floor_test high₁) ?_
      intro holds env₂ high₂
      cases holds with
      | false =>
          have branch := body_floor (node_floor enters he env₂ k high₂)
          refine branch.mono (fun _ _ h => ⟨h.1, ?_⟩) fun _ r => r
          rw [Node.returns, h.2, Bool.and_false]
      | true =>
          have branch := body_floor (node_floor enters ht env₂ k high₂)
          refine branch.mono (fun _ _ h => ⟨h.1, ?_⟩) fun _ r => r
          rw [Node.returns, h.2, Bool.false_and]
  | .whileLoop condition body, orderly, env, k, high => by
      obtain ⟨hc, c⟩ := orderly.operand condition (by simp [Node.operands])
      have hb := orderly.body body (by simp [Node.bodies])
      refine leaves_loop (fun env' high' => ?_) n env high
      refine leaves_bind (operand_floor c (node_floor enters hc env' k high') (Nat.le_refl k)) ?_
      intro _ env₁ high₁
      refine leaves_bind (floor_test high₁) ?_
      intro holds env₂ high₂
      cases holds with
      | false => exact ⟨high₂, rfl⟩
      | true =>
          refine leaves_bind (body_floor (node_floor enters hb env₂ k high₂)) ?_
          exact fun _ env₃ h => ⟨h.1, rfl⟩
  | .doWhile body condition, orderly, env, k, high => by
      obtain ⟨hc, c⟩ := orderly.operand condition (by simp [Node.operands])
      have hb := orderly.body body (by simp [Node.bodies])
      refine leaves_loop (fun env' high' => ?_) n env high
      refine leaves_bind (body_floor (node_floor enters hb env' k high')) ?_
      rintro _ env₁ ⟨high₁, open₁⟩
      refine leaves_bind (operand_floor c (node_floor enters hc env₁ k high₁) (Nat.le_refl k)) ?_
      intro _ env₂ high₂
      exact (floor_test high₂).mono (fun _ _ h => ⟨h, open₁⟩) fun _ r => r
  | .forRange var start stop body, orderly, env, k, high => by
      obtain ⟨hs, s⟩ := orderly.operand start (by simp [Node.operands])
      obtain ⟨hp, q⟩ := orderly.operand stop (by simp [Node.operands])
      have hb := orderly.body body (by simp [Node.bodies])
      refine leaves_bind (operand_floor s (node_floor enters hs env k high) (Nat.le_refl k)) ?_
      intro _ env₁ high₁
      refine leaves_bind (floor_store high₁) ?_
      intro _ env₂ high₂
      refine leaves_loop (fun env' high' => ?_) n env₂ high₂
      refine leaves_bind (floor_load high') ?_
      intro _ env₃ high₃
      refine leaves_bind (operand_floor q (node_floor enters hp env₃ _ high₃) (Nat.le_succ k)) ?_
      intro _ env₄ high₄
      refine leaves_bind (floor_operate high₄) ?_
      intro _ env₅ high₅
      refine leaves_bind (floor_test high₅) ?_
      intro reached env₆ high₆
      cases reached with
      | true => exact ⟨high₆, rfl⟩
      | false =>
          refine leaves_bind (body_floor (node_floor enters hb env₆ k high₆)) ?_
          rintro _ env₇ ⟨high₇, _⟩
          refine leaves_bind (floor_increment high₇) ?_
          exact fun _ env₈ high₈ => ⟨high₈, rfl⟩
  | .function .., _, env, k, high => ⟨high, rfl⟩
  | .ret value, orderly, env, k, high => by
      obtain ⟨hv, v⟩ := orderly.operand value (by simp [Node.operands])
      refine leaves_bind (operand_floor v (node_floor enters hv env k high) (Nat.le_refl k)) ?_
      exact fun _ env₁ high₁ => high₁

/-- The same of a sequence of nodes. -/
theorem nodes_floor (enters : EntersAbove p enter) : ∀ {nodes : List Node},
    (∀ node ∈ nodes, p.OrderlyIn node) →
    ∀ (env : Env σ) (k : Nat), k ≤ env.stack.length →
      Leaves (evalNodes hosted n enter nodes) env
        (fun _ s => k + p.addsAll nodes ≤ s.length ∧ Node.returnsAny nodes = false)
        (fun s => k + 1 ≤ s.length)
  | [], _, env, k, high => ⟨high, rfl⟩
  | node :: rest, orderly, env, k, high => by
      refine leaves_bind (node_floor enters (orderly node List.mem_cons_self) env k high) ?_
      rintro _ env₁ ⟨high₁, open₁⟩
      have orderly' : ∀ e ∈ rest, p.OrderlyIn e :=
        fun e mem => orderly e (List.mem_cons_of_mem node mem)
      have others := nodes_floor enters orderly' env₁ _ high₁
      refine others.mono (fun _ s h => ⟨?_, ?_⟩) fun s returned => ?_
      · rw [Program.addsAll, ← Nat.add_assoc]
        exact h.1
      · rw [Node.returnsAny, open₁, h.2]
        rfl
      · exact Nat.le_trans (Nat.succ_le_succ (Nat.le_add_right k _)) returned

end

end

/-! ### Functions and programs

No evaluation of an orderly program lacks a value, hence no run without bounds does. A run with
bounds is such a run up to a point and then fails at a bound, which is a different error. -/

section

variable {p : Program} (orderly : p.Orderly)

include orderly

/-- Functions of an orderly program take no values but their arguments, within any number of nested
    calls. -/
theorem enterFunction_floor (hosted : List String) (n : Nat) :
    EntersAbove (σ := σ) p (enterFunction hosted p.declarations n) := by
  induction n with
  | zero => exact fun _ _ _ _ => trivial
  | succ n ih =>
      intro callee env k enough
      rw [enterFunction]
      cases found : p.callee? callee with
      | none =>
          have lookup : p.declarations.find? (·.name = callee) = none := found
          rw [lookup]
          trivial
      | some d =>
          have lookup : p.declarations.find? (·.name = callee) = some d := found
          rw [lookup]
          have body := orderly.declaration (Program.mem_of_callee found).1
          have arity : k + d.params.reverse.length ≤ env.stack.length := by
            rw [List.length_reverse]
            exact enough d found
          have entered : Eval.Leaves
              (do
                Eval.storeAll d.params.reverse
                evalNode hosted n (enterFunction hosted p.declarations n) d.body)
              { env with bindings := NameTable.empty }
              (fun _ s => k + d.body.returns.toNat ≤ s.length)
              (fun s => k + d.body.returns.toNat ≤ s.length) := by
            refine Eval.leaves_bind (Eval.floor_storeAll arity) fun _ env' high => ?_
            refine (node_floor ih body env' k high).mono (fun _ s h => ?_) fun s h => ?_
            · rw [h.2]
              exact Nat.le_of_add_right_le h.1
            · exact Nat.le_trans (Nat.add_le_add_left (Bool.toNat_le _) k) h
          exact (Eval.leaves_invoke entered).mono (fun _ s high => ⟨d, rfl, high⟩) fun _ r => r

/-- The evaluation of an orderly program finds all values that it takes. -/
theorem Program.Orderly.evaluateFor_ne (hosted : List String) (host : Builtins σ) (n : Nat)
    (env : Env σ) (op : Opcode) :
    p.evaluateFor hosted host n ≠ .error (.failed (.stackUnderflow .operand op)) env := by
  have body : ∀ c ∈ p.body, p.OrderlyIn c :=
    fun c mem => orderly.statement (List.mem_filter.1 mem).1
  have enters := enterFunction_floor (σ := σ) orderly hosted n
  have floor : Eval.Leaves (evalNodes hosted n (enterFunction hosted p.declarations n) p.body)
      ⟨[], NameTable.empty, host, []⟩ _ _ := nodes_floor enters body _ 0 (Nat.zero_le _)
  rw [Eval.Leaves] at floor
  rw [Program.evaluateFor]
  generalize evalNodes hosted n (enterFunction hosted p.declarations n) p.body
    ⟨[], NameTable.empty, host, []⟩ = outcome at floor
  intro lacks
  cases outcome with
  | ok a env' => cases lacks
  | error cause env' =>
      cases cause with
      | returned => cases lacks
      | failed e =>
          cases lacks
          exact floor op rfl
      | unfinished => cases lacks

variable {builtins : List String} {b : Bytecode} (compiled : compile builtins p = .ok b)

include compiled

/-- Nor does the machine lack values that runs its code without bounds. -/
theorem Program.Orderly.unbounded (host : Builtins σ) (n : Nat) (op : Opcode) :
    ((Machine.start b host .unbounded).after n).state.status ≠
      .failed (.stackUnderflow .operand op) := by
  intro failed
  obtain ⟨functions, start, main, h⟩ := compile_assembly compiled
  have verdict : ((Machine.start b host .unbounded).after n).verdict?
      ((Machine.start b host .unbounded).hostCalls n) =
        some (.failed (.stackUnderflow .operand op)
          ((Machine.start b host .unbounded).hostCalls n)) := by
    rw [Machine.verdict?, failed]
  have runs := Bytecode.runsTo_iff.2 ⟨n, verdict⟩
  obtain ⟨rounds, evaluated⟩ := (h.runsTo_iff_evaluateFor host _).1 runs
  cases outcome : p.evaluateFor builtins host rounds with
  | ok a env =>
      rw [outcome] at evaluated
      cases evaluated
  | error cause env =>
      rw [outcome] at evaluated
      cases cause with
      | failed e =>
          obtain ⟨rfl, _⟩ := Verdict.failed.inj (Option.some.inj evaluated)
          exact orderly.evaluateFor_ne builtins host rounds env op outcome
      | returned => cases evaluated
      | unfinished => cases evaluated

/-- An orderly program never lacks values on the operand stack, whatever the host is and whatever
    the bounds are. -/
theorem no_operand_underflow (host : Builtins σ) (limits : Limits) (n : Nat) (op : Opcode) :
    ((Machine.start b host limits).after n).outcome ≠ .error (.stackUnderflow .operand op) := by
  intro outcome
  have failed := Machine.failed_of_outcome outcome
  rcases Machine.after_under b host limits n with agree | ⟨k, before, e, bound, _, _, stopped⟩
  · rw [agree] at failed
    exact orderly.unbounded compiled host n op failed
  · have same := Machine.failed_of_le (Nat.succ_le_of_lt before) stopped
    rw [failed] at same
    cases same
    cases bound

end

/-- In `Program.leftover` a value that a called function leaves behind comes between the operands of
    its caller; they are enough all the same. -/
theorem no_operand_underflow_leftover :
    ((Machine.start .leftover (Builtins.empty ()) ⟨some 20, some 3, none⟩).after 9).state.stack =
        [.int 4, .int 10] ∧
      Program.leftover.Orderly ∧
      ((Machine.start .leftover (Builtins.empty ()) ⟨some 20, some 3, none⟩).after 9).outcome ≠
        .error (.stackUnderflow .operand .sub) :=
  have orderly : Program.leftover.Orderly := by decide +kernel
  ⟨by decide +kernel, orderly, no_operand_underflow orderly compile_leftover _ _ 9 .sub⟩

end ImpStack
