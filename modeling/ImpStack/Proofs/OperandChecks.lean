/-
Module: ImpStack.Proofs.OperandChecks
Purpose: The static check and the machine look at operands alike. The faults of a program are listed
  in the order of their addresses, and the static check finds the first one; a machine that fetches
  an instruction complains about its operands exactly if the static check does, whatever values it
  has at hand.
Main exports: Bytecode.Faulty, Bytecode.faults, Bytecode.check_stops, Instruction.complaint?,
  Machine.step_malformed_iff, checks_agree
-/
import ImpStack.Bytecode.Check
import ImpStack.Proofs.Control
import ImpStack.Proofs.Layout
import ImpStack.Proofs.Rejection

namespace ImpStack

variable {σ : Type} {b : Bytecode} {size address : Nat} {i : Instruction}

/-! ### The faults of a program

Everything that can be wrong in a program is first said without an order, and then listed in the
order in which the check goes through it: by address, and at one address from the number of operands
to their kinds and to the target. -/

/-- What is wrong somewhere in a program. -/
inductive Bytecode.Faulty (b : Bytecode) : BytecodeError → Prop where
  /-- There are more or fewer operands than the opcode takes. -/
  | arity {address : Nat} {i : Instruction} (fetch : b.get? address = some i)
      (other : i.operands.length ≠ i.opcode.arity) :
      Faulty b (.arityMismatch address i.opcode i.opcode.arity i.operands.length)
  /-- An operand is of another kind than the opcode takes in its place. -/
  | kind {address index : Nat} {i : Instruction} {operand : Operand} {expected : OperandKind}
      (fetch : b.get? address = some i) (found : i.operands[index]? = some operand)
      (takes : i.opcode.operandKinds[index]? = some expected) (other : operand.kind ≠ expected) :
      Faulty b (.operandKind address i.opcode index expected operand.kind)
  /-- A branch leaves the program. -/
  | target {address target : Nat} {i : Instruction} (fetch : b.get? address = some i)
      (goes : i.target? = some target) (outside : b.size ≤ target) :
      Faulty b (.invalidTarget address i.opcode target b.size)
  /-- A function starts outside the program. -/
  | entry {name : String} {entry : Nat} (listed : (name, entry) ∈ b.functions.entries)
      (outside : b.size ≤ entry) : Faulty b (.invalidEntry name entry b.size)

namespace Instruction

/-- The fault in the number of an instruction's operands, if there is one. -/
def arityFaults (address : Nat) (i : Instruction) : List BytecodeError :=
  if i.operands.length = i.opcode.arity then []
  else [.arityMismatch address i.opcode i.opcode.arity i.operands.length]

/-- The faults in the kinds of operands, which the opcode takes in this order; the first operand has
    the position `index`. -/
def kindFaultsFrom (address : Nat) (op : Opcode) (index : Nat) (kinds : List OperandKind)
    (operands : List Operand) : List BytecodeError :=
  ((operands.zip kinds).zipIdx index).filterMap fun ((operand, expected), index) =>
    if operand.kind = expected then none
    else some (.operandKind address op index expected operand.kind)

/-- The faults in the kinds of an instruction's operands, from left to right. -/
def kindFaults (address : Nat) (i : Instruction) : List BytecodeError :=
  kindFaultsFrom address i.opcode 0 i.opcode.operandKinds i.operands

/-- The fault in the target of an instruction of a program of `size` instructions, if there is
    one. -/
def targetFaults (size address : Nat) (i : Instruction) : List BytecodeError :=
  match i.target? with
  | some target => if target < size then [] else [.invalidTarget address i.opcode target size]
  | none => []

/-- The faults of an instruction: first in the number of its operands, then in their kinds, then in
    its target. -/
def faults (size address : Nat) (i : Instruction) : List BytecodeError :=
  i.arityFaults address ++ (i.kindFaults address ++ i.targetFaults size address)

end Instruction

namespace Bytecode

/-- The faults of function entries in a program of `size` instructions. -/
def entryFaults (size : Nat) (entries : List (String × Nat)) : List BytecodeError :=
  entries.filterMap fun (name, entry) =>
    if entry < size then none else some (.invalidEntry name entry size)

/-- The faults of instructions that follow each other from an address on. -/
def faultsFrom (size address : Nat) (code : List Instruction) : List BytecodeError :=
  (code.zipIdx address).flatMap fun (i, address) => i.faults size address

/-- The faults of a program: those of its instructions by ascending address, then those of its
    function entries. -/
def faults (b : Bytecode) : List BytecodeError :=
  faultsFrom b.size 0 b.code.toList ++ entryFaults b.size b.functions.entries

end Bytecode

/-! ### What is listed

The list has just the faults that there are. -/

namespace Instruction

variable {e : BytecodeError}

/-- The number of operands is a fault if it is not the arity of the opcode. -/
theorem mem_arityFaults : e ∈ i.arityFaults address ↔
    i.operands.length ≠ i.opcode.arity ∧
      e = .arityMismatch address i.opcode i.opcode.arity i.operands.length := by
  rw [arityFaults]
  split <;> simp_all

/-- An operand is a fault if its kind is not the one that the opcode takes in its place. -/
theorem mem_kindFaults : e ∈ i.kindFaults address ↔
    ∃ index operand expected, i.operands[index]? = some operand ∧
      i.opcode.operandKinds[index]? = some expected ∧ operand.kind ≠ expected ∧
      e = .operandKind address i.opcode index expected operand.kind := by
  simp only [kindFaults, kindFaultsFrom, List.mem_filterMap, Prod.exists,
    List.mem_zipIdx_iff_getElem?, List.getElem?_zip_eq_some, Option.ite_none_left_eq_some,
    Option.some.injEq]
  constructor
  · rintro ⟨operand, expected, index, ⟨found, takes⟩, other, rfl⟩
    exact ⟨index, operand, expected, found, takes, other, rfl⟩
  · rintro ⟨index, operand, expected, found, takes, other, rfl⟩
    exact ⟨operand, expected, index, ⟨found, takes⟩, other, rfl⟩

/-- A target is a fault if it is not an address of the program. -/
theorem mem_targetFaults : e ∈ i.targetFaults size address ↔
    ∃ target, i.target? = some target ∧ size ≤ target ∧
      e = .invalidTarget address i.opcode target size := by
  rw [targetFaults]
  cases i.target? with
  | none => simp
  | some target =>
      by_cases inside : target < size
      · simp [inside, Nat.not_le_of_lt inside]
      · simp [inside, Nat.le_of_not_lt inside]

end Instruction

/-- The list holds exactly what is wrong. -/
theorem Bytecode.mem_faults {e : BytecodeError} : e ∈ b.faults ↔ b.Faulty e := by
  simp only [faults, faultsFrom, entryFaults, List.mem_append, List.mem_flatMap, Prod.exists,
    List.mem_zipIdx_iff_getElem?, List.mem_filterMap, Option.ite_none_left_eq_some,
    Option.some.injEq, Instruction.faults, Instruction.mem_arityFaults,
    Instruction.mem_kindFaults, Instruction.mem_targetFaults, Array.getElem?_toList]
  constructor
  · rintro (⟨i, address, fetch, ⟨other, rfl⟩ | ⟨index, operand, expected, found, takes, other, rfl⟩
      | ⟨target, goes, outside, rfl⟩⟩ | ⟨name, entry, listed, outside, rfl⟩)
    · exact .arity fetch other
    · exact .kind fetch found takes other
    · exact .target fetch goes outside
    · exact .entry listed (Nat.le_of_not_lt outside)
  · intro faulty
    cases faulty with
    | arity fetch other => exact Or.inl ⟨_, _, fetch, Or.inl ⟨other, rfl⟩⟩
    | kind fetch found takes other =>
        exact Or.inl ⟨_, _, fetch, Or.inr (Or.inl ⟨_, _, _, found, takes, other, rfl⟩)⟩
    | target fetch goes outside =>
        exact Or.inl ⟨_, _, fetch, Or.inr (Or.inr ⟨_, goes, outside, rfl⟩)⟩
    | entry listed outside => exact Or.inr ⟨_, _, listed, Nat.not_lt_of_le outside, rfl⟩

/-! ### The static check

The check stops at the first fault in the list, part by part: passing a part means that its list is
empty, and what is reported otherwise is its head. -/

namespace Bytecode

/-- The operand that the check finds is the first one of another kind. -/
theorem head?_kindFaultsFrom (address : Nat) (op : Opcode) (kinds : List OperandKind)
    (operands : List Operand) :
    ∀ index, (Instruction.kindFaultsFrom address op index kinds operands).head? =
      (mismatch? index kinds operands).map fun (index, expected, found) =>
        .operandKind address op index expected found := by
  induction kinds generalizing operands with
  | nil =>
      intro index
      cases operands <;> rfl
  | cons kind kinds ih =>
      intro index
      cases operands with
      | nil => rfl
      | cons operand operands =>
          rw [mismatch?]
          by_cases same : operand.kind = kind
          · rw [if_pos same, ← ih operands (index + 1)]
            simp [Instruction.kindFaultsFrom, same]
          · rw [if_neg same]
            simp [Instruction.kindFaultsFrom, same]

theorem checkInstruction_stops (size address : Nat) (i : Instruction) :
    StopsAt (i.faults size address) (checkInstruction size address i) := by
  have first := head?_kindFaultsFrom address i.opcode i.opcode.operandKinds i.operands 0
  rw [Instruction.faults, Instruction.arityFaults, Instruction.kindFaults, checkInstruction]
  by_cases arity : i.operands.length = i.opcode.arity
  · rw [if_pos arity, if_neg (not_not_intro arity), List.nil_append]
    cases mismatch : mismatch? 0 i.opcode.operandKinds i.operands with
    | some found =>
        rw [mismatch] at first
        obtain ⟨others, listed⟩ := List.head?_eq_some_iff.1 first
        rw [listed]
        exact .error _ _
    | none =>
        rw [mismatch] at first
        rw [List.head?_eq_none_iff.1 first, List.nil_append, Instruction.targetFaults]
        cases i.target? with
        | none => exact .ok ()
        | some target =>
            by_cases inside : target < size
            · simp only [if_pos inside]
              exact .ok ()
            · simp only [if_neg inside]
              exact .error _ _
  · rw [if_neg arity, if_pos arity]
    exact .error _ _

/-- The check of the instructions stops at the first fault by address. -/
theorem checkFrom_stops (size : Nat) (code : List Instruction) :
    ∀ address, StopsAt (faultsFrom size address code) (checkFrom size address code) := by
  induction code with
  | nil => exact fun _ => .ok ()
  | cons i rest ih =>
      intro address
      exact (checkInstruction_stops size address i).bind fun _ _ => ih (address + 1)

/-- The check of the entries stops at the first one outside of the program. -/
theorem checkEntries_stops (size : Nat) (entries : List (String × Nat)) :
    StopsAt (entryFaults size entries) (checkEntries size entries) := by
  induction entries with
  | nil => exact .ok ()
  | cons listed rest ih =>
      obtain ⟨name, entry⟩ := listed
      rw [entryFaults, checkEntries, List.filterMap_cons]
      by_cases inside : entry < size
      · simp only [if_pos inside]
        exact ih
      · simp only [if_neg inside]
        exact .error _ _

/-- The static check stops at the first fault of the list. -/
theorem check_stops (b : Bytecode) : StopsAt b.faults b.check :=
  (checkFrom_stops b.size b.code.toList 0).bind fun _ _ =>
    checkEntries_stops b.size b.functions.entries

end Bytecode

/-! ### What a machine complains about

A machine looks at operands on its own when it decodes an instruction. It finds a mismatch exactly
where the static check does, and it finds it before it takes a value from the stack. -/

/-- What a machine says of the operands of an instruction, if it cannot do with them. -/
def Instruction.complaint? (i : Instruction) : Option String :=
  if i.operands.length = i.opcode.arity then
    (Bytecode.mismatch? 0 i.opcode.operandKinds i.operands).map fun (_, expected, found) =>
      "expected " ++ expected.text ++ " operand, found " ++ found.text
  else some ("expected " ++ toString i.opcode.arity ++ " operand(s), found " ++
    toString i.operands.length)

/-- Whether a fault is one of operands: of their number or of their kinds. -/
def BytecodeError.OfOperands : BytecodeError → Prop
  | .arityMismatch .. => True
  | .operandKind .. => True
  | _ => False

/-- The static check refuses the operands of an instruction exactly if a machine complains about
    them. -/
theorem Instruction.complaint?_isSome_iff (size address : Nat) :
    (∃ reason, i.complaint? = some reason) ↔
      ∃ e, Bytecode.checkInstruction size address i = .error e ∧ e.OfOperands := by
  rw [complaint?, Bytecode.checkInstruction]
  by_cases arity : i.operands.length = i.opcode.arity
  · rw [if_pos arity, if_neg (not_not_intro arity)]
    cases Bytecode.mismatch? 0 i.opcode.operandKinds i.operands with
    | some found => exact iff_of_true ⟨_, rfl⟩ ⟨_, rfl, trivial⟩
    | none =>
        refine iff_of_false (by simp) ?_
        rintro ⟨e, refused, ofOperands⟩
        simp only [] at refused
        split at refused
        · split at refused <;> cases refused
          exact ofOperands
        · cases refused
  · rw [if_neg arity, if_pos arity]
    exact iff_of_true ⟨_, rfl⟩ ⟨_, rfl, trivial⟩

/-- Without a complaint the operands are of the kinds that the opcode takes. -/
theorem Instruction.kinds_of_complaint? (none : i.complaint? = none) :
    i.operands.length = i.opcode.arity ∧ i.operands.map Operand.kind = i.opcode.operandKinds := by
  rw [complaint?] at none
  by_cases arity : i.operands.length = i.opcode.arity
  · rw [if_pos arity, Option.map_eq_none_iff] at none
    exact ⟨arity, kinds_of_mismatch arity none⟩
  · rw [if_neg arity] at none
    cases none

/-- The operand that the check finds has another kind than the opcode takes in its place, and those
before it have the kinds that it takes. -/
theorem Bytecode.mismatch?_eq_some {kinds : List OperandKind} {operands : List Operand}
    {expected found : OperandKind} {index : Nat} :
    ∀ {start : Nat}, mismatch? start kinds operands = some (index, expected, found) →
      ∃ (k : Nat) (operand : Operand), kinds[k]? = some expected ∧ operands[k]? = some operand ∧
        operand.kind ≠ expected ∧ found = operand.kind ∧
        ∀ j < k, operands[j]?.map Operand.kind = kinds[j]? := by
  induction kinds generalizing operands with
  | nil =>
      intro start h
      cases operands <;> cases h
  | cons kind kinds ih =>
      intro start h
      cases operands with
      | nil => cases h
      | cons operand operands =>
          rw [mismatch?] at h
          by_cases same : operand.kind = kind
          · rw [if_pos same] at h
            obtain ⟨k, other, takes, here, differs, found, before⟩ := ih h
            refine ⟨k + 1, other, takes, here, differs, found, fun j below => ?_⟩
            cases j with
            | zero => exact congrArg some same
            | succ j => exact before j (Nat.lt_of_succ_lt_succ below)
          · rw [if_neg same] at h
            cases h
            exact ⟨0, operand, rfl, rfl, same, rfl, fun j below => absurd below (Nat.not_lt_zero j)⟩

namespace Handler

open Exec

variable {α β : Type} {operands : List Operand}

/-- An operand of another kind is not decoded. -/
theorem operand_other {index : Nat} {expected : OperandKind} {read? : Operand → Option α}
    {found : Operand} (here : operands[index]? = some found) (unread : read? found = none)
    (s : State σ) :
    operand index expected read? operands s =
      malformed ("expected " ++ expected.text ++ " operand, found " ++ found.kind.text) s := by
  simp only [operand_apply, here, unread]

/-- Nothing is done after the complaint. -/
theorem bind_malformed {x : Exec σ α} (f : α → Exec σ β) {s : State σ} {reason : String}
    (h : x s = malformed reason s) : (x >>= f) s = malformed reason s := by
  rw [bind_apply, h]
  rfl

theorem value?_eq_none {o : Operand} (h : o.kind ≠ .value) : o.value? = none := by
  cases o with
  | value v => exact absurd rfl h
  | _ => rfl

theorem name?_eq_none {o : Operand} (h : o.kind ≠ .name) : o.name? = none := by
  cases o with
  | name s => exact absurd rfl h
  | _ => rfl

theorem address?_eq_none {o : Operand} (h : o.kind ≠ .address) : o.address? = none := by
  cases o with
  | address a => exact absurd rfl h
  | _ => rfl

theorem count?_eq_none {o : Operand} (h : o.kind ≠ .count) : o.count? = none := by
  cases o with
  | count n => exact absurd rfl h
  | _ => rfl

/-- A handler decodes its operands from left to right before it does anything else. -/
theorem ofOpcode_mismatch {op : Opcode} {index : Nat} {expected found : OperandKind}
    (h : Bytecode.mismatch? 0 op.operandKinds operands = some (index, expected, found))
    (s : State σ) :
    ofOpcode op operands s =
      malformed ("expected " ++ expected.text ++ " operand, found " ++ found.text) s := by
  obtain ⟨k, other, takes, here, differs, rfl, before⟩ := Bytecode.mismatch?_eq_some h
  cases op with
  | push =>
      match k, takes with
      | 0, rfl => exact bind_malformed _ (operand_other here (value?_eq_none differs) s)
  | jump | jumpIf | call =>
      match k, takes with
      | 0, rfl => exact bind_malformed _ (operand_other here (address?_eq_none differs) s)
  | load | store =>
      match k, takes with
      | 0, rfl => exact bind_malformed _ (operand_other here (name?_eq_none differs) s)
  | func =>
      match k, takes with
      | 0, rfl => exact bind_malformed _ (operand_other here (name?_eq_none differs) s)
      | 1, rfl =>
          obtain ⟨first, here', kind⟩ := Option.map_eq_some_iff.1 (before 0 Nat.one_pos)
          cases first with
          | name name =>
              have decoded : nameOperand operands s = .ok name s := by
                rw [nameOperand, operand_apply, here']
                rfl
              show (nameOperand operands >>= _) s = _
              rw [bind_apply, decoded]
              exact bind_malformed _ (operand_other here (count?_eq_none differs) s)
          | _ => cases kind
  | _ => cases takes

end Handler

namespace Machine

variable {m : Machine σ}

/-- A machine fails with a complaint, at the address and with the opcode of the instruction that it
    has fetched, exactly if it has one about its operands. -/
theorem step_malformed_iff (table : m.table = .standard) (running : m.state.status = .running)
    (left : m.state.stepLimit? = none) (fetch : m.program.get? m.state.ip = some i)
    (address : Nat) (opcode : Opcode) (reason : String) :
    m.step.outcome = .error (.malformedInstruction address opcode reason) ↔
      address = m.state.ip ∧ opcode = i.opcode ∧ i.complaint? = some reason := by
  cases complaint : i.complaint? with
  | some text =>
      have step : m.step = m.settle (Exec.malformed text (fetched m.state i)) := by
        rw [step_of_running running, execute_apply, left, fetch, table]
        simp only [InstructionTable.resolve_standard]
        rw [Instruction.complaint?] at complaint
        by_cases arity : i.operands.length = i.opcode.arity
        · rw [if_pos arity] at complaint ⊢
          obtain ⟨⟨index, expected, found⟩, mismatch, rfl⟩ := Option.map_eq_some_iff.1 complaint
          rw [Handler.ofOpcode_mismatch mismatch]
        · rw [if_neg arity] at complaint ⊢
          rw [Option.some.inj complaint]
      have outcome : m.step.outcome =
          .error (.malformedInstruction m.state.ip i.opcode text) := by
        rw [step]
        rfl
      rw [outcome]
      simp only [Except.error.injEq, RuntimeError.malformedInstruction.injEq, Option.some.injEq]
      exact and_congr eq_comm (and_congr eq_comm Iff.rfl)
  | none =>
      refine iff_of_false (fun failed => ?_) fun h => nomatch h.2.2
      obtain ⟨arity, kinds⟩ := Instruction.kinds_of_complaint? complaint
      obtain ⟨t, result, -⟩ := execute_of_failed table running (failed_of_outcome failed)
      rw [execute_apply, left, fetch] at result
      simp only [InstructionTable.resolve_standard, if_pos arity] at result
      rcases Handler.ofOpcode_error result with fault | ⟨_, other⟩ | ⟨_, other⟩ | ⟨-, -, other⟩
      · exact fault.not_malformed kinds _ _ _ rfl
      · cases other
      · cases other
      · cases other

end Machine

/-! ### The two checks

Put together: what the static check accepts is never called malformed, and what it refuses for its
operands is called malformed as soon as it is fetched. -/

/-- The static check and the machine agree about operands. With the standard handlers a machine that
    gets to fetch an instruction, whatever its stacks and variables are, complains about its
    operands exactly if the static check refuses their number or their kinds, and it names the
    instruction's address and opcode. The static check as a whole finds the first of all faults: by
    ascending address, in an instruction first the number of operands, then their kinds, then the
    target, and function entries last. -/
theorem checks_agree (b : Bytecode) :
    (∀ {σ : Type} {m : Machine σ} {i : Instruction}, m.program = b → m.table = .standard →
      m.state.status = .running → m.state.stepLimit? = none → b.get? m.state.ip = some i →
        ((∃ address opcode reason,
            m.step.outcome = .error (.malformedInstruction address opcode reason)) ↔
          ∃ e, Bytecode.checkInstruction b.size m.state.ip i = .error e ∧ e.OfOperands) ∧
        ∀ address opcode reason,
          m.step.outcome = .error (.malformedInstruction address opcode reason) →
            address = m.state.ip ∧ opcode = i.opcode) ∧
      (∀ e, e ∈ b.faults ↔ b.Faulty e) ∧ (b.check = .ok () ↔ b.faults = []) ∧
      ∀ e, b.check = .error e ↔ b.faults.head? = some e := by
  refine ⟨?_, fun e => Bytecode.mem_faults, ?_, b.check_stops.error_iff⟩
  · intro σ m i program table running left fetch
    subst program
    -- both sides come to whether there is a complaint
    have complains := Machine.step_malformed_iff table running left fetch
    refine ⟨?_, fun address opcode reason failed => ?_⟩
    · rw [← i.complaint?_isSome_iff]
      constructor
      · rintro ⟨address, opcode, reason, failed⟩
        exact ⟨reason, ((complains address opcode reason).1 failed).2.2⟩
      · rintro ⟨reason, complaint⟩
        exact ⟨_, _, reason, (complains _ _ reason).2 ⟨rfl, rfl, complaint⟩⟩
    · obtain ⟨place, same, -⟩ := (complains address opcode reason).1 failed
      exact ⟨place, same⟩
  · rw [← b.check_stops.ok_iff]
    exact ⟨fun checked => ⟨(), checked⟩, fun ⟨(), checked⟩ => checked⟩

/-- A conditional jump to a name, before a push of nothing and with a function that starts
    elsewhere. -/
def Bytecode.misfitting : Bytecode :=
  ⟨#[⟨.jumpIf, [.name "x"]⟩, ⟨.push, []⟩], NameTable.ofList [("f", 9)]⟩

/-- The machine complains about the name before it misses the condition on its empty stack. -/
theorem checks_agree_misfitting :
    (∃ address opcode reason,
      (Machine.start .misfitting (Builtins.empty ()) .unbounded).step.outcome =
        .error (.malformedInstruction address opcode reason)) ∧
    Bytecode.misfitting.check = .error (.operandKind 0 .jumpIf 0 .address .name) := by
  obtain ⟨agree, -, -, first⟩ := checks_agree .misfitting
  obtain ⟨complains, -⟩ := agree (m := .start .misfitting (Builtins.empty ()) .unbounded)
    rfl rfl rfl rfl rfl
  exact ⟨complains.2 ⟨_, rfl, trivial⟩, (first _).2 rfl⟩

end ImpStack
