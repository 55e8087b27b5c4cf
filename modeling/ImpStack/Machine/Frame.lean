/-
Module: ImpStack.Machine.Frame
Purpose: The frames of running functions and the stack that they form. A frame has variables of its
  own and sees no other frame's.
Main exports: Frame, Frame.root, Frame.returningTo, Frame.bind, Frame.lookup?,
  Frame.variables, CallStack, CallStack.push, CallStack.pop?
-/
import ImpStack.NameTable
import ImpStack.Value

namespace ImpStack

/-- The variables of a running function and the address to go on at when it returns. -/
structure Frame where
  /-- The address after the call; the frame of the top-level statements has none. -/
  returnTo : Option Nat
  /-- The values of the variables. -/
  bindings : NameTable Value
deriving DecidableEq, Inhabited

namespace Frame

/-- The frame of the top-level statements. -/
def root : Frame := ⟨none, NameTable.empty⟩

/-- The frame of a function that was called just before an address. -/
def returningTo (address : Nat) : Frame := ⟨some address, NameTable.empty⟩

/-- The number that stands for the missing return address of the root frame: the largest one of 64
    bits, which no instruction has. -/
def rootAddress : Nat := UInt64.size - 1

/-- The frame with a return address given as a number of 64 bits. -/
def ofReturnAddress (address : Nat) : Frame :=
  if address = rootAddress then root else returningTo address

/-- Whether this is the frame of the top-level statements. -/
def isRoot (f : Frame) : Bool := f.returnTo.isNone

/-- The return address as a number of 64 bits. -/
def returnAddress (f : Frame) : Nat := f.returnTo.getD rootAddress

/-- The value of a variable. -/
def lookup? (f : Frame) (name : String) : Option Value := f.bindings.find? name

/-- Set a variable. -/
def bind (f : Frame) (name : String) (value : Value) : Frame :=
  { f with bindings := f.bindings.insert name value }

end Frame

/-- The variables as a reader outside sees them. -/
def Frame.variables (f : Frame) : NameTable Value := f.bindings

/-- The frames of the calls that have not returned yet. There is always an active one. -/
structure CallStack where
  /-- The frame of the function that runs. -/
  active : Frame
  /-- The frames that wait for it, the innermost first. -/
  callers : List Frame
  /-- The number of frames. -/
  depth : Nat
  /-- The active frame counts as well. -/
  depth_eq : depth = callers.length + 1

namespace CallStack

/-- Two stacks of the same frames are equal. -/
@[ext] theorem ext {s t : CallStack} (ha : s.active = t.active) (hc : s.callers = t.callers) :
    s = t := by
  obtain ⟨a, c, d, hd⟩ := s
  obtain ⟨a', c', d', hd'⟩ := t
  cases ha
  cases hc
  cases hd.trans hd'.symm
  rfl

/-- The stack before the first call. -/
def start : CallStack := ⟨.root, [], 1, rfl⟩

instance : Inhabited CallStack := ⟨start⟩

/-- The frames, the active one first. -/
def frames (s : CallStack) : List Frame := s.active :: s.callers

/-- The outermost frame. -/
def outermost (s : CallStack) : Frame := s.callers.getLastD s.active

/-- Replace the active frame. -/
def setActive (s : CallStack) (f : Frame) : CallStack := { s with active := f }

/-- Make a frame the active one. -/
def push (s : CallStack) (f : Frame) : CallStack :=
  ⟨f, s.active :: s.callers, s.depth + 1, by simp [s.depth_eq]⟩

/-- The active frame and the stack without it; the outermost frame is never left. -/
def pop? : CallStack → Option (Frame × CallStack)
  | ⟨_, [], _, _⟩ => none
  | ⟨active, caller :: rest, depth, h⟩ =>
    some (active, ⟨caller, rest, depth - 1, by simp [h]⟩)

end CallStack

end ImpStack
