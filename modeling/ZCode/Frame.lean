/-
  Call frames: locals, an evaluation stack, and where a routine returns to.
-/
import ZCode.Stray

namespace ZCode

/-- The frame of one call. -/
structure Frame where
  locals : List UInt16 := []
  /-- The evaluation stack, its top first. -/
  stack : List UInt16 := []
  returnTo : Address := 0
  /-- The variable that receives the result, if one does. -/
  store : Option UInt8 := none
  deriving DecidableEq, Repr, Inhabited

namespace Frame

/-- The greatest depth of an evaluation stack. -/
def maxStack : Nat := 1024

/-- The greatest number of locals. -/
def maxLocals : Nat := 15

def push (f : Frame) (v : UInt16) : Except Fault Frame :=
  if maxStack ≤ f.stack.length then .error (.machine .stackOverflow)
  else .ok { f with stack := v :: f.stack }

/-- The top of the stack and the frame without it. -/
def pop (f : Frame) : Except Fault (UInt16 × Frame) :=
  match f.stack with
  | [] => .error (.machine .popFromEmptyStack)
  | v :: rest => .ok (v, { f with stack := rest })

/-- The top of the stack. -/
def peek (f : Frame) : Except Fault UInt16 :=
  match f.stack with
  | [] => .error (.machine .stackUnderflow)
  | v :: _ => .ok v

/-- Replaces the top of the stack. -/
def setTop (f : Frame) (v : UInt16) : Except Fault Frame :=
  match f.stack with
  | [] => .error (.machine .stackUnderflow)
  | _ :: rest => .ok { f with stack := v :: rest }

/-- Whether the frame has local `n`, counted from 1. -/
def checkLocal (f : Frame) (n : UInt8) : Except Fault Unit :=
  if n < 1 ∨ maxLocals < n.toNat then .error (.machine (.localRange n))
  else if f.locals.length < n.toNat then
    .error (.machine (.undeclaredLocal n f.locals.length))
  else .ok ()

/-- The frame with `v` in local `n`. -/
def putLocal [Stray] (f : Frame) (n : UInt8) (v : UInt16) : Frame :=
  { f with locals :=
      if n.toNat - 1 < f.locals.length then f.locals.set (n.toNat - 1) v else Stray.words f.locals }

/-- A local that is not there is not changed. -/
theorem putLocal_eq (f : Frame) (n : UInt8) (v : UInt16) :
    f.putLocal n v = { f with locals := f.locals.set (n.toNat - 1) v } := by
  unfold putLocal
  split
  · rfl
  · rw [List.set_eq_of_length_le (Nat.not_lt.1 ‹_›)]
    rfl

def getLocal [Stray] (f : Frame) (n : UInt8) : Except Fault UInt16 := do
  f.checkLocal n
  return f.locals.getD (n.toNat - 1) Stray.word

def setLocal [Stray] (f : Frame) (n : UInt8) (v : UInt16) : Except Fault Frame := do
  f.checkLocal n
  return f.putLocal n v

end Frame

/-- The frames of a running story.  There is always a current one. -/
structure CallStack where
  current : Frame := {}
  /-- The frames of the callers, the nearest first. -/
  callers : List Frame := []
  deriving DecidableEq, Repr, Inhabited

namespace CallStack

/-- The greatest number of frames. -/
def maxDepth : Nat := 1024

def depth (c : CallStack) : Nat := c.callers.length + 1

/-- All frames, the outermost first. -/
def frames (c : CallStack) : List Frame := (c.current :: c.callers).reverse

/-- The call stack of some frames, the outermost first.  There must be one. -/
def ofFrames [Stray] (frames : List Frame) : CallStack :=
  match frames.reverse with
  | [] => { current := { locals := Stray.words [], stack := Stray.words [], returnTo := Stray.address } }
  | current :: callers => ⟨current, callers⟩

def push (c : CallStack) (f : Frame) : Except Fault CallStack :=
  if maxDepth ≤ c.depth then .error (.machine .callStackOverflow)
  else .ok ⟨f, c.current :: c.callers⟩

/-- The current frame and the call stack without it.  The outermost frame stays. -/
def pop (c : CallStack) : Except Fault (Frame × CallStack) :=
  match c.callers with
  | [] => .error (.machine .returnFromMain)
  | caller :: callers => .ok (c.current, ⟨caller, callers⟩)

end CallStack

end ZCode
