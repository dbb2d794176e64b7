import ClosureMachine.Heap.Word

/-!
# The control stack

Frames that are waiting, the innermost first. The stack knows how many there are, because the machine
reports the greatest depth it has reached and asks for the depth at every call.
-/

set_option autoImplicit false

namespace ClosureMachine

/-- A stack of frames together with its depth. -/
structure ControlStack where
  /-- The frames, the innermost first. -/
  frames : List Ref
  depth : Nat
  depth_eq : depth = frames.length
deriving DecidableEq, Repr

namespace ControlStack

/-- The stack of the given frames. -/
def ofList (frames : List Ref) : ControlStack := ⟨frames, frames.length, rfl⟩

/-- No frames. -/
def empty : ControlStack := ofList []

instance : Inhabited ControlStack := ⟨empty⟩

/-- The stack with another frame innermost. -/
def push (c : ControlStack) (frame : Ref) : ControlStack :=
  ⟨frame :: c.frames, c.depth + 1, by simp [c.depth_eq]⟩

/-- The stack without the innermost frame. -/
def tail (c : ControlStack) : ControlStack :=
  ⟨c.frames.tail, c.depth - 1, by simp [c.depth_eq]⟩

@[simp] theorem frames_ofList (frames : List Ref) : (ofList frames).frames = frames := rfl

@[simp] theorem frames_push (c : ControlStack) (frame : Ref) :
    (c.push frame).frames = frame :: c.frames := rfl

@[simp] theorem frames_tail (c : ControlStack) : c.tail.frames = c.frames.tail := rfl

/-- Stacks of the same frames are the same. -/
theorem ext_frames {c d : ControlStack} (h : c.frames = d.frames) : c = d := by
  obtain ⟨_, _, rfl⟩ := c
  obtain ⟨_, _, rfl⟩ := d
  subst h
  rfl

end ControlStack

end ClosureMachine
