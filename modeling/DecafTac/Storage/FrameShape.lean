/-!
The shape of frames and objects on the target, in bytes. Parameters lie above the frame pointer and
locals below it, each in a slot of one width; objects and arrays start with a header.

Numbers of the target are signed and have 32 bits, and arithmetic on them wraps around. Where a slot lies
is its position, which is counted exactly; the number that the target has for it is its offset.
-/
namespace DecafTac

/-- What is left of a number in 32 bits. -/
def wrap32 (n : Int) : Int := Int.bmod n (Nat.pow 2 32)

/-- The bytes of some slots of one width, as the target counts them. -/
def slotBytes (slotSize : Int) (count : Nat) : Int := wrap32 (slotSize * wrap32 count)

structure FrameShape where
  /-- Width of a variable, a parameter, a field or an entry of a method table. -/
  slotSize : Int := 4
  /-- Offset of the first local from the frame pointer. -/
  firstLocal : Int := -8
  /-- Offset of the first parameter from the frame pointer. -/
  firstParam : Int := 4
  /-- Offset of the first global from the global pointer. -/
  firstGlobal : Int := 0
  /-- Width of the header of an object or an array. -/
  headerSize : Int := 4
  deriving DecidableEq, Inhabited

namespace FrameShape

/-! ## Positions -/

/-- Locals grow downward. -/
def localPosition (shape : FrameShape) (index : Int) : Int := shape.firstLocal - shape.slotSize * index

def paramPosition (shape : FrameShape) (index : Int) : Int := shape.firstParam + shape.slotSize * index

def globalPosition (shape : FrameShape) (index : Int) : Int :=
  shape.firstGlobal + shape.slotSize * index

/-! ## Offsets -/

def localOffset (shape : FrameShape) (index : Nat) : Int :=
  wrap32 (shape.firstLocal - slotBytes shape.slotSize index)

def paramOffset (shape : FrameShape) (index : Nat) : Int :=
  wrap32 (shape.firstParam + slotBytes shape.slotSize index)

def globalOffset (shape : FrameShape) (index : Nat) : Int :=
  wrap32 (shape.firstGlobal + slotBytes shape.slotSize index)

end FrameShape

end DecafTac
