import DecafTac.Lower.Operator
import DecafTac.Storage.ClassLayout

/-!
Objects and arrays. An object starts with the address of the method table of its class, an array with
its length. A new array must not have a negative size, and an index must lie in the array; otherwise
the program says so and stops.
-/
namespace DecafTac.Lower

/-- What a program says before it stops at a bad index. -/
def badIndex : String := "Decaf runtime error: Array subscript out of bounds\n"

/-- What a program says before it stops at a bad array size. -/
def badSize : String := "Decaf runtime error: Array size is negative\n"

/-- Says why, and stops. -/
def stop (message : String) : Emit Unit := do
  let text ← Emitter.loadString message
  Emitter.issue (.callRoutine .printString [text] none)
  Emitter.issue (.callRoutine .halt [] none)

/-- Stops unless the test is zero. -/
def stopUnlessZero (test : Location) (message : String) : Emit Unit := do
  let fine ← Emitter.freshLabel
  Emitter.jumpIfZero test fine
  stop message
  Emitter.label fine

/-- A new object of a class, known by the name it was asked for. -/
def newObject (layout : ClassLayout) (cls : String) : Emit Value := do
  let e ← Emission.get
  let size ← Emitter.loadInt (layout.instanceSize e.shape)
  let object ← request .alloc [size]
  let table ← Emitter.loadLabel layout.name
  Emitter.store object table 0
  return ⟨object, .object cls⟩

/-- A new array. Room is asked for one slot more than there are elements. -/
def newArray (size : Value) (element : Tag) : Emit Value := do
  let e ← Emission.get
  let zero ← Emitter.loadInt 0
  let negative ← Emitter.binary .less size.loc zero
  stopUnlessZero negative badSize
  let one ← Emitter.loadInt 1
  let count ← Emitter.binary .add one size.loc
  let width ← Emitter.loadInt e.shape.slotSize
  let bytes ← Emitter.binary .mul count width
  let array ← request .alloc [bytes]
  Emitter.store array size.loc 0
  return ⟨array, .array element⟩

/-- The address to which the header is added to find an element. The index is checked first: it must
be below the length and not below zero. -/
def elementAddress (array index : Value) : Emit Location := do
  let e ← Emission.get
  let length ← Emitter.load array.loc 0
  let tooBig ← either (Emitter.binary .less length index.loc) (Emitter.binary .equal length index.loc)
  let zero ← Emitter.loadInt 0
  let negative ← Emitter.binary .less index.loc zero
  let outside ← Emitter.binary .or tooBig negative
  stopUnlessZero outside badIndex
  let width ← Emitter.loadInt e.shape.slotSize
  let scaled ← Emitter.binary .mul index.loc width
  Emitter.binary .add array.loc scaled

end DecafTac.Lower
