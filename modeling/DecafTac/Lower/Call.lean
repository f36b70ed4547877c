import DecafTac.Lower.State

/-!
Calls. All arguments have their values before the first is pushed; they are pushed from the last to the
first, a receiver after them, and taken off again right after the call.
-/
namespace DecafTac.Lower

/-- Pushes parameters in the given order. -/
def pushAll : List Location → Emit Unit
  | [] => return ()
  | param :: rest => do
    Emitter.pushParam param
    pushAll rest

/-- A call through the method table of the receiver. -/
def callMethod (layouts : Layouts) (receiver : Value) (name : String) (args : List Value) :
    Lower (Option Value) := do
  let layout ← layoutOf layouts receiver
  let slot ← ofOption (.unknownMember layout.name name) (layout.methodSlot? name)
  let result := (layout.memberType? name).getD .void
  let s ← shape
  let dst ← emit do
    let table ← Emitter.load receiver.loc 0
    let method ← Emitter.load table (slotBytes s.slotSize slot)
    pushAll (args.reverse.map Value.loc ++ [receiver.loc])
    let dst ← Emitter.callAddress method !result.isVoid
    Emitter.popParams (slotBytes s.slotSize (args.length + 1))
    return dst
  return dst.map (⟨·, result⟩)

/-- A call of a top-level function. -/
def callFunction (layouts : Layouts) (name : String) (args : List Value) :
    Lower (Option Value) := do
  let function ← ofOption (.unboundName name) (layouts.functions.function? name)
  let result := (layouts.functions.resultType? name).getD .void
  let s ← shape
  let dst ← emit do
    pushAll (args.reverse.map Value.loc)
    let dst ← Emitter.callLabel function.label !result.isVoid
    Emitter.popParams (slotBytes s.slotSize args.length)
    return dst
  return dst.map (⟨·, result⟩)

/-- A call with no receiver written. Within a method, a method of the class is called on `this`. -/
def callBare (layouts : Layouts) (name : String) (args : Lower (List Value)) :
    Lower (Option Value) := do
  let s ← get
  let values ← args
  match s.method with
  | some method =>
    if method.layout.hasMethod name then callMethod layouts method.this name values
    else callFunction layouts name values
  | none => callFunction layouts name values

/-- A call on a receiver. An array answers `length` with no arguments itself. -/
def callOn (layouts : Layouts) (receiver : Lower Value) (name : String) (noArgs : Bool)
    (args : Lower (List Value)) : Lower (Option Value) := do
  let object ← receiver
  if object.tag.isArray && name == "length" && noArgs then
    return some ⟨← emit (Emitter.load object.loc 0), .int⟩
  else
    callMethod layouts object name (← args)

/-- The value of a call that must give one. -/
def needed (name : String) (call : Lower (Option Value)) : Lower Value := do
  ofOption (.voidValue name) (← call)

end DecafTac.Lower
