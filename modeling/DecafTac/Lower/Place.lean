import DecafTac.Lower.Heap
import DecafTac.Lower.State

/-!
Places: what an expression names. A variable is its own storage; a field or an element is a word of
memory; anything else is a value with no storage of its own. Reading a variable issues nothing.
-/
namespace DecafTac.Lower

inductive Place where
  /-- A local, a formal or a global. -/
  | variable (name : String) (value : Value)
  /-- The word at an address with an offset. -/
  | memory (addr : Location) (offset : Int) (tag : Tag)
  /-- A computed value. -/
  | computed (value : Value)

/-- A field of an object that is laid out by `layout`. -/
def fieldPlace (layout : ClassLayout) (object : Location) (field : String) : Lower Place := do
  let offset ← ofOption (.unknownMember layout.name field) (layout.fieldOffset? field)
  let s ← shape
  return .memory object (wrap32 (s.headerSize + offset)) ((layout.memberType? field).getD .error)

/-- What a bare name means: a binding of the function, a field of the receiver, or a global. -/
def namePlace (name : String) : Lower Place := do
  let s ← get
  match s.bindings.lookup name with
  | some value => return .variable name value
  | none =>
    match s.method with
    | some method =>
      if method.layout.hasField name then fieldPlace method.layout method.this.loc name
      else globalPlace s
    | none => globalPlace s
where
  globalPlace (s : LowerState) : Lower Place :=
    match s.globals.lookup name with
    | some value => pure (.variable name value)
    | none => fail (.unboundName name)

/-- A field of a value. -/
def memberPlace (layouts : Layouts) (object : Value) (field : String) : Lower Place := do
  let layout ← layoutOf layouts object
  fieldPlace layout object.loc field

/-- An element of an array. -/
def elementPlace (array index : Value) : Lower Place := do
  let addr ← emit (elementAddress array index)
  let s ← shape
  return .memory addr s.headerSize (array.tag.element?.getD .error)

/-- The value at a place. -/
def read : Place → Lower Value
  | .variable _ value | .computed value => pure value
  | .memory addr offset tag => do return ⟨← emit (Emitter.load addr offset), tag⟩

/-- Stores a value at a place. A variable that is given an object takes its tag. -/
def write (place : Place) (value : Value) : Lower Unit :=
  match place with
  | .variable name dst => do
    emit (Emitter.assign dst.loc value.loc)
    if value.tag.className?.isSome then modify (LowerState.retag · name value.tag)
  | .memory addr offset _ => emit (Emitter.store addr value.loc offset)
  | .computed dst => emit (Emitter.assign dst.loc value.loc)

end DecafTac.Lower
