import DecafTac.Source.Tree
import DecafTac.Storage.FrameShape
import DecafTac.Storage.Tag

/-!
How the objects of one class are laid out. Fields follow one another after the header, and are counted;
each method has a slot in the method table of the class, which holds the label of the function to call. A
subclass starts from the layout of its superclass, so what it inherits keeps its offset and its slot.

Types of members share one table of names with the element types of array members, which stand under
the name with `_elem` behind it.
-/
namespace DecafTac

/-- Adds the type of a name, and its element type when it is an array. Later entries come first. -/
def recordType (types : List (String × Tag)) (name : String) (type : TypeExpr) :
    List (String × Tag) :=
  let tag := Tag.ofType type
  match tag.element? with
  | some element => (name, tag) :: (name ++ "_elem", element) :: types
  | none => (name, tag) :: types

structure ClassLayout where
  name : String
  /-- Offsets of fields after the header. -/
  fields : List (String × Int) := []
  /-- The number of fields. -/
  fieldCount : Nat := 0
  /-- Slots of methods in the table. -/
  methods : List (String × Nat) := []
  /-- The method table: labels by slot. -/
  table : List String := []
  /-- Types of fields, result types of methods, and element types. -/
  types : List (String × Tag) := []
  deriving DecidableEq, Inhabited

namespace ClassLayout

/-- The label of a method that a class declares. -/
def methodLabel (cls method : String) : String := "_" ++ cls ++ "." ++ method

def fieldOffset? (layout : ClassLayout) (field : String) : Option Int := layout.fields.lookup field

def hasField (layout : ClassLayout) (field : String) : Bool := (layout.fieldOffset? field).isSome

def methodSlot? (layout : ClassLayout) (method : String) : Option Nat := layout.methods.lookup method

def hasMethod (layout : ClassLayout) (method : String) : Bool := (layout.methodSlot? method).isSome

/-- The type of a field or the result type of a method. -/
def memberType? (layout : ClassLayout) (member : String) : Option Tag := layout.types.lookup member

/-- The element type of an array member. -/
def elementType? (layout : ClassLayout) (member : String) : Option Tag :=
  layout.types.lookup (member ++ "_elem")

/-- Bytes of one object, with its header. -/
def instanceSize (layout : ClassLayout) (shape : FrameShape) : Int :=
  wrap32 (shape.headerSize + slotBytes shape.slotSize layout.fieldCount)

/-- The layout that a subclass starts from. -/
def derive (layout : ClassLayout) (name : String) : ClassLayout := { layout with name }

/-- Adds a field after the others; a second field of a name adds nothing. -/
def addField (layout : ClassLayout) (slotSize : Int) (name : String) (type : TypeExpr) :
    ClassLayout :=
  if layout.hasField name then layout
  else { layout with
    fields := layout.fields ++ [(name, slotBytes slotSize layout.fieldCount)]
    fieldCount := layout.fieldCount + 1
    types := recordType layout.types name type }

/-- Adds a method in a new slot, or puts it into the slot of the method that it overrides. -/
def addMethod (layout : ClassLayout) (name : String) (result : TypeExpr) : ClassLayout :=
  let label := methodLabel layout.name name
  let types := recordType layout.types name result
  match layout.methodSlot? name with
  | some slot => { layout with types, table := layout.table.set slot label }
  | none => { layout with
    types
    methods := layout.methods ++ [(name, layout.table.length)]
    table := layout.table ++ [label] }

/-- Adds a member. Classes and interfaces inside a class have no place in its objects. -/
def addMember (slotSize : Int) (layout : ClassLayout) : Decl → ClassLayout
  | .var _ name type => layout.addField slotSize name.name type
  | .prototype _ name result _ => layout.addMethod name.name result
  | .function _ name result _ _ => layout.addMethod name.name result
  | .cls .. | .interface .. => layout

end ClassLayout

end DecafTac
