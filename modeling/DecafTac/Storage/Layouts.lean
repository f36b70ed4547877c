import DecafTac.Diagnostic
import DecafTac.Scope.Graph
import DecafTac.Storage.ClassLayout

/-!
The layouts of a program: one for each name of a top-level class, and a table of its top-level
functions. A class is laid out after its superclass, wherever in the program that stands. A class that
is met again while it is still being laid out closes a cycle: it is reported once, and the class that
names it as its superclass is laid out as if it had none.
-/
namespace DecafTac

/-- A top-level function as its callers see it. -/
structure FunctionEntry where
  label : String
  arity : Nat
  deriving DecidableEq, Inhabited

/-- The top-level functions, with their result and element types. -/
structure FunctionTable where
  functions : List (String × FunctionEntry) := []
  types : List (String × Tag) := []
  deriving DecidableEq, Inhabited

namespace FunctionTable

def function? (table : FunctionTable) (name : String) : Option FunctionEntry :=
  table.functions.lookup name

def resultType? (table : FunctionTable) (name : String) : Option Tag := table.types.lookup name

def elementType? (table : FunctionTable) (name : String) : Option Tag :=
  table.types.lookup (name ++ "_elem")

/-- Whether there is a `main` that takes nothing. -/
def hasEntryPoint (table : FunctionTable) : Bool :=
  (table.function? "main").any (·.arity == 0)

/-- Adds a function; a second function of a name adds nothing. -/
def add (table : FunctionTable) (name : String) (signature : Signature) : FunctionTable :=
  if (table.function? name).isSome then table
  else {
    functions := table.functions ++ [(name, ⟨name, signature.formals.length⟩)]
    types := recordType table.types name signature.result }

/-- The top-level functions among some declarations. -/
def ofDecls (decls : List Decl) : FunctionTable :=
  decls.foldl (fun table decl =>
    match decl.signature? with
    | some signature => table.add decl.name signature
    | none => table) {}

end FunctionTable

/-- The layouts of classes by name, and the functions. -/
structure Layouts where
  classes : List ClassLayout := []
  functions : FunctionTable := {}
  deriving DecidableEq, Inhabited

namespace Layouts

def class? (layouts : Layouts) (name : String) : Option ClassLayout :=
  layouts.classes.find? (·.name == name)

/-- Adds the layout of a class; a second class of a name adds nothing. -/
def addClass (classes : List ClassLayout) (layout : ClassLayout) : List ClassLayout :=
  if classes.any (·.name == layout.name) then classes else classes ++ [layout]

end Layouts

/-- Classes laid out so far. -/
structure LaidOut where
  built : List (DeclId × ClassLayout) := []
  /-- Classes that were reported for closing a cycle. -/
  cyclic : List DeclId := []
  reports : Diagnostics := []

namespace LaidOut

/-- The class that a class is linked to as its superclass. -/
def superclassOf (graph : ScopeGraph) (cls : DeclId) : Except Dangling (Option DeclId) :=
  match graph.scopeOf (.decl cls) with
  | none => .ok none
  | some own => do
    match (← graph.scope own).superclass with
    | none => return none
    | some above => graph.owningDecl above

/-- Reports a class that closes a cycle, the first time it does. -/
def reportCycle (arena : Arena) (laid : LaidOut) (cls : DeclId) : Except Dangling LaidOut :=
  if laid.cyclic.contains cls then .ok laid
  else do
    let decl ← arena.decl cls
    return { laid with
      cyclic := cls :: laid.cyclic
      reports := laid.reports ++ [.cyclicInheritance decl.name decl.span] }

/-- The layout that a class of the given name starts from below a superclass. -/
def startBelow (laid : LaidOut) (superclass : DeclId) (name : String) : ClassLayout :=
  match laid.built.lookup superclass with
  | some base => base.derive name
  | none => { name }

/-- Adds the members of a class to the layout it starts from, and keeps the result. -/
def keep (laid : LaidOut) (slotSize : Int) (cls : DeclId) (members : List Decl)
    (start : ClassLayout) : LaidOut :=
  { laid with
    built := (cls, members.foldl (ClassLayout.addMember slotSize) start) :: laid.built }

/-- Lays out a class, its superclass first, while the classes in `under` wait for it. No more than
`limit` classes wait at a time. -/
def layOut (arena : Arena) (graph : ScopeGraph) (slotSize : Int) :
    (limit : Nat) → (under : List DeclId) → DeclId → LaidOut → Except Dangling LaidOut
  | 0, _, _, laid => .ok laid
  | limit + 1, under, cls, laid =>
    if (laid.built.lookup cls).isSome || under.contains cls then .ok laid
    else do
      match ← arena.decl cls with
      | .cls _ name _ _ members =>
        match ← superclassOf graph cls with
        | none => return laid.keep slotSize cls members { name := name.name }
        | some superclass =>
          if (cls :: under).contains superclass then
            let laid ← reportCycle arena laid superclass
            return laid.keep slotSize cls members { name := name.name }
          else
            let laid ← layOut arena graph slotSize limit (cls :: under) superclass laid
            return laid.keep slotSize cls members (laid.startBelow superclass name.name)
      | _ => return laid

/-- Lays out the classes among some declarations, in order. -/
def layOutAll (arena : Arena) (graph : ScopeGraph) (slotSize : Int) :
    List Decl → LaidOut → Except Dangling LaidOut
  | [], laid => .ok laid
  | decl :: rest, laid => do
    let laid ←
      if decl.isClass then layOut arena graph slotSize (arena.decls.size + 1) [] decl.id laid
      else .ok laid
    layOutAll arena graph slotSize rest laid

/-- The layouts of the top-level classes, the first of each name. -/
def topLevel (laid : LaidOut) (top : List Decl) : List ClassLayout :=
  (top.filterMap fun decl => laid.built.lookup decl.id).foldl Layouts.addClass []

end LaidOut

/-- The layouts of a program with linked scopes, and the cycles found on the way. -/
def Program.layouts (program : Program) (graph : ScopeGraph) (shape : FrameShape) :
    Except Dangling (Layouts × Diagnostics) := do
  let laid ← LaidOut.layOutAll program.arena graph shape.slotSize program.top {}
  return ({
    classes := laid.topLevel program.top
    functions := FunctionTable.ofDecls program.top }, laid.reports)

end DecafTac
