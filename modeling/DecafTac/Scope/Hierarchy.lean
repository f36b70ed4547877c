import DecafTac.Diagnostic
import DecafTac.Scope.Entering

/-!
The class hierarchy. Every class is given the declarations that its `extends` and `implements` clauses
name, looked for from its own scope outward, and its scope is linked to theirs. A name that means
nothing is reported and left out; so is a class that names itself.
-/
namespace DecafTac

/-- A class and the types it can stand in for directly: its superclass, then its interfaces. -/
structure ClassType where
  decl : DeclId
  name : String
  compatible : List DeclId
  deriving DecidableEq, Inhabited

/-- The classes of a program, each once. -/
structure Hierarchy where
  types : List ClassType := []

namespace Hierarchy

def get? (hierarchy : Hierarchy) (decl : DeclId) : Option ClassType :=
  hierarchy.types.find? (·.decl == decl)

def size (hierarchy : Hierarchy) : Nat := hierarchy.types.length

/-- Adds a class in the place of an earlier one of the same declaration. -/
def insert (hierarchy : Hierarchy) (type : ClassType) : Hierarchy :=
  ⟨hierarchy.types.filter (·.decl != type.decl) ++ [type]⟩

/-- The types that a declaration can stand in for directly. -/
def compatible (hierarchy : Hierarchy) (decl : DeclId) : List DeclId :=
  ((hierarchy.get? decl).map ClassType.compatible).getD []

/-- Whether `goal` is among the pending types or can be reached from them through types that were not
visited, within `limit` visits. -/
def reaches (hierarchy : Hierarchy) (goal : DeclId) :
    (limit : Nat) → (visited pending : List DeclId) → Bool
  | 0, _, _ => false
  | limit + 1, visited, pending =>
    match pending.dropWhile visited.contains with
    | [] => false
    | current :: rest =>
      current == goal ||
        hierarchy.reaches goal limit (current :: visited) (hierarchy.compatible current ++ rest)

/-- How many types are named in the hierarchy at most. -/
def extent (hierarchy : Hierarchy) : Nat :=
  (hierarchy.types.flatMap fun type => type.decl :: type.compatible).length

/-- Whether a value of type `sub` can be used where `sup` is expected. Each visit is of another type,
so the search ends within the extent of the hierarchy. -/
def isCompatible (hierarchy : Hierarchy) (sub sup : DeclId) : Bool :=
  hierarchy.reaches sup (hierarchy.extent + 1) [] [sub]

end Hierarchy

/-- What linking the classes of a program gives. -/
structure Linked where
  graph : ScopeGraph
  hierarchy : Hierarchy := {}
  /-- How many scopes were linked to that of a superclass. -/
  superclasses : Nat := 0
  /-- How many links to scopes of interfaces were made. -/
  interfaces : Nat := 0
  reports : Diagnostics := []

namespace Linked

def report (linked : Linked) (error : SemanticError) : Linked :=
  { linked with reports := linked.reports ++ [error] }

/-- Resolves the superclass that a class names; gives what the class can stand in for by it. -/
def linkSuperclass (arena : Arena) (record : ClassScope) (cls superclass : Ident)
    (linked : Linked) : Except Dangling (Linked × List DeclId) := do
  match ← linked.graph.findDecl arena record.scope superclass.name [.cls] with
  | none =>
    return (linked.report (.identifierNotDeclared superclass.name .cls superclass.span), [])
  | some found =>
    if found = record.cls then
      return (linked.report (.cyclicInheritance cls.name cls.span), [])
    else
      match linked.graph.scopeOf (.decl found) with
      | none => return (linked, [found])
      | some scope =>
        return ({ linked with
          graph := linked.graph.linkSuperclass record.scope scope
          superclasses := linked.superclasses + 1 }, [found])

/-- Resolves the interfaces that a class names; gives those that were found, in order. -/
def linkInterfaces (arena : Arena) (record : ClassScope) :
    List Ident → Linked → Except Dangling (Linked × List DeclId)
  | [], linked => .ok (linked, [])
  | interface :: rest, linked => do
    match ← linked.graph.findDecl arena record.scope interface.name [.interface] with
    | none =>
      linkInterfaces arena record rest
        (linked.report (.identifierNotDeclared interface.name .interface interface.span))
    | some found =>
      let linked := match linked.graph.scopeOf (.decl found) with
        | none => linked
        | some scope => { linked with
          graph := linked.graph.linkInterface record.scope scope
          interfaces := linked.interfaces + 1 }
      let (linked, others) ← linkInterfaces arena record rest linked
      return (linked, found :: others)

/-- Resolves what a class names and adds it to the hierarchy. A declaration that is no class names
nothing. -/
def linkClass (arena : Arena) (record : ClassScope) (linked : Linked) :
    Except Dangling Linked := do
  match ← arena.decl record.cls with
  | .cls _ name superclass interfaces _ =>
    let (linked, parents) ← match superclass with
      | some superclass => linkSuperclass arena record name superclass linked
      | none => .ok (linked, [])
    let (linked, implemented) ← linkInterfaces arena record interfaces linked
    return { linked with
      hierarchy := linked.hierarchy.insert ⟨record.cls, name.name, parents ++ implemented⟩ }
  | other =>
    return { linked with hierarchy := linked.hierarchy.insert ⟨record.cls, other.name, []⟩ }

def linkAll (arena : Arena) : List ClassScope → Linked → Except Dangling Linked
  | [], linked => .ok linked
  | record :: rest, linked => do linkAll arena rest (← linkClass arena record linked)

end Linked

/-- Links the given classes in the given scopes. -/
def ScopeGraph.link (graph : ScopeGraph) (arena : Arena) (classes : List ClassScope) :
    Except Dangling Linked :=
  Linked.linkAll arena classes { graph }

end DecafTac
