import DecafTac.Source.Arena

/-!
The scope graph. Scopes are numbered in the order in which they are opened and form a tree below the
global scope; the scopes of classes are also linked to those of their superclass and interfaces. A
scope keeps every declaration entered under a name, so that a second one can be told from the first.

Names are looked for from a scope outward. A scope that is not there, or a declaration that was
entered but never made, is met only when the search gets to it.
-/
namespace DecafTac

/-- One lexical region. -/
structure Scope where
  /-- The node that opened the scope. -/
  owner : Node
  parent : Option ScopeId
  children : List ScopeId := []
  /-- Scopes of the interfaces of a class. -/
  interfaces : List ScopeId := []
  /-- Scope of the superclass of a class. -/
  superclass : Option ScopeId := none
  /-- Names with the declarations entered under them, in the order of entry. -/
  entries : List (String × DeclId) := []
  deriving Inhabited

namespace Scope

/-- The declarations entered under a name, in the order of entry. -/
def bindings (scope : Scope) (name : String) : List DeclId :=
  (scope.entries.filter (·.1 == name)).map Prod.snd

/-- The declaration that a name means in the scope itself: the last one entered. -/
def binding? (scope : Scope) (name : String) : Option DeclId := (scope.bindings name).getLast?

/-- The names bound in the scope, each once, in increasing order. -/
def names (scope : Scope) : List String :=
  (scope.entries.map Prod.fst).eraseDups.mergeSort fun a b => decide (a ≤ b)

/-- Scopes of the interfaces, then of the superclass. -/
def supertypes (scope : Scope) : List ScopeId := scope.interfaces ++ scope.superclass.toList

end Scope

/-- All scopes, and which nodes and declarations belong to which. -/
structure ScopeGraph where
  scopes : Array Scope := #[{ owner := .program, parent := none }]
  /-- The scope that each node opened, latest first. -/
  opened : List (Node × ScopeId) := [(.program, ⟨0⟩)]
  /-- The scope that each declaration was entered into, latest first. -/
  owners : List (DeclId × ScopeId) := []

namespace ScopeGraph

/-- The scope outside all others. -/
def global : ScopeId := ⟨0⟩

def size (graph : ScopeGraph) : Nat := graph.scopes.size

def next (graph : ScopeGraph) : ScopeId := ⟨graph.size⟩

def scope? (graph : ScopeGraph) (id : ScopeId) : Option Scope := graph.scopes[id.index]?

def scope (graph : ScopeGraph) (id : ScopeId) : Except Dangling Scope :=
  match graph.scope? id with
  | some scope => .ok scope
  | none => .error (.scope id)

/-! ## Growing the graph -/

def modify (graph : ScopeGraph) (id : ScopeId) (f : Scope → Scope) : ScopeGraph :=
  { graph with scopes := graph.scopes.modify id.index f }

/-- Adds a scope that no other lists as a child yet. -/
def push (graph : ScopeGraph) (parent : ScopeId) (owner : Node) : ScopeGraph :=
  { graph with scopes := graph.scopes.push { owner, parent := some parent } }

/-- Lists a scope as a child of its parent and as the scope that its owner opened. -/
def attach (graph : ScopeGraph) (parent : ScopeId) (owner : Node) (id : ScopeId) : ScopeGraph :=
  let linked := graph.modify parent fun s => { s with children := s.children ++ [id] }
  { linked with opened := (owner, id) :: graph.opened }

/-- Opens a scope inside another. -/
def openIn (graph : ScopeGraph) (parent : ScopeId) (owner : Node) : ScopeGraph :=
  (graph.push parent owner).attach parent owner graph.next

/-- Enters a declaration under a name. -/
def enter (graph : ScopeGraph) (id : ScopeId) (name : String) (decl : DeclId) : ScopeGraph :=
  let entered := graph.modify id fun s => { s with entries := s.entries ++ [(name, decl)] }
  { entered with owners := (decl, id) :: graph.owners }

/-- Links the scope of a class to that of its superclass. -/
def linkSuperclass (graph : ScopeGraph) (id superclass : ScopeId) : ScopeGraph :=
  graph.modify id fun s => { s with superclass := some superclass }

/-- Links the scope of a class to that of an interface. -/
def linkInterface (graph : ScopeGraph) (id interface : ScopeId) : ScopeGraph :=
  graph.modify id fun s => { s with interfaces := s.interfaces ++ [interface] }

/-- A change to the graph, with scopes given by number. -/
inductive Change where
  | openIn (parent : ScopeId) (owner : Node)
  | enter (scope : ScopeId) (name : String) (decl : DeclId)
  | linkSuperclass (scope superclass : ScopeId)
  | linkInterface (scope interface : ScopeId)

/-- Makes a change and gives the scope it opened, if it opened one. A change to a scope that is not
there fails. A scope takes its number before its parent is looked for: it stays when there is no such
parent, and it can be its own parent. -/
def apply (graph : ScopeGraph) : Change → Except Dangling (Option ScopeId) × ScopeGraph
  | .openIn parent owner =>
    let grown := graph.push parent owner
    match grown.scope parent with
    | .ok _ => (.ok (some graph.next), grown.attach parent owner graph.next)
    | .error missing => (.error missing, grown)
  | .enter id name decl =>
    match graph.scope id with
    | .ok _ => (.ok none, graph.enter id name decl)
    | .error missing => (.error missing, graph)
  | .linkSuperclass id superclass =>
    match graph.scope id with
    | .ok _ => (.ok none, graph.linkSuperclass id superclass)
    | .error missing => (.error missing, graph)
  | .linkInterface id interface =>
    match graph.scope id with
    | .ok _ => (.ok none, graph.linkInterface id interface)
    | .error missing => (.error missing, graph)

/-! ## Looking names up -/

/-- The first of `limit` scopes, from `id` outward, in which `visit` finds something. -/
def search {α : Type} (graph : ScopeGraph) (visit : Scope → Except Dangling (Option α)) :
    (limit : Nat) → ScopeId → Except Dangling (Option α)
  | 0, _ => .ok none
  | limit + 1, id => do
    let scope ← graph.scope id
    match ← visit scope with
    | some found => return some found
    | none =>
      match scope.parent with
      | some parent => graph.search visit limit parent
      | none => return none

/-- The scopes from `id` outward, at most `limit` of them. -/
def chainUpTo (graph : ScopeGraph) : (limit : Nat) → ScopeId → Except Dangling (List ScopeId)
  | 0, _ => .ok []
  | limit + 1, id => do
    let scope ← graph.scope id
    match scope.parent with
    | some parent => return id :: (← graph.chainUpTo limit parent)
    | none => return [id]

/-- The scopes from `id` outward. A chain that repeats no scope is no longer than the graph. -/
def chain (graph : ScopeGraph) (id : ScopeId) : Except Dangling (List ScopeId) :=
  graph.chainUpTo graph.size id

/-- The meaning of a name in one scope. -/
def lookupLocal (graph : ScopeGraph) (id : ScopeId) (name : String) :
    Except Dangling (Option DeclId) := do
  return (← graph.scope id).binding? name

/-- The meaning of a name in the nearest scope that binds it. -/
def lookupChain (graph : ScopeGraph) (id : ScopeId) (name : String) :
    Except Dangling (Option DeclId) :=
  graph.search (fun scope => .ok (scope.binding? name)) graph.size id

/-- Every declaration entered under a name in one scope. -/
def bindings (graph : ScopeGraph) (id : ScopeId) (name : String) : Except Dangling (List DeclId) := do
  return (← graph.scope id).bindings name

/-- The first declaration that is of one of the kinds. -/
def firstOfKind (arena : Arena) (kinds : List DeclKind) :
    List DeclId → Except Dangling (Option DeclId)
  | [] => .ok none
  | id :: rest => do
    let decl ← arena.decl id
    if kinds.contains decl.kind then return some id else firstOfKind arena kinds rest

/-- The declaration of a name in the nearest scope that has one of the given kinds. Declarations of
other kinds do not hide it, and the latest in a scope comes first. -/
def findDecl (graph : ScopeGraph) (arena : Arena) (id : ScopeId) (name : String)
    (kinds : List DeclKind) : Except Dangling (Option DeclId) :=
  graph.search (fun scope => firstOfKind arena kinds (scope.bindings name).reverse) graph.size id

/-- The scope that a node opened. -/
def scopeOf (graph : ScopeGraph) (node : Node) : Option ScopeId := graph.opened.lookup node

/-- The scope that a declaration was entered into. -/
def ownerOf (graph : ScopeGraph) (decl : DeclId) : Option ScopeId := graph.owners.lookup decl

/-- The declaration that opened a scope. -/
def owningDecl (graph : ScopeGraph) (id : ScopeId) : Except Dangling (Option DeclId) := do
  match (← graph.scope id).owner with
  | .decl decl => return some decl
  | _ => return none

end ScopeGraph

end DecafTac
