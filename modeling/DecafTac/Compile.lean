import DecafTac.Lower.Segment
import DecafTac.Scope.Check
import DecafTac.Scope.Hierarchy

/-!
From a program to three-address code. Analysis enters the program into scopes, links its classes,
checks it and lays it out, and collects all reports on the way. Code is generated for a program with no
reports, or in spite of them where that is asked for.
-/
namespace DecafTac

structure Options where
  /-- Whether to generate code in spite of reports. -/
  emitOnErrors : Bool := false
  shape : FrameShape := {}
  deriving DecidableEq, Inhabited

/-- The parts of analysis that are to be run. -/
structure Stages where
  link : Bool := true
  check : Bool := true
  layOut : Bool := true
  deriving DecidableEq, Inhabited

/-- What analysis finds out about a program. -/
structure Analysis where
  linked : Linked
  /-- What the check reports. -/
  faults : Diagnostics
  layouts : Layouts
  /-- The cycles found when classes are laid out. -/
  cycles : Diagnostics

namespace Analysis

/-- The scopes, with their links. -/
def graph (analysis : Analysis) : ScopeGraph := analysis.linked.graph

def hierarchy (analysis : Analysis) : Hierarchy := analysis.linked.hierarchy

/-- All reports, in the order of the stages. -/
def reports (analysis : Analysis) : Diagnostics :=
  analysis.linked.reports ++ analysis.faults ++ analysis.cycles

end Analysis

/-- Analyses a program in the given scopes by the given stages. A stage that is left out finds
nothing. -/
def Program.analyzeIn (program : Program) (graph : ScopeGraph) (classes : List ClassScope)
    (stages : Stages) (shape : FrameShape) : Except Dangling Analysis := do
  let linked ← if stages.link then graph.link program.arena classes else .ok { graph }
  let faults ← if stages.check then Check.program linked.graph program else .ok []
  let (layouts, cycles) ←
    if stages.layOut then program.layouts linked.graph shape else .ok ({}, [])
  return { linked, faults, layouts, cycles }

/-- Analyses a program in its own scopes by all stages. -/
def Program.analyze (program : Program) (shape : FrameShape) : Except Dangling Analysis :=
  program.analyzeIn program.entered.graph program.entered.classes {} shape

/-- Why a program was not compiled. -/
inductive CompileError where
  | semantic (reports : Diagnostics)
  | lowering (error : LowerError)

/-- What compiling gives: the instructions issued, and counts with the reports that were tolerated. -/
structure Compiled where
  outcome : Except CompileError (Summary × Diagnostics)
  code : List Instruction

/-- Compiles a program. -/
def Program.compile (program : Program) (options : Options) : Except Dangling Compiled := do
  let analysis ← program.analyze options.shape
  if !analysis.reports.isEmpty && !options.emitOnErrors then
    return ⟨.error (.semantic analysis.reports), []⟩
  else
    let generated := program.generate analysis.layouts options.shape
    match generated.outcome with
    | .ok summary => return ⟨.ok (summary, analysis.reports), generated.code⟩
    | .error error => return ⟨.error (.lowering error), generated.code⟩

end DecafTac
