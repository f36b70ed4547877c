import DecafTac.Lower.Expression
import DecafTac.Source.Arena

/-!
Statements. A block binds its variables for as long as it lasts, whether or not it fails; a loop is open
for as long as its body is lowered. `break` jumps behind the nearest loop around it.
-/
namespace DecafTac.Lower

/-- Gives storage to the variables among some declarations and binds them. -/
def declareLocals : List Decl → Lower Unit
  | [] => return ()
  | .var _ name type :: rest => do
    let loc ← emit (Emitter.allocate name.name)
    modify fun s => { s with bindings := s.bindings.declare name.name ⟨loc, Tag.ofType type⟩ }
    declareLocals rest
  | _ :: rest => declareLocals rest

/-- Lowers the inside of a block. -/
def inBlock (body : Lower Unit) : Lower Unit := do
  modify fun s => { s with bindings := s.bindings.enter }
  ensuring body (Emission.modify fun s => { s with bindings := s.bindings.leave })

/-- Lowers the body of a loop that ends at `exit`. -/
def inLoop (loop : StmtId) (exit : String) (body : Lower Unit) : Lower Unit := do
  modify fun s => { s with loops := s.loops.enter loop exit }
  ensuring body (Emission.modify fun s => { s with loops := s.loops.leave loop })

/-- The routine that prints a value. -/
def printer? : Tag → Option Routine
  | .int => some .printInt
  | .string => some .printString
  | .bool => some .printBool
  | _ => none

/-- Prints values, each as soon as it is there. -/
def printAll (layouts : Layouts) : List Expr → Lower Unit
  | [] => return ()
  | e :: rest => do
    let v ← value layouts e
    let routine ← ofOption (.unsupportedPrintType v.tag.text) (printer? v.tag)
    emit (Emitter.issue (.callRoutine routine [v.loc] none))
    printAll layouts rest

/-- Lowers an expression that may be left out, for what it does. -/
def optionalEffect (layouts : Layouts) : Option Expr → Lower Unit
  | none => return ()
  | some e => effect layouts e

/-- A loop: a test before each round, and a step after it. -/
def loop (id : StmtId) (test : Lower Value) (body step : Lower Unit) : Lower Unit := do
  let top ← emit Emitter.freshLabel
  let exit ← emit Emitter.freshLabel
  emit (Emitter.label top)
  let condition ← test
  emit (Emitter.jumpIfZero condition.loc exit)
  inLoop id exit body
  step
  emit (Emitter.jump top)
  emit (Emitter.label exit)

mutual

def stmt (arena : Arena) (layouts : Layouts) : Stmt → Lower Unit
  | .block _ decls body => inBlock do
    declareLocals decls
    stmts arena layouts body
  | .ifThen _ test body => do
    let condition ← value layouts test
    let skip ← emit Emitter.freshLabel
    emit (Emitter.jumpIfZero condition.loc skip)
    stmt arena layouts body
    emit (Emitter.label skip)
  | .ifElse _ test yes no => do
    let condition ← value layouts test
    let other ← emit Emitter.freshLabel
    emit (Emitter.jumpIfZero condition.loc other)
    stmt arena layouts yes
    let done ← emit Emitter.freshLabel
    emit (Emitter.jump done)
    emit (Emitter.label other)
    stmt arena layouts no
    emit (Emitter.label done)
  | .whileLoop site test body =>
    loop site.id (value layouts test) (stmt arena layouts body) (return ())
  | .forLoop site init test step body => do
    optionalEffect layouts init
    loop site.id (value layouts test) (stmt arena layouts body) (optionalEffect layouts step)
  | .ret _ none => emit (Emitter.ret none)
  | .ret _ (some e) => do
    let v ← value layouts e
    emit (Emitter.ret (some v.loc))
  | .print _ args => printAll layouts args
  | .leave site => do
    let s ← get
    let target ← ofOption .breakOutsideLoop
      ((arena.enclosingLoop (.stmt site.id)).bind s.loops.exit?)
    emit (Emitter.jump target)
  | .expr _ e => effect layouts e
  | .knot _ => return ()

def stmts (arena : Arena) (layouts : Layouts) : List Stmt → Lower Unit
  | [] => return ()
  | s :: rest => do
    stmt arena layouts s
    stmts arena layouts rest

end

end DecafTac.Lower
