import DecafTac.Lower.Call
import DecafTac.Lower.Place
import DecafTac.Source.Tree

/-!
Expressions. Each is lowered to the place it names, and its value is read from there; operands are
lowered from left to right.
-/
namespace DecafTac.Lower

mutual

/-- Lowers an expression to the place it names. -/
def place (layouts : Layouts) : Expr → Lower Place
  | .int _ value => do return .computed ⟨← emit (Emitter.loadInt value), .int⟩
  | .double _ bits => do return .computed ⟨← emit (Emitter.loadDouble bits), .double⟩
  | .bool _ value => do
    return .computed ⟨← emit (Emitter.loadInt (if value then 1 else 0)), .bool⟩
  | .string _ value => do return .computed ⟨← emit (Emitter.loadString value), .string⟩
  | .null _ => do
    let s ← shape
    let width ← emit (Emitter.loadInt s.slotSize)
    return .computed ⟨← emit (request .alloc [width]), .null⟩
  | .binary _ op left right => do
    let l ← place layouts left >>= read
    let r ← place layouts right >>= read
    return .computed (← emit (binary op l r))
  | .unary _ op operand => do
    let value ← place layouts operand >>= read
    return .computed (← emit (unary op value))
  | .assign _ target value => do
    let dst ← place layouts target
    let v ← place layouts value >>= read
    write dst v
    return .computed v
  | .name _ name => namePlace name.name
  | .field _ object name => do
    let value ← place layouts object >>= read
    memberPlace layouts value name.name
  | .element _ array index => do
    let a ← place layouts array >>= read
    let i ← place layouts index >>= read
    elementPlace a i
  | .call _ name actuals => do
    return .computed
      (← needed name.name (callBare layouts name.name (values layouts actuals)))
  | .send _ receiver name actuals => do
    return .computed
      (← needed name.name (callOn layouts (place layouts receiver >>= read) name.name
        actuals.isEmpty (values layouts actuals)))
  | .new _ cls => do
    let layout ← classLayout layouts cls.name
    return .computed (← emit (newObject layout cls.name))
  | .newArray _ size element => do
    let value ← place layouts size >>= read
    return .computed (← emit (newArray value (Tag.ofType element)))
  | .this _ => do
    let s ← get
    let method ← ofOption (.unboundName "this") s.method
    return .computed method.this
  | .readInteger _ => do return .computed ⟨← emit (request .readInteger []), .int⟩
  | .readLine _ => do return .computed ⟨← emit (request .readLine []), .string⟩
  | .knot id => fail (.voidValue id.text)

/-- Lowers expressions to their values, in order. -/
def values (layouts : Layouts) : List Expr → Lower (List Value)
  | [] => return []
  | e :: rest => do
    let value ← place layouts e >>= read
    return value :: (← values layouts rest)

end

/-- Lowers an expression to its value. -/
def value (layouts : Layouts) (e : Expr) : Lower Value := place layouts e >>= read

/-- Lowers an expression for what it does. A call need not give a value here. -/
def effect (layouts : Layouts) : Expr → Lower Unit
  | .call _ name actuals => discard (callBare layouts name.name (values layouts actuals))
  | .send _ receiver name actuals =>
    discard (callOn layouts (value layouts receiver) name.name actuals.isEmpty
      (values layouts actuals))
  | e => discard (value layouts e)

end DecafTac.Lower
