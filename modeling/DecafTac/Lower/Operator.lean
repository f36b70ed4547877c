import DecafTac.Lower.Bindings
import DecafTac.Source.Operator
import DecafTac.Tac.Emitter

/-!
Operators. The machine has a less-than, an equality and the two connectives; the other comparisons are
made from these, negation is a difference from zero, and a truth value is inverted by adding one modulo
two. Strings are compared by a routine.
-/
namespace DecafTac.Lower

/-- Calls a routine that gives a value. -/
def request (routine : Routine) (args : List Location) : Emit Location := do
  let dst ← Emitter.temp
  Emitter.issue (.callRoutine routine args (some dst))
  return dst

/-- Either of two comparisons. -/
def either (left right : Emit Location) : Emit Location := do
  let first ← left
  let second ← right
  Emitter.binary .or first second

/-- `==` and `!=`; values that are not strings differ when one is below the other. -/
def equality (negated : Bool) (left right : Value) : Emit Location :=
  match left.tag.isString, negated with
  | true, false => request .stringEqual [left.loc, right.loc]
  | true, true => do
    let equal ← request .stringEqual [left.loc, right.loc]
    let zero ← Emitter.loadInt 0
    Emitter.binary .equal equal zero
  | false, false => Emitter.binary .equal left.loc right.loc
  | false, true =>
    either (Emitter.binary .less right.loc left.loc) (Emitter.binary .less left.loc right.loc)

/-- A binary operator. Arithmetic keeps the tag of its left operand, all else is a truth value. -/
def binary (op : BinaryOp) (left right : Value) : Emit Value :=
  let l := left.loc
  let r := right.loc
  match op with
  | .add => return ⟨← Emitter.binary .add l r, left.tag⟩
  | .sub => return ⟨← Emitter.binary .sub l r, left.tag⟩
  | .mul => return ⟨← Emitter.binary .mul l r, left.tag⟩
  | .div => return ⟨← Emitter.binary .div l r, left.tag⟩
  | .mod => return ⟨← Emitter.binary .mod l r, left.tag⟩
  | .and => return ⟨← Emitter.binary .and l r, .bool⟩
  | .or => return ⟨← Emitter.binary .or l r, .bool⟩
  | .lt => return ⟨← Emitter.binary .less l r, .bool⟩
  | .gt => return ⟨← Emitter.binary .less r l, .bool⟩
  | .le => return ⟨← either (Emitter.binary .less l r) (Emitter.binary .equal l r), .bool⟩
  | .ge => return ⟨← either (Emitter.binary .less r l) (Emitter.binary .equal l r), .bool⟩
  | .eq => return ⟨← equality false left right, .bool⟩
  | .ne => return ⟨← equality true left right, .bool⟩

/-- The zero that a value is taken from to negate it. -/
def zeroFor : Tag → Constant
  | .double => .double 0
  | _ => .int 0

/-- A unary operator. -/
def unary (op : UnaryOp) (operand : Value) : Emit Value :=
  match op with
  | .neg => do
    let zero ← Emitter.loadConstant (zeroFor operand.tag)
    return ⟨← Emitter.binary .sub zero operand.loc, operand.tag⟩
  | .not => do
    let one ← Emitter.loadInt 1
    let sum ← Emitter.binary .add operand.loc one
    let two ← Emitter.loadInt 2
    return ⟨← Emitter.binary .mod sum two, .bool⟩

end DecafTac.Lower
