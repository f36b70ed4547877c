import DecafTac.Lower.Statement

/-!
Properties that pass through expressions. Lowering an expression puts a few kinds of steps in a row:
looking at the state, issuing code, failing, and changing the tag of a name. A property of steps that all
of these have, and that passes to steps in a row, is one of every expression.
-/
namespace DecafTac.Lower

/-- A property of steps that those have of which expressions are made, and which passes from steps to
steps in a row. -/
structure Closed (P : ∀ α : Type, Lower α → Prop) : Prop where
  pure {α : Type} (a : α) : P α (Pure.pure a)
  bind {α β : Type} {step : Lower α} {rest : α → Lower β} (first : P α step)
    (second : ∀ a, P β (rest a)) : P β (step >>= rest)
  fail {α : Type} (error : LowerError) : P α (Lower.fail error)
  get : P LowerState Lower.get
  shape : P FrameShape Lower.shape
  emit {α : Type} (step : Emit α) : P α (Lower.emit step)
  retag (name : String) (tag : Tag) : P Unit (Lower.modify (LowerState.retag · name tag))

namespace Closed

variable {P : ∀ α : Type, Lower α → Prop} (closed : Closed P) (layouts : Layouts)
include closed

theorem ofOption {α : Type} (error : LowerError) (found : Option α) : P α (Lower.ofOption error found) := by
  cases found with
  | some a => exact closed.pure a
  | none => exact closed.fail error

theorem discard {α : Type} {step : Lower α} (holds : P α step) : P Unit (discard step) :=
  closed.bind holds fun _ => closed.pure ()

theorem layoutOf (value : Value) : P ClassLayout (layoutOf layouts value) := by
  unfold Lower.layoutOf
  split
  · exact closed.ofOption _ _
  · exact closed.fail _

theorem fieldPlace (layout : ClassLayout) (object : Location) (field : String) :
    P Place (fieldPlace layout object field) :=
  closed.bind (closed.ofOption _ _) fun _ => closed.bind closed.shape fun _ => closed.pure _

theorem namePlace (name : String) : P Place (namePlace name) := by
  refine closed.bind closed.get fun s => ?_
  have globalPlace : P Place (Lower.namePlace.globalPlace name s) := by
    unfold Lower.namePlace.globalPlace
    split
    · exact closed.pure _
    · exact closed.fail _
  split
  · exact closed.pure _
  · split
    · split
      · exact closed.fieldPlace _ _ _
      · exact globalPlace
    · exact globalPlace

theorem read (place : Place) : P Value (read place) := by
  cases place with
  | «variable» name value => exact closed.pure _
  | computed value => exact closed.pure _
  | memory addr offset tag => exact closed.bind (closed.emit _) fun _ => closed.pure _

theorem write (place : Place) (value : Value) : P Unit (write place value) := by
  cases place with
  | «variable» name dst =>
    refine closed.bind (closed.emit _) fun _ => ?_
    split
    · exact closed.retag name value.tag
    · exact closed.pure ()
  | memory addr offset tag => exact closed.emit _
  | computed dst => exact closed.emit _

theorem callMethod (receiver : Value) (name : String) (args : List Value) :
    P (Option Value) (callMethod layouts receiver name args) :=
  closed.bind (closed.layoutOf layouts receiver) fun _ => closed.bind (closed.ofOption _ _) fun _ =>
    closed.bind closed.shape fun _ => closed.bind (closed.emit _) fun _ => closed.pure _

theorem callFunction (name : String) (args : List Value) :
    P (Option Value) (callFunction layouts name args) :=
  closed.bind (closed.ofOption _ _) fun _ => closed.bind closed.shape fun _ =>
    closed.bind (closed.emit _) fun _ => closed.pure _

theorem callBare (name : String) {args : Lower (List Value)} (holds : P (List Value) args) :
    P (Option Value) (callBare layouts name args) := by
  refine closed.bind closed.get fun s => closed.bind holds fun values => ?_
  split
  · split
    · exact closed.callMethod layouts _ _ _
    · exact closed.callFunction layouts _ _
  · exact closed.callFunction layouts _ _

theorem callOn (name : String) (noArgs : Bool) {receiver : Lower Value} {args : Lower (List Value)}
    (object : P Value receiver) (holds : P (List Value) args) :
    P (Option Value) (callOn layouts receiver name noArgs args) := by
  refine closed.bind object fun value => ?_
  split
  · exact closed.bind (closed.emit _) fun _ => closed.pure _
  · exact closed.bind holds fun _ => closed.callMethod layouts _ _ _

theorem needed (name : String) {call : Lower (Option Value)} (holds : P (Option Value) call) :
    P Value (needed name call) :=
  closed.bind holds fun _ => closed.ofOption _ _

mutual

theorem place : ∀ e : Expr, P Place (place layouts e)
  | .int .. | .double .. | .bool .. | .string .. | .readInteger _ | .readLine _ =>
    closed.bind (closed.emit _) fun _ => closed.pure _
  | .null _ =>
    closed.bind closed.shape fun _ => closed.bind (closed.emit _) fun _ =>
      closed.bind (closed.emit _) fun _ => closed.pure _
  | .binary _ _ left right =>
    closed.bind (closed.bind (place left) closed.read) fun _ =>
      closed.bind (closed.bind (place right) closed.read) fun _ =>
        closed.bind (closed.emit _) fun _ => closed.pure _
  | .unary _ _ operand =>
    closed.bind (closed.bind (place operand) closed.read) fun _ =>
      closed.bind (closed.emit _) fun _ => closed.pure _
  | .assign _ target value =>
    closed.bind (place target) fun dst => closed.bind (closed.bind (place value) closed.read) fun v =>
      closed.bind (closed.write dst v) fun _ => closed.pure _
  | .name _ name => closed.namePlace name.name
  | .field _ object _ =>
    closed.bind (closed.bind (place object) closed.read) fun value =>
      closed.bind (closed.layoutOf layouts value) fun _ => closed.fieldPlace _ _ _
  | .element _ array index =>
    closed.bind (closed.bind (place array) closed.read) fun _ =>
      closed.bind (closed.bind (place index) closed.read) fun _ =>
        closed.bind (closed.emit _) fun _ => closed.bind closed.shape fun _ => closed.pure _
  | .call _ name actuals =>
    closed.bind (closed.needed name.name (closed.callBare layouts name.name (values actuals)))
      fun _ => closed.pure _
  | .send _ receiver name actuals =>
    closed.bind (closed.needed name.name (closed.callOn layouts name.name actuals.isEmpty
      (closed.bind (place receiver) closed.read) (values actuals))) fun _ => closed.pure _
  | .new _ _ =>
    closed.bind (closed.ofOption _ _) fun _ => closed.bind (closed.emit _) fun _ => closed.pure _
  | .newArray _ size _ =>
    closed.bind (closed.bind (place size) closed.read) fun _ =>
      closed.bind (closed.emit _) fun _ => closed.pure _
  | .this _ =>
    closed.bind closed.get fun s => closed.bind (closed.ofOption _ s.method) fun _ => closed.pure _
  | .knot _ => closed.fail _

theorem values : ∀ es : List Expr, P (List Value) (values layouts es)
  | [] => closed.pure _
  | e :: rest =>
    closed.bind (closed.bind (place e) closed.read) fun _ =>
      closed.bind (values rest) fun _ => closed.pure _

end

theorem value (e : Expr) : P Value (value layouts e) := closed.bind (closed.place layouts e) closed.read

theorem effect (e : Expr) : P Unit (effect layouts e) := by
  unfold Lower.effect
  split
  · exact closed.discard (closed.callBare layouts _ (closed.values layouts _))
  · exact closed.discard (closed.callOn layouts _ _ (closed.value layouts _) (closed.values layouts _))
  · exact closed.discard (closed.value layouts e)

theorem optionalEffect (e : Option Expr) : P Unit (optionalEffect layouts e) := by
  cases e with
  | none => exact closed.pure ()
  | some e => exact closed.effect layouts e

theorem printAll (args : List Expr) : P Unit (printAll layouts args) := by
  induction args with
  | nil => exact closed.pure ()
  | cons e rest ih =>
    exact closed.bind (closed.value layouts e) fun _ => closed.bind (closed.ofOption _ _) fun _ =>
      closed.bind (closed.emit _) fun _ => ih

end Closed

end DecafTac.Lower
