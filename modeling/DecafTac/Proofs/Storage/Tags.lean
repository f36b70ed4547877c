import Mathlib.Logic.Function.Basic
import DecafTac.Storage.Tag

/-!
Types and their tags. The checker compares types as they are written and code generation compares tags;
both come to the same, at every depth of arrays: two types are equivalent exactly if their tags are
equal, and exactly if they are written alike but for the places where their names stand.
-/
namespace DecafTac

namespace Tag

theorem ofPrimitive_injective : Function.Injective ofPrimitive := by
  intro a b same
  cases a <;> cases b <;> simp_all [ofPrimitive]

theorem ofPrimitive_ne_object (type : Primitive) (cls : String) : ofPrimitive type ≠ .object cls := by
  cases type <;> exact Tag.noConfusion

theorem ofPrimitive_ne_array (type : Primitive) (element : Tag) : ofPrimitive type ≠ .array element := by
  cases type <;> exact Tag.noConfusion

/-- The name of the class or interface under all arrays, if there is one. -/
def innermost? : Tag → Option String
  | .object cls => some cls
  | .array element => element.innermost?
  | .int | .double | .bool | .string | .void | .null | .error => none

end Tag

namespace TypeExpr

/-- The type with its name written at another place. -/
def moved (move : Span → Span) : TypeExpr → TypeExpr
  | .primitive type => .primitive type
  | .named name => .named { name with span := move name.span }
  | .array element => .array (element.moved move)

@[simp]
theorem ofType_moved (move : Span → Span) (type : TypeExpr) :
    Tag.ofType (type.moved move) = Tag.ofType type := by
  induction type with
  | primitive | named => rfl
  | array element ih => exact congrArg Tag.array ih

/-- A tag keeps the name under all arrays. -/
theorem innermost?_ofType (type : TypeExpr) :
    (Tag.ofType type).innermost? = type.innermostNamed.map Ident.name := by
  induction type with
  | primitive type => cases type <;> rfl
  | named => rfl
  | array element ih => exact ih

/-- Types are equivalent exactly if their tags are equal. -/
theorem equivalent_iff_ofType {a b : TypeExpr} :
    a.equivalent b = true ↔ Tag.ofType a = Tag.ofType b := by
  induction a generalizing b with
  | primitive type =>
    cases b with
    | primitive other => simp [equivalent, Tag.ofType, Tag.ofPrimitive_injective.eq_iff]
    | named name => simp [equivalent, Tag.ofType, Tag.ofPrimitive_ne_object]
    | array element => simp [equivalent, Tag.ofType, Tag.ofPrimitive_ne_array]
  | named name =>
    cases b with
    | primitive other => simp [equivalent, Tag.ofType, (Tag.ofPrimitive_ne_object _ _).symm]
    | named other => simp [equivalent, Tag.ofType]
    | array element => simp [equivalent, Tag.ofType]
  | array element ih =>
    cases b with
    | primitive other => simp [equivalent, Tag.ofType, (Tag.ofPrimitive_ne_array _ _).symm]
    | named other => simp [equivalent, Tag.ofType]
    | array other => simp [equivalent, Tag.ofType, ih]

theorem equivalent_refl (type : TypeExpr) : type.equivalent type = true :=
  equivalent_iff_ofType.mpr rfl

/-- At one place, types with one tag are one type. -/
theorem moved_eq_of_ofType {a b : TypeExpr} (place : Span) (same : Tag.ofType a = Tag.ofType b) :
    a.moved (fun _ => place) = b.moved (fun _ => place) := by
  have equivalent := equivalent_iff_ofType.mpr same
  clear same
  induction a generalizing b with
  | primitive type =>
    cases b with
    | primitive other => simpa [TypeExpr.equivalent, moved] using equivalent
    | named | array => cases equivalent
  | named name =>
    cases b with
    | named other => simpa [TypeExpr.equivalent, moved] using equivalent
    | primitive | array => cases equivalent
  | array element ih =>
    cases b with
    | array other => exact congrArg TypeExpr.array (ih equivalent)
    | primitive | named => cases equivalent

/-- Equivalence of types is equality of their tags: an equivalence relation that asks for the same
writing but for the places of names, and under which the names under all arrays are the same. -/
theorem equivalence_is_tag_equality :
    (∀ a b : TypeExpr, a.equivalent b = true ↔ Tag.ofType a = Tag.ofType b) ∧
    Equivalence (fun a b : TypeExpr => a.equivalent b = true) ∧
    (∀ (here there : Span → Span) (a b : TypeExpr),
      (a.moved here).equivalent (b.moved there) = a.equivalent b) ∧
    (∀ (place : Span) (a b : TypeExpr),
      a.equivalent b = true ↔ a.moved (fun _ => place) = b.moved (fun _ => place)) ∧
    ∀ a b : TypeExpr, a.equivalent b = true →
      a.innermostNamed.map Ident.name = b.innermostNamed.map Ident.name := by
  refine ⟨fun a b => equivalent_iff_ofType, ⟨equivalent_refl, ?_, ?_⟩, ?_, ?_, ?_⟩
  · intro a b forth
    exact equivalent_iff_ofType.mpr (equivalent_iff_ofType.mp forth).symm
  · intro a b c first second
    exact equivalent_iff_ofType.mpr
      ((equivalent_iff_ofType.mp first).trans (equivalent_iff_ofType.mp second))
  · intro here there a b
    rw [Bool.eq_iff_iff, equivalent_iff_ofType, equivalent_iff_ofType, ofType_moved, ofType_moved]
  · intro place a b
    refine ⟨fun equivalent => moved_eq_of_ofType place (equivalent_iff_ofType.mp equivalent), fun same => ?_⟩
    rw [equivalent_iff_ofType, ← ofType_moved (fun _ => place) a, same, ofType_moved]
  · intro a b equivalent
    rw [← innermost?_ofType, ← innermost?_ofType, equivalent_iff_ofType.mp equivalent]

/-- Arrays of arrays of one class, named in the given line. -/
def shapes (line : Nat) : TypeExpr := .array (.array (.named ⟨"Shape", ⟨⟨line, 1⟩, ⟨line, 6⟩⟩⟩))

theorem equivalence_is_tag_equality_arrays :
    shapes 1 ≠ shapes 40 ∧ (shapes 1).equivalent (shapes 40) = true ∧
    (shapes 1).innermostNamed.map Ident.name = (shapes 40).innermostNamed.map Ident.name := by
  obtain ⟨-, -, -, -, innermost⟩ := equivalence_is_tag_equality
  exact ⟨by decide, by decide, innermost (shapes 1) (shapes 40) (by decide)⟩

end TypeExpr
end DecafTac
