/-!
Source positions and spans. Positions are ordered by line and then by column, spans by where they
start and then by where they stop; the join of two spans takes the earlier start and the later stop.
-/
namespace DecafTac

/-- A place in the source text. -/
structure Position where
  line : Nat
  col : Nat
  deriving DecidableEq, Inhabited

namespace Position

/-- Reading order: an earlier line, or the same line and no later column. -/
instance : LE Position where
  le a b := a.line < b.line ∨ a.line = b.line ∧ a.col ≤ b.col

instance (a b : Position) : Decidable (a ≤ b) :=
  inferInstanceAs (Decidable (a.line < b.line ∨ a.line = b.line ∧ a.col ≤ b.col))

instance : Min Position where
  min a b := if a ≤ b then a else b

instance : Max Position where
  max a b := if a ≤ b then b else a

/-- A position is written `line:col`. -/
def text (p : Position) : String := toString p.line ++ ":" ++ toString p.col

end Position

/-- A stretch of source text. Nothing asks that it stop after it starts. -/
structure Span where
  start : Position
  stop : Position
  deriving DecidableEq, Inhabited

namespace Span

/-- A span of no width. -/
def point (line col : Nat) : Span := ⟨⟨line, col⟩, ⟨line, col⟩⟩

/-- A span of `len` columns on one line. -/
def onLine (line col len : Nat) : Span := ⟨⟨line, col⟩, ⟨line, col + len⟩⟩

/-- Spans are ordered by start, and by stop among those that start together. -/
instance : LE Span where
  le a b := a.start ≠ b.start ∧ a.start ≤ b.start ∨ a.start = b.start ∧ a.stop ≤ b.stop

instance (a b : Span) : Decidable (a ≤ b) :=
  inferInstanceAs
    (Decidable (a.start ≠ b.start ∧ a.start ≤ b.start ∨ a.start = b.start ∧ a.stop ≤ b.stop))

instance : Ord Span where
  compare a b := if a = b then .eq else if a ≤ b then .lt else .gt

/-- Whether the span covers no text. -/
def isEmpty (s : Span) : Bool := s.start == s.stop

/-- The least span that covers both. -/
def join (a b : Span) : Span := ⟨min a.start b.start, max a.stop b.stop⟩

/-- In messages a span is named by where it starts. -/
def text (s : Span) : String := s.start.text

/-- Both ends of the span, `line:col-line:col`. -/
def range (s : Span) : String := s.start.text ++ "-" ++ s.stop.text

/-- Spans in increasing order. -/
def sort (spans : List Span) : List Span := spans.mergeSort fun a b => decide (a ≤ b)

end Span

end DecafTac
