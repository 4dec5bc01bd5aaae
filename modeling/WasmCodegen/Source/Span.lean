/-!
# Source spans

A span locates a piece of source text: a line, a column and a length, each a 32-bit word.
Line `0` is no line at all and marks a span whose place is unknown.

Two spans are joined into one that stands for both (`Span.join?`).  On one line the join is
the smallest span that covers the two; across lines it starts where the first span starts and
adds the lengths.  Words do not wrap: a join whose end or length needs more than 32 bits does
not exist, and `join?` is `none` there.
-/

namespace WasmCodegen

/-- A line, a column and a length in the source text. -/
structure Span where
  line : UInt32
  col : UInt32
  len : UInt32
deriving DecidableEq

namespace Span

/-- The span of a thing without a place in the source. -/
def unknown : Span := ⟨0, 0, 0⟩

/-- The empty span at a line and column. -/
def point (line col : UInt32) : Span := ⟨line, col, 0⟩

/-- Lines count from one, so line `0` says that the place is not known. -/
def isUnknown (s : Span) : Bool := s.line == 0

/-- The line and column, as `line:col`. -/
def position (s : Span) : String :=
  toString s.line.toNat ++ ":" ++ toString s.col.toNat

/-- How a message refers to the span: its position, if it has one. -/
def text (s : Span) : String :=
  if s.isUnknown then "<unknown>" else s.position

/-- The sum of two words, if it is a word. -/
def addWords? (a b : UInt32) : Option UInt32 :=
  if a.toNat + b.toNat < UInt32.size then some (a + b) else none

theorem addWords?_eq_some_iff {a b c : UInt32} :
    addWords? a b = some c ↔ a.toNat + b.toNat = c.toNat := by
  unfold addWords?
  split
  · rename_i h
    rw [Option.some.injEq, ← UInt32.toNat_inj, UInt32.toNat_add, Nat.mod_eq_of_lt h]
  · rename_i h
    have := c.toNat_lt_size
    constructor
    · intro h
      contradiction
    · omega

theorem addWords?_eq_none_iff {a b : UInt32} :
    addWords? a b = none ↔ UInt32.size ≤ a.toNat + b.toNat := by
  unfold addWords?
  split <;> simp_all

/-- The column just past the span, if it is a word. -/
def end? (s : Span) : Option UInt32 := addWords? s.col s.len

/-- One span for two.  On one line it covers both; on two lines it starts as `s` does and is as
long as the two together.  There is none if an end or the length exceeds a word. -/
def join? (s t : Span) : Option Span :=
  if s.line = t.line then do
    let sEnd ← s.end?
    let tEnd ← t.end?
    let start := min s.col t.col
    some ⟨s.line, start, max sEnd tEnd - start⟩
  else do
    let len ← addWords? s.len t.len
    some ⟨s.line, s.col, len⟩

/-- A join is on the line of its first span. -/
theorem line_of_join? {s t u : Span} (h : s.join? t = some u) : u.line = s.line := by
  unfold join? at h
  split at h
  · cases hs : s.end? <;> cases ht : t.end? <;> simp_all
    simp [← h]
  · cases hl : addWords? s.len t.len <;> simp_all
    simp [← h]

end Span

end WasmCodegen
