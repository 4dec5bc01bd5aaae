import WasmCodegen.Source.Builder

/-!
# Spans of operator trees

An expression made of binary operators gets its span from its operands, node by node: every node
joins the spans of the two trees below it.  Two kinds of trees have spans that can be read off the
leaves.

If all leaves are on one line, the span is their hull (`Span.Hull`), the smallest span that covers
them.  If no two leaves are on the same line, it starts with the first leaf and is as long as all of
them together (`Span.Strung`).

Joins are checked additions on spans that are joins themselves, so a tree might fail where its
leaves do not show it, or hide an overflow of a leaf in a span that was already joined.  It does
neither.  A hull ends where one of its parts ends, and a sum is at least as large as each of its
parts; so the check at the root fails if one farther down would (`OperatorTree.exists_hull`,
`OperatorTree.exists_strung`), and every leaf of a tree with a node goes through a check
(`OperatorTree.stop_lt_of_span?`).
-/

namespace WasmCodegen

/-! ## Joins on one line -/

namespace Span

/-- The column just past the span, which need not be a word. -/
def stop (s : Span) : Nat := s.col.toNat + s.len.toNat

/-- The second span is on the line of the first and inside it. -/
structure Covers (u s : Span) : Prop where
  line : s.line = u.line
  col : u.col ≤ s.col
  stop : s.stop ≤ u.stop

theorem Covers.trans {u v s : Span} (h : u.Covers v) (h' : v.Covers s) : u.Covers s :=
  ⟨h'.line.trans h.line, UInt32.le_trans h.col h'.col, Nat.le_trans h'.stop h.stop⟩

/-- The span covers the given ones, starts where one of them starts and ends where one of them
ends. -/
structure Hull (u : Span) (spans : List Span) : Prop where
  covers : ∀ s ∈ spans, u.Covers s
  starts : ∃ s ∈ spans, s.col = u.col
  ends : ∃ s ∈ spans, s.stop = u.stop

theorem eq_of_stop_eq {u v : Span} (hline : u.line = v.line) (hcol : u.col = v.col)
    (hstop : u.stop = v.stop) : u = v := by
  have hlen : u.len = v.len := by
    rw [stop, stop, hcol] at hstop
    exact UInt32.toNat_inj.1 (Nat.add_left_cancel hstop)
  cases u
  cases v
  simp_all

namespace Hull

variable {u v : Span} {spans spans' : List Span}

theorem singleton (s : Span) : s.Hull [s] where
  covers := by
    intro t ht
    obtain rfl := List.mem_singleton.1 ht
    exact ⟨rfl, UInt32.le_refl _, Nat.le_refl _⟩
  starts := ⟨s, List.mem_singleton_self s, rfl⟩
  ends := ⟨s, List.mem_singleton_self s, rfl⟩

/-- A hull is the smallest of the spans that cover what it covers. -/
theorem least (h : u.Hull spans) (hv : ∀ s ∈ spans, v.Covers s) : v.Covers u := by
  obtain ⟨s, hs, hcol⟩ := h.starts
  obtain ⟨t, ht, hstop⟩ := h.ends
  refine ⟨?_, ?_, ?_⟩
  · rw [← (h.covers s hs).line, (hv s hs).line]
  · rw [← hcol]
    exact (hv s hs).col
  · rw [← hstop]
    exact (hv t ht).stop

theorem unique (h : u.Hull spans) (h' : v.Hull spans) : u = v := by
  have huv := h.least h'.covers
  have hvu := h'.least h.covers
  exact eq_of_stop_eq huv.line (UInt32.le_antisymm hvu.col huv.col)
    (Nat.le_antisymm huv.stop hvu.stop)

/-- The order of the spans does not matter. -/
theorem perm (h : u.Hull spans) (hperm : spans.Perm spans') : u.Hull spans' where
  covers s hs := h.covers s (hperm.mem_iff.2 hs)
  starts := by
    obtain ⟨s, hs, hcol⟩ := h.starts
    exact ⟨s, hperm.mem_iff.1 hs, hcol⟩
  ends := by
    obtain ⟨s, hs, hstop⟩ := h.ends
    exact ⟨s, hperm.mem_iff.1 hs, hstop⟩

/-- A hull ends within a word if all of its parts do. -/
theorem stop_lt (h : u.Hull spans) {bound : Nat} (hbound : ∀ s ∈ spans, s.stop < bound) :
    u.stop < bound := by
  obtain ⟨s, hs, hstop⟩ := h.ends
  rw [← hstop]
  exact hbound s hs

/-- What one of two spans has, one of the parts has from which the span has it. -/
theorem exists_append {β : Type} {f : Span → β} {x : β} {a b : Span}
    (h : ∃ c ∈ [a, b], f c = x) (ha : ∃ s ∈ spans, f s = f a) (hb : ∃ s ∈ spans', f s = f b) :
    ∃ s ∈ spans ++ spans', f s = x := by
  obtain ⟨c, hc, rfl⟩ := h
  rcases List.mem_cons.1 hc with rfl | hc
  · obtain ⟨s, hs, hsame⟩ := ha
    exact ⟨s, List.mem_append_left _ hs, hsame⟩
  · obtain rfl := List.mem_singleton.1 hc
    obtain ⟨s, hs, hsame⟩ := hb
    exact ⟨s, List.mem_append_right _ hs, hsame⟩

/-- The hull of two hulls is that of all their parts. -/
theorem append {a b : Span} (h : u.Hull [a, b]) (ha : a.Hull spans) (hb : b.Hull spans') :
    u.Hull (spans ++ spans') := by
  have hua := h.covers a List.mem_cons_self
  have hub := h.covers b (List.mem_cons_of_mem _ List.mem_cons_self)
  refine ⟨?_, exists_append h.starts ha.starts hb.starts, exists_append h.ends ha.ends hb.ends⟩
  intro s hs
  rcases List.mem_append.1 hs with hs | hs
  · exact hua.trans (ha.covers s hs)
  · exact hub.trans (hb.covers s hs)

end Hull

theorem min_word_cases (a b : UInt32) :
    min a b ≤ a ∧ min a b ≤ b ∧ (a = min a b ∨ b = min a b) := by
  by_cases h : a ≤ b
  · have hmin : min a b = a := if_pos h
    rw [hmin]
    exact ⟨UInt32.le_refl a, h, .inl rfl⟩
  · have hmin : min a b = b := if_neg h
    rw [hmin]
    exact ⟨UInt32.le_of_lt (UInt32.not_le.1 h), UInt32.le_refl b, .inr rfl⟩

theorem max_word_cases (a b : UInt32) :
    a ≤ max a b ∧ b ≤ max a b ∧ (a = max a b ∨ b = max a b) := by
  by_cases h : a ≤ b
  · have hmax : max a b = b := if_pos h
    rw [hmax]
    exact ⟨h, UInt32.le_refl b, .inr rfl⟩
  · have hmax : max a b = a := if_neg h
    rw [hmax]
    exact ⟨UInt32.le_refl a, UInt32.le_of_lt (UInt32.not_le.1 h), .inl rfl⟩

/-- The words that a join on one line is made of describe the hull of the two spans. -/
theorem hull_of_ends {s t : Span} {sEnd tEnd : UInt32} (hline : s.line = t.line)
    (hs : s.stop = sEnd.toNat) (ht : t.stop = tEnd.toNat) :
    Hull ⟨s.line, min s.col t.col, max sEnd tEnd - min s.col t.col⟩ [s, t] := by
  obtain ⟨hscol, htcol, hcol⟩ := min_word_cases s.col t.col
  obtain ⟨hsend, htend, hend⟩ := max_word_cases sEnd tEnd
  generalize min s.col t.col = start at *
  generalize max sEnd tEnd = last at *
  rw [UInt32.le_iff_toNat_le] at hsend htend
  -- a span ends no earlier than it starts, so the difference of words is that of numbers
  have hle : start ≤ last := by
    rw [UInt32.le_iff_toNat_le] at hscol ⊢
    rw [stop] at hs
    omega
  have hstop : stop ⟨s.line, start, last - start⟩ = last.toNat := by
    rw [stop, UInt32.toNat_sub_of_le _ _ hle]
    exact Nat.add_sub_of_le (UInt32.le_iff_toNat_le.1 hle)
  refine ⟨?_, ?_, ?_⟩
  · simp only [List.forall_mem_cons, List.not_mem_nil, false_implies, implies_true, and_true]
    exact ⟨⟨rfl, hscol, by omega⟩, ⟨hline.symm, htcol, by omega⟩⟩
  · rcases hcol with hcol | hcol
    · exact ⟨s, List.mem_cons_self, hcol⟩
    · exact ⟨t, List.mem_cons_of_mem _ List.mem_cons_self, hcol⟩
  · rcases hend with rfl | rfl
    · exact ⟨s, List.mem_cons_self, hs.trans hstop.symm⟩
    · exact ⟨t, List.mem_cons_of_mem _ List.mem_cons_self, ht.trans hstop.symm⟩

theorem end?_eq_some_iff {s : Span} {e : UInt32} : s.end? = some e ↔ s.stop = e.toNat :=
  addWords?_eq_some_iff

theorem end?_eq_none_iff {s : Span} : s.end? = none ↔ UInt32.size ≤ s.stop :=
  addWords?_eq_none_iff

/-- On one line there is a join if both spans end within a word, and it is their hull. -/
theorem join?_eq_some_iff_of_line_eq {s t u : Span} (hline : s.line = t.line) :
    s.join? t = some u ↔ s.stop < UInt32.size ∧ t.stop < UInt32.size ∧ u.Hull [s, t] := by
  rw [join?, if_pos hline]
  cases hs : s.end? with
  | none => simp [Nat.not_lt.2 (end?_eq_none_iff.1 hs)]
  | some sEnd =>
    cases ht : t.end? with
    | none => simp [Nat.not_lt.2 (end?_eq_none_iff.1 ht)]
    | some tEnd =>
      rw [end?_eq_some_iff] at hs ht
      have hhull := hull_of_ends hline hs ht
      have hsize := sEnd.toNat_lt_size
      have htsize := tEnd.toNat_lt_size
      rw [← hs] at hsize
      rw [← ht] at htsize
      show some _ = some u ↔ _
      rw [Option.some.injEq]
      constructor
      · rintro rfl
        exact ⟨hsize, htsize, hhull⟩
      · rintro ⟨-, -, hu⟩
        exact hhull.unique hu

theorem exists_join?_of_line_eq {s t : Span} (hline : s.line = t.line)
    (hs : s.stop < UInt32.size) (ht : t.stop < UInt32.size) : ∃ u, s.join? t = some u := by
  obtain ⟨sEnd, hsEnd⟩ := Option.ne_none_iff_exists'.1 (mt end?_eq_none_iff.1 (Nat.not_le.2 hs))
  obtain ⟨tEnd, htEnd⟩ := Option.ne_none_iff_exists'.1 (mt end?_eq_none_iff.1 (Nat.not_le.2 ht))
  rw [join?, if_pos hline, hsEnd, htEnd]
  exact ⟨_, rfl⟩

/-! ## Joins across lines -/

/-- The lengths of the spans together. -/
def totalLen : List Span → Nat
  | [] => 0
  | s :: rest => s.len.toNat + totalLen rest

theorem totalLen_append (first second : List Span) :
    totalLen (first ++ second) = totalLen first + totalLen second := by
  induction first with
  | nil => exact (Nat.zero_add _).symm
  | cons s rest ih => rw [List.cons_append, totalLen, totalLen, ih, Nat.add_assoc]

/-- The span starts with the first of the given ones and is as long as all of them. -/
structure Strung (u : Span) (spans : List Span) : Prop where
  first : ∃ s, spans.head? = some s ∧ u.line = s.line ∧ u.col = s.col
  len_eq : u.len.toNat = totalLen spans

theorem Strung.singleton (s : Span) : s.Strung [s] := ⟨⟨s, rfl, rfl, rfl⟩, rfl⟩

theorem Strung.line_mem {u : Span} {spans : List Span} (h : u.Strung spans) :
    u.line ∈ spans.map line := by
  obtain ⟨s, hhead, hline, -⟩ := h.first
  rw [hline]
  exact List.mem_map_of_mem (List.mem_of_mem_head? hhead)

/-- On two lines there is a join if the lengths add up to a word. -/
theorem join?_eq_some_iff_of_line_ne {s t u : Span} (hline : s.line ≠ t.line) :
    s.join? t = some u ↔
      u.line = s.line ∧ u.col = s.col ∧ s.len.toNat + t.len.toNat = u.len.toNat := by
  rw [join?, if_neg hline, ← addWords?_eq_some_iff]
  cases addWords? s.len t.len with
  | none => simp
  | some len =>
    obtain ⟨line, col, len'⟩ := u
    simp [Span.mk.injEq, eq_comm]

theorem exists_join?_of_line_ne {s t : Span} (hline : s.line ≠ t.line)
    (hlen : s.len.toNat + t.len.toNat < UInt32.size) : ∃ u, s.join? t = some u := by
  rw [join?, if_neg hline, addWords?, if_pos hlen]
  exact ⟨_, rfl⟩

/-- A join across lines puts what the second span stands for after what the first stands for. -/
theorem Strung.append {a b u : Span} {spans spans' : List Span} (ha : a.Strung spans)
    (hb : b.Strung spans') (hline : a.line ≠ b.line) (h : a.join? b = some u) :
    u.Strung (spans ++ spans') := by
  obtain ⟨huline, hucol, hlen⟩ := (join?_eq_some_iff_of_line_ne hline).1 h
  obtain ⟨s, hhead, hsline, hscol⟩ := ha.first
  refine ⟨⟨s, ?_, huline.trans hsline, hucol.trans hscol⟩, ?_⟩
  · rw [List.head?_append, hhead]
    rfl
  · rw [← hlen, ha.len_eq, hb.len_eq, totalLen_append]

end Span

/-! ## Trees -/

/-- Expressions, put together by binary operators. -/
inductive OperatorTree where
  | leaf (e : Expr)
  | node (left : OperatorTree) (op : BinaryOp) (right : OperatorTree)

namespace OperatorTree

/-- The expressions at the leaves, from left to right. -/
def leaves : OperatorTree → List Expr
  | .leaf e => [e]
  | .node left _ right => left.leaves ++ right.leaves

/-- The spans of the leaves, from left to right. -/
def spans (t : OperatorTree) : List Span := t.leaves.map Expr.span

/-- The expression that the tree stands for, built without naming a span. -/
def build : OperatorTree → Builder Expr
  | .leaf e => pure e
  | .node left op right => do
    let left ← left.build
    let right ← right.build
    Builder.binary left op right none

/-- The joins of the tree, without the expressions. -/
def span? : OperatorTree → Option Span
  | .leaf e => some e.span
  | .node left _ right =>
    left.span?.bind fun leftSpan => right.span?.bind fun rightSpan => leftSpan.join? rightSpan

theorem spans_node (left : OperatorTree) (op : BinaryOp) (right : OperatorTree) :
    (node left op right).spans = left.spans ++ right.spans := List.map_append

theorem span?_node_eq_some_iff {left right : OperatorTree} {op : BinaryOp} {u : Span} :
    (node left op right).span? = some u ↔
      ∃ a b, left.span? = some a ∧ right.span? = some b ∧ a.join? b = some u := by
  rw [span?]
  cases left.span? <;> cases right.span? <;> simp

theorem build_node (left : OperatorTree) (op : BinaryOp) (right : OperatorTree) (next : UInt32) :
    (node left op right).build next =
      (left.build next).bind fun l => (right.build l.2).bind fun r =>
        (l.1.combine? op r.1).bind fun root => some (root, r.2) := rfl

/-- Building draws no fresh span. -/
theorem exists_build {t : OperatorTree} {u : Span} (h : t.span? = some u) (next : UInt32) :
    ∃ root, t.build next = some (root, next) ∧ root.span = u := by
  induction t generalizing u with
  | leaf e =>
    cases h
    exact ⟨e, rfl, rfl⟩
  | node left op right ihleft ihright =>
    obtain ⟨a, b, ha, hb, hjoin⟩ := span?_node_eq_some_iff.1 h
    obtain ⟨l, hl, rfl⟩ := ihleft ha
    obtain ⟨r, hr, rfl⟩ := ihright hb
    refine ⟨.binary l op r u, ?_, rfl⟩
    rw [build_node, hl, Option.bind_some, hr, Option.bind_some, Expr.combine?, hjoin]
    rfl

/-- Building fails where a join does not exist. -/
theorem build_eq_none_iff (t : OperatorTree) (next : UInt32) :
    t.build next = none ↔ t.span? = none := by
  constructor
  · intro h
    cases hspan : t.span? with
    | none => rfl
    | some u =>
      obtain ⟨root, hroot, -⟩ := exists_build hspan next
      rw [h] at hroot
      cases hroot
  · intro h
    induction t with
    | leaf e => cases h
    | node left op right ihleft ihright =>
      rw [build_node]
      cases hl : left.span? with
      | none => rw [ihleft hl, Option.bind_none]
      | some a =>
        obtain ⟨l, hbuilt, rfl⟩ := exists_build hl next
        rw [hbuilt, Option.bind_some]
        cases hr : right.span? with
        | none => rw [ihright hr, Option.bind_none]
        | some b =>
          obtain ⟨r, hbuilt', rfl⟩ := exists_build hr next
          rw [span?, hl, hr] at h
          have hjoin : l.span.join? r.span = none := h
          rw [hbuilt', Option.bind_some, Expr.combine?, hjoin]
          rfl

/-! ## Trees on one line -/

/-- The span of a tree on one line, if it has one, is the hull of its leaves. -/
theorem hull_of_span? {t : OperatorTree} {line : UInt32} (hline : ∀ s ∈ t.spans, s.line = line)
    {u : Span} (h : t.span? = some u) : u.line = line ∧ u.Hull t.spans := by
  induction t generalizing u with
  | leaf e =>
    cases h
    exact ⟨hline _ List.mem_cons_self, .singleton e.span⟩
  | node left op right ihleft ihright =>
    rw [spans_node] at hline ⊢
    obtain ⟨hleft, hright⟩ := List.forall_mem_append.1 hline
    obtain ⟨a, b, ha, hb, hjoin⟩ := span?_node_eq_some_iff.1 h
    obtain ⟨haline, hahull⟩ := ihleft hleft ha
    obtain ⟨hbline, hbhull⟩ := ihright hright hb
    obtain ⟨-, -, hhull⟩ :=
      (Span.join?_eq_some_iff_of_line_eq (haline.trans hbline.symm)).1 hjoin
    exact ⟨(Span.line_of_join? hjoin).trans haline, hhull.append hahull hbhull⟩

/-- If all leaves end within a word, so do their hulls, and no join fails. -/
theorem exists_hull {t : OperatorTree} {line : UInt32} (hline : ∀ s ∈ t.spans, s.line = line)
    (hstop : ∀ s ∈ t.spans, s.stop < UInt32.size) : ∃ u, t.span? = some u := by
  induction t with
  | leaf e => exact ⟨e.span, rfl⟩
  | node left op right ihleft ihright =>
    rw [spans_node] at hline hstop
    obtain ⟨hleft, hright⟩ := List.forall_mem_append.1 hline
    obtain ⟨hstopleft, hstopright⟩ := List.forall_mem_append.1 hstop
    obtain ⟨a, ha⟩ := ihleft hleft hstopleft
    obtain ⟨b, hb⟩ := ihright hright hstopright
    obtain ⟨haline, hahull⟩ := hull_of_span? hleft ha
    obtain ⟨hbline, hbhull⟩ := hull_of_span? hright hb
    obtain ⟨u, hu⟩ := Span.exists_join?_of_line_eq (haline.trans hbline.symm)
      (hahull.stop_lt hstopleft) (hbhull.stop_lt hstopright)
    exact ⟨u, span?_node_eq_some_iff.2 ⟨a, b, ha, hb, hu⟩⟩

/-- A node checks the ends of what is below it, and with them those of all its leaves. -/
theorem stop_lt_of_span? {left right : OperatorTree} {op : BinaryOp} {line : UInt32}
    (hline : ∀ s ∈ (node left op right).spans, s.line = line) {u : Span}
    (h : (node left op right).span? = some u) :
    ∀ s ∈ (node left op right).spans, s.stop < UInt32.size := by
  have hhull := (hull_of_span? hline h).2
  rw [spans_node] at hline
  obtain ⟨hleft, hright⟩ := List.forall_mem_append.1 hline
  obtain ⟨a, b, ha, hb, hjoin⟩ := span?_node_eq_some_iff.1 h
  have hsame : a.line = b.line :=
    (hull_of_span? hleft ha).1.trans (hull_of_span? hright hb).1.symm
  obtain ⟨hastop, hbstop, hpair⟩ := (Span.join?_eq_some_iff_of_line_eq hsame).1 hjoin
  have hustop : u.stop < UInt32.size :=
    hpair.stop_lt (List.forall_mem_cons.2 ⟨hastop, List.forall_mem_singleton.2 hbstop⟩)
  intro s hs
  exact Nat.lt_of_le_of_lt (hhull.covers s hs).stop hustop

theorem exists_node {t : OperatorTree} (h : 2 ≤ t.leaves.length) :
    ∃ left op right, t = node left op right := by
  cases t with
  | leaf e => exact absurd h (by simp [leaves])
  | node left op right => exact ⟨left, op, right, rfl⟩

theorem span?_eq_none_iff_of_line {t : OperatorTree} (hleaves : 2 ≤ t.leaves.length)
    {line : UInt32} (hline : ∀ s ∈ t.spans, s.line = line) :
    t.span? = none ↔ ∃ s ∈ t.spans, UInt32.size ≤ s.stop := by
  obtain ⟨left, op, right, rfl⟩ := exists_node hleaves
  constructor
  · intro hnone
    apply Classical.byContradiction
    intro hno
    have hstop : ∀ s ∈ (node left op right).spans, s.stop < UInt32.size :=
      fun s hs => Nat.not_le.1 fun hle => hno ⟨s, hs, hle⟩
    obtain ⟨u, hu⟩ := exists_hull hline hstop
    rw [hnone] at hu
    cases hu
  · rintro ⟨s, hs, hle⟩
    cases hspan : (node left op right).span? with
    | none => rfl
    | some u => exact absurd (stop_lt_of_span? hline hspan s hs) (Nat.not_lt.2 hle)

/-- On one line neither the shape of the tree nor the order of its leaves matters. -/
theorem span?_eq_of_perm {t t' : OperatorTree} (hleaves : 2 ≤ t.leaves.length) {line : UInt32}
    (hline : ∀ s ∈ t.spans, s.line = line) (hperm : t'.spans.Perm t.spans) :
    t'.span? = t.span? := by
  have hleaves' : 2 ≤ t'.leaves.length := by
    have hlength := hperm.length_eq
    rw [spans, spans, List.length_map, List.length_map] at hlength
    rwa [hlength]
  have hline' : ∀ s ∈ t'.spans, s.line = line := fun s hs => hline s (hperm.mem_iff.1 hs)
  have hnone : t'.span? = none ↔ t.span? = none := by
    rw [span?_eq_none_iff_of_line hleaves hline, span?_eq_none_iff_of_line hleaves' hline']
    exact exists_congr fun s => and_congr_left fun _ => hperm.mem_iff
  cases h : t.span? with
  | none => exact hnone.2 h
  | some u =>
    cases h' : t'.span? with
    | none => rw [hnone.1 h'] at h; cases h
    | some u' =>
      have hhull := (hull_of_span? hline h).2
      have hhull' := (hull_of_span? hline' h').2.perm hperm
      exact congrArg some (hhull'.unique hhull)

/-! ## Trees across lines -/

/-- The span of a tree whose leaves are on different lines, if it has one. -/
theorem strung_of_span? {t : OperatorTree} (hlines : (t.spans.map Span.line).Nodup) {u : Span}
    (h : t.span? = some u) : u.Strung t.spans := by
  induction t generalizing u with
  | leaf e =>
    cases h
    exact .singleton e.span
  | node left op right ihleft ihright =>
    rw [spans_node] at hlines ⊢
    rw [List.map_append, List.nodup_append] at hlines
    obtain ⟨hleft, hright, hapart⟩ := hlines
    obtain ⟨a, b, ha, hb, hjoin⟩ := span?_node_eq_some_iff.1 h
    have hastrung := ihleft hleft ha
    have hbstrung := ihright hright hb
    exact hastrung.append hbstrung (hapart _ hastrung.line_mem _ hbstrung.line_mem) hjoin

/-- If all lengths add up to a word, so do those of each part, and no join fails. -/
theorem exists_strung {t : OperatorTree} (hlines : (t.spans.map Span.line).Nodup)
    (hlen : Span.totalLen t.spans < UInt32.size) : ∃ u, t.span? = some u := by
  induction t with
  | leaf e => exact ⟨e.span, rfl⟩
  | node left op right ihleft ihright =>
    rw [spans_node, Span.totalLen_append] at hlen
    rw [spans_node, List.map_append, List.nodup_append] at hlines
    obtain ⟨hleft, hright, hapart⟩ := hlines
    obtain ⟨a, ha⟩ := ihleft hleft (Nat.lt_of_le_of_lt (Nat.le_add_right _ _) hlen)
    obtain ⟨b, hb⟩ := ihright hright (Nat.lt_of_le_of_lt (Nat.le_add_left _ _) hlen)
    have hastrung := strung_of_span? hleft ha
    have hbstrung := strung_of_span? hright hb
    rw [← hastrung.len_eq, ← hbstrung.len_eq] at hlen
    obtain ⟨u, hu⟩ := Span.exists_join?_of_line_ne
      (hapart _ hastrung.line_mem _ hbstrung.line_mem) hlen
    exact ⟨u, span?_node_eq_some_iff.2 ⟨a, b, ha, hb, hu⟩⟩

theorem span?_eq_none_iff_of_lines {t : OperatorTree}
    (hlines : (t.spans.map Span.line).Nodup) :
    t.span? = none ↔ UInt32.size ≤ Span.totalLen t.spans := by
  constructor
  · intro hnone
    refine Nat.not_lt.1 fun hlen => ?_
    obtain ⟨u, hu⟩ := exists_strung hlines hlen
    rw [hnone] at hu
    cases hu
  · intro hle
    cases hspan : t.span? with
    | none => rfl
    | some u =>
      have hlen := (strung_of_span? hlines hspan).len_eq
      exact absurd (hlen ▸ u.len.toNat_lt_size) (Nat.not_lt.2 hle)

theorem map_span_build (t : OperatorTree) (next : UInt32) :
    (t.build next).map (fun built => built.1.span) = t.span? := by
  cases hspan : t.span? with
  | none => rw [(t.build_eq_none_iff next).2 hspan, Option.map_none]
  | some u =>
    obtain ⟨root, hroot, rfl⟩ := exists_build hspan next
    rw [hroot, Option.map_some]

/-- **Spans of operator trees.**  A tree of binary operators over two or more leaves is built
without drawing fresh spans.

On one line, building fails exactly if a leaf ends past the last word.  Otherwise the root covers
the leaves, starts with the first and ends with the last of them, and is the smallest span that
covers them; another tree over the same spans, in any order, comes to the same.

If the leaves are on different lines, building fails exactly if their lengths together exceed a
word.  Otherwise the root starts where the leftmost leaf does and has that length. -/
theorem build_span (t : OperatorTree) (hleaves : 2 ≤ t.leaves.length) (next : UInt32) :
    (∀ line, (∀ s ∈ t.spans, s.line = line) →
      (t.build next = none ↔ ∃ s ∈ t.spans, UInt32.size ≤ s.col.toNat + s.len.toNat) ∧
      ((∀ s ∈ t.spans, s.col.toNat + s.len.toNat < UInt32.size) →
        ∃ root, t.build next = some (root, next) ∧ root.span.line = line ∧
          root.span.Hull t.spans ∧
          ∀ v : Span, (∀ s ∈ t.spans, v.Covers s) → v.Covers root.span) ∧
      ∀ t' : OperatorTree, t'.spans.Perm t.spans →
        (t'.build next).map (fun built => built.1.span) =
          (t.build next).map (fun built => built.1.span)) ∧
    ((t.spans.map Span.line).Nodup →
      (t.build next = none ↔ UInt32.size ≤ Span.totalLen t.spans) ∧
      (Span.totalLen t.spans < UInt32.size →
        ∃ root, t.build next = some (root, next) ∧ root.span.Strung t.spans)) := by
  rw [build_eq_none_iff]
  constructor
  · intro line hline
    refine ⟨span?_eq_none_iff_of_line hleaves hline, ?_, ?_⟩
    · intro hstop
      obtain ⟨u, hu⟩ := exists_hull hline hstop
      obtain ⟨root, hroot, rfl⟩ := exists_build hu next
      obtain ⟨hrootline, hhull⟩ := hull_of_span? hline hu
      exact ⟨root, hroot, hrootline, hhull, fun v => hhull.least⟩
    · intro t' hperm
      rw [map_span_build, map_span_build, span?_eq_of_perm hleaves hline hperm]
  · intro hlines
    refine ⟨span?_eq_none_iff_of_lines hlines, ?_⟩
    intro hlen
    obtain ⟨u, hu⟩ := exists_strung hlines hlen
    obtain ⟨root, hroot, rfl⟩ := exists_build hu next
    exact ⟨root, hroot, strung_of_span? hlines hu⟩

/-- A sum of three literals with these spans, put together from the right. -/
def sumOf (first second third : Span) : OperatorTree :=
  .node (.leaf (.literal (.int 1) first)) .add
    (.node (.leaf (.literal (.int 2) second)) .add (.leaf (.literal (.int 3) third)))

/-- A row of literals in the wrong order on one line, the last of which ends at the last word there
is; and one that goes down the lines. -/
theorem build_span_sums :
    (∃ root, (sumOf ⟨2, 14, 1⟩ ⟨2, 5, 3⟩ ⟨2, 4294967290, 5⟩).build 7 = some (root, 7) ∧
      root.span.Hull [⟨2, 14, 1⟩, ⟨2, 5, 3⟩, ⟨2, 4294967290, 5⟩]) ∧
    (sumOf ⟨2, 14, 1⟩ ⟨2, 5, 3⟩ ⟨2, 4294967290, 6⟩).build 7 = none ∧
    ∃ root, (sumOf ⟨4, 9, 2⟩ ⟨3, 1, 4⟩ ⟨8, 5, 1⟩).build 7 = some (root, 7) ∧
      root.span.Strung [⟨4, 9, 2⟩, ⟨3, 1, 4⟩, ⟨8, 5, 1⟩] := by
  refine ⟨?_, ?_, ?_⟩
  · obtain ⟨-, hbuild, -⟩ :=
      (build_span (sumOf ⟨2, 14, 1⟩ ⟨2, 5, 3⟩ ⟨2, 4294967290, 5⟩) (by decide) 7).1 2 (by decide)
    obtain ⟨root, hroot, -, hhull, -⟩ := hbuild (by decide)
    exact ⟨root, hroot, hhull⟩
  · have hbuild :=
      (build_span (sumOf ⟨2, 14, 1⟩ ⟨2, 5, 3⟩ ⟨2, 4294967290, 6⟩) (by decide) 7).1 2 (by decide)
    exact hbuild.1.2 ⟨⟨2, 4294967290, 6⟩, by decide, by decide⟩
  · obtain ⟨-, hbuild⟩ :=
      (build_span (sumOf ⟨4, 9, 2⟩ ⟨3, 1, 4⟩ ⟨8, 5, 1⟩) (by decide) 7).2 (by decide)
    exact hbuild (by decide)

end OperatorTree

end WasmCodegen
