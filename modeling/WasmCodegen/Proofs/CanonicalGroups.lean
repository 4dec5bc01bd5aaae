import Mathlib.Data.List.Chain
import Mathlib.Data.List.Induction
import WasmCodegen.Proofs.Decoder

/-!
# Groups of locals are canonical

The groups that `LocalGroup.compress` makes stand for the locals they were made of
(`LocalGroup.expand_compress`).  Other groups do so too: a group can be cut in two, and a group of
no locals can stand anywhere.  `LocalGroup.Canonical` excludes both: no group is empty, and
neighbours differ in type.  The groups of `LocalGroup.compress` are canonical, no other canonical
groups stand for the same locals, and no shorter list of groups does
(`LocalGroup.compress_canonical_shortest`).

Uniqueness and length rest on what a run of locals of one type does to the groups behind it.  If the
first of these is of that type, it takes up the run; if not, the run becomes a group of its own
(`LocalGroup.cons_cases`).  So canonical groups are rebuilt one by one
(`LocalGroup.Canonical.compress_expand`), and each group of any list gives rise to at most one
(`LocalGroup.length_compress_expand_le`).

Locals can be grouped from the front as well, where each local goes to the last group or opens a
new one (`LocalGroup.extend`).  This makes canonical groups too, hence the same ones
(`LocalGroup.foldl_extend`).
-/

namespace WasmCodegen

namespace LocalGroup

/-! ## What groups stand for -/

theorem expand_group (group : LocalGroup) (groups : List LocalGroup) :
    expand (group :: groups) = List.replicate group.count group.type ++ expand groups :=
  List.flatMap_cons

theorem expand_append (groups groups' : List LocalGroup) :
    expand (groups ++ groups') = expand groups ++ expand groups' :=
  List.flatMap_append

/-- What one more local in front does: it opens a group, or the first group takes it up. -/
theorem cons_cases (type : ValueType) (groups : List LocalGroup) :
    ((∀ first ∈ groups.head?, type ≠ first.type) ∧ cons type groups = ⟨1, type⟩ :: groups) ∨
      ∃ count rest, groups = ⟨count, type⟩ :: rest ∧
        cons type groups = ⟨count + 1, type⟩ :: rest := by
  cases groups with
  | nil => exact .inl ⟨by simp, rfl⟩
  | cons first rest =>
    by_cases htype : first.type = type
    · subst htype
      exact .inr ⟨first.count, rest, rfl, if_pos rfl⟩
    · refine .inl ⟨?_, if_neg htype⟩
      rintro _ ⟨⟩
      exact Ne.symm htype

theorem expand_cons (type : ValueType) (groups : List LocalGroup) :
    expand (cons type groups) = type :: expand groups := by
  obtain ⟨-, hcons⟩ | ⟨count, rest, rfl, hcons⟩ := cons_cases type groups
  · rw [hcons]
    rfl
  · rw [hcons]
    rfl

/-- The groups of locals stand for these locals. -/
theorem expand_compress (locals : List ValueType) : expand (compress locals) = locals := by
  induction locals with
  | nil => rfl
  | cons type locals ih =>
    rw [compress, List.foldr_cons, ← compress, expand_cons, ih]

/-- A group counts no more locals than there are. -/
theorem count_le_length {locals : List ValueType} {group : LocalGroup}
    (h : group ∈ compress locals) : group.count ≤ locals.length := by
  obtain ⟨before, after, hsplit⟩ := List.append_of_mem h
  have hlength := congrArg List.length (expand_compress locals)
  rw [hsplit, expand_append, expand_group, List.length_append, List.length_append,
    List.length_replicate] at hlength
  omega

/-! ## Canonical groups -/

/-- No group is empty, and groups next to each other differ in type. -/
structure Canonical (groups : List LocalGroup) : Prop where
  count_pos : ∀ group ∈ groups, 0 < group.count
  type_ne : groups.IsChain fun group next => group.type ≠ next.type

instance (groups : List LocalGroup) : Decidable (Canonical groups) :=
  decidable_of_iff
    ((∀ group ∈ groups, 0 < group.count) ∧
      groups.IsChain fun group next => group.type ≠ next.type)
    ⟨fun h => ⟨h.1, h.2⟩, fun h => ⟨h.1, h.2⟩⟩

namespace Canonical

variable {group last : LocalGroup} {groups before : List LocalGroup}

theorem nil : Canonical [] := ⟨by simp, .nil⟩

theorem cons_iff :
    Canonical (group :: groups) ↔
      0 < group.count ∧ (∀ next ∈ groups.head?, group.type ≠ next.type) ∧ Canonical groups := by
  constructor
  · rintro ⟨hpos, hne⟩
    rw [List.forall_mem_cons] at hpos
    rw [List.isChain_cons] at hne
    exact ⟨hpos.1, hne.1, hpos.2, hne.2⟩
  · rintro ⟨hpos, hnext, hrest⟩
    exact ⟨List.forall_mem_cons.2 ⟨hpos, hrest.count_pos⟩,
      List.isChain_cons.2 ⟨hnext, hrest.type_ne⟩⟩

theorem append_singleton_iff :
    Canonical (before ++ [last]) ↔
      Canonical before ∧ (∀ group ∈ before.getLast?, group.type ≠ last.type) ∧ 0 < last.count := by
  constructor
  · rintro ⟨hpos, hne⟩
    rw [List.forall_mem_append] at hpos
    rw [List.isChain_append] at hne
    exact ⟨⟨hpos.1, hne.1⟩, fun group hmem => hne.2.2 group hmem last rfl, hpos.2 last (by simp)⟩
  · rintro ⟨hbefore, hne, hpos⟩
    refine ⟨List.forall_mem_append.2 ⟨hbefore.count_pos, by simpa using hpos⟩, ?_⟩
    refine List.isChain_append.2 ⟨hbefore.type_ne, .singleton _, ?_⟩
    rintro group hmem _ ⟨⟩
    exact hne group hmem

/-- One more local in front keeps groups canonical. -/
theorem cons (h : Canonical groups) (type : ValueType) :
    Canonical (LocalGroup.cons type groups) := by
  obtain ⟨hfirst, hcons⟩ | ⟨count, rest, rfl, hcons⟩ := cons_cases type groups
  · rw [hcons]
    exact cons_iff.2 ⟨Nat.one_pos, hfirst, h⟩
  · rw [hcons]
    rw [cons_iff] at h
    exact cons_iff.2 ⟨Nat.succ_pos count, h.2⟩

end Canonical

/-- Compressed locals are in canonical groups. -/
theorem canonical_compress (locals : List ValueType) : Canonical (compress locals) := by
  induction locals with
  | nil => exact .nil
  | cons type locals ih => exact ih.cons type

/-! ## Runs of locals -/

/-- A group takes up a whole run of its type. -/
theorem foldr_cons_same (n count : Nat) (type : ValueType) (groups : List LocalGroup) :
    (List.replicate n type).foldr cons (⟨count, type⟩ :: groups) =
      ⟨count + n, type⟩ :: groups := by
  induction n with
  | zero => rfl
  | succ n ih =>
    rw [List.replicate_succ, List.foldr_cons, ih]
    exact if_pos rfl

/-- The last local of a run decides which group it is, and the others follow it. -/
theorem compress_run (n : Nat) (type : ValueType) (locals : List ValueType) :
    compress (List.replicate (n + 1) type ++ locals) =
      (List.replicate n type).foldr cons (cons type (compress locals)) := by
  rw [compress, List.foldr_append, List.replicate_succ', List.foldr_append]
  rfl

/-- Canonical groups come back from the locals they stand for. -/
theorem Canonical.compress_expand {groups : List LocalGroup} (h : Canonical groups) :
    compress (expand groups) = groups := by
  induction groups with
  | nil => rfl
  | cons group groups ih =>
    obtain ⟨count, type⟩ := group
    obtain ⟨hpos, hnext, hrest⟩ := cons_iff.1 h
    cases count with
    | zero => exact absurd hpos (Nat.lt_irrefl 0)
    | succ n =>
      rw [expand_group, compress_run, ih hrest]
      obtain ⟨-, hcons⟩ | ⟨count, rest, rfl, -⟩ := cons_cases type groups
      · rw [hcons, foldr_cons_same, Nat.add_comm]
      · -- The group behind the run would be of its type.
        exact absurd rfl (hnext ⟨count, type⟩ rfl)

/-- However locals are grouped, compressing them makes no more groups. -/
theorem length_compress_expand_le (groups : List LocalGroup) :
    (compress (expand groups)).length ≤ groups.length := by
  induction groups with
  | nil => exact Nat.le_refl 0
  | cons group groups ih =>
    rw [expand_group, List.length_cons]
    -- An empty group vanishes, and any other becomes one group or is taken up by the one behind it.
    cases group.count with
    | zero => exact Nat.le_succ_of_le ih
    | succ n =>
      rw [compress_run]
      obtain ⟨-, hcons⟩ | ⟨count, rest, hrest, hcons⟩ :=
        cons_cases group.type (compress (expand groups))
      · rw [hcons, foldr_cons_same, List.length_cons]
        exact Nat.succ_le_succ ih
      · rw [hrest, List.length_cons] at ih
        rw [hcons, foldr_cons_same, List.length_cons]
        exact Nat.le_succ_of_le ih

/-- There are no more groups than locals, as each local could be a group of its own. -/
theorem length_compress_le (locals : List ValueType) :
    (compress locals).length ≤ locals.length := by
  have hexpand : expand (locals.map fun type => ⟨1, type⟩) = locals := by
    simp [expand, List.flatMap_map]
  have hlength := length_compress_expand_le (locals.map fun type => ⟨1, type⟩)
  rwa [hexpand, List.length_map] at hlength

/-! ## Grouping from the front -/

/-- One more local behind grouped locals: the last group takes it up if it has the same type. -/
def extend (groups : List LocalGroup) (type : ValueType) : List LocalGroup :=
  match groups.getLast? with
  | some last =>
    if last.type = type then
      groups.dropLast ++ [⟨last.count + 1, type⟩]
    else
      groups ++ [⟨1, type⟩]
  | none => [⟨1, type⟩]

/-- What one more local behind does: it opens a group, or the last group takes it up. -/
theorem extend_cases (groups : List LocalGroup) (type : ValueType) :
    ((∀ last ∈ groups.getLast?, last.type ≠ type) ∧ extend groups type = groups ++ [⟨1, type⟩]) ∨
      ∃ before count, groups = before ++ [⟨count, type⟩] ∧
        extend groups type = before ++ [⟨count + 1, type⟩] := by
  obtain rfl | ⟨before, last, rfl⟩ := List.eq_nil_or_concat' groups
  · exact .inl ⟨by simp, rfl⟩
  · by_cases htype : last.type = type
    · subst htype
      exact .inr ⟨before, last.count, rfl, by simp [extend]⟩
    · exact .inl ⟨by simpa using htype, by simp [extend, htype]⟩

theorem expand_extend (groups : List LocalGroup) (type : ValueType) :
    expand (extend groups type) = expand groups ++ [type] := by
  obtain ⟨-, hextend⟩ | ⟨before, count, rfl, hextend⟩ := extend_cases groups type
  · rw [hextend, expand_append]
    rfl
  · rw [hextend, expand_append, expand_append, List.append_assoc]
    simp [expand, List.replicate_succ']

/-- One more local behind keeps groups canonical. -/
theorem Canonical.extend {groups : List LocalGroup} (h : Canonical groups) (type : ValueType) :
    Canonical (extend groups type) := by
  obtain ⟨hlast, hextend⟩ | ⟨before, count, rfl, hextend⟩ := extend_cases groups type
  · rw [hextend]
    exact append_singleton_iff.2 ⟨h, hlast, Nat.one_pos⟩
  · rw [hextend]
    obtain ⟨hbefore, hne, -⟩ := append_singleton_iff.1 h
    exact append_singleton_iff.2 ⟨hbefore, hne, Nat.succ_pos count⟩

/-- Grouping goes local by local: the next one extends the groups of those before it. -/
theorem compress_append_singleton (locals : List ValueType) (type : ValueType) :
    compress (locals ++ [type]) = extend (compress locals) type := by
  have hcanonical := (canonical_compress locals).extend type
  have hexpand := expand_extend (compress locals) type
  rw [expand_compress] at hexpand
  -- The extended groups are canonical and stand for all of the locals, so there are no others.
  rw [← hexpand, hcanonical.compress_expand]

/-- Locals grouped in one pass from the front are compressed. -/
theorem foldl_extend (locals : List ValueType) : locals.foldl extend [] = compress locals := by
  induction locals using List.reverseRecOn with
  | nil => rfl
  | append_singleton locals type ih =>
    rw [List.foldl_append, ih, compress_append_singleton]
    rfl

/-! ## Grouped locals -/

/-- **Locals are grouped canonically.**  The groups of a list of locals are canonical and stand for
these locals.  No other canonical groups do, and no list of groups that stand for the same locals,
canonical or not, is shorter.  A pass from the front that extends the last group or opens a new one
makes the same groups. -/
theorem compress_canonical_shortest (locals : List ValueType) :
    Canonical (compress locals) ∧ expand (compress locals) = locals ∧
    (∀ groups, Canonical groups → expand groups = locals → groups = compress locals) ∧
    (∀ groups, expand groups = locals → (compress locals).length ≤ groups.length) ∧
    locals.foldl extend [] = compress locals := by
  refine ⟨canonical_compress locals, expand_compress locals, ?_, ?_, foldl_extend locals⟩
  · rintro groups hgroups rfl
    exact hgroups.compress_expand.symm
  · rintro groups rfl
    exact length_compress_expand_le groups

/-- A group cut in two by an empty one stands for the same locals. -/
example :
    expand [⟨1, .i32⟩, ⟨0, .f64⟩, ⟨2, .i32⟩] = [.i32, .i32, .i32] ∧
      ¬ Canonical [⟨1, .i32⟩, ⟨0, .f64⟩, ⟨2, .i32⟩] ∧
      compress [.i32, .i32, .i32] = [⟨3, .i32⟩] := by
  decide

end LocalGroup

end WasmCodegen
