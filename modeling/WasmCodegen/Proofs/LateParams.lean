import WasmCodegen.Proofs.ScopeSessions

/-!
# Parameters after locals

A scope table accepts a parameter at the function's own level, as long as there are as many names in
sight as slots.  This tells whether a variable was declared before, but only in part: a variable of
the function's own scope has a slot and stays in sight, so the two numbers go on agreeing
(`ScopeTable.declareParam_after_local`).  What they do tell is whether a slot was ever given to a
variable of a block (`ScopeTable.declareParam_refused_iff`).  Such a slot has no name once the block
is left, and no later declaration can make up for it.

The slots of block variables are those that the function's own scope does not have
(`LexicalTable.HasBlockSlot`).  Entering and leaving blocks does not touch that scope, and a
declaration adds its slot to it or not, depending on the level.
-/

namespace WasmCodegen

/-! ## The function's own scope -/

namespace Scopes

variable {α : Type}

/-- The declarations of the outermost scope. -/
def functionScope (s : Scopes α) : List (String × α) := s.outer.getLastD s.inner

theorem functionScope_of_level_eq_zero {s : Scopes α} (h : s.level = 0) :
    s.functionScope = s.inner := by
  rw [functionScope, List.length_eq_zero_iff.1 h]
  rfl

theorem functionScope_enter (s : Scopes α) : s.enter.functionScope = s.functionScope := by
  rw [functionScope, enter, List.getLastD_cons, functionScope]

theorem functionScope_leave {s s' : Scopes α} (h : s.leave? = some s') :
    s'.functionScope = s.functionScope := by
  obtain ⟨inner, _ | ⟨scope, outer⟩⟩ := s
  · cases h
  · cases h
    rw [functionScope, functionScope, List.getLastD_cons]

theorem functionScope_declare (s : Scopes α) (name : String) (a : α) :
    (s.declare name a).functionScope =
      if s.level = 0 then (name, a) :: s.functionScope else s.functionScope := by
  obtain ⟨inner, _ | ⟨scope, outer⟩⟩ := s
  · rfl
  · rw [if_neg (by simp [level]), functionScope, functionScope]
    exact (List.getLastD_cons ..).trans (List.getLastD_cons ..).symm

theorem mem_entries_of_mem_functionScope {s : Scopes α} {entry : String × α}
    (h : entry ∈ s.functionScope) : entry ∈ s.entries :=
  List.mem_flatten.2 ⟨s.functionScope, List.getLastD_mem_cons, h⟩

/-- A declaration is found in a scope that has every name once. -/
theorem lookup_eq_some_of_mem {scope : List (String × α)} {entry : String × α}
    (hnames : (scope.map Prod.fst).Nodup) (h : entry ∈ scope) :
    scope.lookup entry.1 = some entry.2 := by
  obtain ⟨before, after, rfl⟩ := List.append_of_mem h
  refine List.lookup_eq_some_iff.2 ⟨before, after, rfl, ?_⟩
  intro other hother
  rw [List.map_append, List.nodup_append] at hnames
  have hne := hnames.2.2 other.1 (List.mem_map_of_mem hother) entry.1 List.mem_cons_self
  exact bne_iff_ne.2 (Ne.symm hne)

end Scopes

namespace LexicalTable

/-- Some slot does not belong to the function's own scope: it was given to a variable of a block. -/
def HasBlockSlot (t : LexicalTable) : Prop :=
  ∃ slot < t.slots.length, ∀ entry ∈ t.scopes.functionScope, entry.2.slot ≠ slot

/-- The table with one more variable. -/
def bind (t : LexicalTable) (name : String) (type : ValueType) (span : Span) : LexicalTable where
  scopes := t.scopes.declare name ⟨type, t.slots.length, span⟩
  slots := t.slots ++ [type]

theorem declare_of_fresh {t : LexicalTable} {name : String}
    (hfresh : t.scopes.inner.lookup name = none) (type : ValueType) (span : Span) :
    t.declare name type span = (.slot t.slots.length, t.bind name type span) := by
  rw [declare, hfresh]
  rfl

theorem declare_of_taken {t : LexicalTable} {name : String} {first : Variable}
    (htaken : t.scopes.inner.lookup name = some first) (type : ValueType) (span : Span) :
    t.declare name type span = (.refused (.duplicateBinding name first.span span), t) := by
  rw [declare, htaken]

/-- A declaration takes a slot for a block exactly if it stands in one. -/
theorem hasBlockSlot_bind {t : LexicalTable} (hapart : t.scopes.SlotsApart t.slots.length)
    (name : String) (type : ValueType) (span : Span) :
    (t.bind name type span).HasBlockSlot ↔ t.HasBlockSlot ∨ 0 < t.scopes.level := by
  simp only [HasBlockSlot, bind, List.length_append, List.length_singleton]
  rw [Scopes.functionScope_declare]
  by_cases hlevel : t.scopes.level = 0
  · -- the new slot belongs to the function's scope, so it is not the one looked for
    rw [if_pos hlevel, hlevel, or_iff_left (Nat.lt_irrefl 0)]
    constructor
    · rintro ⟨slot, hlt, hother⟩
      have hne : t.slots.length ≠ slot := hother _ List.mem_cons_self
      have hlt' : slot < t.slots.length := by omega
      exact ⟨slot, hlt', fun entry hentry => hother entry (List.mem_cons_of_mem _ hentry)⟩
    · rintro ⟨slot, hlt, hother⟩
      refine ⟨slot, Nat.lt_succ_of_lt hlt, ?_⟩
      intro entry hentry
      rcases List.mem_cons.1 hentry with rfl | hentry
      · exact Nat.ne_of_gt hlt
      · exact hother entry hentry
  · rw [if_neg hlevel]
    refine iff_of_true ⟨t.slots.length, Nat.lt_succ_self _, ?_⟩ (.inr (Nat.pos_of_ne_zero hlevel))
    intro entry hentry
    exact Nat.ne_of_lt (hapart.lt entry (Scopes.mem_entries_of_mem_functionScope hentry))

/-- At the function's own level, every slot has a visible name unless one was given to a block. -/
theorem everySlotVisible_iff {t : LexicalTable} (hlevel : t.scopes.level = 0)
    (hnames : (t.scopes.functionScope.map Prod.fst).Nodup) :
    t.everySlotVisible = true ↔ ¬ t.HasBlockSlot := by
  have houter : t.scopes.outer = [] := List.length_eq_zero_iff.1 hlevel
  have hinner := Scopes.functionScope_of_level_eq_zero hlevel
  simp only [everySlotVisible, HasBlockSlot, hinner, List.all_eq_true, List.any_eq_true,
    List.mem_range, beq_iff_eq, not_exists, not_and, not_forall, ne_eq, not_not, exists_prop]
  refine forall₂_congr fun slot _ => ?_
  constructor
  · rintro ⟨b, hb, rfl⟩
    obtain ⟨name, hlookup⟩ := Scopes.mem_visible_iff.1 hb
    obtain ⟨v, hentry, hslot⟩ := Scopes.exists_entry hlookup
    rw [Scopes.entries, houter, List.flatten_singleton] at hentry
    exact ⟨(name, v), hentry, hslot⟩
  · rintro ⟨entry, hentry, rfl⟩
    have hfound := Scopes.lookup_eq_some_of_mem (hinner ▸ hnames) hentry
    have hlookup : t.scopes.lookup entry.1 = some (entry.2.binding entry.1 0) := by
      rw [Scopes.lookup, Scopes.meaning, Scopes.search, hfound, houter]
      rfl
    exact ⟨_, Scopes.mem_visible_iff.2 ⟨entry.1, hlookup⟩, rfl⟩

end LexicalTable

/-! ## Declarations inside blocks -/

namespace ScopeTable

/-- The operation declares a variable of a block: a block is open, and the table accepts. -/
def DeclaresInBlock (table : ScopeTable) (op : ScopeOp) : Prop :=
  0 < table.depth ∧ ∃ name type span slot,
    op = .declare name type span ∧ (table.perform op).1 = .slot slot

/-- Some operation of the session has declared a variable of a block. -/
def DeclaredInBlock (table : ScopeTable) (ops : List ScopeOp) : Prop :=
  ∃ before op after, ops = before ++ op :: after ∧ (table.session before).2.DeclaresInBlock op

theorem not_declaredInBlock_nil (table : ScopeTable) : ¬ table.DeclaredInBlock [] := by
  rintro ⟨before, op, after, hops, -⟩
  simp at hops

theorem declaredInBlock_cons (table : ScopeTable) (op : ScopeOp) (ops : List ScopeOp) :
    table.DeclaredInBlock (op :: ops) ↔
      table.DeclaresInBlock op ∨ (table.perform op).2.DeclaredInBlock ops := by
  constructor
  · rintro ⟨_ | ⟨first, before⟩, op', after, hops, hdeclares⟩
    · cases hops
      exact .inl hdeclares
    · cases hops
      exact .inr ⟨before, op', after, rfl, hdeclares⟩
  · rintro (hdeclares | ⟨before, op', after, rfl, hdeclares⟩)
    · exact ⟨[], op, ops, rfl, hdeclares⟩
    · exact ⟨op :: before, op', after, rfl, hdeclares⟩

end ScopeTable

/-- What a table remembers of its session: the function's own scope has every name once, and a slot
is missing in it if and only if a variable of a block was declared. -/
structure LexicalTable.Remembers (t : LexicalTable) (declared : Prop) : Prop where
  names : (t.scopes.functionScope.map Prod.fst).Nodup
  hasBlockSlot_iff : t.HasBlockSlot ↔ declared

namespace LexicalTable.Remembers

variable {table : ScopeTable} {t : LexicalTable} {declared : Prop}

theorem empty : ({} : LexicalTable).Remembers False where
  names := List.nodup_nil
  hasBlockSlot_iff := iff_of_false (fun ⟨_, hlt, _⟩ => absurd hlt (Nat.not_lt_zero _)) id

/-- Operations that declare nothing leave the memory alone. -/
theorem of_eq (h : t.Remembers declared) {t' : LexicalTable}
    (hscope : t'.scopes.functionScope = t.scopes.functionScope) (hslots : t'.slots = t.slots)
    {op : ScopeOp} (hop : ¬ table.DeclaresInBlock op) :
    t'.Remembers (declared ∨ table.DeclaresInBlock op) := by
  rw [or_iff_left hop]
  refine ⟨hscope ▸ h.names, ?_⟩
  rw [← h.hasBlockSlot_iff, HasBlockSlot, HasBlockSlot, hscope, hslots]

theorem bind (h : t.Remembers declared) (hapart : t.scopes.SlotsApart t.slots.length)
    {name : String} (hfresh : t.scopes.inner.lookup name = none) (type : ValueType) (span : Span) :
    (t.bind name type span).Remembers (declared ∨ 0 < t.scopes.level) := by
  refine ⟨?_, by rw [hasBlockSlot_bind hapart, h.hasBlockSlot_iff]⟩
  show ((t.scopes.declare name _).functionScope.map Prod.fst).Nodup
  rw [Scopes.functionScope_declare]
  split
  · rename_i hlevel
    refine List.nodup_cons.2 ⟨?_, h.names⟩
    rw [Scopes.functionScope_of_level_eq_zero hlevel]
    intro hmem
    obtain ⟨entry, hentry, hname⟩ := List.mem_map.1 hmem
    have hne := List.lookup_eq_none_iff.1 hfresh entry hentry
    simp [hname] at hne
  · exact h.names

end LexicalTable.Remembers

namespace ScopeTable.Matches

variable {table : ScopeTable} {t : LexicalTable} {declared : Prop}

theorem declaresInBlock_declare_iff (h : table.Matches t) (name : String) (type : ValueType)
    (span : Span) :
    table.DeclaresInBlock (.declare name type span) ↔
      0 < t.scopes.level ∧ t.scopes.inner.lookup name = none := by
  rw [DeclaresInBlock, h.shows.depth_eq, (h.perform _).1]
  refine and_congr_right fun _ => ?_
  rw [LexicalTable.perform]
  cases hlookup : t.scopes.inner.lookup name with
  | none =>
    rw [LexicalTable.declare_of_fresh hlookup]
    exact iff_of_true ⟨name, type, span, _, rfl, rfl⟩ rfl
  | some first =>
    rw [LexicalTable.declare_of_taken hlookup]
    refine iff_of_false ?_ (Option.some_ne_none _)
    rintro ⟨_, _, _, _, _, hanswer⟩
    cases hanswer

/-- One operation: the memory changes if a variable of a block is declared, and else not. -/
theorem remembers_perform (h : table.Matches t) (hremembers : t.Remembers declared)
    (op : ScopeOp) : (t.perform op).2.Remembers (declared ∨ table.DeclaresInBlock op) := by
  have hother : (∀ name type span, op ≠ .declare name type span) → ¬ table.DeclaresInBlock op :=
    fun hne ⟨_, name, type, span, _, hop, _⟩ => hne name type span hop
  cases op with
  | declare name type span =>
    rw [LexicalTable.perform]
    cases hlookup : t.scopes.inner.lookup name with
    | none =>
      have hbind := hremembers.bind h.apart hlookup type span
      rw [LexicalTable.declare_of_fresh hlookup, h.declaresInBlock_declare_iff,
        and_iff_left hlookup]
      exact hbind
    | some first =>
      rw [LexicalTable.declare_of_taken hlookup]
      refine hremembers.of_eq rfl rfl ?_
      rw [h.declaresInBlock_declare_iff, hlookup]
      exact fun hdeclares => Option.some_ne_none _ hdeclares.2
  | declareParam name type span =>
    have hop := hother fun _ _ _ => ScopeOp.noConfusion
    rw [LexicalTable.perform]
    split
    · rename_i haccepts
      have hlevel : t.scopes.level = 0 := by simp_all
      cases hlookup : t.scopes.inner.lookup name with
      | none =>
        have hbind := hremembers.bind h.apart hlookup type span
        rw [LexicalTable.declare_of_fresh hlookup, or_iff_left hop]
        rwa [hlevel, or_iff_left (Nat.lt_irrefl 0)] at hbind
      | some first =>
        rw [LexicalTable.declare_of_taken hlookup]
        exact hremembers.of_eq rfl rfl hop
    · exact hremembers.of_eq rfl rfl hop
  | enter =>
    have hop := hother fun _ _ _ => ScopeOp.noConfusion
    have hscope : (t.perform .enter).2.scopes.functionScope = t.scopes.functionScope :=
      Scopes.functionScope_enter t.scopes
    exact hremembers.of_eq hscope rfl hop
  | leave =>
    have hop := hother fun _ _ _ => ScopeOp.noConfusion
    rw [LexicalTable.perform]
    split
    · rename_i scopes hleave
      have hscope : (LexicalTable.mk scopes t.slots).scopes.functionScope =
          t.scopes.functionScope := Scopes.functionScope_leave hleave
      exact hremembers.of_eq hscope rfl hop
    · exact hremembers.of_eq rfl rfl hop
  | lookup name => exact hremembers.of_eq rfl rfl (hother fun _ _ _ => ScopeOp.noConfusion)

/-- A whole session. -/
theorem remembers_session (h : table.Matches t) (hremembers : t.Remembers declared)
    (ops : List ScopeOp) :
    (t.session ops).2.Remembers (declared ∨ table.DeclaredInBlock ops) := by
  induction ops generalizing table t declared with
  | nil =>
    rw [or_iff_left table.not_declaredInBlock_nil]
    exact hremembers
  | cons op ops ih =>
    rw [declaredInBlock_cons, ← or_assoc]
    exact ih (h.perform op).2 (h.remembers_perform hremembers op)

end ScopeTable.Matches

namespace ScopeTable

/-- After any session a parameter is acceptable, unless a block is open or a variable of a block was
declared. -/
theorem acceptsParam_session_iff (ops : List ScopeOp) :
    (empty.session ops).2.acceptsParam = true ↔
      ¬ (0 < (empty.session ops).2.depth ∨ empty.DeclaredInBlock ops) := by
  have hmatches := (Matches.empty.session ops).2
  have hremembers := Matches.empty.remembers_session .empty ops
  rw [false_or] at hremembers
  rw [hmatches.acceptsParam_eq, hmatches.shows.depth_eq, Bool.and_eq_true, beq_iff_eq, not_or,
    Nat.not_lt, Nat.le_zero]
  refine and_congr_right fun hlevel => ?_
  rw [LexicalTable.everySlotVisible_iff hlevel hremembers.names, hremembers.hasBlockSlot_iff]

theorem perform_declareParam (table : ScopeTable) (name : String) (type : ValueType)
    (span : Span) :
    table.perform (.declareParam name type span) =
      if table.acceptsParam then
        table.perform (.declare name type span)
      else
        (.refused (.internal "parameters must be declared before any local"), table) := by
  show answer .slot (declareParam name type span table) = _
  rw [declareParam_apply]
  split <;> rfl

/-- A variable is refused as a duplicate, and for no other reason. -/
theorem perform_declare_ne_internal (table : ScopeTable) (name : String) (type : ValueType)
    (span : Span) (message : String) :
    (table.perform (.declare name type span)).1 ≠ .refused (.internal message) := by
  rw [perform, declare_apply]
  cases table.inScope? name with
  | none => exact ScopeAnswer.noConfusion
  | some first =>
    intro h
    cases h

/-- **Parameters and variables of blocks.**  At any point of a session, a parameter is refused as
coming after a local, and the table left as it is, if and only if a block is open or a variable of a
block was declared before, whether or not that block has been left since.  In all other cases, in
particular after variables of the function's own scope, it is declared as a variable is. -/
theorem declareParam_refused_iff (ops : List ScopeOp) (name : String) (type : ValueType)
    (span : Span) :
    ((empty.session ops).2.perform (.declareParam name type span) =
        (.refused (.internal "parameters must be declared before any local"),
          (empty.session ops).2) ↔
      0 < (empty.session ops).2.depth ∨ empty.DeclaredInBlock ops) ∧
    (¬ (0 < (empty.session ops).2.depth ∨ empty.DeclaredInBlock ops) →
      (empty.session ops).2.perform (.declareParam name type span) =
        (empty.session ops).2.perform (.declare name type span)) := by
  have hiff := acceptsParam_session_iff ops
  rw [perform_declareParam]
  by_cases haccepts : (empty.session ops).2.acceptsParam = true
  · rw [if_pos haccepts]
    refine ⟨iff_of_false ?_ (hiff.1 haccepts), fun _ => rfl⟩
    exact fun h => perform_declare_ne_internal _ _ _ _ _ (congrArg Prod.fst h)
  · have hlate := not_not.1 (mt hiff.2 haccepts)
    rw [if_neg haccepts]
    exact ⟨iff_of_true rfl hlate, absurd hlate⟩

/-- A variable of the function's own scope does not keep a parameter out. -/
theorem declareParam_after_local :
    (empty.session [.declare "x" .i32 ⟨1, 1, 1⟩, .declareParam "a" .i32 ⟨2, 1, 1⟩]).1 =
      [.slot 0, .slot 1] := by
  rw [(Matches.empty.session _).1]
  decide

end ScopeTable

end WasmCodegen
