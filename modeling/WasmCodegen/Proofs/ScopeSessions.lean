import Mathlib.Data.List.Nodup
import Mathlib.Data.List.Perm.Subperm
import WasmCodegen.Proofs.LexicalScopes

/-!
# Sessions with a scope table

A session is any row of operations on a new table: declarations, parameters, blocks that are
entered and left, look-ups.  Some of them are refused, and the session goes on.
`ScopeTable.session_eq_lexical` says that nobody can tell the scope table from a table made of
lexical scopes (`LexicalTable`), which has no hidden bindings and nothing to restore: every answer
is the same, and so are the slots in the end.

Only one operation looks at the table as a whole.  A parameter is accepted if there are as many
slots as visible names, and this is a statement about slots only because no two visible names share
one (`Scopes.SlotsApart`): as many names as slots means that every slot belongs to a name.
-/

namespace WasmCodegen

/-! ## Operations and answers -/

/-- What a table may be asked to do. -/
inductive ScopeOp where
  | declare (name : String) (type : ValueType) (span : Span)
  | declareParam (name : String) (type : ValueType) (span : Span)
  | enter
  | leave
  | lookup (name : String)

/-- What a table may answer. -/
inductive ScopeAnswer where
  | slot (slot : Nat)
  | done
  | found (binding : Option Binding)
  | refused (error : CompileError)
deriving DecidableEq

/-- The answers to a row of operations, and the state in the end. -/
def ScopeOp.session {σ : Type} (perform : σ → ScopeOp → ScopeAnswer × σ) (state : σ) :
    List ScopeOp → List ScopeAnswer × σ
  | [] => ([], state)
  | op :: ops =>
    let next := perform state op
    let rest := session perform next.2 ops
    (next.1 :: rest.1, rest.2)

namespace ScopeTable

/-- The answer of an operation that can fail, and the table that it leaves. -/
def answer {α : Type} (wrap : α → ScopeAnswer) :
    EStateM.Result CompileError ScopeTable α → ScopeAnswer × ScopeTable
  | .ok a table => (wrap a, table)
  | .error e table => (.refused e, table)

/-- Performs an operation. -/
def perform (table : ScopeTable) : ScopeOp → ScopeAnswer × ScopeTable
  | .declare name type span => answer .slot (declare name type span table)
  | .declareParam name type span => answer .slot (declareParam name type span table)
  | .enter => (.done, table.enter)
  | .leave => answer (fun _ => .done) (leave table)
  | .lookup name => (.found (table.lookup name), table)

/-- The answers to a row of operations, and the table in the end. -/
abbrev session (table : ScopeTable) (ops : List ScopeOp) : List ScopeAnswer × ScopeTable :=
  ScopeOp.session perform table ops

end ScopeTable

/-! ## The table of lexical scopes -/

namespace Scopes

/-- The declarations of all scopes, from the inside out. -/
def entries {α : Type} (s : Scopes α) : List (String × α) := (s.inner :: s.outer).flatten

/-- The bindings in sight: those that the names of the declarations have. -/
def visible (s : Scopes Variable) : List Binding :=
  s.entries.filterMap fun entry => s.lookup entry.1

end Scopes

/-- Variables in lexical scopes, and the types of all slots that were given out. -/
structure LexicalTable where
  scopes : Scopes Variable := {}
  slots : List ValueType := []

namespace LexicalTable

/-- Declares a variable, unless the innermost scope has its name. -/
def declare (t : LexicalTable) (name : String) (type : ValueType) (span : Span) :
    ScopeAnswer × LexicalTable :=
  match t.scopes.inner.lookup name with
  | some first => (.refused (.duplicateBinding name first.span span), t)
  | none =>
    (.slot t.slots.length,
      { scopes := t.scopes.declare name ⟨type, t.slots.length, span⟩, slots := t.slots ++ [type] })

/-- Does every slot belong to a binding in sight? -/
def everySlotVisible (t : LexicalTable) : Bool :=
  (List.range t.slots.length).all fun slot => t.scopes.visible.any fun b => b.slot == slot

/-- Performs an operation. -/
def perform (t : LexicalTable) : ScopeOp → ScopeAnswer × LexicalTable
  | .declare name type span => t.declare name type span
  | .declareParam name type span =>
    if t.scopes.level == 0 && t.everySlotVisible then
      t.declare name type span
    else
      (.refused (.internal "parameters must be declared before any local"), t)
  | .enter => (.done, { t with scopes := t.scopes.enter })
  | .leave =>
    match t.scopes.leave? with
    | some scopes => (.done, { t with scopes })
    | none => (.refused (.internal "pop_scope called at function scope"), t)
  | .lookup name => (.found (t.scopes.lookup name), t)

/-- The answers to a row of operations, and the table in the end. -/
abbrev session (t : LexicalTable) (ops : List ScopeOp) : List ScopeAnswer × LexicalTable :=
  ScopeOp.session perform t ops

end LexicalTable

/-! ## Slots of visible names -/

namespace Scopes

variable {α : Type}

theorem mem_flatten_of_search {name : String} {scopes : List (List (String × α))} {level : Nat}
    {a : α} (h : search name scopes = some (level, a)) : (name, a) ∈ scopes.flatten := by
  induction scopes with
  | nil => cases h
  | cons scope outer ih =>
    rw [List.flatten_cons, List.mem_append]
    rw [search] at h
    split at h
    · rename_i found hfound
      cases h
      obtain ⟨before, after, rfl, -⟩ := List.lookup_eq_some_iff.1 hfound
      exact .inl (List.mem_append_right before List.mem_cons_self)
    · exact .inr (ih h)

/-- A name in sight is declared, as the variable that it stands for. -/
theorem exists_entry {s : Scopes Variable} {name : String} {b : Binding}
    (h : s.lookup name = some b) : ∃ v, (name, v) ∈ s.entries ∧ v.slot = b.slot := by
  obtain ⟨⟨level, v⟩, hsearch, rfl⟩ := Option.map_eq_some_iff.1 h
  exact ⟨v, mem_flatten_of_search hsearch, rfl⟩

theorem mem_visible_iff {s : Scopes Variable} {b : Binding} :
    b ∈ s.visible ↔ ∃ name, s.lookup name = some b := by
  rw [visible, List.mem_filterMap]
  constructor
  · rintro ⟨entry, -, hlookup⟩
    exact ⟨entry.1, hlookup⟩
  · rintro ⟨name, hlookup⟩
    obtain ⟨v, hmem, -⟩ := exists_entry hlookup
    exact ⟨(name, v), hmem, hlookup⟩

/-- The variables of all scopes have slots below `count`, and no two of them share one. -/
structure SlotsApart (s : Scopes Variable) (count : Nat) : Prop where
  nodup : (s.entries.map fun entry => entry.2.slot).Nodup
  lt : ∀ entry ∈ s.entries, entry.2.slot < count

namespace SlotsApart

variable {s : Scopes Variable} {count : Nat}

theorem enter (h : s.SlotsApart count) : s.enter.SlotsApart count :=
  ⟨h.nodup, h.lt⟩

theorem leave {s' : Scopes Variable} (h : s.SlotsApart count) (hleave : s.leave? = some s') :
    s'.SlotsApart count := by
  obtain ⟨inner, _ | ⟨scope, outer⟩⟩ := s
  · cases hleave
  · cases hleave
    have hsuffix : entries ⟨scope, outer⟩ <:+ entries ⟨inner, scope :: outer⟩ := ⟨inner, rfl⟩
    exact ⟨h.nodup.sublist (hsuffix.sublist.map _), fun entry hmem => h.lt entry (hsuffix.mem hmem)⟩

/-- The next slot is not taken. -/
theorem declare (h : s.SlotsApart count) (name : String) (type : ValueType) (span : Span) :
    (s.declare name ⟨type, count, span⟩).SlotsApart (count + 1) := by
  constructor
  · refine List.nodup_cons.2 ⟨?_, h.nodup⟩
    intro hmem
    obtain ⟨entry, hentry, hslot⟩ := List.mem_map.1 hmem
    exact absurd hslot (Nat.ne_of_lt (h.lt entry hentry))
  · intro entry hmem
    rcases List.mem_cons.1 hmem with rfl | hmem
    · exact Nat.lt_succ_self count
    · exact Nat.lt_succ_of_lt (h.lt entry hmem)

theorem slot_lt (h : s.SlotsApart count) {name : String} {b : Binding}
    (hlookup : s.lookup name = some b) : b.slot < count := by
  obtain ⟨v, hmem, hslot⟩ := exists_entry hlookup
  rw [← hslot]
  exact h.lt (name, v) hmem

/-- Different names in sight have different slots. -/
theorem name_eq (h : s.SlotsApart count) {name name' : String} {b b' : Binding}
    (hlookup : s.lookup name = some b) (hlookup' : s.lookup name' = some b')
    (hslot : b.slot = b'.slot) : name = name' := by
  obtain ⟨v, hmem, hv⟩ := exists_entry hlookup
  obtain ⟨v', hmem', hv'⟩ := exists_entry hlookup'
  have hsame := List.inj_on_of_nodup_map h.nodup hmem hmem' (by rw [hv, hv', hslot])
  exact congrArg Prod.fst hsame

end SlotsApart

end Scopes

/-- Different numbers below `n` are all of them if there are `n`. -/
theorem length_eq_iff_forall_mem {xs : List Nat} {n : Nat} (hnodup : xs.Nodup)
    (hlt : ∀ x ∈ xs, x < n) : n = xs.length ↔ ∀ i < n, i ∈ xs := by
  have hsub : xs.Subperm (List.range n) :=
    List.subperm_of_subset hnodup fun x hx => List.mem_range.2 (hlt x hx)
  constructor
  · intro hlength i hi
    have hperm := hsub.perm_of_length_le (Nat.le_of_eq (by rw [List.length_range, hlength]))
    exact hperm.mem_iff.2 (List.mem_range.2 hi)
  · intro hall
    have hrange : (List.range n).Subperm xs :=
      List.subperm_of_subset List.nodup_range fun i hi => hall i (List.mem_range.1 hi)
    have hle := hsub.length_le
    have hge := hrange.length_le
    rw [List.length_range] at hle hge
    exact Nat.le_antisymm hge hle

/-- The slots of the names in sight. -/
def ScopeTable.visibleSlots (table : ScopeTable) : List Nat :=
  table.visible.toList.map fun entry => entry.2.slot

theorem ScopeTable.length_visibleSlots (table : ScopeTable) :
    table.visibleSlots.length = table.visible.size := by
  rw [visibleSlots, List.length_map, Std.TreeMap.length_toList]

/-! ## The two tables side by side -/

/-- The scope table stands for the table of lexical scopes. -/
structure ScopeTable.Matches (table : ScopeTable) (t : LexicalTable) : Prop where
  shows : table.Shows t.scopes
  slots_eq : table.slots.toList = t.slots
  apart : t.scopes.SlotsApart t.slots.length

namespace ScopeTable.Matches

variable {table : ScopeTable} {t : LexicalTable}

theorem empty : ScopeTable.empty.Matches {} :=
  ⟨shows_empty, rfl, List.nodup_nil, fun _ hmem => absurd hmem List.not_mem_nil⟩

theorem slotCount_eq (h : table.Matches t) : table.slotCount = t.slots.length := by
  rw [← h.slots_eq, Array.length_toList, slotCount]

theorem lookup_eq_some (h : table.Matches t) {entry : String × Binding}
    (hmem : entry ∈ table.visible.toList) : t.scopes.lookup entry.1 = some entry.2 := by
  rw [← h.shows.lookup_eq]
  exact Std.TreeMap.mem_toList_iff_getElem?_eq_some.1 hmem

theorem mem_visibleSlots_iff (h : table.Matches t) {slot : Nat} :
    slot ∈ table.visibleSlots ↔ ∃ b ∈ t.scopes.visible, b.slot = slot := by
  rw [visibleSlots, List.mem_map]
  constructor
  · rintro ⟨entry, hmem, hslot⟩
    exact ⟨entry.2, Scopes.mem_visible_iff.2 ⟨entry.1, h.lookup_eq_some hmem⟩, hslot⟩
  · rintro ⟨b, hmem, hslot⟩
    obtain ⟨name, hlookup⟩ := Scopes.mem_visible_iff.1 hmem
    rw [← h.shows.lookup_eq] at hlookup
    exact ⟨(name, b), Std.TreeMap.mem_toList_iff_getElem?_eq_some.2 hlookup, hslot⟩

theorem nodup_visibleSlots (h : table.Matches t) : table.visibleSlots.Nodup := by
  refine List.pairwise_map.2 (Std.TreeMap.distinct_keys_toList.imp_of_mem ?_)
  intro entry entry' hmem hmem' hkeys hslot
  have hname := h.apart.name_eq (h.lookup_eq_some hmem) (h.lookup_eq_some hmem') hslot
  rw [hname] at hkeys
  exact hkeys Std.ReflCmp.compare_self

/-- There are as many slots as names in sight exactly if every slot belongs to one. -/
theorem slotCount_eq_size_iff (h : table.Matches t) :
    table.slotCount = table.visible.size ↔ t.everySlotVisible = true := by
  have hlt : ∀ slot ∈ table.visibleSlots, slot < t.slots.length := by
    intro slot hmem
    obtain ⟨entry, hentry, rfl⟩ := List.mem_map.1 hmem
    exact h.apart.slot_lt (h.lookup_eq_some hentry)
  rw [h.slotCount_eq, ← length_visibleSlots, length_eq_iff_forall_mem h.nodup_visibleSlots hlt]
  simp only [h.mem_visibleSlots_iff, LexicalTable.everySlotVisible, List.all_eq_true,
    List.any_eq_true, List.mem_range, beq_iff_eq]

theorem acceptsParam_eq (h : table.Matches t) :
    table.acceptsParam = (t.scopes.level == 0 && t.everySlotVisible) := by
  rw [Bool.eq_iff_iff, acceptsParam, h.shows.depth_eq, Bool.and_eq_true, Bool.and_eq_true,
    beq_iff_eq (b := table.visible.size), h.slotCount_eq_size_iff]

/-! ### One operation -/

theorem declare (h : table.Matches t) (name : String) (type : ValueType) (span : Span) :
    (answer .slot (ScopeTable.declare name type span table)).1 = (t.declare name type span).1 ∧
      (answer .slot (ScopeTable.declare name type span table)).2.Matches
        (t.declare name type span).2 := by
  rw [declare_apply, h.shows.inScope?_eq, LexicalTable.declare]
  cases t.scopes.inner.lookup name with
  | some first => exact ⟨rfl, h⟩
  | none =>
    refine ⟨congrArg ScopeAnswer.slot h.slotCount_eq, ?_, ?_, ?_⟩
    · have hshows := h.shows.bind name type span
      rw [h.slotCount_eq] at hshows
      exact hshows
    · show (table.slots.push type).toList = t.slots ++ [type]
      rw [Array.toList_push, h.slots_eq]
    · rw [List.length_append]
      exact h.apart.declare name type span

/-- Both tables answer an operation alike, and go on alike. -/
theorem perform (h : table.Matches t) (op : ScopeOp) :
    (table.perform op).1 = (t.perform op).1 ∧ (table.perform op).2.Matches (t.perform op).2 := by
  cases op with
  | declare name type span => exact h.declare name type span
  | declareParam name type span =>
    rw [ScopeTable.perform, LexicalTable.perform, declareParam_apply, h.acceptsParam_eq]
    by_cases haccepts : (t.scopes.level == 0 && t.everySlotVisible) = true
    · rw [if_pos haccepts, if_pos haccepts]
      exact h.declare name type span
    · rw [if_neg haccepts, if_neg haccepts]
      exact ⟨rfl, h⟩
  | enter => exact ⟨rfl, h.shows.enter, h.slots_eq, h.apart.enter⟩
  | leave =>
    rw [ScopeTable.perform, LexicalTable.perform, leave_apply]
    obtain ⟨hnone, hnone'⟩ | ⟨table', s', hsome, hsome', hshows⟩ := h.shows.leave
    · rw [hnone, hnone']
      exact ⟨rfl, h⟩
    · rw [hsome, hsome']
      exact ⟨rfl, hshows, (congrArg Array.toList (slots_leave hsome)).trans h.slots_eq,
        h.apart.leave hsome'⟩
  | lookup name =>
    refine ⟨?_, h⟩
    show ScopeAnswer.found (table.lookup name) = .found (t.scopes.lookup name)
    rw [h.shows.lookup_eq]

/-! ### Whole sessions -/

theorem session (h : table.Matches t) (ops : List ScopeOp) :
    (table.session ops).1 = (t.session ops).1 ∧
      (table.session ops).2.Matches (t.session ops).2 := by
  induction ops generalizing table t with
  | nil => exact ⟨rfl, h⟩
  | cons op ops ih =>
    obtain ⟨hanswer, hnext⟩ := h.perform op
    obtain ⟨hanswers, hend⟩ := ih hnext
    exact ⟨congrArg₂ List.cons hanswer hanswers, hend⟩

end ScopeTable.Matches

namespace ScopeTable

/-! ## Operations that are refused -/

/-- An operation that is refused leaves the table as it was. -/
theorem perform_of_refused {table : ScopeTable} {op : ScopeOp} {error : CompileError}
    (h : (table.perform op).1 = .refused error) : table.perform op = (.refused error, table) := by
  have hdeclare : ∀ name type span,
      (answer .slot (declare name type span table)).1 = .refused error →
        answer .slot (declare name type span table) = (.refused error, table) := by
    intro name type span h
    rw [declare_apply] at h ⊢
    cases hscope : table.inScope? name with
    | some first => rw [hscope] at h; cases h; rfl
    | none => rw [hscope] at h; cases h
  cases op with
  | declare name type span => exact hdeclare name type span h
  | declareParam name type span =>
    rw [perform, declareParam_apply] at h ⊢
    by_cases haccepts : table.acceptsParam = true
    · rw [if_pos haccepts] at h ⊢
      exact hdeclare name type span h
    · rw [if_neg haccepts] at h ⊢
      cases h
      rfl
  | enter => cases h
  | leave =>
    rw [perform, leave_apply] at h ⊢
    cases hleave : table.leave? with
    | some outer => rw [hleave] at h; cases h
    | none => rw [hleave] at h; cases h; rfl
  | lookup name => cases h

/-- A session with an operation that is refused is the session without it, and the refusal. -/
theorem session_of_refused {table : ScopeTable} {before : List ScopeOp} {op : ScopeOp}
    {error : CompileError} (h : ((table.session before).2.perform op).1 = .refused error)
    (after : List ScopeOp) :
    table.session (before ++ op :: after) =
      ((table.session (before ++ after)).1.insertIdx before.length (.refused error),
        (table.session (before ++ after)).2) := by
  induction before generalizing table with
  | nil =>
    have hperform : table.perform op = (.refused error, table) := perform_of_refused h
    simp only [List.nil_append, session, ScopeOp.session, hperform, List.length_nil,
      List.insertIdx_zero]
  | cons first before ih =>
    have hrest := ih h
    simp only [session] at hrest
    simp only [List.cons_append, session, ScopeOp.session, hrest, List.length_cons,
      List.insertIdx_succ_cons]

/-- **The scope table implements lexical scoping.**  In every session, each answer (slots, bindings
with their type, slot, depth and span, duplicates with the place of the first declaration, and
every other refusal) is that of the table of lexical scopes, and so are the slots in the end.  An
operation that is refused changes nothing: the session goes on as if it had not been there. -/
theorem session_eq_lexical (ops : List ScopeOp) :
    (empty.session ops).1 = (LexicalTable.session {} ops).1 ∧
    (empty.session ops).2.slots.toList = (LexicalTable.session {} ops).2.slots ∧
    ∀ (before after : List ScopeOp) (op : ScopeOp) (error : CompileError),
      ops = before ++ op :: after →
      ((empty.session before).2.perform op).1 = .refused error →
        empty.session ops =
          ((empty.session (before ++ after)).1.insertIdx before.length (.refused error),
            (empty.session (before ++ after)).2) := by
  obtain ⟨hanswers, hmatches⟩ := Matches.empty.session ops
  refine ⟨hanswers, hmatches.slots_eq, ?_⟩
  rintro before after op error rfl hrefused
  exact session_of_refused hrefused after

/-- Both declarations of `x` in the block hide or repeat the outer one; the block's slot stays
taken, so no parameter may follow. -/
example :
    (LexicalTable.session {} [.declareParam "x" .i32 ⟨1, 1, 1⟩, .enter,
      .declare "x" .i64 ⟨2, 1, 1⟩, .declare "x" .i32 ⟨3, 1, 1⟩, .lookup "x", .leave, .leave,
      .lookup "x", .declareParam "y" .i32 ⟨4, 1, 1⟩]).1 =
    [.slot 0, .done, .slot 1, .refused (.duplicateBinding "x" ⟨2, 1, 1⟩ ⟨3, 1, 1⟩),
      .found (some ⟨"x", .i64, 1, 1, ⟨2, 1, 1⟩⟩), .done,
      .refused (.internal "pop_scope called at function scope"),
      .found (some ⟨"x", .i32, 0, 0, ⟨1, 1, 1⟩⟩),
      .refused (.internal "parameters must be declared before any local")] := by
  decide

end ScopeTable

end WasmCodegen
