import WasmCodegen.Proofs.ScopeSessions

/-!
# A scope table without trails

The scope table keeps a trail for each open block.  A table can do with less: a counter of the open
blocks, and one stack for everything that is hidden, with the depth at which it was hidden
(`FlatTable`).  There is no record of the names that a block declares.  When the block is left, all
bindings of its depth go from the map, and what the stack has for this depth is put back
(`FlatTable.leave?`).  The counter and the slots are 32-bit words.

`FlatTable.session_eq` says that this table and the scope table give the same answers in every
session with fewer than `2 ^ 32` blocks and declarations.  The stack is then that of the hidden
bindings in the trails, from the inside out (`FlatTable.Refines`).

The two differ in how they leave a block.  One takes back a declaration at a time, the other cannot
tell which names were declared, only which bindings are from this depth.  They meet in the meaning
of names outside the block, which the lexical scopes give: what is retained means this already, what
is put back means this, and nothing else means anything outside (`FlatTable.getElem?_putBack`).
-/

namespace WasmCodegen

/-- The bindings in sight, the number of open blocks, the hidden bindings with the depth at which
they were hidden, the last one first, and the slots. -/
structure FlatTable where
  visible : Std.TreeMap String Binding := {}
  depth : UInt32 := 0
  hidden : List (UInt32 × Binding) := []
  slots : Array ValueType := #[]

namespace FlatTable

def lookup (flat : FlatTable) (name : String) : Option Binding := flat.visible[name]?

/-- The slot of the next variable, as a word. -/
def nextSlot (flat : FlatTable) : UInt32 := .ofNat flat.slots.size

/-- Opens a block. -/
def enter (flat : FlatTable) : FlatTable := { flat with depth := flat.depth + 1 }

/-- Puts back what was hidden last, as long as it was hidden at the given depth. -/
def restore (depth : UInt32) (visible : Std.TreeMap String Binding) :
    List (UInt32 × Binding) → Std.TreeMap String Binding × List (UInt32 × Binding)
  | [] => (visible, [])
  | (tag, b) :: hidden =>
    if tag == depth then
      restore depth (visible.insert b.name b) hidden
    else
      (visible, (tag, b) :: hidden)

/-- The bindings from outside the innermost block. -/
def retained (flat : FlatTable) : Std.TreeMap String Binding :=
  flat.visible.filter fun _ b => b.depth < flat.depth.toNat

/-- Closes the innermost block, if there is one: only bindings from outside are retained, and what
the block has hidden is put back. -/
def leave? (flat : FlatTable) : Option FlatTable :=
  if flat.depth == 0 then
    none
  else
    let restored := restore flat.depth flat.retained flat.hidden
    some { flat with visible := restored.1, hidden := restored.2, depth := flat.depth - 1 }

/-- Gives the next slot to a variable.  A binding that its name had is hidden. -/
def bind (flat : FlatTable) (name : String) (type : ValueType) (span : Span) : FlatTable where
  visible := flat.visible.insert name ⟨name, type, flat.nextSlot.toNat, flat.depth.toNat, span⟩
  depth := flat.depth
  hidden := (flat.lookup name).toList.map (flat.depth, ·) ++ flat.hidden
  slots := flat.slots.push type

/-- Declares a variable, unless its name has a binding from the same depth. -/
def declare (flat : FlatTable) (name : String) (type : ValueType) (span : Span) :
    ScopeAnswer × FlatTable :=
  match (flat.lookup name).filter (·.depth == flat.depth.toNat) with
  | some first => (.refused (.duplicateBinding name first.span span), flat)
  | none => (.slot flat.nextSlot.toNat, flat.bind name type span)

/-- Performs an operation. -/
def perform (flat : FlatTable) : ScopeOp → ScopeAnswer × FlatTable
  | .declare name type span => flat.declare name type span
  | .declareParam name type span =>
    if flat.depth == 0 && flat.slots.size == flat.visible.size then
      flat.declare name type span
    else
      (.refused (.internal "parameters must be declared before any local"), flat)
  | .enter => (.done, flat.enter)
  | .leave =>
    match flat.leave? with
    | some outer => (.done, outer)
    | none => (.refused (.internal "pop_scope called at function scope"), flat)
  | .lookup name => (.found (flat.lookup name), flat)

/-- The answers to a row of operations, and the table in the end. -/
abbrev session (flat : FlatTable) (ops : List ScopeOp) : List ScopeAnswer × FlatTable :=
  ScopeOp.session perform flat ops

end FlatTable

/-! ## Trails and scopes -/

namespace Scopes

/-- A name is bound under itself. -/
theorem name_of_meaning {scopes : List (List (String × Variable))} {name : String} {b : Binding}
    (h : meaning scopes name = some b) : b.name = name := by
  obtain ⟨found, -, rfl⟩ := Option.map_eq_some_iff.1 h
  rfl

theorem depth_lt_of_meaning {scopes : List (List (String × Variable))} {name : String}
    {b : Binding} (h : meaning scopes name = some b) : b.depth < scopes.length := by
  obtain ⟨found, hsearch, rfl⟩ := Option.map_eq_some_iff.1 h
  exact level_lt_of_search hsearch

/-- A name that a scope does not declare means what it means outside. -/
theorem meaning_cons_of_lookup_eq_none {scope : List (String × Variable)} {name : String}
    (h : scope.lookup name = none) (outer : List (List (String × Variable))) :
    meaning (scope :: outer) name = meaning outer name := by
  rw [meaning, meaning, search, h]

/-- A binding from outside a scope is what its name means outside. -/
theorem meaning_of_depth_lt {scope : List (String × Variable)}
    {outer : List (List (String × Variable))} {name : String} {b : Binding}
    (h : meaning (scope :: outer) name = some b) (hlt : b.depth < outer.length) :
    meaning outer name = some b := by
  cases hscope : scope.lookup name with
  | none => rwa [meaning_cons_of_lookup_eq_none hscope] at h
  | some v =>
    -- the scope's own bindings are of its level
    rw [meaning, search, hscope] at h
    cases h
    exact absurd hlt (Nat.lt_irrefl _)

/-- What a name means outside a scope it means inside too, unless the scope declares the name. -/
theorem meaning_cons_or_mem {scope : List (String × Variable)}
    {outer : List (List (String × Variable))} {name : String} {b : Binding}
    (h : meaning outer name = some b) :
    meaning (scope :: outer) name = some b ∨ ∃ v, (name, v) ∈ scope := by
  cases hscope : scope.lookup name with
  | none =>
    left
    rwa [meaning_cons_of_lookup_eq_none hscope]
  | some v =>
    right
    obtain ⟨before, after, rfl, -⟩ := List.lookup_eq_some_iff.1 hscope
    exact ⟨v, List.mem_append_right before List.mem_cons_self⟩

/-- The names declared in a scope and in those around it, apart from the outermost one, each with
what it means outside its scope. -/
def trailsFrom (inner : List (String × Variable)) : List (List (String × Variable)) → List Trail
  | [] => []
  | scope :: outer =>
    inner.map (fun entry => (entry.1, meaning (scope :: outer) entry.1)) :: trailsFrom scope outer

end Scopes

/-- The table shows the scopes, and its trails are those that declarations in them leave. -/
structure ScopeTable.Records (table : ScopeTable) (s : Scopes Variable) : Prop where
  shows : table.Shows s
  trails_eq : table.trails = Scopes.trailsFrom s.inner s.outer

namespace ScopeTable.Records

variable {table table' : ScopeTable} {s : Scopes Variable}

theorem empty : ScopeTable.empty.Records {} := ⟨shows_empty, rfl⟩

theorem enter (h : table.Records s) : table.enter.Records s.enter := by
  refine ⟨h.shows.enter, ?_⟩
  rw [ScopeTable.enter, h.trails_eq]
  rfl

theorem leave (h : table.Records s) (hleave : table.leave? = some table') :
    ∃ s', s.leave? = some s' ∧ table'.Records s' := by
  obtain ⟨hnone, -⟩ | ⟨outer, s', houter, hs', hshows⟩ := h.shows.leave
  · cases hnone.symm.trans hleave
  cases hleave.symm.trans houter
  refine ⟨s', hs', hshows, ?_⟩
  obtain ⟨inner, _ | ⟨scope, scopes⟩⟩ := s
  · cases hs'
  · cases hs'
    rw [leave?, h.trails_eq] at hleave
    cases hleave
    rfl

/-- The trail of a declaration keeps what the name means outside. -/
theorem bind (h : table.Records s) {name : String} (hfresh : s.inner.lookup name = none)
    (type : ValueType) (span : Span) :
    (table.bind name type span).Records (s.declare name ⟨type, table.slotCount, span⟩) := by
  refine ⟨h.shows.bind name type span, ?_⟩
  have hlookup : table.lookup name = Scopes.meaning s.outer name := by
    rw [h.shows.lookup_eq, Scopes.lookup, Scopes.meaning_cons_of_lookup_eq_none hfresh]
  rw [ScopeTable.bind, h.trails_eq, hlookup]
  obtain ⟨inner, _ | ⟨scope, outer⟩⟩ := s
  · rfl
  · rfl

end ScopeTable.Records

/-! ## The two tables side by side -/

/-- The hidden bindings in trails listed from the inside out, with the depth of their block. -/
def ScopeTable.hiddenIn : List Trail → List (UInt32 × Binding)
  | [] => []
  | trail :: trails =>
    (trail.filterMap Prod.snd).map (.ofNat (trails.length + 1), ·) ++ hiddenIn trails

theorem ScopeTable.tag_le_of_mem_hiddenIn {trails : List Trail} {entry : UInt32 × Binding}
    (h : entry ∈ hiddenIn trails) : entry.1.toNat ≤ trails.length := by
  induction trails with
  | nil => cases h
  | cons trail trails ih =>
    rcases List.mem_append.1 h with h | h
    · obtain ⟨b, -, rfl⟩ := List.mem_map.1 h
      exact Nat.mod_le _ _
    · exact Nat.le_succ_of_le (ih h)

namespace FlatTable

/-- The flat table stands for the scope table, which has come about by declarations in scopes. -/
structure Refines (flat : FlatTable) (table : ScopeTable) : Prop where
  lookup_eq : flat.lookup = table.lookup
  depth_eq : flat.depth.toNat = table.depth
  hidden_eq : flat.hidden = ScopeTable.hiddenIn table.trails
  slots_eq : flat.slots = table.slots
  recorded : ∃ s, table.Records s

/-- Puts bindings back, the first one first. -/
def putBack (bs : List Binding) (visible : Std.TreeMap String Binding) :
    Std.TreeMap String Binding :=
  bs.foldl (fun visible b => visible.insert b.name b) visible

/-- Everything with the tag of the block is put back, and the rest of the stack stays. -/
theorem restore_append {depth : UInt32} {rest : List (UInt32 × Binding)}
    (hrest : ∀ entry ∈ rest, entry.1 ≠ depth) (bs : List Binding)
    (visible : Std.TreeMap String Binding) :
    restore depth visible (bs.map (depth, ·) ++ rest) = (putBack bs visible, rest) := by
  induction bs generalizing visible with
  | nil =>
    cases rest with
    | nil => rfl
    | cons entry rest =>
      have htag : (entry.1 == depth) = false := beq_false_of_ne (hrest entry List.mem_cons_self)
      rw [List.map_nil, List.nil_append, restore, htag]
      rfl
  | cons b bs ih =>
    rw [List.map_cons, List.cons_append, restore, beq_self_eq_true, if_pos rfl, ih]
    rfl

theorem leave?_eq_some {flat : FlatTable} (hopen : flat.depth ≠ 0) {bs : List Binding}
    {rest : List (UInt32 × Binding)} (hhidden : flat.hidden = bs.map (flat.depth, ·) ++ rest)
    (hrest : ∀ entry ∈ rest, entry.1 ≠ flat.depth) :
    flat.leave? = some
      { flat with
        visible := putBack bs flat.retained, hidden := rest, depth := flat.depth - 1 } := by
  have hne : (flat.depth == 0) = false := beq_false_of_ne hopen
  simp only [leave?, hne, Bool.false_eq_true, if_false, hhidden, restore_append hrest]

/-- A map in which every name means the right thing, and which lacks only bindings of a list, is
completed by this list. -/
theorem getElem?_putBack {meaning : ScopeTable.Meaning} {bs : List Binding}
    {visible : Std.TreeMap String Binding}
    (hname : ∀ name b, meaning name = some b → b.name = name)
    (hbs : ∀ b ∈ bs, meaning b.name = some b)
    (hright : ∀ name b, visible[name]? = some b → meaning name = some b)
    (hlacks : ∀ name b, meaning name = some b → visible[name]? = some b ∨ b ∈ bs) :
    (fun name => (putBack bs visible)[name]?) = meaning := by
  induction bs generalizing visible with
  | nil =>
    funext name
    refine Option.ext fun b => ⟨hright name b, fun h => ?_⟩
    exact (hlacks name b h).resolve_right List.not_mem_nil
  | cons b bs ih =>
    have hinsert : ∀ name, (visible.insert b.name b)[name]? =
        if b.name = name then some b else visible[name]? := by
      intro name
      rw [Std.TreeMap.getElem?_insert]
      simp
    refine ih (fun c hc => hbs c (List.mem_cons_of_mem b hc)) ?_ ?_
    · intro name c hc
      rw [hinsert] at hc
      split at hc
      · rename_i hb
        cases hc
        rw [← hb]
        exact hbs b List.mem_cons_self
      · exact hright name c hc
    · intro name c hc
      rw [hinsert]
      by_cases hb : b.name = name
      · -- the name has one meaning, which has just been put back
        have hmeaning := hbs b List.mem_cons_self
        rw [hb, hc] at hmeaning
        rw [if_pos hb, hmeaning]
        exact .inl rfl
      · rw [if_neg hb]
        refine (hlacks name c hc).imp_right fun hmem => ?_
        refine (List.mem_cons.1 hmem).resolve_left ?_
        rintro rfl
        exact hb (hname name c hc)

theorem getElem?_retained {flat : FlatTable} {name : String} {b : Binding} :
    flat.retained[name]? = some b ↔ flat.lookup name = some b ∧ b.depth < flat.depth.toNat := by
  rw [retained, Std.TreeMap.getElem?_filter]
  simp [lookup]

namespace Refines

variable {flat : FlatTable} {table table' : ScopeTable}

theorem empty : Refines {} ScopeTable.empty where
  lookup_eq := rfl
  depth_eq := rfl
  hidden_eq := rfl
  slots_eq := rfl
  recorded := ⟨{}, .empty⟩

theorem depth_eq_zero_iff (h : flat.Refines table) : flat.depth = 0 ↔ table.depth = 0 := by
  rw [← h.depth_eq, ← UInt32.toNat_inj]
  rfl

theorem depth_eq_ofNat (h : flat.Refines table) : flat.depth = .ofNat table.depth := by
  rw [← h.depth_eq, UInt32.ofNat_toNat]

theorem nextSlot_eq (h : flat.Refines table) (hroom : table.slotCount < UInt32.size) :
    flat.nextSlot.toNat = table.slotCount := by
  rw [nextSlot, h.slots_eq]
  exact UInt32.toNat_ofNat_of_lt hroom

theorem inScope?_eq (h : flat.Refines table) (name : String) :
    (flat.lookup name).filter (·.depth == flat.depth.toNat) = table.inScope? name := by
  rw [h.lookup_eq, h.depth_eq, ScopeTable.inScope?]

/-- The two maps have as many names in sight. -/
theorem size_visible_eq (h : flat.Refines table) : flat.visible.size = table.visible.size :=
  (Std.TreeMap.Equiv.of_forall_constGet?_eq fun name => congrFun h.lookup_eq name).size_eq

theorem acceptsParam_eq (h : flat.Refines table) :
    (flat.depth == 0 && flat.slots.size == flat.visible.size) = table.acceptsParam := by
  rw [ScopeTable.acceptsParam, h.size_visible_eq, h.slots_eq, ScopeTable.slotCount]
  congr 1
  rw [Bool.eq_iff_iff, beq_iff_eq, beq_iff_eq, h.depth_eq_zero_iff]

/-! ### One operation -/

theorem enter (h : flat.Refines table) (hroom : table.depth + 1 < UInt32.size) :
    flat.enter.Refines table.enter where
  lookup_eq := h.lookup_eq
  depth_eq := by
    rw [FlatTable.enter, UInt32.toNat_add, h.depth_eq, ScopeTable.depth_enter]
    exact Nat.mod_eq_of_lt hroom
  hidden_eq := h.hidden_eq
  slots_eq := h.slots_eq
  recorded := by
    obtain ⟨s, hrecords⟩ := h.recorded
    exact ⟨s.enter, hrecords.enter⟩

/-- A declaration hides the binding that its trail keeps.  In the function's own scope there is
nothing to hide, and no trail. -/
theorem hidden_bind (h : flat.Refines table) {name : String} (hfresh : table.inScope? name = none)
    (type : ValueType) (span : Span) :
    (flat.bind name type span).hidden = ScopeTable.hiddenIn (table.bind name type span).trails := by
  rw [FlatTable.bind, ScopeTable.bind, h.hidden_eq, h.lookup_eq]
  cases htrails : table.trails with
  | nil =>
    have hlookup : table.lookup name = none := by
      obtain ⟨⟨inner, outer⟩, hrecords⟩ := h.recorded
      have hdepth := hrecords.shows.depth_eq
      rw [ScopeTable.depth, htrails] at hdepth
      obtain rfl : outer = [] := List.length_eq_zero_iff.1 hdepth.symm
      rw [hrecords.shows.inScope?_eq, Option.map_eq_none_iff] at hfresh
      rw [hrecords.shows.lookup_eq, Scopes.lookup, Scopes.meaning_cons_of_lookup_eq_none hfresh]
      rfl
    rw [hlookup]
    rfl
  | cons trail trails =>
    have hdepth := h.depth_eq_ofNat
    rw [ScopeTable.depth, htrails, List.length_cons] at hdepth
    rw [hdepth]
    cases table.lookup name <;> rfl

theorem bind (h : flat.Refines table) {name : String} (hfresh : table.inScope? name = none)
    (hroom : table.slotCount < UInt32.size) (type : ValueType) (span : Span) :
    (flat.bind name type span).Refines (table.bind name type span) where
  lookup_eq := by
    funext other
    rw [ScopeTable.lookup_bind, ← h.nextSlot_eq hroom, ← h.depth_eq, ← congrFun h.lookup_eq other]
    simp [FlatTable.bind, FlatTable.lookup, Std.TreeMap.getElem?_insert]
  depth_eq := by rw [ScopeTable.depth_bind, ← h.depth_eq, FlatTable.bind]
  hidden_eq := h.hidden_bind hfresh type span
  slots_eq := by rw [FlatTable.bind, ScopeTable.bind, h.slots_eq]
  recorded := by
    obtain ⟨s, hrecords⟩ := h.recorded
    rw [hrecords.shows.inScope?_eq, Option.map_eq_none_iff] at hfresh
    exact ⟨_, hrecords.bind hfresh type span⟩

section

variable {trail : Trail} {trails : List Trail}

theorem depth_of_trails (h : flat.Refines table) (htrails : table.trails = trail :: trails) :
    flat.depth.toNat = trails.length + 1 := by
  rw [h.depth_eq, ScopeTable.depth, htrails, List.length_cons]

/-- On top of the stack is what the innermost block has hidden. -/
theorem hidden_of_trails (h : flat.Refines table) (htrails : table.trails = trail :: trails) :
    flat.hidden = (trail.filterMap Prod.snd).map (flat.depth, ·) ++ ScopeTable.hiddenIn trails := by
  rw [h.hidden_eq, htrails, h.depth_eq_ofNat, ScopeTable.depth, htrails]
  rfl

/-- Leaving a block gives names the meaning that they have outside. -/
theorem lookup_leave (h : flat.Refines table) (hleave : table.leave? = some table')
    (htrails : table.trails = trail :: trails) :
    (fun name => (putBack (trail.filterMap Prod.snd) flat.retained)[name]?) = table'.lookup := by
  obtain ⟨s, hrecords⟩ := h.recorded
  obtain ⟨s', hs', hrecords'⟩ := hrecords.leave hleave
  obtain ⟨inner, _ | ⟨scope, outer⟩⟩ := s
  · cases hs'
  cases hs'
  obtain rfl := (List.cons.inj (htrails.symm.trans hrecords.trails_eq)).1
  have hlookup : flat.lookup = Scopes.meaning (inner :: scope :: outer) :=
    h.lookup_eq.trans hrecords.shows.lookup_eq
  have hdepth : flat.depth.toNat = (scope :: outer).length :=
    h.depth_eq.trans hrecords.shows.depth_eq
  rw [hrecords'.shows.lookup_eq]
  refine getElem?_putBack (fun _ _ => Scopes.name_of_meaning) ?_ ?_ ?_
  · intro b hmem
    obtain ⟨entry, hentry, hhidden⟩ := List.mem_filterMap.1 hmem
    obtain ⟨declared, -, rfl⟩ := List.mem_map.1 hentry
    rw [Scopes.name_of_meaning hhidden]
    exact hhidden
  · intro name b hretained
    rw [getElem?_retained, hlookup, hdepth] at hretained
    exact Scopes.meaning_of_depth_lt hretained.1 hretained.2
  · intro name b hmeaning
    rw [getElem?_retained, hlookup, hdepth]
    rcases Scopes.meaning_cons_or_mem hmeaning with hinside | ⟨v, hv⟩
    · exact .inl ⟨hinside, Scopes.depth_lt_of_meaning hmeaning⟩
    · refine .inr (List.mem_filterMap.2 ⟨(name, some b), List.mem_map.2 ⟨(name, v), hv, ?_⟩, rfl⟩)
      exact congrArg (Prod.mk name) hmeaning

end

/-- A block can be left in both tables, or in none. -/
theorem leave (h : flat.Refines table) :
    flat.leave? = none ∧ table.leave? = none ∨
      ∃ flat' table', flat.leave? = some flat' ∧ table.leave? = some table' ∧
        flat'.Refines table' := by
  cases htrails : table.trails with
  | nil =>
    have hdepth : table.depth = 0 := by rw [ScopeTable.depth, htrails, List.length_nil]
    refine .inl ⟨?_, (ScopeTable.leave?_eq_none_iff table).2 hdepth⟩
    rw [leave?, h.depth_eq_zero_iff.2 hdepth]
    rfl
  | cons trail trails =>
    have hdepth := h.depth_of_trails htrails
    have hopen : flat.depth ≠ 0 := by
      intro hzero
      rw [hzero] at hdepth
      cases hdepth
    -- what was hidden farther out has a smaller tag
    have hrest : ∀ entry ∈ ScopeTable.hiddenIn trails, entry.1 ≠ flat.depth := by
      rintro entry hmem heq
      have hle := ScopeTable.tag_le_of_mem_hiddenIn hmem
      rw [heq, hdepth] at hle
      exact absurd hle (Nat.not_succ_le_self _)
    have hleave : table.leave? = some
        { table with visible := trail.foldl ScopeTable.undo table.visible, trails } := by
      rw [ScopeTable.leave?, htrails]
    refine .inr ⟨_, _, leave?_eq_some hopen (h.hidden_of_trails htrails) hrest, hleave, ?_⟩
    constructor
    case lookup_eq => exact h.lookup_leave hleave htrails
    case depth_eq =>
      have hle : 1 ≤ flat.depth := by
        rw [UInt32.le_iff_toNat_le, hdepth]
        exact Nat.le_add_left 1 trails.length
      rw [UInt32.toNat_sub_of_le _ _ hle, hdepth]
      rfl
    case hidden_eq => rfl
    case slots_eq => exact h.slots_eq
    case recorded =>
      obtain ⟨s, hrecords⟩ := h.recorded
      obtain ⟨s', -, hrecords'⟩ := hrecords.leave hleave
      exact ⟨s', hrecords'⟩

theorem declare (h : flat.Refines table) (hroom : table.slotCount < UInt32.size) (name : String)
    (type : ValueType) (span : Span) :
    (flat.declare name type span).1 =
        (ScopeTable.answer .slot (ScopeTable.declare name type span table)).1 ∧
      (flat.declare name type span).2.Refines
        (ScopeTable.answer .slot (ScopeTable.declare name type span table)).2 := by
  rw [FlatTable.declare, h.inScope?_eq, ScopeTable.declare_apply]
  cases hfresh : table.inScope? name with
  | some first => exact ⟨rfl, h⟩
  | none => exact ⟨congrArg ScopeAnswer.slot (h.nextSlot_eq hroom), h.bind hfresh hroom type span⟩

end Refines

end FlatTable

/-- Does the operation take a slot or open a block, if it is not refused? -/
def ScopeOp.grows : ScopeOp → Bool
  | .declare .. | .declareParam .. | .enter => true
  | .leave | .lookup _ => false

namespace FlatTable.Refines

variable {flat : FlatTable} {table : ScopeTable}

/-- Both tables answer an operation alike, and go on alike, as long as there are words for the depth
and the slots. -/
theorem perform (h : flat.Refines table) (op : ScopeOp)
    (hroom : table.depth + table.slotCount + (if op.grows then 1 else 0) < UInt32.size) :
    (flat.perform op).1 = (table.perform op).1 ∧
      (flat.perform op).2.Refines (table.perform op).2 := by
  cases op with
  | declare name type span =>
    rw [ScopeOp.grows, if_pos rfl] at hroom
    exact h.declare (by omega) name type span
  | declareParam name type span =>
    rw [ScopeOp.grows, if_pos rfl] at hroom
    rw [FlatTable.perform, ScopeTable.perform, ScopeTable.declareParam_apply, h.acceptsParam_eq]
    split
    · exact h.declare (by omega) name type span
    · exact ⟨rfl, h⟩
  | enter =>
    rw [ScopeOp.grows, if_pos rfl] at hroom
    exact ⟨rfl, h.enter (by omega)⟩
  | leave =>
    rw [FlatTable.perform, ScopeTable.perform, ScopeTable.leave_apply]
    obtain ⟨hnone, hnone'⟩ | ⟨flat', table', hsome, hsome', hrefines⟩ := h.leave
    · rw [hnone, hnone']
      exact ⟨rfl, h⟩
    · rw [hsome, hsome']
      exact ⟨rfl, hrefines⟩
  | lookup name => exact ⟨congrArg ScopeAnswer.found (congrFun h.lookup_eq name), h⟩

end FlatTable.Refines

/-- An operation opens one block or takes one slot, if it may do so at all. -/
theorem ScopeTable.depth_add_slotCount_perform_le (table : ScopeTable) (op : ScopeOp) :
    (table.perform op).2.depth + (table.perform op).2.slotCount ≤
      table.depth + table.slotCount + if op.grows then 1 else 0 := by
  have hdeclare : ∀ name type span,
      (answer .slot (declare name type span table)).2.depth +
        (answer .slot (declare name type span table)).2.slotCount ≤
          table.depth + table.slotCount + 1 := by
    intro name type span
    rw [declare_apply]
    cases table.inScope? name with
    | some first => exact Nat.le_succ _
    | none => simp [answer, Nat.add_assoc]
  cases op with
  | declare name type span => exact hdeclare name type span
  | declareParam name type span =>
    rw [perform, declareParam_apply]
    split
    · exact hdeclare name type span
    · exact Nat.le_succ _
  | enter => simp [perform, ScopeOp.grows, Nat.add_right_comm]
  | leave =>
    rw [perform, leave_apply]
    cases hleave : table.leave? with
    | none => exact Nat.le_refl _
    | some outer =>
      have hlevels := congrArg List.length (levels_leave hleave)
      rw [List.length_tail, length_levels, length_levels] at hlevels
      have hslots := slotCount_leave hleave
      simp only [answer, ScopeOp.grows]
      omega
  | lookup name => exact Nat.le_refl _

namespace FlatTable

theorem Refines.session {flat : FlatTable} {table : ScopeTable} (h : flat.Refines table)
    (ops : List ScopeOp)
    (hroom : table.depth + table.slotCount + ops.countP ScopeOp.grows < UInt32.size) :
    (flat.session ops).1 = (table.session ops).1 ∧
      (flat.session ops).2.Refines (table.session ops).2 := by
  induction ops generalizing flat table with
  | nil => exact ⟨rfl, h⟩
  | cons op ops ih =>
    rw [List.countP_cons] at hroom
    have hle := table.depth_add_slotCount_perform_le op
    obtain ⟨hanswer, hnext⟩ := h.perform op (by omega)
    obtain ⟨hanswers, hend⟩ := ih hnext (by omega)
    exact ⟨congrArg₂ List.cons hanswer hanswers, hend⟩

/-- **One stack of hidden bindings does for all trails.**  A session that asks for fewer than
`2 ^ 32` blocks and declarations gets the same answers from the flat table, whose depth and slots
are words, as from the scope table, and in the end the one still stands for the other. -/
theorem session_eq (ops : List ScopeOp) (hroom : ops.countP ScopeOp.grows < UInt32.size) :
    (FlatTable.session {} ops).1 = (ScopeTable.empty.session ops).1 ∧
      (FlatTable.session {} ops).2.Refines (ScopeTable.empty.session ops).2 :=
  Refines.empty.session ops (by rwa [ScopeTable.depth_empty, ScopeTable.slotCount_empty,
    Nat.zero_add])

end FlatTable

end WasmCodegen
