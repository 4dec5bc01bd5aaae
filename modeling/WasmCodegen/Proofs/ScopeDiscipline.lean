import WasmCodegen.Proofs.LoweringRules
import WasmCodegen.Proofs.ScopeLevels

/-!
# What lowering does to the scope table

An expression that has been lowered leaves every name as it found it, at every level
(`LowersExpr.levels_eq`), although blocks inside it may have declared and hidden names.  The
statements of a block may declare names at the top level, and leave the levels outside alone
(`LowersStmts.tail_levels_eq`).  Slots are only ever added (`LowersExpr.slots_grow`).

A table is *well typed* (`ScopeTable.WellTyped`) if every binding, visible or hidden, has the type
of its slot.  Hidden bindings are part of the statement because leaving a block brings them back.
-/

namespace WasmCodegen

/-! ## Well-typed tables -/

namespace ScopeTable

/-- Every binding of every level has the type of its slot. -/
def WellTyped (table : ScopeTable) : Prop :=
  ∀ level ∈ table.levels, ∀ name binding, level name = some binding →
    table.slots.toList[binding.slot]? = some binding.type

/-- A binding in sight has the type of its slot. -/
theorem WellTyped.lookup {table : ScopeTable} (h : table.WellTyped) {name : String}
    {binding : Binding} (hlookup : table.lookup name = some binding) :
    table.slots.toList[binding.slot]? = some binding.type := by
  refine h table.lookup ?_ name binding hlookup
  rw [levels_eq_cons]
  exact List.mem_cons_self

theorem wellTyped_empty : empty.WellTyped := by
  intro level hlevel name binding hbinding
  obtain rfl := List.mem_singleton.1 hlevel
  rw [lookup_empty] at hbinding
  cases hbinding

/-- Slots that are added do not matter. -/
theorem WellTyped.mono {table table' : ScopeTable} (h : table.WellTyped)
    (hlevels : ∀ level ∈ table'.levels, level ∈ table.levels)
    (hslots : table.slots.toList <+: table'.slots.toList) : table'.WellTyped := by
  intro level hlevel name binding hbinding
  exact getElem?_mono hslots (h level (hlevels level hlevel) name binding hbinding)

theorem WellTyped.enter {table : ScopeTable} (h : table.WellTyped) : table.enter.WellTyped := by
  refine h.mono ?_ (List.prefix_refl _)
  intro level hlevel
  rw [levels_enter, levels_eq_cons, List.mem_cons] at hlevel
  rw [levels_eq_cons]
  rcases hlevel with rfl | hlevel
  · exact List.mem_cons_self
  · exact hlevel

theorem WellTyped.leave {table table' : ScopeTable} (h : table.WellTyped)
    (hleave : table.leave? = some table') : table'.WellTyped := by
  have hslots : table.slots.toList <+: table'.slots.toList :=
    (congrArg Array.toList (slots_leave hleave)).symm ▸ List.prefix_refl _
  refine h.mono ?_ hslots
  intro level hlevel
  rw [levels_leave hleave] at hlevel
  exact List.mem_of_mem_tail hlevel

theorem slots_prefix_bind (table : ScopeTable) (name : String) (type : ValueType) (span : Span) :
    table.slots.toList <+: (table.bind name type span).slots.toList :=
  ⟨[type], Array.toList_push.symm⟩

/-- The slot of a new variable has its type. -/
theorem getElem?_slots_bind (table : ScopeTable) (name : String) (type : ValueType) (span : Span) :
    (table.bind name type span).slots.toList[table.slotCount]? = some type := by
  simp [bind, slotCount]

theorem WellTyped.bind {table : ScopeTable} (h : table.WellTyped) (name : String)
    (type : ValueType) (span : Span) : (table.bind name type span).WellTyped := by
  intro level hlevel other binding hbinding
  rw [levels_bind, List.mem_cons] at hlevel
  have hold : ∀ level ∈ table.levels, level other = some binding →
      (table.bind name type span).slots.toList[binding.slot]? = some binding.type := by
    intro level hlevel hbinding
    exact getElem?_mono (slots_prefix_bind table name type span)
      (h level hlevel other binding hbinding)
  rcases hlevel with rfl | hlevel
  · by_cases hname : other = name
    · subst hname
      rw [Function.update_self, Option.some.injEq] at hbinding
      subst hbinding
      exact getElem?_slots_bind table other type span
    · rw [Function.update_of_ne hname] at hbinding
      refine hold table.lookup ?_ hbinding
      rw [levels_eq_cons]
      exact List.mem_cons_self
  · exact hold level (List.mem_of_mem_tail hlevel) hbinding

end ScopeTable

/-! ## Levels and slots through a run -/

section

variable {ctx : Context}

mutual

/-- An expression leaves all levels as they are. -/
theorem LowersExpr.levels_eq {table table' : ScopeTable} {e : Expr} {code : List Instruction}
    {result : Option ValueType} :
    LowersExpr ctx table e code result table' → table'.levels = table.levels
  | .literal _ => rfl
  | .path _ => rfl
  | .binary _ hleft hright => hright.levels_eq.trans hleft.levels_eq
  | .block hstmts hleave => by
    rw [ScopeTable.levels_leave hleave, hstmts.tail_levels_eq, ScopeTable.levels_enter,
      List.tail_cons]

/-- A statement leaves the levels outside its block as they are. -/
theorem LowersStmt.tail_levels_eq {table table' : ScopeTable} {s : Stmt} {code : List Instruction} :
    LowersStmt ctx table s code table' → table'.levels.tail = table.levels.tail
  | .drop he | .skip he => congrArg List.tail he.levels_eq
  | .init hvalue _ _ => by rw [ScopeTable.levels_bind, List.tail_cons, hvalue.levels_eq]
  | .bare _ _ => by rw [ScopeTable.levels_bind, List.tail_cons]

/-- So do the statements of the block together. -/
theorem LowersStmts.tail_levels_eq {table table' : ScopeTable} {stmts : List Stmt}
    {code : List Instruction} {result : Option ValueType} :
    LowersStmts ctx table stmts code result table' → table'.levels.tail = table.levels.tail
  | .nil => rfl
  | .last he => congrArg List.tail he.levels_eq
  | .cons _ hs hstmts => hstmts.tail_levels_eq.trans hs.tail_levels_eq

end

mutual

/-- An expression only adds slots. -/
theorem LowersExpr.slots_grow {table table' : ScopeTable} {e : Expr} {code : List Instruction}
    {result : Option ValueType} :
    LowersExpr ctx table e code result table' → table.slots.toList <+: table'.slots.toList
  | .literal _ => List.prefix_refl _
  | .path _ => List.prefix_refl _
  | .binary _ hleft hright => hleft.slots_grow.trans hright.slots_grow
  | .block hstmts hleave => by
    rw [ScopeTable.slots_leave hleave]
    exact hstmts.slots_grow

/-- A statement only adds slots. -/
theorem LowersStmt.slots_grow {table table' : ScopeTable} {s : Stmt} {code : List Instruction} :
    LowersStmt ctx table s code table' → table.slots.toList <+: table'.slots.toList
  | .drop he | .skip he => he.slots_grow
  | .init hvalue _ _ => hvalue.slots_grow.trans (ScopeTable.slots_prefix_bind _ _ _ _)
  | .bare _ _ => ScopeTable.slots_prefix_bind _ _ _ _

/-- Statements only add slots. -/
theorem LowersStmts.slots_grow {table table' : ScopeTable} {stmts : List Stmt}
    {code : List Instruction} {result : Option ValueType} :
    LowersStmts ctx table stmts code result table' → table.slots.toList <+: table'.slots.toList
  | .nil => List.prefix_refl _
  | .last he => he.slots_grow
  | .cons _ hs hstmts => hs.slots_grow.trans hstmts.slots_grow

end

/-- An expression leaves a well-typed table well typed. -/
theorem LowersExpr.wellTyped {table table' : ScopeTable} {e : Expr} {code : List Instruction}
    {result : Option ValueType} (h : LowersExpr ctx table e code result table')
    (htable : table.WellTyped) : table'.WellTyped :=
  htable.mono (fun _ hlevel => h.levels_eq ▸ hlevel) h.slots_grow

/-- So does a statement. -/
theorem LowersStmt.wellTyped {table table' : ScopeTable} {s : Stmt} {code : List Instruction}
    (h : LowersStmt ctx table s code table') (htable : table.WellTyped) : table'.WellTyped := by
  cases h with
  | drop he | skip he => exact he.wellTyped htable
  | init hvalue => exact (hvalue.wellTyped htable).bind _ _ _
  | bare => exact htable.bind _ _ _

/-- Parameters take the slots that follow, with their types. -/
theorem LowersParams.slots_eq {table table' : ScopeTable} {params : List Param}
    {types : List ValueType} (h : LowersParams ctx table params types table') :
    table'.slots.toList = table.slots.toList ++ types := by
  induction h with
  | nil => exact (List.append_nil _).symm
  | cons _ _ _ _ ih => rw [ih, ScopeTable.bind, Array.toList_push, List.append_assoc]; rfl

theorem LowersParams.length_eq {table table' : ScopeTable} {params : List Param}
    {types : List ValueType} (h : LowersParams ctx table params types table') :
    params.length = types.length := by
  induction h with
  | nil => rfl
  | cons _ _ _ _ ih => rw [List.length_cons, List.length_cons, ih]

theorem LowersParams.wellTyped {table table' : ScopeTable} {params : List Param}
    {types : List ValueType} (h : LowersParams ctx table params types table')
    (htable : table.WellTyped) : table'.WellTyped := by
  induction h with
  | nil => exact htable
  | cons _ _ _ _ ih => exact ih (htable.bind _ _ _)

end

end WasmCodegen
