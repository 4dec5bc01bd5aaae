import WasmCodegen.Proofs.ScopeLevels

/-!
# Lexical scopes

Nested scopes as the rules of a language describe them: a list of scopes, each with its own
declarations.  A name means what the innermost scope that declares it says (`Scopes.find?`), a
declaration goes to the innermost scope, and a scope that is left is forgotten as a whole.
Nothing is hidden here, and nothing has to be put back.

A scope table *shows* such scopes (`ScopeTable.Shows`) if its levels are the meanings of names that
the scopes give, from the inside out.  The operations of the table then follow those of the scopes
one by one, although the table has one map for all of them.  In particular the depth that a
binding carries tells whether it is from the innermost scope (`ScopeTable.Shows.inScope?_eq`).
-/

namespace WasmCodegen

/-- Declarations in nested scopes: those of the innermost scope, the last one in front, and the
scopes around it from the inside out. -/
structure Scopes (α : Type) where
  inner : List (String × α) := []
  outer : List (List (String × α)) := []

namespace Scopes

variable {α β : Type}

/-- The number of scopes around the innermost one. -/
def level (s : Scopes α) : Nat := s.outer.length

/-- The first declaration of a name in scopes listed from the inside out, with the level of its
scope. -/
def search (name : String) : List (List (String × α)) → Option (Nat × α)
  | [] => none
  | scope :: outer =>
    match scope.lookup name with
    | some a => some (outer.length, a)
    | none => search name outer

/-- The innermost declaration of a name, with the level of its scope. -/
def find? (s : Scopes α) (name : String) : Option (Nat × α) := search name (s.inner :: s.outer)

/-- Opens a scope. -/
def enter (s : Scopes α) : Scopes α := ⟨[], s.inner :: s.outer⟩

/-- Closes the innermost scope, if there is one around it. -/
def leave? (s : Scopes α) : Option (Scopes α) :=
  match s.outer with
  | [] => none
  | scope :: outer => some ⟨scope, outer⟩

/-- Declares a name in the innermost scope. -/
def declare (s : Scopes α) (name : String) (a : α) : Scopes α := ⟨(name, a) :: s.inner, s.outer⟩

/-- A declaration that is found is in one of the scopes searched. -/
theorem level_lt_of_search {name : String} {scopes : List (List (String × α))} {level : Nat} {a : α}
    (h : search name scopes = some (level, a)) : level < scopes.length := by
  induction scopes with
  | nil => cases h
  | cons scope outer ih =>
    rw [search] at h
    split at h
    · cases h
      exact Nat.lt_succ_self _
    · exact Nat.lt_succ_of_lt (ih h)

end Scopes

/-! ## The scopes of a table -/

/-- A variable, apart from its name and the scope that it is declared in. -/
structure Variable where
  type : ValueType
  slot : Nat
  span : Span
deriving DecidableEq

/-- What a name means that stands for the variable, declared at a level. -/
def Variable.binding (v : Variable) (name : String) (level : Nat) : Binding :=
  ⟨name, v.type, v.slot, level, v.span⟩

namespace Scopes

/-- What every name means in scopes listed from the inside out. -/
def meaning (scopes : List (List (String × Variable))) : ScopeTable.Meaning := fun name =>
  (search name scopes).map fun found => found.2.binding name found.1

/-- The meanings that leaving the scopes one by one goes through. -/
def meanings : List (List (String × Variable)) → List ScopeTable.Meaning
  | [] => []
  | scope :: outer => meaning (scope :: outer) :: meanings outer

/-- The binding of a name. -/
def lookup (s : Scopes Variable) : ScopeTable.Meaning := meaning (s.inner :: s.outer)

theorem length_meanings (scopes : List (List (String × Variable))) :
    (meanings scopes).length = scopes.length := by
  induction scopes with
  | nil => rfl
  | cons scope outer ih => rw [meanings, List.length_cons, ih, List.length_cons]

/-- A declaration changes what its name means. -/
theorem lookup_declare (s : Scopes Variable) (name : String) (v : Variable) :
    (s.declare name v).lookup =
      Function.update s.lookup name (some (v.binding name s.level)) := by
  funext other
  by_cases h : other = name
  · subst h
    simp [lookup, meaning, search, declare, level]
  · have hbeq : (other == name) = false := beq_false_of_ne h
    simp [lookup, meaning, search, declare, List.lookup_cons, hbeq, h]

end Scopes

/-- The levels of the table are the meanings that the scopes give. -/
def ScopeTable.Shows (table : ScopeTable) (s : Scopes Variable) : Prop :=
  table.levels = Scopes.meanings (s.inner :: s.outer)

namespace ScopeTable

variable {table : ScopeTable} {s : Scopes Variable}

theorem shows_empty : empty.Shows {} := by
  have hlookup : empty.lookup = Scopes.meaning [[]] := funext lookup_empty
  rw [Shows, levels, hlookup]
  rfl

theorem Shows.lookup_eq (h : table.Shows s) : table.lookup = s.lookup := by
  rw [Shows, levels_eq_cons] at h
  exact (List.cons.inj h).1

theorem Shows.depth_eq (h : table.Shows s) : table.depth = s.level := by
  have hlength := congrArg List.length h
  rw [length_levels, Scopes.length_meanings, List.length_cons] at hlength
  exact Nat.succ.inj hlength

/-- The binding of a name in the innermost scope is the one that this scope declares: what is
visible from farther out carries a smaller depth. -/
theorem Shows.inScope?_eq (h : table.Shows s) (name : String) :
    table.inScope? name = (s.inner.lookup name).map fun v => v.binding name s.level := by
  rw [inScope?, h.lookup_eq, h.depth_eq, Scopes.lookup, Scopes.meaning, Scopes.search]
  cases s.inner.lookup name with
  | some v => simp [Scopes.level, Variable.binding]
  | none =>
    cases hsearch : Scopes.search name s.outer with
    | none => rfl
    | some found =>
      have hlt : found.1 < s.level := Scopes.level_lt_of_search hsearch
      simp [Variable.binding, Nat.ne_of_lt hlt]

theorem Shows.enter (h : table.Shows s) : table.enter.Shows s.enter := by
  rw [Shows, levels_enter, h.lookup_eq, h]
  rfl

/-- A block can be left exactly if a scope can. -/
theorem Shows.leave (h : table.Shows s) :
    table.leave? = none ∧ s.leave? = none ∨
      ∃ table' s', table.leave? = some table' ∧ s.leave? = some s' ∧ table'.Shows s' := by
  obtain ⟨inner, outer⟩ := s
  cases outer with
  | nil => exact .inl ⟨(leave?_eq_none_iff table).2 h.depth_eq, rfl⟩
  | cons scope outer =>
    cases hleave : table.leave? with
    | none =>
      have hdepth := h.depth_eq
      rw [(leave?_eq_none_iff table).1 hleave] at hdepth
      cases hdepth
    | some table' =>
      have hshows : table'.Shows ⟨scope, outer⟩ := by
        rw [Shows, levels_leave hleave, h]
        rfl
      exact .inr ⟨table', ⟨scope, outer⟩, rfl, rfl, hshows⟩

theorem Shows.bind (h : table.Shows s) (name : String) (type : ValueType) (span : Span) :
    (table.bind name type span).Shows (s.declare name ⟨type, table.slotCount, span⟩) := by
  have hmeaning := s.lookup_declare name ⟨type, table.slotCount, span⟩
  rw [Shows, levels_bind, h.depth_eq, h.lookup_eq, h]
  exact congrArg (· :: Scopes.meanings s.outer) hmeaning.symm

end ScopeTable

end WasmCodegen
