import Mathlib.Logic.Function.Basic
import WasmCodegen.ScopeTable

/-!
# The levels of a scope table

A scope table keeps one map of visible bindings and, for each open block, a trail of what the
block's declarations have hidden.  The *levels* of a table (`ScopeTable.levels`) say what this
stands for: what every name means now, what it will mean when the innermost block is left, and so
on out to the function's own scope.

On levels the operations are those of a stack.  Entering a block repeats the top
(`levels_enter`), leaving one removes it (`levels_leave`), and a declaration changes the top alone
(`levels_bind`).  Meanings are functions here, so two tables with equal levels may differ in how
their maps are built, and in nothing that a look-up can show, now or after any number of blocks
have been left.
-/

namespace WasmCodegen

namespace ScopeTable

/-- What every name means. -/
abbrev Meaning := String → Option Binding

/-- The meaning of names once a trail is undone. -/
def rewind (meaning : Meaning) (trail : Trail) : Meaning :=
  trail.foldl (fun meaning entry => Function.update meaning entry.1 entry.2) meaning

/-- The meanings from a block out to the function, given the trails of the open blocks. -/
def levelsFrom (meaning : Meaning) : List Trail → List Meaning
  | [] => [meaning]
  | trail :: trails => meaning :: levelsFrom (rewind meaning trail) trails

/-- The meanings that leaving the open blocks one by one goes through, the present one first. -/
def levels (table : ScopeTable) : List Meaning := levelsFrom table.lookup table.trails

/-! ## Shape -/

theorem levelsFrom_eq_cons (meaning : Meaning) (trails : List Trail) :
    levelsFrom meaning trails = meaning :: (levelsFrom meaning trails).tail := by
  cases trails <;> rfl

/-- The top level is the present one. -/
theorem levels_eq_cons (table : ScopeTable) :
    table.levels = table.lookup :: table.levels.tail :=
  levelsFrom_eq_cons table.lookup table.trails

theorem length_levelsFrom (meaning : Meaning) (trails : List Trail) :
    (levelsFrom meaning trails).length = trails.length + 1 := by
  induction trails generalizing meaning with
  | nil => rfl
  | cons trail trails ih => rw [levelsFrom, List.length_cons, ih, List.length_cons]

/-- There is a level for each open block, and one for the function. -/
theorem length_levels (table : ScopeTable) : table.levels.length = table.depth + 1 :=
  length_levelsFrom table.lookup table.trails

/-- Tables with the same levels agree on every name. -/
theorem lookup_eq_of_levels_eq {table table' : ScopeTable} (h : table'.levels = table.levels) :
    table'.lookup = table.lookup := by
  rw [levels_eq_cons, levels_eq_cons table] at h
  exact (List.cons.inj h).1

/-! ## Operations -/

/-- Undoing a trail in the map of visible bindings rewinds the meaning of names. -/
theorem getElem?_foldl_undo (visible : Std.TreeMap String Binding) (trail : Trail) :
    (fun name => (trail.foldl undo visible)[name]?) =
      rewind (fun name => visible[name]?) trail := by
  induction trail generalizing visible with
  | nil => rfl
  | cons entry trail ih =>
    have hundo : (fun name => (undo visible entry)[name]?) =
        Function.update (fun name => visible[name]?) entry.1 entry.2 := by
      funext name
      obtain ⟨declared, _ | hidden⟩ := entry
      · by_cases h : name = declared
        · simp [undo, h]
        · simp [undo, h, Ne.symm h, Std.TreeMap.getElem?_erase]
      · by_cases h : name = declared
        · simp [undo, h]
        · simp [undo, h, Ne.symm h, Std.TreeMap.getElem?_insert]
    rw [List.foldl_cons, ih, hundo]
    rfl

theorem levels_enter (table : ScopeTable) :
    table.enter.levels = table.lookup :: table.levels := rfl

theorem levels_leave {table table' : ScopeTable} (h : table.leave? = some table') :
    table'.levels = table.levels.tail := by
  unfold leave? at h
  split at h
  · cases h
  · rename_i trail trails htrails
    cases h
    have hlookup := getElem?_foldl_undo table.visible trail
    simp only [levels, htrails, levelsFrom, List.tail_cons]
    exact congrArg (levelsFrom · trails) hlookup

theorem slots_leave {table table' : ScopeTable} (h : table.leave? = some table') :
    table'.slots = table.slots := by
  unfold leave? at h
  split at h
  · cases h
  · cases h
    rfl

theorem slotCount_leave {table table' : ScopeTable} (h : table.leave? = some table') :
    table'.slotCount = table.slotCount :=
  congrArg Array.size (slots_leave h)

/-- A declaration changes what its name means here, and nothing outside. -/
theorem levels_bind (table : ScopeTable) (name : String) (type : ValueType) (span : Span) :
    (table.bind name type span).levels =
      Function.update table.lookup name
        (some ⟨name, type, table.slotCount, table.depth, span⟩) :: table.levels.tail := by
  have hlookup : (table.bind name type span).lookup =
      Function.update table.lookup name
        (some ⟨name, type, table.slotCount, table.depth, span⟩) := by
    funext other
    rw [lookup_bind, Function.update_apply]
    exact if_congr eq_comm rfl rfl
  rw [levels, hlookup]
  cases htrails : table.trails with
  | nil => simp [bind, levels, levelsFrom, htrails]
  | cons trail trails =>
    -- the new entry of the trail takes the declaration back
    simp [bind, levels, levelsFrom, htrails, rewind]

end ScopeTable

end WasmCodegen
