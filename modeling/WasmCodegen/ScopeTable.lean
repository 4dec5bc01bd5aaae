import WasmCodegen.Diagnostic
import WasmCodegen.ValueType
import Std.Data.TreeMap

/-!
# The scope table

While the body of a function is lowered, the scope table says which variable a name means.
Variables live in *slots*, numbered in the order of declaration and never used twice, so the
types of the slots are the locals of the finished function.

Scopes nest: level `0` is the function's own scope, and every block opens one more.  A name may
be declared once in a scope; a declaration in an inner scope hides an outer one until the inner
scope is left.

The table keeps the visible bindings in one map, so that a look-up does not search the scopes.
For each open block it keeps a *trail*: the names declared there, each with the binding it hid.
Leaving a block undoes its trail (`ScopeTable.leave`).

Depths and slots are natural numbers and do not run out.  A table that counts them in 32-bit words
gives the same answers in every session that asks for fewer than `2 ^ 32` blocks and declarations,
and needs no trails either (`FlatTable.session_eq`).

Operations that can fail are in the state monad `ScopeTable.Action`, which keeps the table of a
failed operation.
-/

namespace WasmCodegen

/-- What a name stands for. -/
structure Binding where
  name : String
  type : ValueType
  /-- The local that holds the variable. -/
  slot : Nat
  /-- The number of blocks around the declaration. -/
  depth : Nat
  /-- Where the variable was declared. -/
  span : Span
deriving DecidableEq

/-- The names declared in one open block, the last one first, each with the binding it hid. -/
abbrev Trail := List (String × Option Binding)

/-- The bindings in sight, the trails of the open blocks from the inside out, and the slots. -/
structure ScopeTable where
  visible : Std.TreeMap String Binding := {}
  trails : List Trail := []
  slots : Array ValueType := #[]

namespace ScopeTable

/-- The table of a function that has declared nothing. -/
def empty : ScopeTable := {}

/-- The number of open blocks.  It is a word as long as fewer than `2 ^ 32` blocks are open. -/
def depth (table : ScopeTable) : Nat := table.trails.length

/-- The number of slots taken so far. -/
def slotCount (table : ScopeTable) : Nat := table.slots.size

/-- The binding that a name has here: the innermost one. -/
def lookup (table : ScopeTable) (name : String) : Option Binding := table.visible[name]?

/-- The binding that a name has in the innermost scope itself. -/
def inScope? (table : ScopeTable) (name : String) : Option Binding :=
  (table.lookup name).filter (·.depth == table.depth)

/-- Opens a block. -/
def enter (table : ScopeTable) : ScopeTable :=
  { table with trails := [] :: table.trails }

/-- Puts back what a declaration has hidden. -/
def undo (visible : Std.TreeMap String Binding) :
    String × Option Binding → Std.TreeMap String Binding
  | (name, none) => visible.erase name
  | (name, some hidden) => visible.insert name hidden

/-- Closes the innermost block, if there is one. -/
def leave? (table : ScopeTable) : Option ScopeTable :=
  match table.trails with
  | [] => none
  | trail :: trails => some { table with visible := trail.foldl undo table.visible, trails }

/-- Gives the next slot to a variable and brings its name into sight. -/
def bind (table : ScopeTable) (name : String) (type : ValueType) (span : Span) : ScopeTable where
  visible := table.visible.insert name
    { name, type, slot := table.slotCount, depth := table.depth, span }
  trails := match table.trails with
    | [] => []
    | trail :: trails => ((name, table.lookup name) :: trail) :: trails
  slots := table.slots.push type

/-! ## What the operations do to depth, slots and look-up -/

@[simp] theorem depth_empty : empty.depth = 0 := rfl

@[simp] theorem slotCount_empty : empty.slotCount = 0 := rfl

@[simp] theorem lookup_empty (name : String) : empty.lookup name = none := by
  simp [empty, lookup]

@[simp] theorem depth_enter (table : ScopeTable) : table.enter.depth = table.depth + 1 := rfl

@[simp] theorem slotCount_enter (table : ScopeTable) : table.enter.slotCount = table.slotCount :=
  rfl

@[simp] theorem lookup_enter (table : ScopeTable) (name : String) :
    table.enter.lookup name = table.lookup name := rfl

/-- A block that is entered and left at once changes nothing. -/
@[simp] theorem leave?_enter (table : ScopeTable) : table.enter.leave? = some table := rfl

@[simp] theorem leave?_eq_none_iff (table : ScopeTable) :
    table.leave? = none ↔ table.depth = 0 := by
  cases h : table.trails <;> simp [leave?, depth, h]

@[simp] theorem depth_bind (table : ScopeTable) (name : String) (type : ValueType) (span : Span) :
    (table.bind name type span).depth = table.depth := by
  cases h : table.trails <;> simp [bind, depth, h]

@[simp] theorem slotCount_bind (table : ScopeTable) (name : String) (type : ValueType)
    (span : Span) : (table.bind name type span).slotCount = table.slotCount + 1 := by
  simp [bind, slotCount]

/-- A declared name means the new variable, and every other name what it meant before. -/
theorem lookup_bind (table : ScopeTable) (name : String) (type : ValueType) (span : Span)
    (other : String) :
    (table.bind name type span).lookup other =
      if name = other then some ⟨name, type, table.slotCount, table.depth, span⟩
      else table.lookup other := by
  simp [bind, lookup, Std.TreeMap.getElem?_insert]

/-! ## Operations that can fail -/

/-- An operation on the table. -/
abbrev Action := EStateM CompileError ScopeTable

/-- Closes the innermost block; the function's own scope stays open. -/
def leave : Action Unit := do
  match (← get).leave? with
  | some table => set table
  | none => throw (.internal "pop_scope called at function scope")

/-- Declares a variable in the innermost scope and gives its slot. -/
def declare (name : String) (type : ValueType) (span : Span) : Action Nat := do
  match (← get).inScope? name with
  | some first => throw (.duplicateBinding name first.span span)
  | none => modifyGet fun table => (table.slotCount, table.bind name type span)

/-- Are all slots taken by variables in sight, at the level of the function?  Then a parameter
may follow. -/
def acceptsParam (table : ScopeTable) : Bool :=
  table.depth == 0 && table.slotCount == table.visible.size

/-- Declares a parameter and gives its slot. -/
def declareParam (name : String) (type : ValueType) (span : Span) : Action Nat := do
  if (← get).acceptsParam then
    declare name type span
  else
    throw (.internal "parameters must be declared before any local")

/-! ## What they answer -/

theorem leave_apply (table : ScopeTable) :
    leave table = match table.leave? with
      | some outer => .ok () outer
      | none => .error (.internal "pop_scope called at function scope") table := by
  change (match table.leave? with
    | some outer => set outer
    | none => throw (.internal "pop_scope called at function scope") : Action Unit) table = _
  cases table.leave? <;> rfl

theorem declare_apply (name : String) (type : ValueType) (span : Span) (table : ScopeTable) :
    declare name type span table = match table.inScope? name with
      | some first => .error (.duplicateBinding name first.span span) table
      | none => .ok table.slotCount (table.bind name type span) := by
  change (match table.inScope? name with
    | some first => throw (.duplicateBinding name first.span span)
    | none => modifyGet fun table => (table.slotCount, table.bind name type span) :
      Action Nat) table = _
  cases table.inScope? name <;> rfl

theorem declareParam_apply (name : String) (type : ValueType) (span : Span) (table : ScopeTable) :
    declareParam name type span table =
      if table.acceptsParam then
        declare name type span table
      else
        .error (.internal "parameters must be declared before any local") table := by
  change (if table.acceptsParam then
      declare name type span
    else
      throw (.internal "parameters must be declared before any local") : Action Nat) table = _
  cases table.acceptsParam <;> rfl

end ScopeTable

end WasmCodegen
