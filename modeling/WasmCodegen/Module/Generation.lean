import WasmCodegen.Lowering.Function
import WasmCodegen.Module.Basic
import WasmCodegen.Options

/-!
# Generating a module

The items of a source module become the functions of a module (`SourceModule.generate`).  Only
functions may stand at module level, and a name may be defined once; items that break a rule are
reported and left out (`SourceModule.screen`).  The functions that remain are lowered
independently of each other, and a module comes about only if nothing was reported.

Reports on items come first, in the order of the items; then reports on function bodies, at most
one a function, in the same order.
-/

namespace WasmCodegen

/-- What becomes of each item: a function to lower, or the reason why it is none.  `defined` has
the names defined before, each with the place of its first definition. -/
def SourceModule.screen (defined : Std.TreeMap String Span) :
    List Stmt → List (Except CompileError FunctionDecl)
  | [] => []
  | .function decl :: rest =>
    match defined[decl.name.name]? with
    | some first =>
      .error (.duplicateFunction decl.name.name first decl.name.span) :: screen defined rest
    | none => .ok decl :: screen (defined.insert decl.name.name decl.name.span) rest
  | item :: rest =>
    .error (.unsupportedConstruct
      s!"{item.describe} at module scope (only function declarations are allowed at module scope)"
      item.span) :: screen defined rest

namespace Outcomes

/-- The results among outcomes, in order. -/
def results {ε α : Type} (outcomes : List (Except ε α)) : List α :=
  outcomes.filterMap fun
    | .ok a => some a
    | .error _ => none

/-- The errors among outcomes, in order. -/
def errors {ε α : Type} (outcomes : List (Except ε α)) : List ε :=
  outcomes.filterMap fun
    | .ok _ => none
    | .error e => some e

end Outcomes

/-- Enters a lowered function into a signature table, which gives it its type index. -/
def LoweredFunction.commit (f : LoweredFunction) (types : SignatureTable) :
    Func × SignatureTable :=
  let (typeIndex, types) := types.intern f.signature
  ({ name := f.name, typeIndex, paramCount := f.paramCount, locals := f.locals, body := f.body,
     span := f.span }, types)

namespace Module

/-- Appends a lowered function. -/
def add (m : Module) (f : LoweredFunction) : Module :=
  let (func, types) := f.commit m.types
  { types, functions := m.functions.push func }

/-- The module of a list of lowered functions. -/
def ofLowered (functions : List LoweredFunction) : Module :=
  functions.foldl add {}

end Module

/-- The module of a source module, or everything that is wrong with it. -/
def SourceModule.generate (resolver : Resolver) (options : Options) (source : SourceModule) :
    Except Diagnostics Module :=
  let screened := screen {} source.items
  let lowered := (Outcomes.results screened).map (FunctionDecl.lower resolver options.maxLocals)
  match Outcomes.errors screened ++ Outcomes.errors lowered with
  | [] => .ok (.ofLowered (Outcomes.results lowered))
  | reports => .error (reports.map .compilation)

end WasmCodegen
