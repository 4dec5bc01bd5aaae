import WasmCodegen.Instruction
import WasmCodegen.Signature
import WasmCodegen.Source.Span

/-!
# Modules

A module is a table of signatures and a list of functions that refer to it.  The type does not
say that a module makes sense: type indices and slots may be out of range and bodies may be
ill typed.  `Module.validate` decides which modules do.

`Module.text` lists a module: a line for each signature, then each function with its body.
-/

namespace WasmCodegen

/-- A function of a module. -/
structure Func where
  name : String
  /-- The position of the function's signature in the module's table. -/
  typeIndex : Nat
  /-- How many of the locals are parameters. -/
  paramCount : Nat
  /-- The types of the locals, parameters first. -/
  locals : Array ValueType
  body : List Instruction
  /-- The source text of the function. -/
  span : Span := .unknown

namespace Func

/-- The locals that are not parameters. -/
def declaredLocals (f : Func) : List ValueType := f.locals.toList.drop f.paramCount

/-- The lines of a function at a position of a module.  Its body stands one step further in. -/
def lines (f : Func) (position : Nat) : List String :=
  ("func " ++ toString position ++ " \"" ++ f.name ++ "\" type " ++ toString f.typeIndex ++
    " locals " ++ ValueType.labels f.locals.toList) :: Instruction.linesSeq 1 f.body

end Func

/-- Signatures and functions. -/
structure Module where
  types : SignatureTable := {}
  functions : Array Func := #[]

namespace Module

/-- The line of a signature at a position of the table. -/
def typeLine (s : Signature) (position : Nat) : String :=
  "type " ++ toString position ++ ": " ++ s.text

/-- The lines of a module. -/
def lines (m : Module) : List String :=
  m.types.types.toList.zipIdx.map (fun (s, position) => typeLine s position) ++
    m.functions.toList.zipIdx.flatMap (fun (f, position) => f.lines position)

/-- The listing of a module. -/
def text (m : Module) : String := Instruction.joinLines m.lines

end Module

end WasmCodegen
