/-!
# Options

What a run may be asked to do differently: which sections the binary has beside the necessary
ones, and how many locals a function may have.
-/

namespace WasmCodegen

/-- The settings of a run. -/
structure Options where
  /-- Is every function exported under its name? -/
  exportFunctions : Bool := true
  /-- Does the binary list the names of the functions for tools? -/
  nameSection : Bool := false
  /-- Were functions asked to be lowered side by side?  The request has no effect. -/
  parallel : Bool := false
  /-- The number of locals a function may have, parameters included. -/
  maxLocals : Nat := 50000
deriving DecidableEq

namespace Options

/-- The settings of a run that asks for nothing. -/
def default : Options := {}

/-- Are functions lowered side by side?  They never are. -/
def parallelEnabled (_ : Options) : Bool := false

/-- The text of a truth value. -/
def flag : Bool → String
  | true => "true"
  | false => "false"

/-- The settings as text, inside the text of the run that has them. -/
def text (o : Options) : String :=
  "Pipeline \x7b options: CodegenOptions \x7b export_functions: " ++ flag o.exportFunctions ++
    ", name_section: " ++ flag o.nameSection ++ ", parallel: " ++ flag o.parallel ++
    ", max_locals: " ++ toString o.maxLocals ++ " \x7d, .. \x7d"

end Options

end WasmCodegen
