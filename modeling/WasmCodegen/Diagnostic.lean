import WasmCodegen.Source.Span

/-!
# Errors and diagnostics

Three things can go wrong on the way from a source tree to a binary: the tree cannot be lowered
(`CompileError`), a module is not well typed (`ValidationError`), or a count does not fit the
binary format (`EncodingError`).  Each error has one `message`.  A `Diagnostic` is any of them;
what a whole run reports is a list of diagnostics, one message a line.
-/

namespace WasmCodegen

/-- Why a source tree cannot be lowered. -/
inductive CompileError where
  | unsupportedConstruct (construct : String) (span : Span)
  | duplicateBinding (name : String) (first span : Span)
  | unboundIdentifier (name : String) (span : Span)
  | unsupportedOperator (op : String) (span : Span)
  | typeMismatch (reason : String) (span : Span)
  | literalOutOfRange (value : Int) (span : Span)
  | duplicateFunction (name : String) (first span : Span)
  | tooManyLocals (function : String) (limit : Nat) (span : Span)
  | internal (reason : String)
deriving DecidableEq

namespace CompileError

/-- The place an error is about.  For a repeated declaration it is the second one. -/
def span : CompileError → Span
  | .unsupportedConstruct _ span => span
  | .duplicateBinding _ _ span => span
  | .unboundIdentifier _ span => span
  | .unsupportedOperator _ span => span
  | .typeMismatch _ span => span
  | .literalOutOfRange _ span => span
  | .duplicateFunction _ _ span => span
  | .tooManyLocals _ _ span => span
  | .internal _ => .unknown

/-- The text of an error. -/
def message : CompileError → String
  | .unsupportedConstruct construct span => s!"at {span.text}: unsupported {construct}"
  | .duplicateBinding name first span =>
    s!"at {span.text}: variable '{name}' is already declared in this scope " ++
      s!"(first declared at {first.text})"
  | .unboundIdentifier name span => s!"at {span.text}: unbound identifier '{name}'"
  | .unsupportedOperator op span => s!"at {span.text}: unsupported operator '{op}'"
  | .typeMismatch reason span => s!"at {span.text}: {reason}"
  | .literalOutOfRange value span =>
    s!"at {span.text}: integer literal {value} is out of range for i32"
  | .duplicateFunction name first span =>
    s!"at {span.text}: function '{name}' is already defined (first defined at {first.text})"
  | .tooManyLocals function limit span =>
    s!"at {span.text}: function '{function}' exceeds the limit of {limit} locals"
  | .internal reason => s!"internal compiler error: {reason}"

end CompileError

/-- What is wrong with a function of a module. -/
inductive Fault where
  | stackUnderflow (position : Nat)
  | unbalancedResult (expected found : Nat)
  | invalidLocalIndex (index count : Nat)
  | invalidTypeIndex (index count : Nat)
  | typeMismatch (reason : String)
  | misplacedEnd (position : Nat)
deriving DecidableEq

/-- The text of a fault. -/
def Fault.message : Fault → String
  | .stackUnderflow position => s!"stack underflow at instruction {position}"
  | .unbalancedResult expected found =>
    s!"expected {expected} result value(s) at end, found {found}"
  | .invalidLocalIndex index count => s!"local index {index} out of range ({count} locals)"
  | .invalidTypeIndex index count => s!"type index {index} out of range ({count} types)"
  | .typeMismatch reason => reason
  | .misplacedEnd position => s!"misplaced end at instruction {position}"

/-- Why a module is not valid: a function of it and the fault found there. -/
structure ValidationError where
  function : String
  fault : Fault
deriving DecidableEq

/-- The text of an error. -/
def ValidationError.message (e : ValidationError) : String :=
  s!"in function '{e.function}': {e.fault.message}"

/-- A count that does not fit the 32 bits that the binary format has for it. -/
structure EncodingError where
  what : String
  count : Nat
deriving DecidableEq

/-- The text of an error. -/
def EncodingError.message (e : EncodingError) : String :=
  s!"{e.what} overflows u32 ({e.count})"

/-- One report of a run, by the phase that made it. -/
inductive Diagnostic where
  | compilation (error : CompileError)
  | validation (error : ValidationError)
  | encoding (error : EncodingError)
deriving DecidableEq

namespace Diagnostic

/-- The text of a report. -/
def message : Diagnostic → String
  | .compilation e => e.message
  | .validation e => e.message
  | .encoding e => e.message

/-- Reports on the source have a place; reports on a module or its binary have none. -/
def span? : Diagnostic → Option Span
  | .compilation e => some e.span
  | _ => none

/-- Does the report come from lowering? -/
def isCompilation : Diagnostic → Bool
  | .compilation _ => true
  | _ => false

/-- Does the report come from the validator? -/
def isValidation : Diagnostic → Bool
  | .validation _ => true
  | _ => false

/-- Does the report come from the encoder? -/
def isEncoding : Diagnostic → Bool
  | .encoding _ => true
  | _ => false

end Diagnostic

/-- The reports of a run, in order. -/
abbrev Diagnostics := List Diagnostic

/-- The text of the reports, one a line. -/
def Diagnostics.message (reports : Diagnostics) : String :=
  "\n".intercalate (reports.map Diagnostic.message)

end WasmCodegen
