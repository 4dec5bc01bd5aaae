import WasmCodegen.Binary.Encoder
import WasmCodegen.Module.Generation
import WasmCodegen.Module.Validation

/-!
# Assemblies

The whole way from a source module to a binary: generate a module, validate it, encode it
(`SourceModule.assemble`).  An assembly keeps what each of the three steps gave.  If a step fails,
its reports are the outcome and the later steps are not taken.
-/

namespace WasmCodegen

/-- A module with the figures of its functions and its binary. -/
structure Assembly where
  output : Module
  report : Report
  bytes : Bytes

/-- Generates, validates and encodes a source module. -/
def SourceModule.assemble (resolver : Resolver) (options : Options) (source : SourceModule) :
    Except Diagnostics Assembly := do
  let output ← source.generate resolver options
  let report ← output.validate.mapError fun e => [.validation e]
  let bytes ← ((Encoder.ofOptions options).encode output).mapError fun e => [.encoding e]
  return ⟨output, report, bytes⟩

/-- The binary of a source module on numbers, with the usual options. -/
def SourceModule.toBytes (source : SourceModule) : Except Diagnostics Bytes :=
  (·.bytes) <$> source.assemble .numeric .default

end WasmCodegen
