import WasmCodegen.Binary.Leb128
import WasmCodegen.Binary.LocalGroup
import WasmCodegen.Diagnostic
import WasmCodegen.Module.Basic
import WasmCodegen.Options

/-!
# The binary format

A binary module is a header and a row of sections, in the order type, function, export, code,
name.  A section is a number, the size of its content and the content; most contents are a count
and that many entries.  A section without entries is left out, so the empty module is the header
alone.

Functions appear three times: the function section has their type indices, the export section
their names, the code section their locals and bodies.  The name section, for tools, has their
names once more.

Encoding does not ask whether a module is valid.  It fails only on a count beyond 32 bits.
-/

namespace WasmCodegen

/-- Which optional sections a binary has. -/
structure Encoder where
  exportFunctions : Bool
  nameSection : Bool
deriving DecidableEq

namespace Encoder

/-- The encoder that the options ask for. -/
def ofOptions (options : Options) : Encoder :=
  ⟨options.exportFunctions, options.nameSection⟩

/-! ## Entries -/

/-- A count, which has to fit 32 bits.  `what` says what is counted. -/
def count (what : String) (n : Nat) : Except EncodingError Bytes :=
  if n < UInt32.size then .ok (Leb128.unsigned n) else .error ⟨what, n⟩

/-- A count and that many entries. -/
def vector {α : Type} (what : String) (entry : α → Except EncodingError Bytes)
    (items : List α) : Except EncodingError Bytes := do
  let size ← count what items.length
  let entries ← items.mapM entry
  return size ++ entries.flatten

/-- The byte of a value type. -/
def typeByte : ValueType → UInt8
  | .i32 => 0x7f
  | .i64 => 0x7e
  | .f32 => 0x7d
  | .f64 => 0x7c

/-- A name: its length in bytes and its bytes. -/
def name (s : String) : Except EncodingError Bytes := do
  let size ← count "name length" s.utf8ByteSize
  return size ++ s.toUTF8.data.toList

/-- A signature. -/
def signature (s : Signature) : Except EncodingError Bytes := do
  let params ← vector "parameter count" (fun type => .ok [typeByte type]) s.params
  let results ← vector "result count" (fun type => .ok [typeByte type]) s.results
  return 0x60 :: params ++ results

/-! ## Bodies -/

/-- The byte of an arithmetic instruction. -/
def arithByte : ArithOp → UInt8
  | .add => 0x6a
  | .sub => 0x6b
  | .mul => 0x6c
  | .divS => 0x6d

/-- The byte of a block's result. -/
def blockType : Option ValueType → UInt8
  | none => 0x40
  | some type => typeByte type

mutual

/-- An instruction.  The body of a block follows it in line. -/
def instruction : Instruction → Bytes
  | .const value => 0x41 :: Leb128.signed value.toInt
  | .localGet slot => 0x20 :: Leb128.unsigned slot
  | .localSet slot => 0x21 :: Leb128.unsigned slot
  | .arith op => [arithByte op]
  | .drop => [0x1a]
  | .block result body => 0x02 :: blockType result :: sequence body
  | .endSeq => [0x0b]

/-- A sequence of instructions. -/
def sequence : List Instruction → Bytes
  | [] => []
  | i :: rest => instruction i ++ sequence rest

end

/-- A group of locals. -/
def localGroup (group : LocalGroup) : Except EncodingError Bytes := do
  let size ← count "local count" group.count
  return size ++ [typeByte group.type]

/-- The declared locals of a function and its body. -/
def codeContent (f : Func) : Except EncodingError Bytes := do
  let groups := LocalGroup.compress f.declaredLocals
  let entries ← groups.mapM localGroup
  let size ← count "local group count" groups.length
  return size ++ entries.flatten ++ sequence f.body

/-- The code of a function, after its size. -/
def code (f : Func) : Except EncodingError Bytes := do
  let content ← codeContent f
  return Leb128.unsigned content.length ++ content

/-! ## Contents of sections -/

/-- The signatures. -/
def typeContent (types : List Signature) : Except EncodingError Bytes :=
  vector "type count" signature types

/-- The type indices of the functions. -/
def functionContent (functions : List Func) : Except EncodingError Bytes :=
  vector "function count" (fun f => .ok (Leb128.unsigned f.typeIndex)) functions

/-- An export: a function's name and its position. -/
def exportEntry (f : Func × Nat) : Except EncodingError Bytes := do
  let name ← name f.1.name
  let index ← count "function index" f.2
  return name ++ 0x00 :: index

/-- The exports: each function under its name. -/
def exportContent (functions : List Func) : Except EncodingError Bytes :=
  vector "function count" exportEntry functions.zipIdx

/-- The bodies. -/
def bodyContent (functions : List Func) : Except EncodingError Bytes :=
  vector "function count" code functions

/-- An entry of the table of names: a function's position and its name. -/
def nameEntry (f : Func × Nat) : Except EncodingError Bytes := do
  let name ← name f.1.name
  let index ← count "function index" f.2
  return index ++ name

/-- A piece of content after its number and its size. -/
def sized (number : UInt8) (content : Bytes) : Bytes :=
  number :: Leb128.unsigned content.length ++ content

/-- The names of the functions, as a part of the section of names. -/
def nameContent (functions : List Func) : Except EncodingError Bytes := do
  let title ← name "name"
  let names ← vector "function count" nameEntry functions.zipIdx
  return title ++ sized 1 names

/-! ## Modules -/

/-- A section: its number and its content. -/
structure Section where
  number : UInt8
  content : Bytes

/-- The bytes of a section. -/
def Section.bytes (s : Section) : Bytes := sized s.number s.content

/-- A section that is there only under a condition. -/
def optional (condition : Bool) (number : UInt8) (content : Except EncodingError Bytes) :
    Except EncodingError (List Section) := do
  if condition then
    return [⟨number, ← content⟩]
  else
    return []

/-- The sections of a module. -/
def sections (encoder : Encoder) (m : Module) : Except EncodingError (List Section) := do
  let types := m.types.types.toList
  let functions := m.functions.toList
  let hasFunctions := !functions.isEmpty
  let typeSection ← optional (!types.isEmpty) 1 (typeContent types)
  let functionSection ← optional hasFunctions 3 (functionContent functions)
  let exportSection ←
    optional (hasFunctions && encoder.exportFunctions) 7 (exportContent functions)
  let codeSection ← optional hasFunctions 10 (bodyContent functions)
  let nameSection ← optional (hasFunctions && encoder.nameSection) 0 (nameContent functions)
  return typeSection ++ functionSection ++ exportSection ++ codeSection ++ nameSection

/-- The format's mark and its version. -/
def header : Bytes := [0x00, 0x61, 0x73, 0x6d, 0x01, 0x00, 0x00, 0x00]

/-- The bytes of a module. -/
def encode (encoder : Encoder) (m : Module) : Except EncodingError Bytes := do
  let sections ← encoder.sections m
  return header ++ sections.flatMap Section.bytes

end Encoder

end WasmCodegen
