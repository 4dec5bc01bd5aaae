import WasmCodegen.Binary.Encoder
import WasmCodegen.Proofs.Reader

/-!
# Decoding the binary format

A decoder for binary modules, written from the format alone.  It reads any choice of sections, in
their order, and nothing after them.  A section that is missing has no entries.

A sequence of instructions runs up to its own `end`: a block inside it has an `end` of its own, so
the tree is rebuilt by reading the block's sequence first and going on after it.

What the bytes do not say is filled in: a function gets its parameters from its signature, and a
name from the exports or the section of names, if one of them has it.
-/

namespace WasmCodegen

/-- The locals that groups of locals stand for. -/
def LocalGroup.expand (groups : List LocalGroup) : List ValueType :=
  groups.flatMap fun group => List.replicate group.count group.type

namespace Decoder

open Reader

/-! ## Entries -/

/-- Reads a byte that has to be this one. -/
def expect (b : UInt8) : Reader Unit := do
  if (← byte) = b then return () else failure

/-- The value type of a byte. -/
def typeOf? : UInt8 → Option ValueType
  | 0x7f => some .i32
  | 0x7e => some .i64
  | 0x7d => some .f32
  | 0x7c => some .f64
  | _ => none

/-- Reads a value type. -/
def valueType : Reader ValueType := do
  lift (typeOf? (← byte))

/-- Reads a name. -/
def name : Reader String := do
  let bytes ← take (← word)
  lift (String.fromUTF8? ⟨bytes.toArray⟩)

/-- Reads a signature. -/
def signature : Reader Signature := do
  expect 0x60
  let params ← vector valueType
  let results ← vector valueType
  return ⟨params, results⟩

/-- Reads an export: the position of a function, and its name. -/
def exportEntry : Reader (Nat × String) := do
  let name ← name
  expect 0x00
  let index ← word
  return (index, name)

/-- Reads an entry of the table of names. -/
def nameEntry : Reader (Nat × String) := do
  let index ← word
  let name ← name
  return (index, name)

/-- Reads the section of names. -/
def nameContent : Reader (List (Nat × String)) := do
  if (← name) = "name" then
    expect 1
    sized (vector nameEntry)
  else
    failure

/-! ## Bodies -/

/-- Reads a group of locals. -/
def localGroup : Reader LocalGroup := do
  let count ← word
  let type ← valueType
  return ⟨count, type⟩

/-- The arithmetic instruction of a byte. -/
def arithOf? : UInt8 → Option ArithOp
  | 0x6a => some .add
  | 0x6b => some .sub
  | 0x6c => some .mul
  | 0x6d => some .divS
  | _ => none

/-- Reads the result of a block. -/
def blockResult : Reader (Option ValueType) := do
  let b ← byte
  if b = 0x40 then return none else return some (← lift (typeOf? b))

/-- Reads the rest of an instruction that has nothing inside it. -/
def plain (opcode : UInt8) : Reader Instruction :=
  match opcode with
  | 0x41 => do return .const (← signedWord)
  | 0x20 => do return .localGet (← word)
  | 0x21 => do return .localSet (← word)
  | 0x1a => return .drop
  | _ => do return .arith (← lift (arithOf? opcode))

/-- Reads a sequence up to its `end`, if it has at most `limit` instructions. -/
def sequence : (limit : Nat) → Reader (List Instruction)
  | 0 => failure
  | limit + 1 => do
    let opcode ← byte
    if opcode = 0x0b then
      return [.endSeq]
    else if opcode = 0x02 then
      let result ← blockResult
      let body ← sequence limit
      return .block result body :: (← sequence limit)
    else
      let i ← plain opcode
      return i :: (← sequence limit)

/-- Reads a body.  An instruction takes a byte or more. -/
def body : Reader (List Instruction) := do
  let left ← get
  sequence left.length

/-- Reads the declared locals of a function and its body. -/
def code : Reader (List LocalGroup × List Instruction) := do
  let groups ← vector localGroup
  let body ← body
  return (groups, body)

/-! ## Modules -/

/-- What a binary says. -/
structure Image where
  types : List Signature
  functions : List Func
  /-- The exports: positions of functions, and their names. -/
  exports : List (Nat × String)
  /-- The section of names, in the same form. -/
  names : List (Nat × String)

/-- The module that a binary describes. -/
def Image.toModule (image : Image) : Module where
  types := ⟨image.types.toArray, .ofList image.types.zipIdx.reverse⟩
  functions := image.functions.toArray

/-- Reads a section. -/
def rawSection : Reader Encoder.Section := do
  let number ← byte
  let content ← take (← word)
  return ⟨number, content⟩

/-- The sections of a binary.  Their order is fixed, and any of them may be missing. -/
def sections (bytes : Bytes) : Option (List Encoder.Section) := do
  let (mark, rest) ← take Encoder.header.length bytes
  guard (mark = Encoder.header)
  let sections ← rawSection.many rest.length rest
  guard ((sections.map (·.number)).Sublist [1, 3, 7, 10, 0])
  return sections

/-- The sections of a number. -/
def numbered (sections : List Encoder.Section) (number : UInt8) : List Encoder.Section :=
  sections.filter (·.number = number)

/-- The entries of a section, all of whose content has to be entries.  A section that is missing
has none. -/
def entries {α : Type} (p : Reader (List α)) : List Encoder.Section → Option (List α)
  | [] => some []
  | s :: _ => p.all s.content

/-- The function of a type index, declared locals and a body, at a position. -/
def function (types : List Signature) (names : List (Nat × String))
    (entry : (Nat × List LocalGroup × List Instruction) × Nat) : Option Func := do
  let ((typeIndex, groups, body), position) := entry
  let s ← types[typeIndex]?
  return {
    name := (names.lookup position).getD ""
    typeIndex
    paramCount := s.params.length
    locals := (s.params ++ LocalGroup.expand groups).toArray
    body }

/-- Decodes a binary module. -/
def decode (bytes : Bytes) : Option Image := do
  let sections ← sections bytes
  let types ← entries (vector signature) (numbered sections 1)
  let indices ← entries (vector word) (numbered sections 3)
  let exports ← entries (vector exportEntry) (numbered sections 7)
  let codes ← entries (vector (sized code)) (numbered sections 10)
  let names ← entries nameContent (numbered sections 0)
  guard (indices.length = codes.length)
  let functions ← (indices.zip codes).zipIdx.mapM (function types (exports ++ names))
  return ⟨types, functions, exports, names⟩

end Decoder

end WasmCodegen
