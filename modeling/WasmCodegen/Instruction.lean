import WasmCodegen.ValueType

/-!
# Instructions

The instructions of the stack machine.  A block carries its own instruction sequence, so a body
is a tree; a complete sequence closes with one `endSeq`, its last instruction.

`Instruction.listing` is the text of a sequence, one instruction a line, with the body of a block
two spaces further in.  `Instruction.size` counts an instruction together with the instructions
inside it, which is also the number of its lines.
-/

namespace WasmCodegen

/-- Arithmetic on two operands of the numeric type. -/
inductive ArithOp where
  | add
  | sub
  | mul
  | divS
deriving DecidableEq

/-- The name of an arithmetic instruction. -/
def ArithOp.mnemonic : ArithOp → String
  | .add => "i32.add"
  | .sub => "i32.sub"
  | .mul => "i32.mul"
  | .divS => "i32.div_s"

/-- An instruction. -/
inductive Instruction where
  /-- Push a constant. -/
  | const (value : Int32)
  /-- Push the value of a local. -/
  | localGet (slot : Nat)
  /-- Pop a value into a local. -/
  | localSet (slot : Nat)
  /-- Pop two operands and push the result. -/
  | arith (op : ArithOp)
  /-- Pop a value and forget it. -/
  | drop
  /-- Run a sequence on a stack of its own and push its result, if it has one. -/
  | block (result : Option ValueType) (body : List Instruction)
  /-- Close the sequence. -/
  | endSeq

namespace Instruction

mutual

/-- The number of instructions in an instruction, itself included. -/
def size : Instruction → Nat
  | .block _ body => 1 + sizeSeq body
  | _ => 1

/-- The number of instructions in a sequence, those inside blocks included. -/
def sizeSeq : List Instruction → Nat
  | [] => 0
  | i :: rest => i.size + sizeSeq rest

end

/-- The line of an instruction, without what is inside it. -/
def headline : Instruction → String
  | .const value => "i32.const " ++ toString value.toInt
  | .localGet slot => "local.get " ++ toString slot
  | .localSet slot => "local.set " ++ toString slot
  | .arith op => op.mnemonic
  | .drop => "drop"
  | .block none _ => "block"
  | .block (some type) _ => "block (result " ++ type.name ++ ")"
  | .endSeq => "end"

/-- The spaces in front of a line that stands in `depth` blocks. -/
def indent (depth : Nat) : String :=
  String.ofList (List.replicate (2 * depth) ' ')

mutual

/-- The lines of an instruction that stands in `depth` blocks. -/
def lines (depth : Nat) : Instruction → List String
  | .block result body =>
    (indent depth ++ headline (.block result body)) :: linesSeq (depth + 1) body
  | i => [indent depth ++ headline i]

/-- The lines of a sequence that stands in `depth` blocks. -/
def linesSeq (depth : Nat) : List Instruction → List String
  | [] => []
  | i :: rest => i.lines depth ++ linesSeq depth rest

end

mutual

/-- An instruction has a line for each instruction in it. -/
@[simp] theorem length_lines (depth : Nat) : (i : Instruction) → (i.lines depth).length = i.size
  | .block result body => by simp [lines, size, length_linesSeq (depth + 1) body, Nat.add_comm]
  | .const _ => rfl
  | .localGet _ => rfl
  | .localSet _ => rfl
  | .arith _ => rfl
  | .drop => rfl
  | .endSeq => rfl

/-- A sequence has a line for each instruction in it. -/
@[simp] theorem length_linesSeq (depth : Nat) :
    (body : List Instruction) → (linesSeq depth body).length = sizeSeq body
  | [] => rfl
  | i :: rest => by simp [linesSeq, sizeSeq, length_lines depth i, length_linesSeq depth rest]

end

/-- Lines of text, each with its line break. -/
def joinLines (lines : List String) : String :=
  String.join (lines.map (· ++ "\n"))

/-- The text of a sequence. -/
def listing (body : List Instruction) : String :=
  joinLines (linesSeq 0 body)

end Instruction

end WasmCodegen
