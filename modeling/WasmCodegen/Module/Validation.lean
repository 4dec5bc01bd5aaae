import WasmCodegen.Diagnostic
import WasmCodegen.Module.Basic

/-!
# Validation

The validator runs every body on a stack of types.  Each instruction takes its operands from the
stack and leaves its results there; a block runs on a stack of its own, so it cannot reach the
operands below it.  A sequence ends with its one `endSeq`, where the stack has to hold exactly the
result that is expected.

`Module.validate` stops at the first fault of the first faulty function.  A module without fault
gets a report: for each function the number of its instructions and the greatest height of its
operand stack (`Instruction.peakSeq`), blocks included.
-/

namespace WasmCodegen

/-! ## Types of instructions -/

namespace Func

/-- The type of a local. -/
def slotType (f : Func) (slot : Nat) : Except Fault ValueType :=
  match f.locals[slot]? with
  | some type => .ok type
  | none => .error (.invalidLocalIndex slot f.locals.size)

/-- At the end of a sequence the stack holds the expected result and nothing else. -/
def checkEnd (expected : Option ValueType) (stack : List ValueType) : Except Fault Unit :=
  match expected, stack with
  | none, [] => .ok ()
  | some want, [found] =>
    if found = want then
      .ok ()
    else
      .error (.typeMismatch s!"result expects {want.name}, found {found.name}")
  | expected, stack => .error (.unbalancedResult expected.toList.length stack.length)

mutual

/-- The stack after an instruction at a position of its sequence, other than the end of the
sequence.  The top of the stack is the head of the list. -/
def checkInstruction (f : Func) (position : Nat) (stack : List ValueType) :
    Instruction → Except Fault (List ValueType)
  | .const _ => .ok (.numeric :: stack)
  | .localGet slot => do
    let type ← f.slotType slot
    .ok (type :: stack)
  | .localSet slot => do
    let type ← f.slotType slot
    match stack with
    | found :: stack =>
      if found = type then
        .ok stack
      else
        .error (.typeMismatch s!"local.set {slot} expects {type.name}, found {found.name}")
    | [] => .error (.stackUnderflow position)
  | .arith op =>
    match stack with
    | right :: left :: stack =>
      if left = .numeric ∧ right = .numeric then
        .ok (.numeric :: stack)
      else
        .error (.typeMismatch <|
          s!"{op.mnemonic} expects {ValueType.numeric.name} operands, " ++
            s!"found {left.name} and {right.name}")
    | _ => .error (.stackUnderflow position)
  | .drop =>
    match stack with
    | _ :: stack => .ok stack
    | [] => .error (.stackUnderflow position)
  | .block result body => do
    checkSequence f result 0 [] body
    .ok (result.toList ++ stack)
  | .endSeq => .error (.misplacedEnd position)

/-- Checks a sequence from a position on, with the given stack, up to the end of the sequence. -/
def checkSequence (f : Func) (expected : Option ValueType) (position : Nat)
    (stack : List ValueType) : List Instruction → Except Fault Unit
  | [] => .error (.misplacedEnd position)
  | [.endSeq] => checkEnd expected stack
  | i :: rest => do
    let stack ← checkInstruction f position stack i
    checkSequence f expected (position + 1) stack rest

end

/-- The types of the locals that are parameters, if there are that many locals. -/
def paramLocals? (f : Func) : Option (List ValueType) :=
  if f.paramCount ≤ f.locals.size then some (f.locals.toList.take f.paramCount) else none

/-- Checks a function against the signatures of its module. -/
def check (f : Func) (types : SignatureTable) : Except Fault Unit :=
  match types.get? f.typeIndex with
  | none => .error (.invalidTypeIndex f.typeIndex types.size)
  | some type =>
    if f.paramLocals? = some type.params then
      match type.results with
      | [] => checkSequence f none 0 [] f.body
      | [result] => checkSequence f (some result) 0 [] f.body
      | _ => .error (.typeMismatch s!"multiple results are not supported ({type.text})")
    else
      .error (.typeMismatch <|
        s!"parameter locals {ValueType.labels (f.paramLocals?.getD [])} " ++
          s!"do not match type {type.text}")

end Func

/-! ## Heights of the stack -/

namespace Instruction

/-- The height of the stack after an instruction that finds `height` values on it. -/
def heightAfter (height : Nat) : Instruction → Nat
  | .const _ => height + 1
  | .localGet _ => height + 1
  | .localSet _ => height - 1
  | .arith _ => height - 1
  | .drop => height - 1
  | .block result _ => height + result.toList.length
  | .endSeq => height

mutual

/-- The greatest height before and inside an instruction. -/
def peak (height : Nat) : Instruction → Nat
  | .block _ body => peakSeq height body
  | _ => height

/-- The greatest height before, inside and after the instructions of a sequence. -/
def peakSeq (height : Nat) : List Instruction → Nat
  | [] => height
  | i :: rest => max (i.peak height) (peakSeq (i.heightAfter height) rest)

end

end Instruction

/-! ## Reports -/

/-- The figures of a valid function. -/
structure FuncReport where
  name : String
  instructionCount : Nat
  maxStackDepth : Nat
deriving DecidableEq

/-- The figures of a function. -/
def Func.report (f : Func) : FuncReport :=
  ⟨f.name, Instruction.sizeSeq f.body, Instruction.peakSeq 0 f.body⟩

/-- The figures of a valid module, by function. -/
structure Report where
  functions : List FuncReport
deriving DecidableEq

/-- The greatest height of any function's stack. -/
def Report.maxStackDepth (r : Report) : Nat :=
  r.functions.foldl (fun most f => max most f.maxStackDepth) 0

/-- The number of instructions of all functions. -/
def Report.instructionCount (r : Report) : Nat :=
  r.functions.foldl (fun total f => total + f.instructionCount) 0

/-- The figures of a module, or its first fault. -/
def Module.validate (m : Module) : Except ValidationError Report := do
  let functions ← m.functions.toList.mapM fun f =>
    match f.check m.types with
    | .ok () => .ok f.report
    | .error fault => .error ⟨f.name, fault⟩
  return ⟨functions⟩

end WasmCodegen
