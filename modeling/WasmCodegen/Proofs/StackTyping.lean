import WasmCodegen.Module.Validation
import WasmCodegen.Proofs.Fallible

/-!
# The type system of stack code

`Func.check` runs a body on a stack of types.  This file gives the same judgement without running
anything, in the style of the WebAssembly specification, and proves that the two agree.

## The rules

An instruction has a *stack type*: the operands it takes off the stack and the results it leaves
there (`StackTyping.Instr`).  The stack types of a sequence (`StackTyping.Code`) come from those of
its instructions by composition and by the frame rule, which adds an untouched stack below.  A
*body* (`StackTyping.Body`) is a sequence typed from the empty stack to the expected result, and
one `endSeq` after it.  There is no rule for `endSeq` as an instruction, so no other `endSeq` can
stand in a body.

Stacks are lists with the top first, so the stack below `before` is what comes after it.

## Agreement

The rules are not directed by the syntax: a sequence may be cut anywhere, and a frame may be added
anywhere.  `Func.checkSequence_append` is the statement that survives all of this, and gives
completeness; `Func.code_of_checkSequence` gives soundness.  `Module.validate_iff_wellTyped` puts
the two together: what the validator accepts is `Func.WellTyped`, function by function.
-/

namespace WasmCodegen

namespace StackTyping

mutual

/-- `Instr locals i before after`: the instruction takes `before` and leaves `after`. -/
inductive Instr (locals : List ValueType) :
    Instruction → List ValueType → List ValueType → Prop
  | const (value : Int32) : Instr locals (.const value) [] [.i32]
  | localGet {slot : Nat} {type : ValueType} (h : locals[slot]? = some type) :
      Instr locals (.localGet slot) [] [type]
  | localSet {slot : Nat} {type : ValueType} (h : locals[slot]? = some type) :
      Instr locals (.localSet slot) [type] []
  | arith (op : ArithOp) : Instr locals (.arith op) [.i32, .i32] [.i32]
  | drop (type : ValueType) : Instr locals .drop [type] []
  | block {result : Option ValueType} {body : List Instruction} (h : Body locals body result) :
      Instr locals (.block result body) [] result.toList

/-- `Code locals code before after`: a sequence without its `endSeq` takes `before` and leaves
`after`. -/
inductive Code (locals : List ValueType) :
    List Instruction → List ValueType → List ValueType → Prop
  | nil : Code locals [] [] []
  | single {i : Instruction} {before after : List ValueType} (h : Instr locals i before after) :
      Code locals [i] before after
  | append {first second : List Instruction} {before between after : List ValueType}
      (h : Code locals first before between) (h' : Code locals second between after) :
      Code locals (first ++ second) before after
  | frame {code : List Instruction} {before after : List ValueType} (below : List ValueType)
      (h : Code locals code before after) : Code locals code (before ++ below) (after ++ below)

/-- `Body locals body result`: a complete sequence leaves `result` on a stack of its own. -/
inductive Body (locals : List ValueType) : List Instruction → Option ValueType → Prop
  | intro {code : List Instruction} {result : Option ValueType}
      (h : Code locals code [] result.toList) : Body locals (code ++ [.endSeq]) result

end

end StackTyping

/-- A function that fits a signature: there are enough locals for its parameters, they are the
signature's, the signature has one result or none, and the body leaves that result. -/
structure Func.Fits (f : Func) (signature : Signature) : Prop where
  paramCount_le : f.paramCount ≤ f.locals.size
  params_eq : f.locals.toList.take f.paramCount = signature.params
  body : ∃ result : Option ValueType, signature.results = result.toList ∧
    StackTyping.Body f.locals.toList f.body result

/-- A function that fits the signature it refers to. -/
def Func.WellTyped (f : Func) (types : SignatureTable) : Prop :=
  ∃ signature, types.get? f.typeIndex = some signature ∧ f.Fits signature

namespace StackTyping

variable {locals : List ValueType}

/-! ## Derived rules -/

/-- There is no rule for the end of a sequence. -/
theorem Instr.ne_endSeq {i : Instruction} {before after : List ValueType}
    (h : Instr locals i before after) : i ≠ .endSeq := by
  rintro rfl
  cases h

/-- The empty sequence leaves any stack as it is. -/
theorem Code.rfl (stack : List ValueType) : Code locals [] stack stack :=
  Code.nil.frame stack

/-- An instruction in front of a sequence, on any stack. -/
theorem Code.cons {i : Instruction} {code : List Instruction}
    {before after below final : List ValueType} (h : Code locals code (after ++ below) final)
    (hi : Instr locals i before after) : Code locals (i :: code) (before ++ below) final :=
  ((Code.single hi).frame below).append h

end StackTyping

/-! ## Completeness: typed code passes -/

namespace Func

variable {f : Func} {expected : Option ValueType} {position : Nat}

/-- Every instruction is checked on its own, except an `endSeq` that nothing follows. -/
theorem checkSequence_cons (stack : List ValueType) {i : Instruction} {rest : List Instruction}
    (h : i ≠ .endSeq ∨ rest ≠ []) :
    checkSequence f expected position stack (i :: rest) =
      checkInstruction f position stack i >>= fun stack =>
        checkSequence f expected (position + 1) stack rest := by
  cases i with
  | endSeq =>
    cases rest with
    | nil => simp at h
    | cons j rest => rfl
  | _ => rfl

/-- A local that has a type passes the check of its slot. -/
theorem slotType_eq_ok_iff {slot : Nat} {type : ValueType} :
    f.slotType slot = .ok type ↔ f.locals.toList[slot]? = some type := by
  rw [Array.getElem?_toList]
  unfold slotType
  cases f.locals[slot]? <;> simp

/-- The end of a sequence passes exactly on the expected stack. -/
theorem checkEnd_eq_ok_iff {stack : List ValueType} :
    checkEnd expected stack = .ok () ↔ stack = expected.toList := by
  cases expected with
  | none => cases stack <;> simp [checkEnd]
  | some want =>
    rcases stack with _ | ⟨found, _ | ⟨second, rest⟩⟩
    · simp [checkEnd]
    · by_cases h : found = want <;> simp [checkEnd, h]
    · simp [checkEnd]

mutual

/-- A typed instruction passes on its operands, whatever is below them. -/
theorem checkInstruction_append {i : Instruction} {before after : List ValueType}
    (below : List ValueType) (position : Nat) :
    StackTyping.Instr f.locals.toList i before after →
      checkInstruction f position (before ++ below) i = .ok (after ++ below)
  | .const _ => rfl
  | .localGet h => by
    rw [checkInstruction, slotType_eq_ok_iff.2 h]
    rfl
  | .localSet h => by
    rw [checkInstruction, slotType_eq_ok_iff.2 h]
    exact if_pos rfl
  | .arith _ => rfl
  | .drop _ => rfl
  | .block h => by
    rw [checkInstruction, checkSequence_of_body 0 h]
    rfl

/-- A typed sequence takes the check of what follows it from stack to stack. -/
theorem checkSequence_append {code : List Instruction} {before after : List ValueType}
    (below : List ValueType) (expected : Option ValueType) (position : Nat)
    (rest : List Instruction) :
    StackTyping.Code f.locals.toList code before after →
      checkSequence f expected position (before ++ below) (code ++ rest) =
        checkSequence f expected (position + code.length) (after ++ below) rest
  | .nil => rfl
  | .single h => by
    rw [List.singleton_append, checkSequence_cons _ (.inl h.ne_endSeq),
      checkInstruction_append below _ h]
    rfl
  | .append h h' => by
    rw [List.append_assoc, checkSequence_append below expected position _ h,
      checkSequence_append below expected _ rest h', List.length_append, Nat.add_assoc]
  | .frame inner h => by
    rw [List.append_assoc, List.append_assoc]
    exact checkSequence_append (inner ++ below) expected position rest h

/-- A typed body passes. -/
theorem checkSequence_of_body {body : List Instruction} {result : Option ValueType}
    (position : Nat) :
    StackTyping.Body f.locals.toList body result →
      checkSequence f result position [] body = .ok ()
  | .intro h => by
    have hlast := checkSequence_append [] result position [.endSeq] h
    rw [List.append_nil, List.append_nil] at hlast
    rw [hlast]
    exact checkEnd_eq_ok_iff.2 rfl

end

/-! ## Soundness: what passes is typed -/

/-- The check of a sequence either stops at a last `endSeq`, or goes through the first instruction
and on with the rest. -/
theorem checkSequence_eq_ok {stack : List ValueType} {code : List Instruction}
    (h : checkSequence f expected position stack code = .ok ()) :
    (code = [.endSeq] ∧ stack = expected.toList) ∨
      ∃ i rest next, code = i :: rest ∧ checkInstruction f position stack i = .ok next ∧
        checkSequence f expected (position + 1) next rest = .ok () := by
  unfold checkSequence at h
  split at h
  · cases h
  · exact .inl ⟨rfl, checkEnd_eq_ok_iff.1 h⟩
  · rename_i i rest _
    cases hi : checkInstruction f position stack i with
    | error fault => rw [hi] at h; cases h
    | ok next => rw [hi] at h; exact .inr ⟨i, rest, next, rfl, hi, h⟩

mutual

/-- An instruction that passes is typed at the top of the stack it was checked on. -/
theorem instr_of_checkInstruction {position : Nat} {stack next : List ValueType} :
    (i : Instruction) → checkInstruction f position stack i = .ok next →
      ∃ before after below, stack = before ++ below ∧ next = after ++ below ∧
        StackTyping.Instr f.locals.toList i before after
  | .const value, h => by
    cases h
    exact ⟨[], [.i32], stack, rfl, rfl, .const value⟩
  | .localGet slot, h => by
    rw [checkInstruction] at h
    cases hslot : f.slotType slot with
    | error fault => rw [hslot] at h; cases h
    | ok type =>
      rw [hslot] at h
      cases h
      exact ⟨[], [type], stack, rfl, rfl, .localGet (slotType_eq_ok_iff.1 hslot)⟩
  | .localSet slot, h => by
    rw [checkInstruction] at h
    cases hslot : f.slotType slot with
    | error fault => rw [hslot] at h; cases h
    | ok type =>
      rw [hslot] at h
      cases stack with
      | nil => cases h
      | cons found below =>
        by_cases hfound : found = type
        · subst hfound
          have hnext : next = below := by simpa [bind, Except.bind] using h.symm
          exact ⟨[found], [], below, rfl, hnext, .localSet (slotType_eq_ok_iff.1 hslot)⟩
        · simp [bind, Except.bind, hfound] at h
  | .arith op, h => by
    rcases stack with _ | ⟨right, _ | ⟨left, below⟩⟩
    · cases h
    · cases h
    · by_cases hnumeric : left = .numeric ∧ right = .numeric
      · obtain ⟨rfl, rfl⟩ := hnumeric
        have hnext : next = .numeric :: below := (Except.ok.inj h).symm
        exact ⟨[.i32, .i32], [.i32], below, rfl, hnext, .arith op⟩
      · rw [checkInstruction, if_neg hnumeric] at h
        cases h
  | .drop, h => by
    cases stack with
    | nil => cases h
    | cons type below =>
      have hnext : next = below := (Except.ok.inj h).symm
      exact ⟨[type], [], below, rfl, hnext, .drop type⟩
  | .block result body, h => by
    rw [checkInstruction] at h
    cases hbody : checkSequence f result 0 [] body with
    | error fault => rw [hbody] at h; cases h
    | ok =>
      rw [hbody] at h
      cases h
      obtain ⟨code, rfl, hcode⟩ := code_of_checkSequence body hbody
      exact ⟨[], result.toList, stack, rfl, rfl, .block (.intro hcode)⟩
  | .endSeq, h => by cases h

/-- A sequence that passes is typed up to its last instruction, which is an `endSeq`. -/
theorem code_of_checkSequence {expected : Option ValueType} {position : Nat}
    {stack : List ValueType} :
    (body : List Instruction) → checkSequence f expected position stack body = .ok () →
      ∃ code, body = code ++ [.endSeq] ∧
        StackTyping.Code f.locals.toList code stack expected.toList
  | [], h => by cases h
  | i :: rest, h => by
    obtain ⟨hend, rfl⟩ | ⟨_, _, next, hcons, hi, hrest⟩ := checkSequence_eq_ok h
    · exact ⟨[], hend, .rfl _⟩
    · obtain ⟨rfl, rfl⟩ := List.cons.inj hcons
      obtain ⟨code, rfl, hcode⟩ := code_of_checkSequence rest hrest
      obtain ⟨before, after, below, rfl, rfl, hinstr⟩ := instr_of_checkInstruction i hi
      exact ⟨i :: code, rfl, hcode.cons hinstr⟩

end

/-! ## Agreement -/

/-- The check of a body on the empty stack decides its typing. -/
theorem checkSequence_eq_ok_iff {body : List Instruction} :
    checkSequence f expected 0 [] body = .ok () ↔
      StackTyping.Body f.locals.toList body expected := by
  constructor
  · intro h
    obtain ⟨code, rfl, hcode⟩ := code_of_checkSequence body h
    exact .intro hcode
  · exact checkSequence_of_body 0

theorem paramLocals?_eq_some_iff {params : List ValueType} :
    f.paramLocals? = some params ↔
      f.paramCount ≤ f.locals.size ∧ f.locals.toList.take f.paramCount = params := by
  unfold paramLocals?
  by_cases h : f.paramCount ≤ f.locals.size <;> simp [h]

/-- With a signature at hand, the check of a function decides whether it fits. -/
theorem check_eq_ok_iff_fits {types : SignatureTable} {signature : Signature}
    (h : types.get? f.typeIndex = some signature) :
    f.check types = .ok () ↔ f.Fits signature := by
  have hfits : f.Fits signature ↔ f.paramLocals? = some signature.params ∧
      ∃ result : Option ValueType, signature.results = result.toList ∧
        checkSequence f result 0 [] f.body = .ok () := by
    simp only [paramLocals?_eq_some_iff, checkSequence_eq_ok_iff]
    exact ⟨fun h => ⟨⟨h.1, h.2⟩, h.3⟩, fun h => ⟨h.1.1, h.1.2, h.2⟩⟩
  rw [hfits]
  unfold check
  simp only [h]
  by_cases hparams : f.paramLocals? = some signature.params
  · rw [if_pos hparams]
    rcases hresults : signature.results with _ | ⟨result, _ | ⟨second, rest⟩⟩
    · -- no result: the body has to leave nothing
      refine ⟨fun h => ⟨hparams, none, rfl, h⟩, ?_⟩
      rintro ⟨-, result, hresult, h⟩
      cases result with
      | none => exact h
      | some type => cases hresult
    · refine ⟨fun h => ⟨hparams, some result, rfl, h⟩, ?_⟩
      rintro ⟨-, result', hresult, h⟩
      cases result' with
      | none => cases hresult
      | some type => cases hresult; exact h
    · -- several results: refused, and no option lists them
      constructor
      · intro h
        cases h
      · rintro ⟨-, result', hresult, -⟩
        cases result' <;> cases hresult
  · rw [if_neg hparams]
    constructor
    · intro h
      cases h
    · exact fun h => absurd h.1 hparams

/-- The check of a function decides its typing. -/
theorem check_eq_ok_iff {types : SignatureTable} :
    f.check types = .ok () ↔ f.WellTyped types := by
  cases h : types.get? f.typeIndex with
  | none =>
    constructor
    · intro hcheck
      rw [check, h] at hcheck
      cases hcheck
    · rintro ⟨signature, hsignature, -⟩
      rw [h] at hsignature
      cases hsignature
  | some signature =>
    rw [check_eq_ok_iff_fits h]
    constructor
    · exact fun hfits => ⟨signature, h, hfits⟩
    · rintro ⟨signature', hsignature', hfits⟩
      rw [h] at hsignature'
      cases hsignature'
      exact hfits

end Func

namespace Module

/-- A module has a report if every function passes its check. -/
theorem exists_report_iff {m : Module} :
    (∃ report, m.validate = .ok report) ↔ ∀ f ∈ m.functions, f.check m.types = .ok () := by
  rw [validate, Fallible.exists_bind_pure_iff, Fallible.exists_mapM_eq_ok_iff]
  simp only [Array.mem_toList_iff]
  refine forall₂_congr fun f _ => ?_
  cases f.check m.types with
  | error fault => simp
  | ok => simp

/-- A function of a module that has a report fits its signature. -/
theorem wellTyped_of_validate {m : Module} {report : Report} (h : m.validate = .ok report)
    {f : Func} (hf : f ∈ m.functions) : f.WellTyped m.types :=
  Func.check_eq_ok_iff.1 (exists_report_iff.1 ⟨report, h⟩ f hf)

/-- **The validator decides the type system.**  A module passes exactly when each of its functions
fits the signature it refers to, with a body typed from the empty stack to the result. -/
theorem validate_iff_wellTyped (m : Module) :
    (∃ report, m.validate = .ok report) ↔ ∀ f ∈ m.functions, f.WellTyped m.types := by
  rw [exists_report_iff]
  exact forall₂_congr fun f _ => Func.check_eq_ok_iff

end Module

end WasmCodegen
