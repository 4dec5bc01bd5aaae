import WasmCodegen.Proofs.StackTyping

/-!
# The first fault

The validator stops at the first thing that is wrong and says what it is.  This file says what "the
first thing" is without running the validator (`Func.FirstFault`), and proves that a module is
refused with an error exactly if the error is about the first function that is not valid and
describes its first fault (`Module.validate_eq_error_iff`).

## The rules

Before the body is looked at, the type index, the parameters and the number of results can be at
fault, in this order.  A body is at fault at an instruction that everything before it in its
sequence leads up to.  "Leads up to" is the typing of `StackTyping.Code`, from the empty stack to
the stack that the instruction finds.  On that stack the instruction cannot be run
(`StackTyping.Offends`), or it is an end that has no business there, or there is no instruction left
where an end should be.  If the instruction is a block, the fault is one of the block's own
sequence, whose stack is empty at first; so faults are ordered as a reader meets them who goes into
each block on the way.

One instruction may be wrong in several ways.  The rules are exclusive: an operand that is missing
counts only if the slot exists, and a wrong type only if the operands are there.

## Agreement

That the rules describe what the checks do is shown in both directions.  What the rules say is found
because typed code takes the check up to the faulty instruction (`Func.checkSequence_append`).
Conversely the check of a sequence, taken up after some typed code, goes on through instructions
that pass, which extend the typed code, to one that does not.
-/

namespace WasmCodegen

namespace Instruction

/-- The number of operands that an instruction takes off the stack. -/
def operands : Instruction → Nat
  | .localSet _ => 1
  | .arith _ => 2
  | .drop => 1
  | _ => 0

/-- The local that an instruction refers to. -/
def slot? : Instruction → Option Nat
  | .localGet slot => some slot
  | .localSet slot => some slot
  | _ => none

end Instruction

/-! ## Wrong types -/

namespace Fault

/-- A value is stored in a local of another type. -/
def wrongStore (slot : Nat) (type found : ValueType) : Fault :=
  .typeMismatch s!"local.set {slot} expects {type.name}, found {found.name}"

/-- Arithmetic has an operand that is not a number of its type. -/
def wrongOperands (op : ArithOp) (left right : ValueType) : Fault :=
  .typeMismatch <|
    s!"{op.mnemonic} expects {ValueType.numeric.name} operands, " ++
      s!"found {left.name} and {right.name}"

/-- A sequence leaves a value of another type than it should. -/
def wrongResult (want found : ValueType) : Fault :=
  .typeMismatch s!"result expects {want.name}, found {found.name}"

/-- The locals do not begin with the parameters of the signature. -/
def wrongParams (found : List ValueType) (signature : Signature) : Fault :=
  .typeMismatch <|
    s!"parameter locals {ValueType.labels found} " ++ s!"do not match type {signature.text}"

/-- A signature has more than one result. -/
def severalResults (signature : Signature) : Fault :=
  .typeMismatch s!"multiple results are not supported ({signature.text})"

end Fault

/-! ## The rules -/

namespace StackTyping

mutual

/-- `Offends locals stack position i fault`: the instruction, which stands at this position of its
sequence and finds this stack, cannot be run, and `fault` says why. -/
inductive Offends (locals : List ValueType) :
    List ValueType → Nat → Instruction → Fault → Prop
  | slot {stack : List ValueType} {position : Nat} {i : Instruction} {slot : Nat}
      (hslot : i.slot? = some slot) (hle : locals.length ≤ slot) :
      Offends locals stack position i (.invalidLocalIndex slot locals.length)
  | underflow {stack : List ValueType} {position : Nat} {i : Instruction}
      (hslot : ∀ slot ∈ i.slot?, slot < locals.length) (hlt : stack.length < i.operands) :
      Offends locals stack position i (.stackUnderflow position)
  | stored {stack : List ValueType} {position slot : Nat} {type found : ValueType}
      (htype : locals[slot]? = some type) (hne : found ≠ type) :
      Offends locals (found :: stack) position (.localSet slot) (.wrongStore slot type found)
  | operands {stack : List ValueType} {position : Nat} {op : ArithOp} {left right : ValueType}
      (hne : ¬ (left = .i32 ∧ right = .i32)) :
      Offends locals (right :: left :: stack) position (.arith op) (.wrongOperands op left right)
  | inside {stack : List ValueType} {position : Nat} {result : Option ValueType}
      {body : List Instruction} {fault : Fault} (h : BodyFault locals result body fault) :
      Offends locals stack position (.block result body) fault

/-- `BodyFault locals expected body fault`: a sequence that starts on an empty stack and should
leave `expected` has this fault, and nothing before it is wrong. -/
inductive BodyFault (locals : List ValueType) :
    Option ValueType → List Instruction → Fault → Prop
  | instruction {expected : Option ValueType} {before rest : List Instruction}
      {stack : List ValueType} {i : Instruction} {fault : Fault}
      (hbefore : Code locals before [] stack) (hi : Offends locals stack before.length i fault) :
      BodyFault locals expected (before ++ i :: rest) fault
  | earlyEnd {expected : Option ValueType} {before rest : List Instruction}
      {stack : List ValueType} (hbefore : Code locals before [] stack) (hrest : rest ≠ []) :
      BodyFault locals expected (before ++ .endSeq :: rest) (.misplacedEnd before.length)
  | noEnd {expected : Option ValueType} {body : List Instruction} {stack : List ValueType}
      (hbody : Code locals body [] stack) :
      BodyFault locals expected body (.misplacedEnd body.length)
  | unbalanced {expected : Option ValueType} {before : List Instruction} {stack : List ValueType}
      (hbefore : Code locals before [] stack) (hne : stack.length ≠ expected.toList.length) :
      BodyFault locals expected (before ++ [.endSeq])
        (.unbalancedResult expected.toList.length stack.length)
  | result {before : List Instruction} {want found : ValueType}
      (hbefore : Code locals before [] [found]) (hne : found ≠ want) :
      BodyFault locals (some want) (before ++ [.endSeq]) (.wrongResult want found)

end

/-- The end of a sequence needs nothing, so it is never an instruction that cannot be run. -/
theorem Offends.ne_endSeq {locals stack : List ValueType} {position : Nat} {i : Instruction}
    {fault : Fault} (h : Offends locals stack position i fault) : i ≠ .endSeq := by
  rintro rfl
  cases h with
  | slot hslot _ => cases hslot
  | underflow _ hlt => cases hlt

mutual

theorem Offends.ne_invalidTypeIndex {locals stack : List ValueType} {position : Nat}
    {i : Instruction} {fault : Fault} {index count : Nat} :
    Offends locals stack position i fault → fault ≠ .invalidTypeIndex index count
  | .slot _ _ => Fault.noConfusion
  | .underflow _ _ => Fault.noConfusion
  | .stored _ _ => Fault.noConfusion
  | .operands _ => Fault.noConfusion
  | .inside h => h.ne_invalidTypeIndex

/-- No fault of a body is about the type index. -/
theorem BodyFault.ne_invalidTypeIndex {locals : List ValueType} {expected : Option ValueType}
    {body : List Instruction} {fault : Fault} {index count : Nat} :
    BodyFault locals expected body fault → fault ≠ .invalidTypeIndex index count
  | .instruction _ hi => hi.ne_invalidTypeIndex
  | .earlyEnd _ _ => Fault.noConfusion
  | .noEnd _ => Fault.noConfusion
  | .unbalanced _ _ => Fault.noConfusion
  | .result _ _ => Fault.noConfusion

end

end StackTyping

/-- `f.FirstFault types fault`: this is what is wrong with a function, given the signatures of its
module, and nothing is wrong before. -/
inductive Func.FirstFault (f : Func) (types : SignatureTable) : Fault → Prop
  | typeIndex (h : types.size ≤ f.typeIndex) :
      FirstFault f types (.invalidTypeIndex f.typeIndex types.size)
  | params {s : Signature} (hs : types.get? f.typeIndex = some s)
      (hne : ¬ (f.paramCount ≤ f.locals.size ∧ f.locals.toList.take f.paramCount = s.params)) :
      FirstFault f types (.wrongParams (f.paramLocals?.getD []) s)
  | results {s : Signature} (hs : types.get? f.typeIndex = some s)
      (hle : f.paramCount ≤ f.locals.size) (hparams : f.locals.toList.take f.paramCount = s.params)
      (hresults : 2 ≤ s.results.length) :
      FirstFault f types (.severalResults s)
  | body {s : Signature} {result : Option ValueType} {fault : Fault}
      (hs : types.get? f.typeIndex = some s) (hle : f.paramCount ≤ f.locals.size)
      (hparams : f.locals.toList.take f.paramCount = s.params)
      (hresult : s.results = result.toList)
      (hbody : StackTyping.BodyFault f.locals.toList result f.body fault) :
      FirstFault f types fault

namespace Func

variable {f : Func} {expected : Option ValueType} {fault : Fault}

/-! ## Checks that fail -/

theorem slotType_eq_error_iff {slot : Nat} :
    f.slotType slot = .error fault ↔
      f.locals.toList.length ≤ slot ∧ fault = .invalidLocalIndex slot f.locals.toList.length := by
  rw [Array.length_toList, slotType]
  by_cases hle : f.locals.size ≤ slot
  · simp [hle, eq_comm]
  · simp [hle, Nat.lt_of_not_le hle]

/-- The end of a sequence fails on a stack of another height, and else on a result of another
type. -/
theorem checkEnd_eq_error_iff {stack : List ValueType} :
    checkEnd expected stack = .error fault ↔
      (stack.length ≠ expected.toList.length ∧
        fault = .unbalancedResult expected.toList.length stack.length) ∨
      ∃ want found, expected = some want ∧ stack = [found] ∧ found ≠ want ∧
        fault = .wrongResult want found := by
  cases expected with
  | none => cases stack <;> simp [checkEnd, eq_comm]
  | some want =>
    rcases stack with _ | ⟨found, _ | ⟨second, rest⟩⟩
    · simp [checkEnd, eq_comm]
    · by_cases h : found = want <;> simp [checkEnd, h, Fault.wrongResult, eq_comm]
    · simp [checkEnd, eq_comm]

/-! ## What the rules say is found -/

section

open StackTyping

theorem slotType_eq_ok_of_lt {slot : Nat} (h : slot < f.locals.toList.length) :
    ∃ type, f.slotType slot = .ok type :=
  ⟨_, slotType_eq_ok_iff.2 (List.getElem?_eq_getElem h)⟩

/-- A typed sequence takes the check of what follows from the empty stack to its own. -/
theorem checkSequence_code_append {before : List Instruction} {stack : List ValueType}
    (h : Code f.locals.toList before [] stack) (expected : Option ValueType)
    (rest : List Instruction) :
    checkSequence f expected 0 [] (before ++ rest) =
      checkSequence f expected before.length stack rest := by
  have happend := checkSequence_append [] expected 0 rest h
  rwa [List.append_nil, List.append_nil, Nat.zero_add] at happend

/-- Where the slot exists and operands are missing, an instruction fails for them. -/
theorem checkInstruction_underflow {stack : List ValueType} {i : Instruction} (position : Nat)
    (hslot : ∀ slot ∈ i.slot?, slot < f.locals.toList.length) (hlt : stack.length < i.operands) :
    checkInstruction f position stack i = .error (.stackUnderflow position) := by
  cases i with
  | localSet slot =>
    obtain ⟨type, htype⟩ := slotType_eq_ok_of_lt (hslot slot rfl)
    obtain rfl : stack = [] := List.length_eq_zero_iff.1 (Nat.lt_one_iff.1 hlt)
    rw [checkInstruction, htype]
    rfl
  | arith op =>
    rcases stack with _ | ⟨right, _ | ⟨left, below⟩⟩
    · rfl
    · rfl
    · simp only [Instruction.operands, List.length_cons] at hlt
      omega
  | drop =>
    obtain rfl : stack = [] := List.length_eq_zero_iff.1 (Nat.lt_one_iff.1 hlt)
    rfl
  | const _ | localGet _ | block _ _ | endSeq => cases hlt

mutual

/-- An instruction that offends does not pass. -/
theorem checkInstruction_of_offends {stack : List ValueType} {position : Nat} {i : Instruction}
    {fault : Fault} : Offends f.locals.toList stack position i fault →
      checkInstruction f position stack i = .error fault
  | .slot hslot hle => by
    have hfails := slotType_eq_error_iff.2 ⟨hle, rfl⟩
    cases i with
    | localGet _ | localSet _ =>
      cases hslot
      rw [checkInstruction, hfails]
      rfl
    | _ => cases hslot
  | .underflow hslot hlt => checkInstruction_underflow position hslot hlt
  | .stored htype hne => by
    rw [checkInstruction, slotType_eq_ok_iff.2 htype]
    exact if_neg hne
  | .operands hne => if_neg hne
  | .inside h => by
    rw [checkInstruction, checkSequence_of_bodyFault h]
    rfl

/-- A sequence with a fault is refused for it. -/
theorem checkSequence_of_bodyFault {expected : Option ValueType} {body : List Instruction}
    {fault : Fault} : BodyFault f.locals.toList expected body fault →
      checkSequence f expected 0 [] body = .error fault
  | .instruction hbefore hi => by
    rw [checkSequence_code_append hbefore, checkSequence_cons _ (.inl hi.ne_endSeq),
      checkInstruction_of_offends hi]
    rfl
  | .earlyEnd hbefore hrest => by
    rw [checkSequence_code_append hbefore, checkSequence_cons _ (.inr hrest)]
    rfl
  | .noEnd hbody => by
    have hend := checkSequence_code_append hbody expected []
    rw [List.append_nil] at hend
    exact hend
  | .unbalanced hbefore hne => by
    rw [checkSequence_code_append hbefore]
    exact checkEnd_eq_error_iff.2 (.inl ⟨hne, rfl⟩)
  | .result hbefore hne => by
    rw [checkSequence_code_append hbefore]
    exact checkEnd_eq_error_iff.2 (.inr ⟨_, _, rfl, rfl, hne, rfl⟩)

end

/-! ## What is found, the rules say -/

mutual

/-- An instruction that does not pass offends. -/
theorem offends_of_checkInstruction {stack : List ValueType} {position : Nat} {fault : Fault} :
    (i : Instruction) → i ≠ .endSeq → checkInstruction f position stack i = .error fault →
      Offends f.locals.toList stack position i fault
  | .const _, _, h => by cases h
  | .localGet slot, _, h => by
    rw [checkInstruction] at h
    rcases Fallible.bind_eq_error_iff.1 h with hslot | ⟨type, -, h⟩
    · obtain ⟨hle, rfl⟩ := slotType_eq_error_iff.1 hslot
      exact .slot rfl hle
    · cases h
  | .localSet slot, _, h => by
    rw [checkInstruction] at h
    rcases Fallible.bind_eq_error_iff.1 h with hslot | ⟨type, hslot, h⟩
    · obtain ⟨hle, rfl⟩ := slotType_eq_error_iff.1 hslot
      exact .slot rfl hle
    · have htype := slotType_eq_ok_iff.1 hslot
      cases stack with
      | nil =>
        cases h
        refine .underflow ?_ Nat.one_pos
        intro other hother
        cases hother
        exact (List.getElem?_eq_some_iff.1 htype).1
      | cons found below =>
        by_cases hfound : found = type
        · simp [hfound] at h
        · simp only [if_neg hfound] at h
          cases h
          exact .stored htype hfound
  | .arith op, _, h => by
    rcases stack with _ | ⟨right, _ | ⟨left, below⟩⟩
    · cases h
      exact .underflow nofun Nat.two_pos
    · cases h
      exact .underflow nofun Nat.one_lt_two
    · by_cases hnumeric : left = .numeric ∧ right = .numeric
      · rw [checkInstruction, if_pos hnumeric] at h
        cases h
      · rw [checkInstruction, if_neg hnumeric] at h
        cases h
        exact .operands hnumeric
  | .drop, _, h => by
    cases stack with
    | nil =>
      cases h
      exact .underflow nofun Nat.one_pos
    | cons type below => cases h
  | .block result body, _, h => by
    rw [checkInstruction] at h
    rcases Fallible.bind_eq_error_iff.1 h with hbody | ⟨_, -, h⟩
    · exact .inside (bodyFault_of_checkSequence [] body .nil hbody)
    · cases h
  | .endSeq, hne, _ => absurd rfl hne

/-- Where the check of a sequence, taken up after typed code, does not pass, the sequence has the
fault that was found. -/
theorem bodyFault_of_checkSequence {expected : Option ValueType} {stack : List ValueType}
    {fault : Fault} (before : List Instruction) :
    (code : List Instruction) → Code f.locals.toList before [] stack →
      checkSequence f expected before.length stack code = .error fault →
      BodyFault f.locals.toList expected (before ++ code) fault
  | [], hbefore, h => by
    cases h
    rw [List.append_nil]
    exact .noEnd hbefore
  | i :: rest, hbefore, h => by
    by_cases hend : i = .endSeq
    · subst hend
      cases rest with
      | nil =>
        rcases checkEnd_eq_error_iff.1 h with ⟨hne, rfl⟩ | ⟨want, found, rfl, rfl, hne, rfl⟩
        · exact .unbalanced hbefore hne
        · exact .result hbefore hne
      | cons next rest =>
        cases h
        exact .earlyEnd hbefore (List.cons_ne_nil next rest)
    · rw [checkSequence_cons _ (.inl hend)] at h
      rcases Fallible.bind_eq_error_iff.1 h with hi | ⟨after, hi, hrest⟩
      · exact .instruction hbefore (offends_of_checkInstruction i hend hi)
      · -- the instruction passes, so it belongs to the typed code before the fault
        obtain ⟨operands, results, below, rfl, rfl, hinstr⟩ := instr_of_checkInstruction i hi
        have hlonger := hbefore.append ((Code.single hinstr).frame below)
        rw [← List.length_singleton (a := i), ← List.length_append] at hrest
        have hfault := bodyFault_of_checkSequence (before ++ [i]) rest hlonger hrest
        rwa [List.append_assoc] at hfault

end

end

/-! ## Functions and modules -/

/-- With the signature, its parameters and at most one result in order, the check of a function is
the check of its body. -/
theorem check_eq_checkSequence {types : SignatureTable} {s : Signature}
    {result : Option ValueType} (hs : types.get? f.typeIndex = some s)
    (hparams : f.paramLocals? = some s.params) (hresult : s.results = result.toList) :
    f.check types = checkSequence f result 0 [] f.body := by
  simp only [check, hs, if_pos hparams, hresult]
  cases result <;> rfl

/-- Where the parameters are in order and there are several results, they are the fault. -/
theorem check_of_results {types : SignatureTable} {s : Signature} {first second : ValueType}
    {rest : List ValueType} (hs : types.get? f.typeIndex = some s)
    (hparams : f.paramLocals? = some s.params) (hresults : s.results = first :: second :: rest) :
    f.check types = .error (.severalResults s) := by
  simp only [check, hs, if_pos hparams, hresults]
  rfl

theorem firstFault_of_check {types : SignatureTable} (h : f.check types = .error fault) :
    f.FirstFault types fault := by
  cases hs : types.get? f.typeIndex with
  | none =>
    rw [check, hs] at h
    cases h
    exact .typeIndex (Array.getElem?_eq_none_iff.1 hs)
  | some s =>
    by_cases hparams : f.paramLocals? = some s.params
    · obtain ⟨hle, htake⟩ := paramLocals?_eq_some_iff.1 hparams
      have hbody (result : Option ValueType) (hresult : s.results = result.toList) :
          f.FirstFault types fault := by
        rw [check_eq_checkSequence hs hparams hresult] at h
        exact .body hs hle htake hresult (bodyFault_of_checkSequence [] f.body .nil h)
      rcases hresults : s.results with _ | ⟨first, _ | ⟨second, rest⟩⟩
      · exact hbody none hresults
      · exact hbody (some first) hresults
      · rw [check_of_results hs hparams hresults] at h
        cases h
        exact .results hs hle htake (by simp [hresults])
    · simp only [check, hs, if_neg hparams] at h
      cases h
      exact .params hs (mt paramLocals?_eq_some_iff.2 hparams)

/-- A function is refused with its first fault. -/
theorem check_eq_error_iff {types : SignatureTable} :
    f.check types = .error fault ↔ f.FirstFault types fault := by
  refine ⟨firstFault_of_check, fun h => ?_⟩
  cases h with
  | typeIndex h => rw [check, SignatureTable.get?, Array.getElem?_eq_none_iff.2 h]
  | params hs hne =>
    simp only [check, hs, if_neg (mt paramLocals?_eq_some_iff.1 hne)]
    rfl
  | @results s hs hle hparams hresults =>
    rcases hlist : s.results with _ | ⟨first, _ | ⟨second, rest⟩⟩
    · simp [hlist] at hresults
    · simp [hlist] at hresults
    · exact check_of_results hs (paramLocals?_eq_some_iff.2 ⟨hle, hparams⟩) hlist
  | body hs hle hparams hresult hbody =>
    rw [check_eq_checkSequence hs (paramLocals?_eq_some_iff.2 ⟨hle, hparams⟩) hresult]
    exact checkSequence_of_bodyFault hbody

/-- The type index is the fault exactly if it is out of range. -/
theorem FirstFault.invalidTypeIndex_iff {types : SignatureTable} (h : f.FirstFault types fault) :
    (∃ index count, fault = .invalidTypeIndex index count) ↔ types.size ≤ f.typeIndex := by
  have hrange {s : Signature} (hs : types.get? f.typeIndex = some s) :
      ¬ types.size ≤ f.typeIndex :=
    Nat.not_le_of_lt (Array.getElem?_eq_some_iff.1 hs).1
  cases h with
  | typeIndex h => exact iff_of_true ⟨_, _, rfl⟩ h
  | params hs _ =>
    refine iff_of_false ?_ (hrange hs)
    rintro ⟨index, count, h⟩
    cases h
  | results hs _ _ _ =>
    refine iff_of_false ?_ (hrange hs)
    rintro ⟨index, count, h⟩
    cases h
  | body hs _ _ _ hbody =>
    refine iff_of_false ?_ (hrange hs)
    rintro ⟨index, count, h⟩
    exact hbody.ne_invalidTypeIndex h

/-- A function with a fault is not typed. -/
theorem FirstFault.not_wellTyped {types : SignatureTable} (h : f.FirstFault types fault) :
    ¬ f.WellTyped types := by
  rw [← check_eq_ok_iff, check_eq_error_iff.2 h]
  exact nofun

end Func

namespace Module

/-- A module is refused with the error of a function that fails its check, if all functions before
pass theirs. -/
theorem validate_eq_error_iff_check {m : Module} {e : ValidationError} :
    m.validate = .error e ↔
      ∃ earlier f later, m.functions.toList = earlier ++ f :: later ∧
        (∀ g ∈ earlier, g.check m.types = .ok ()) ∧
        f.check m.types = .error e.fault ∧ e.function = f.name := by
  rw [validate, Fallible.bind_pure_eq_error_iff, Fallible.mapM_eq_error_iff]
  refine exists_congr fun earlier => exists_congr fun f => exists_congr fun later =>
    and_congr_right fun _ => and_congr (forall₂_congr fun g _ => ?_) ?_
  · cases g.check m.types <;> simp
  · obtain ⟨name, fault⟩ := e
    cases f.check m.types <;> simp [and_comm, eq_comm]

/-- **The validator reports the first fault.**  A module is refused with an error exactly if the
error names the first function that is not typed and describes the first fault of that function; and
this is the type index exactly if the type index is out of range. -/
theorem validate_eq_error_iff (m : Module) (e : ValidationError) :
    m.validate = .error e ↔
      ∃ earlier f later, m.functions.toList = earlier ++ f :: later ∧
        (∀ g ∈ earlier, g.WellTyped m.types) ∧ ¬ f.WellTyped m.types ∧ e.function = f.name ∧
        f.FirstFault m.types e.fault ∧
        ((∃ index count, e.fault = .invalidTypeIndex index count) ↔
          m.types.size ≤ f.typeIndex) := by
  simp only [validate_eq_error_iff_check, Func.check_eq_ok_iff, Func.check_eq_error_iff]
  constructor
  · rintro ⟨earlier, f, later, hfunctions, hearlier, hfault, hname⟩
    exact ⟨earlier, f, later, hfunctions, hearlier, hfault.not_wellTyped, hname, hfault,
      hfault.invalidTypeIndex_iff⟩
  · rintro ⟨earlier, f, later, hfunctions, hearlier, -, hname, hfault, -⟩
    exact ⟨earlier, f, later, hfunctions, hearlier, hfault, hname⟩

end Module

end WasmCodegen
