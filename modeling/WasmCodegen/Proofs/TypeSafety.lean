import Mathlib.Logic.Relation
import WasmCodegen.Proofs.Machine
import WasmCodegen.Proofs.StackTyping

/-!
# Validated code never goes wrong

The validator looks at each block on a stack of types of its own, while the machine has one stack
for all of them.  A state of the machine is *typed* (`Machine.Typed`) if the two views fit at this
very moment: the operands above the floor have the types that the check of the code ahead starts
from, and each open block has, under its own operands, those of the sequence around it, with the
code after the block checked from there on (`Machine.Returns`).

A typed state has three ways to go (`Machine.Typed.step`): to another typed state, to the end of
the run with the declared result, or into a trap at a division that has no quotient.  A run starts
typed if the function is valid and the arguments have the types of its parameters, so nothing else
can happen along it (`Module.run_validated`).
-/

namespace WasmCodegen

namespace Machine

/-! ## Runs step by step -/

/-- One step leads from the first state to the second. -/
def Steps (m m' : Machine) : Prop := m.step = .ok (.go m')

/-- The second state comes up in a run from the first. -/
def Reaches : Machine → Machine → Prop := Relation.ReflTransGen Steps

/-- The next instruction divides two words that have no quotient: the divisor is `0`, or the
quotient would be `2 ^ 31`. -/
def LacksQuotient (m : Machine) : Prop :=
  ∃ a b below rest, m.code = .arith .divS :: rest ∧ m.stack = .i32 b :: .i32 a :: below ∧
    (b = 0 ∨ a = Int32.minValue ∧ b = -1)

/-! ## Typed states -/

/-- `Returns f result labels expected below`: the sequence at hand may end with `expected` above
the operands `below`.  The code after each open block then passes the check, on the operands that
it finds, and the function itself ends with `result`. -/
inductive Returns (f : Func) (result : Option ValueType) :
    List Label → Option ValueType → List Value → Prop
  | done : Returns f result [] result []
  | block {label : Label} {labels : List Label} {own below : List Value}
      {expected : Option ValueType} {position : Nat} (hfloor : label.floor = below.length)
      (hcode : f.checkSequence expected position (label.result.toList ++ own.map Value.type)
        label.code = .ok ())
      (hlabels : Returns f result labels expected below) :
      Returns f result (label :: labels) label.result (own ++ below)

/-- A state of a run of `f` in which every value has the type that the validator gave it. -/
inductive Typed (f : Func) (result : Option ValueType) : Machine → Prop
  | intro {locals : List Value} {code : List Instruction} {labels : List Label}
      {expected : Option ValueType} {position : Nat} (own below : List Value)
      (hlocals : locals.map Value.type = f.locals.toList)
      (hcode : f.checkSequence expected position (own.map Value.type) code = .ok ())
      (hlabels : Returns f result labels expected below) :
      Typed f result ⟨locals, own ++ below, code, below.length, labels⟩

theorem Typed.locals_eq {f : Func} {result : Option ValueType} {m : Machine}
    (h : Typed f result m) : m.locals.map Value.type = f.locals.toList := by
  obtain ⟨-, -, hlocals, -, -⟩ := h
  exact hlocals

/-! ## One step -/

section

variable {f : Func} {result expected : Option ValueType} {locals own below : List Value}
  {rest : List Instruction} {labels : List Label} {position : Nat}

/-- A typed instruction runs on its operands and leaves a typed state, unless it divides two words
that have no quotient. -/
theorem exec_typed {i : Instruction} {before after types : List ValueType}
    (hi : StackTyping.Instr f.locals.toList i before after)
    (hlocals : locals.map Value.type = f.locals.toList)
    (hown : own.map Value.type = before ++ types)
    (hrest : f.checkSequence expected position (after ++ types) rest = .ok ())
    (hlabels : Returns f result labels expected below) :
    (∃ m, exec ⟨locals, own ++ below, rest, below.length, labels⟩ i = .ok m ∧ Typed f result m) ∨
      exec ⟨locals, own ++ below, rest, below.length, labels⟩ i = .error .trap ∧
        LacksQuotient ⟨locals, own ++ below, i :: rest, below.length, labels⟩ := by
  have hfloor : ∀ operands : List Value, below.length ≤ (operands ++ below).length := by
    intro operands
    rw [List.length_append]
    omega
  cases hi with
  | const value =>
    rw [List.nil_append] at hown
    subst hown
    exact .inl ⟨_, rfl, .intro (.i32 value :: own) below hlocals hrest hlabels⟩
  | localGet hslot =>
    obtain ⟨v, hv, rfl⟩ := Value.exists_getElem? hlocals hslot
    rw [List.nil_append] at hown
    subst hown
    exact .inl ⟨_, exec_localGet hv, .intro (v :: own) below hlocals hrest hlabels⟩
  | localSet hslot =>
    obtain ⟨v, own, rfl, rfl, rfl⟩ := List.map_eq_cons_iff.1 hown
    obtain ⟨old, hold, htype⟩ := Value.exists_getElem? hlocals hslot
    have hset := (Value.map_type_set hold htype.symm).trans hlocals
    exact .inl ⟨_, exec_localSet (hfloor own) hold htype.symm,
      .intro own below hset hrest hlabels⟩
  | arith op =>
    obtain ⟨right, operands, rfl, hright, hoperands⟩ := List.map_eq_cons_iff.1 hown
    obtain ⟨left, own, rfl, hleft, rfl⟩ := List.map_eq_cons_iff.1 hoperands
    obtain ⟨b, rfl⟩ := Value.exists_eq_i32 hright
    obtain ⟨a, rfl⟩ := Value.exists_eq_i32 hleft
    rw [List.cons_append, List.cons_append, exec_arith (hfloor own)]
    obtain ⟨c, hc⟩ | ⟨htrap, rfl, hquotient⟩ := op.apply_ok_or_trap a b
    · rw [hc]
      exact .inl ⟨_, rfl, .intro (.i32 c :: own) below hlocals hrest hlabels⟩
    · rw [htrap]
      exact .inr ⟨rfl, a, b, own ++ below, rest, rfl, rfl, hquotient⟩
  | drop type =>
    obtain ⟨v, own, rfl, -, rfl⟩ := List.map_eq_cons_iff.1 hown
    exact .inl ⟨_, exec_drop (hfloor own), .intro own below hlocals hrest hlabels⟩
  | @block inner body hbody =>
    rw [List.nil_append] at hown
    subst hown
    -- the operands so far are what the block has below it
    have hinner : Returns f result (⟨inner, below.length, rest⟩ :: labels) inner (own ++ below) :=
      .block rfl hrest hlabels
    have hcheck := Func.checkSequence_of_body 0 hbody
    exact .inl ⟨_, rfl, .intro [] (own ++ below) hlocals hcheck hinner⟩

/-- The end of a sequence takes a typed state back to the code after the block, or ends the run
with the declared result. -/
theorem close_typed (hlocals : locals.map Value.type = f.locals.toList)
    (hown : own.map Value.type = expected.toList)
    (hlabels : Returns f result labels expected below) :
    (∃ m, close ⟨locals, own ++ below, rest, below.length, labels⟩ = .ok (.go m) ∧
        Typed f result m) ∨
      ∃ stack, close ⟨locals, own ++ below, rest, below.length, labels⟩ = .ok (.finish stack) ∧
        stack.map Value.type = result.toList := by
  cases hlabels with
  | done => exact .inr ⟨own ++ [], rfl, by rw [List.append_nil, hown]⟩
  | @block label labels around below _ _ hfloor hcode hlabels =>
    have hstack : (own ++ around).map Value.type =
        label.result.toList ++ around.map Value.type := by
      rw [List.map_append, hown]
    rw [← hstack] at hcode
    have htyped := Typed.intro (own ++ around) below hlocals hcode hlabels
    rw [List.append_assoc, ← hfloor] at htyped
    exact .inl ⟨_, close_cons hown, htyped⟩

/-- A typed state goes on to a typed state, or ends the run with the declared result, or traps at a
division without quotient. -/
theorem Typed.step {m : Machine} (h : Typed f result m) :
    (∃ m', m.Steps m' ∧ Typed f result m') ∨
      (∃ stack, m.step = .ok (.finish stack) ∧ stack.map Value.type = result.toList) ∨
      m.step = .error .trap ∧ m.LacksQuotient := by
  obtain ⟨own, below, hlocals, hcode, hlabels⟩ := h
  obtain ⟨rfl, hown⟩ | ⟨i, rest, next, rfl, hi, hrest⟩ := Func.checkSequence_eq_ok hcode
  · obtain hgo | hfinish := close_typed hlocals hown hlabels
    · exact .inl hgo
    · exact .inr (.inl hfinish)
  · obtain ⟨before, after, types, hown, rfl, hinstr⟩ := Func.instr_of_checkInstruction i hi
    simp only [Steps, step_cons hinstr.ne_endSeq]
    obtain ⟨m', hexec, htyped⟩ | ⟨hexec, hquotient⟩ :=
      exec_typed hinstr hlocals hown hrest hlabels
    · rw [hexec]
      exact .inl ⟨m', rfl, htyped⟩
    · rw [hexec]
      exact .inr (.inr ⟨rfl, hquotient⟩)

/-! ## Whole runs -/

/-- What holds of a typed state holds all along a run from it. -/
theorem Typed.reaches {m m' : Machine} (h : Typed f result m) (hreaches : m.Reaches m') :
    Typed f result m' := by
  induction hreaches with
  | refl => exact h
  | @tail between next _ hsteps ih =>
    obtain ⟨next', hsteps', htyped⟩ | ⟨stack, hfinish, -⟩ | ⟨htrap, -⟩ := ih.step
    · rw [Steps] at hsteps hsteps'
      rw [hsteps'] at hsteps
      cases hsteps
      exact htyped
    · rw [Steps, hfinish] at hsteps
      cases hsteps
    · rw [Steps, htrap] at hsteps
      cases hsteps

/-- A typed state that stops short does so in a trap, at a division without quotient. -/
theorem Typed.stop {m : Machine} {stop : Stop} (h : Typed f result m)
    (hstop : m.step = .error stop) : stop = .trap ∧ m.LacksQuotient := by
  obtain ⟨m', hsteps, -⟩ | ⟨stack, hfinish, -⟩ | ⟨htrap, hquotient⟩ := h.step
  · rw [Steps, hstop] at hsteps
    cases hsteps
  · rw [hfinish] at hstop
    cases hstop
  · rw [htrap] at hstop
    cases hstop
    exact ⟨rfl, hquotient⟩

theorem run_of_steps {m m' : Machine} (h : m.Steps m') : m.run = m'.run := by
  rw [run_eq_step, h]
  rfl

/-- The run of a typed state comes to its end: with the declared result, or in a trap. -/
theorem Typed.run {m : Machine} (h : Typed f result m) :
    (∃ stack, m.run = .ok stack ∧ stack.map Value.type = result.toList) ∨
      m.run = .error .trap ∧
        ∃ last, m.Reaches last ∧ last.step = .error .trap ∧ last.LacksQuotient := by
  induction hsize : m.size using Nat.strongRecOn generalizing m with
  | ind size ih =>
    obtain ⟨m', hsteps, htyped⟩ | ⟨stack, hfinish, htypes⟩ | ⟨htrap, hquotient⟩ := h.step
    · -- a step uses up an instruction, so the rest of the run is shorter
      have hlt : m'.size < size := by
        have := size_step hsteps
        omega
      rw [run_of_steps hsteps]
      obtain hend | ⟨htrap, last, hreaches, hlast⟩ := ih m'.size hlt htyped rfl
      · exact .inl hend
      · exact .inr ⟨htrap, last, .head hsteps hreaches, hlast⟩
    · rw [run_eq_step, hfinish]
      exact .inl ⟨stack, rfl, htypes⟩
    · rw [run_eq_step, htrap]
      exact .inr ⟨rfl, m, .refl, htrap, hquotient⟩

end

end Machine

/-! ## Valid functions -/

/-- Arguments of the parameter types make up the first locals, and zeros of the declared types the
others. -/
theorem Func.Fits.typed_start {f : Func} {s : Signature} {result : Option ValueType}
    (h : f.Fits s) (hbody : StackTyping.Body f.locals.toList f.body result) {args : List Value}
    (hargs : args.map Value.type = s.params) :
    Machine.Typed f result (.start f.declaredLocals f.body args) := by
  have hlocals : (args ++ f.declaredLocals.map Value.zero).map Value.type = f.locals.toList := by
    have hzero : Value.type ∘ Value.zero = id := funext Value.type_zero
    rw [List.map_append, List.map_map, hzero, List.map_id, hargs, ← h.params_eq,
      Func.declaredLocals, List.take_append_drop]
  exact .intro [] [] hlocals (Func.checkSequence_of_body 0 hbody) .done

/-- **Validated code never goes wrong.**  Take a function of a valid module and arguments of its
parameter types.  In every state that the run comes to, the locals have their types, and the next
step is possible, unless it is a division without quotient, which traps; so no step takes an
operand that is not there for it, refers to a local that does not exist, or stores or uses a value
of a wrong type.  The run ends: either with exactly the declared result on the stack, or in such a
trap. -/
theorem Module.run_validated {m : Module} {report : Report} (h : m.validate = .ok report)
    {f : Func} (hf : f ∈ m.functions) :
    ∃ (s : Signature) (result : Option ValueType),
      m.types.get? f.typeIndex = some s ∧ s.results = result.toList ∧
      ∀ args : List Value, args.map Value.type = s.params →
        let start := Machine.start f.declaredLocals f.body args
        (∀ state, start.Reaches state →
          state.locals.map Value.type = f.locals.toList ∧
          ∀ stop, state.step = .error stop → stop = .trap ∧ state.LacksQuotient) ∧
        ((∃ stack, start.run = .ok stack ∧ stack.map Value.type = result.toList) ∨
          start.run = .error .trap ∧
            ∃ last, start.Reaches last ∧ last.step = .error .trap ∧ last.LacksQuotient) := by
  obtain ⟨s, hs, hfits⟩ := wellTyped_of_validate h hf
  obtain ⟨result, hresults, hbody⟩ := hfits.body
  refine ⟨s, result, hs, hresults, fun args hargs => ?_⟩
  have htyped := hfits.typed_start hbody hargs
  refine ⟨fun state hreaches => ?_, htyped.run⟩
  have hstate := htyped.reaches hreaches
  exact ⟨hstate.locals_eq, fun stop => hstate.stop⟩

/-- The first argument less its quotient by the second, which a block computes. -/
def Func.excess : Func where
  name := "excess"
  typeIndex := 0
  paramCount := 2
  locals := #[.i32, .i32, .i32]
  body := [.localGet 0, .block (some .i32) [.localGet 0, .localGet 1, .arith .divS, .localSet 2,
    .localGet 2, .endSeq], .arith .sub, .endSeq]

/-- A module of that function. -/
def Module.excess : Module where
  types := ⟨#[⟨[.i32, .i32], [.i32]⟩], {}⟩
  functions := #[.excess]

/-- On the divisor `0` the run traps inside the block. -/
theorem Module.run_validated_excess :
    Module.excess.validate = .ok ⟨[⟨"excess", 10, 3⟩]⟩ ∧
      ∃ last, (Machine.start [.i32] Func.excess.body [.i32 7, .i32 0]).Reaches last ∧
        last.step = .error .trap ∧ last.LacksQuotient := by
  have hvalid : Module.excess.validate = .ok ⟨[⟨"excess", 10, 3⟩]⟩ := rfl
  have htrap : (Machine.start [.i32] Func.excess.body [.i32 7, .i32 0]).run = .error .trap :=
    calc
      _ = _ := Machine.run_localGet rfl
      _ = _ := Machine.run_block
      _ = _ := Machine.run_localGet rfl
      _ = _ := Machine.run_localGet rfl
      _ = _ := Machine.run_arith (Nat.le_refl _)
      _ = .error .trap := rfl
  obtain ⟨s, result, hs, -, hruns⟩ := run_validated hvalid (Array.mem_singleton.2 rfl)
  cases hs
  obtain ⟨-, ⟨stack, hend, -⟩ | ⟨-, hlast⟩⟩ := hruns [.i32 7, .i32 0] rfl
  · cases htrap.symm.trans hend
  · exact ⟨hvalid, hlast⟩

end WasmCodegen
