import WasmCodegen.Proofs.TypeSafety

/-!
# The figures of a report are exact

A report says of each function how many instructions it has and how high its operand stack gets.
Both figures are read off the code, block by block, without running it.  This file compares them
with what the machine does (`Module.report_exact`): a run that comes to its end executes as many
instructions as the report says, and the greatest height that its one stack has after an instruction
is the height in the report.  A run that traps stays below both.

The height is also the one that the check of the function comes by, if it keeps the greatest height
so far (`Func.measure_eq_report`).

## The argument

`Machine.history` lists the stacks that a run goes through, one for each instruction.  Every step
uses up one instruction of the code that is left, so the length of the list is the size of the
machine at the start.

For the heights, `Machine.peak` is the height that the machine is still going to reach.  It looks at
the code that is left, and for each open block at the code after the block, which starts from the
floor of the block and its result.  A step replaces it by the peak of the next state, up to the
height at hand (`Machine.Typed.peak_eq`).  This is where types come in: only because a block leaves
its result and nothing else is the height after the block the one that was expected.
-/

namespace WasmCodegen

/-! ## Static heights -/

namespace Instruction

theorem size_pos (i : Instruction) : 0 < i.size := by
  cases i with
  | block result body => rw [size]; omega
  | _ => exact Nat.one_pos

mutual

theorem le_peak (height : Nat) : (i : Instruction) → height ≤ i.peak height
  | .block _ body => by
    rw [peak]
    exact le_peakSeq height body
  | .const _ | .localGet _ | .localSet _ | .arith _ | .drop | .endSeq => by simp [peak]

/-- The height before a sequence counts. -/
theorem le_peakSeq (height : Nat) : (code : List Instruction) → height ≤ peakSeq height code
  | [] => by simp [peakSeq]
  | i :: rest => by
    rw [peakSeq]
    have hfirst := le_peak height i
    omega

end

end Instruction

/-! ## The greatest height found on the way

The height of a report is a function of the code alone.  A checker can as well keep the greatest
height seen so far, and update it after every instruction that passes. -/

namespace Func

mutual

/-- The stack after an instruction, and the greatest height up to then.  There are `base` more
values below the stack, out of reach. -/
def measureInstruction (f : Func) (base position : Nat) (stack : List ValueType) (most : Nat) :
    Instruction → Except Fault (List ValueType × Nat)
  | .block result body => do
    let most ← measureSequence f result (base + stack.length) 0 [] most body
    .ok (result.toList ++ stack, most)
  | i => do
    let stack ← checkInstruction f position stack i
    .ok (stack, most)

/-- Checks a sequence and finds the greatest height up to its end. -/
def measureSequence (f : Func) (expected : Option ValueType) (base position : Nat)
    (stack : List ValueType) (most : Nat) : List Instruction → Except Fault Nat
  | [] => .error (.misplacedEnd position)
  | [.endSeq] => do
    checkEnd expected stack
    .ok most
  | i :: rest => do
    let next ← measureInstruction f base position stack most i
    measureSequence f expected base (position + 1) next.1 (max next.2 (base + next.1.length)) rest

end

variable {f : Func}

/-- An instruction that passes leaves the height that is read off it. -/
theorem heightAfter_of_checkInstruction {position : Nat} {i : Instruction}
    {stack next : List ValueType} (h : checkInstruction f position stack i = .ok next)
    (base : Nat) : base + next.length = i.heightAfter (base + stack.length) := by
  obtain ⟨before, after, below, rfl, rfl, hinstr⟩ := instr_of_checkInstruction i h
  cases hinstr <;> simp [Instruction.heightAfter] <;> omega

theorem measureSequence_cons {expected : Option ValueType} {base position most : Nat}
    (stack : List ValueType) {i : Instruction} {rest : List Instruction}
    (h : i ≠ .endSeq ∨ rest ≠ []) :
    measureSequence f expected base position stack most (i :: rest) =
      measureInstruction f base position stack most i >>= fun next =>
        measureSequence f expected base (position + 1) next.1
          (max next.2 (base + next.1.length)) rest := by
  cases i with
  | endSeq =>
    cases rest with
    | nil => simp at h
    | cons j rest => rfl
  | _ => rfl

mutual

/-- A height that counts already is not raised, except inside a block. -/
theorem measureInstruction_eq {base position : Nat} {stack : List ValueType} {most : Nat}
    (hmost : base + stack.length ≤ most) : (i : Instruction) →
      measureInstruction f base position stack most i =
        (checkInstruction f position stack i).map fun next =>
          (next, max most (i.peak (base + stack.length)))
  | .block result body => by
    -- the stack of the block starts empty, on top of the one outside
    have hinner : base + stack.length + ([] : List ValueType).length ≤ most := hmost
    have hbody : measureSequence f result (base + stack.length) 0 [] most body =
        (checkSequence f result 0 [] body).map fun _ =>
          max most (Instruction.peakSeq (base + stack.length) body) :=
      measureSequence_eq hinner body
    rw [measureInstruction, checkInstruction, Instruction.peak, hbody]
    cases checkSequence f result 0 [] body <;> rfl
  | .const _ | .localGet _ | .localSet _ | .arith _ | .drop | .endSeq => by
    simp only [measureInstruction, Instruction.peak, Nat.max_eq_left hmost]
    cases checkInstruction f position stack _ <;> rfl

/-- The checker that keeps the greatest height faults where the plain one does, and else finds the
height that is read off the code. -/
theorem measureSequence_eq {expected : Option ValueType} {base position : Nat}
    {stack : List ValueType} {most : Nat} (hmost : base + stack.length ≤ most) :
    (code : List Instruction) → measureSequence f expected base position stack most code =
      (checkSequence f expected position stack code).map fun _ =>
        max most (Instruction.peakSeq (base + stack.length) code)
  | [] => rfl
  | i :: rest => by
    by_cases hlast : i ≠ .endSeq ∨ rest ≠ []
    · rw [measureSequence_cons stack hlast, checkSequence_cons stack hlast,
        measureInstruction_eq hmost i]
      cases hi : checkInstruction f position stack i with
      | error fault => rfl
      | ok next =>
        have hheight := heightAfter_of_checkInstruction hi base
        have hle := Instruction.le_peakSeq (base + next.length) rest
        have hmax : max (max (max most (i.peak (base + stack.length))) (base + next.length))
            (Instruction.peakSeq (base + next.length) rest) =
              max most (Instruction.peakSeq (base + stack.length) (i :: rest)) := by
          rw [Instruction.peakSeq, ← hheight]
          omega
        refine (measureSequence_eq (Nat.le_max_right _ _) rest).trans ?_
        rw [hmax]
        rfl
    · obtain ⟨rfl, rfl⟩ : i = .endSeq ∧ rest = [] := by simpa using hlast
      have hpeak : Instruction.peakSeq (base + stack.length) [.endSeq] ≤ most := by
        simpa [Instruction.peakSeq, Instruction.peak, Instruction.heightAfter] using hmost
      rw [measureSequence, checkSequence, Nat.max_eq_left hpeak]
      cases checkEnd expected stack <;> rfl

end

/-- **The height in a report is the greatest one that a check comes by.** -/
theorem measure_eq_report (f : Func) (expected : Option ValueType) :
    measureSequence f expected 0 0 [] 0 f.body =
      (checkSequence f expected 0 [] f.body).map fun _ => f.report.maxStackDepth := by
  rw [measureSequence_eq (Nat.le_refl 0), Func.report, Nat.zero_max]
  rfl

end Func

namespace Machine

/-! ## Runs with the stacks they go through -/

/-- The stacks after each instruction that a run executes. -/
def history (m : Machine) : List (List Value) :=
  match _h : m.step with
  | .ok (.go m') => m'.stack :: m'.history
  | .ok (.finish stack) => [stack]
  | .error _ => []
termination_by m.size
decreasing_by
  have := size_step _h
  omega

/-- `Runs m history outcome`: the run of a machine goes through these stacks and ends like this. -/
inductive Runs : Machine → List (List Value) → Except Stop (List Value) → Prop
  | finish {m : Machine} {stack : List Value} (h : m.step = .ok (.finish stack)) :
      Runs m [stack] (.ok stack)
  | stop {m : Machine} {stop : Stop} (h : m.step = .error stop) : Runs m [] (.error stop)
  | step {m m' : Machine} {history : List (List Value)} {outcome : Except Stop (List Value)}
      (h : m.Steps m') (hrest : Runs m' history outcome) : Runs m (m'.stack :: history) outcome

/-- The stacks go on after the first step, as the run does. -/
theorem history_eq_step (m : Machine) :
    m.history = match m.step with
      | .ok (.go m') => m'.stack :: m'.history
      | .ok (.finish stack) => [stack]
      | .error _ => [] := by
  rw [history]
  split
  all_goals
    rename_i h
    rw [h]

/-- Every machine runs to an end. -/
theorem runs (m : Machine) : m.Runs m.history m.run := by
  induction hsize : m.size using Nat.strongRecOn generalizing m with
  | ind size ih =>
    rw [history_eq_step, run_eq_step]
    cases hstep : m.step with
    | error stop => exact .stop hstep
    | ok next =>
      cases next with
      | finish stack => exact .finish hstep
      | go m' =>
        have hlt : m'.size < size := by
          have := size_step hstep
          omega
        exact .step hstep (ih m'.size hlt m' rfl)

/-! ## Counting instructions -/

theorem step_eq_finish {m : Machine} {stack : List Value} (h : m.step = .ok (.finish stack)) :
    m.code = [.endSeq] ∧ m.labels = [] ∧ stack = m.stack := by
  obtain ⟨locals, operands, code, floor, labels⟩ := m
  unfold step at h
  split at h
  · cases h
  · rename_i hcode
    cases labels with
    | nil =>
      cases h
      exact ⟨hcode, rfl, rfl⟩
    | cons label labels =>
      simp only [close] at h
      split at h <;> cases h
  · obtain ⟨m₁, -, hgo⟩ := Fallible.bind_eq_ok_iff.1 h
    cases hgo

/-- There is an instruction left where a run traps. -/
theorem size_pos_of_trap {m : Machine} (h : m.step = .error .trap) : 0 < m.size := by
  obtain ⟨locals, stack, code, floor, labels⟩ := m
  cases code with
  | nil => cases h
  | cons i rest =>
    have hpos := i.size_pos
    simp only [size, Instruction.sizeSeq]
    omega

/-- A run to the end executes the instructions that the machine has at the start, and a run that
traps leaves one over. -/
theorem Runs.length_history {m : Machine} {history : List (List Value)}
    {outcome : Except Stop (List Value)} (h : m.Runs history outcome) :
    (∀ stack, outcome = .ok stack → history.length = m.size) ∧
      (outcome = .error .trap → history.length < m.size) := by
  induction h with
  | @finish m stack hstep =>
    obtain ⟨hcode, hlabels, -⟩ := step_eq_finish hstep
    refine ⟨fun _ _ => ?_, fun h => by cases h⟩
    simp [size, hcode, hlabels, Instruction.sizeSeq, Instruction.size]
  | @stop m stop hstep =>
    refine ⟨fun _ h => ?_, fun h => ?_⟩
    · cases h
    · cases h
      exact size_pos_of_trap hstep
  | @step m m' history outcome hstep _ ih =>
    have hsize := size_step hstep
    rw [List.length_cons]
    refine ⟨fun stack h => ?_, fun h => ?_⟩
    · have hlength := ih.1 stack h
      omega
    · have hlength := ih.2 h
      omega

/-! ## The height that is still to come -/

/-- The greatest height in the code after the open blocks.  The innermost block has its operands
above `floor`, and leaves its result there. -/
def peakAfter (floor : Nat) : List Label → Nat
  | [] => 0
  | label :: labels =>
    max (Instruction.peakSeq (floor + label.result.toList.length) label.code)
      (peakAfter label.floor labels)

/-- The greatest height from here to the end of the run, by the code that is left. -/
def peak (m : Machine) : Nat :=
  max (Instruction.peakSeq m.stack.length m.code) (peakAfter m.floor m.labels)

theorem length_stack_le_peak (m : Machine) : m.stack.length ≤ m.peak :=
  Nat.le_trans (Instruction.le_peakSeq _ _) (Nat.le_max_left _ _)

section

variable {locals locals' stack stack' : List Value} {rest : List Instruction} {floor : Nat}
  {labels : List Label}

/-- The peak of a sequence is that of its first instruction, or that of the rest from the height the
instruction leaves. -/
theorem peak_cons {i : Instruction} (hlength : stack'.length = i.heightAfter stack.length) :
    peak ⟨locals, stack, i :: rest, floor, labels⟩ =
      max (i.peak stack.length) (peak ⟨locals', stack', rest, floor, labels⟩) := by
  simp only [peak, Instruction.peakSeq, hlength, Nat.max_assoc]

/-- An instruction leaves the height that its type says. -/
theorem peak_exec {i : Instruction} {m' : Machine}
    (h : exec ⟨locals, stack, rest, floor, labels⟩ i = .ok m') :
    peak ⟨locals, stack, i :: rest, floor, labels⟩ = max stack.length m'.peak := by
  cases i with
  | const value =>
    cases h
    exact peak_cons rfl
  | localGet slot =>
    simp only [exec] at h
    split at h
    · cases h
      exact peak_cons rfl
    · cases h
  | localSet slot =>
    obtain ⟨⟨v, m₁⟩, hpop, hstore⟩ := Fallible.bind_eq_ok_iff.1 h
    obtain ⟨hpush, -⟩ := pop_eq_ok hpop
    obtain rfl := store_eq_ok hstore
    cases hpush
    exact peak_cons rfl
  | arith op =>
    obtain ⟨⟨b, m₁⟩, hb, h₁⟩ := Fallible.bind_eq_ok_iff.1 h
    obtain ⟨⟨a, m₂⟩, ha, h₂⟩ := Fallible.bind_eq_ok_iff.1 h₁
    obtain ⟨c, hc, h₃⟩ := Fallible.bind_eq_ok_iff.1 h₂
    obtain ⟨hpushLeft, -⟩ := pop_eq_ok (popWord_eq_ok ha)
    obtain ⟨hpush, -⟩ := pop_eq_ok (popWord_eq_ok hb)
    cases h₃
    subst hpushLeft
    cases hpush
    exact peak_cons rfl
  | drop =>
    obtain ⟨⟨v, m₁⟩, hpop, h₁⟩ := Fallible.bind_eq_ok_iff.1 h
    obtain ⟨hpush, -⟩ := pop_eq_ok hpop
    cases h₁
    cases hpush
    exact peak_cons rfl
  | block result body =>
    cases h
    -- the code after the block is set aside, with the height that the block leaves
    have hbody := Instruction.le_peakSeq stack.length body
    simp only [peak, peakAfter, Instruction.peakSeq, Instruction.peak, Instruction.heightAfter]
    omega
  | endSeq => cases h

end

theorem Typed.floor_le {f : Func} {result : Option ValueType} {m : Machine}
    (h : Typed f result m) : m.floor ≤ m.stack.length := by
  obtain ⟨own, below, -, -, -⟩ := h
  show below.length ≤ (own ++ below).length
  rw [List.length_append]
  omega

/-- A step only leaves behind the height at hand. -/
theorem Typed.peak_eq {f : Func} {result : Option ValueType} {m m' : Machine}
    (h : Typed f result m) (hsteps : m.Steps m') : m.peak = max m.stack.length m'.peak := by
  have hfloor := h.floor_le
  obtain ⟨locals, stack, code, floor, labels⟩ := m
  obtain ⟨label, labels', rfl, rfl, hresult, rfl⟩ | ⟨i, rest, rfl, hexec⟩ := step_eq_go hsteps
  · have hlength := congrArg List.length hresult
    rw [List.length_map, own, List.length_take] at hlength
    -- the operands of the block are its result, so the code after it starts from this height
    have hheight : floor + label.result.toList.length = stack.length := by
      simp only at hfloor hlength
      omega
    simp only [peak, peakAfter, hheight, Instruction.peakSeq, Instruction.peak,
      Instruction.heightAfter]
    omega
  · exact peak_exec hexec

/-- The heights of a run stay below the peak. -/
theorem Runs.length_le_peak {f : Func} {result : Option ValueType} {m : Machine}
    {history : List (List Value)} {outcome : Except Stop (List Value)} (h : m.Runs history outcome)
    (htyped : Typed f result m) : ∀ stack ∈ history, stack.length ≤ m.peak := by
  induction h with
  | @finish m stack hstep =>
    obtain ⟨-, -, rfl⟩ := step_eq_finish hstep
    intro stack hstack
    obtain rfl := List.mem_singleton.1 hstack
    exact m.length_stack_le_peak
  | stop => exact fun stack hstack => absurd hstack List.not_mem_nil
  | @step m m' history outcome hstep _ ih =>
    have hpeak := htyped.peak_eq hstep
    have hlater := ih (htyped.reaches (.single hstep))
    have hhere := m'.length_stack_le_peak
    intro stack hstack
    rcases List.mem_cons.1 hstack with rfl | hstack
    · omega
    · have := hlater stack hstack
      omega

/-- A run to the end gets to the peak, if it is not there at the start. -/
theorem Runs.peak_eq {f : Func} {result : Option ValueType} {m : Machine}
    {history : List (List Value)} {final : List Value} (h : m.Runs history (.ok final))
    (htyped : Typed f result m) :
    ((m.stack :: history).map List.length).max? = some m.peak := by
  generalize houtcome : (Except.ok final : Except Stop (List Value)) = outcome at h
  induction h with
  | @finish m stack hstep =>
    obtain ⟨hcode, hlabels, rfl⟩ := step_eq_finish hstep
    simp [peak, peakAfter, hcode, hlabels, Instruction.peakSeq, Instruction.peak,
      Instruction.heightAfter]
  | stop => cases houtcome
  | @step m m' history outcome hstep _ ih =>
    have hlater := ih (htyped.reaches (.single hstep)) houtcome
    rw [List.map_cons, List.max?_cons, hlater, htyped.peak_eq hstep]
    rfl

/-! ## Reports -/

/-- The run of a machine agrees with the figures.  If it comes to its end, it executes as many
instructions as they say, and the greatest height of the stack after an instruction is as they say.
If it stops before, it does so in a trap, with fewer instructions and at no greater height. -/
def BearsOut (m : Machine) (figures : FuncReport) : Prop :=
  match m.run with
  | .ok _ =>
    m.history.length = figures.instructionCount ∧
      (m.history.map List.length).max? = some figures.maxStackDepth
  | .error stop =>
    stop = .trap ∧ m.history.length < figures.instructionCount ∧
      ∀ stack ∈ m.history, stack.length ≤ figures.maxStackDepth

/-- A typed machine with nothing on its stack bears out its own size and peak. -/
theorem Typed.bearsOut {f : Func} {result : Option ValueType} {m : Machine}
    (h : Typed f result m) (hempty : m.stack = []) (name : String) :
    m.BearsOut ⟨name, m.size, m.peak⟩ := by
  have hruns := m.runs
  obtain ⟨final, hrun, -⟩ | ⟨hrun, -⟩ := h.run
  · rw [hrun] at hruns
    rw [BearsOut, hrun]
    refine ⟨hruns.length_history.1 final rfl, ?_⟩
    have hmax := hruns.peak_eq h
    rw [hempty, List.map_cons, List.max?_cons] at hmax
    cases hheights : (m.history.map List.length).max? with
    | none =>
      -- a run to the end has executed something
      have hnil : m.history = [] := by simpa using hheights
      rw [hnil] at hruns
      cases hruns
    | some height =>
      rw [hheights] at hmax
      simpa using hmax
  · rw [hrun] at hruns
    rw [BearsOut, hrun]
    exact ⟨rfl, hruns.length_history.2 rfl, hruns.length_le_peak h⟩

theorem size_start (declared : List ValueType) (body : List Instruction) (args : List Value) :
    (start declared body args).size = Instruction.sizeSeq body := by
  simp [size, start]

theorem peak_start (declared : List ValueType) (body : List Instruction) (args : List Value) :
    (start declared body args).peak = Instruction.peakSeq 0 body := by
  simp [peak, peakAfter, start]

end Machine

namespace Module

/-- A report lists the figures of the functions in order, and these are all valid. -/
theorem forall₂_of_validate {m : Module} {report : Report} (h : m.validate = .ok report) :
    List.Forall₂ (fun f figures => f.WellTyped m.types ∧ figures = f.report)
      m.functions.toList report.functions := by
  obtain ⟨functions, hfunctions, hreport⟩ := Fallible.bind_eq_ok_iff.1 h
  cases hreport
  refine (Fallible.mapM_eq_ok_iff.1 hfunctions).imp ?_
  intro f figures hfigures
  cases hcheck : f.check m.types with
  | error fault =>
    rw [hcheck] at hfigures
    cases hfigures
  | ok =>
    rw [hcheck] at hfigures
    cases hfigures
    exact ⟨Func.check_eq_ok_iff.1 hcheck, rfl⟩

/-- **The figures of a report are exact.**  A valid module has a report with figures for each of its
functions, in order.  On all arguments of the parameter types the run of the function bears them
out: the number of instructions, with blocks that are entered and ends of sequences counted once,
and the greatest height of the one operand stack, which holds the values of all blocks around. -/
theorem report_exact {m : Module} {report : Report} (h : m.validate = .ok report) :
    List.Forall₂ (fun f figures => figures.name = f.name ∧
        ∃ s, m.types.get? f.typeIndex = some s ∧
          ∀ args : List Value, args.map Value.type = s.params →
            (Machine.start f.declaredLocals f.body args).BearsOut figures)
      m.functions.toList report.functions := by
  refine (forall₂_of_validate h).imp ?_
  rintro f _ ⟨⟨s, hs, hfits⟩, rfl⟩
  refine ⟨rfl, s, hs, fun args hargs => ?_⟩
  obtain ⟨result, -, hbody⟩ := hfits.body
  have hbears := (hfits.typed_start hbody hargs).bearsOut rfl f.name
  rw [Machine.size_start, Machine.peak_start] at hbears
  exact hbears

/-- The function about to be run on the number `7` and a divisor. -/
def excessOn (divisor : Int32) : Machine :=
  .start [.i32] Func.excess.body [.i32 7, .i32 divisor]

/-- With the divisor `2` the run executes all ten instructions, and the stack holds three values
inside the block.  With the divisor `0` it stops before. -/
theorem report_exact_excess :
    Module.excess.validate = .ok ⟨[⟨"excess", 10, 3⟩]⟩ ∧
      (excessOn 2).history.length = 10 ∧
      ((excessOn 2).history.map List.length).max? = some 3 ∧
      (excessOn 0).history.length < 10 := by
  have hvalid : Module.excess.validate = .ok ⟨[⟨"excess", 10, 3⟩]⟩ := rfl
  have hrun : (excessOn 2).run = .ok [.i32 4] :=
    calc (excessOn 2).run
      _ = _ := Machine.run_localGet rfl
      _ = _ := Machine.run_block
      _ = _ := Machine.run_localGet rfl
      _ = _ := Machine.run_localGet rfl
      _ = _ := Machine.run_of_steps rfl
      _ = _ := Machine.run_of_steps rfl
      _ = _ := Machine.run_localGet rfl
      _ = _ := Machine.run_of_steps rfl
      _ = _ := Machine.run_of_steps rfl
      _ = .ok [.i32 4] := Machine.run_endSeq_nil
  have htrap : (excessOn 0).run = .error .trap :=
    calc (excessOn 0).run
      _ = _ := Machine.run_localGet rfl
      _ = _ := Machine.run_block
      _ = _ := Machine.run_localGet rfl
      _ = _ := Machine.run_localGet rfl
      _ = _ := Machine.run_arith (Nat.le_refl _)
      _ = .error .trap := rfl
  obtain ⟨⟨-, s, hs, hfigures⟩, -⟩ := List.forall₂_cons.1 (report_exact hvalid)
  cases hs
  have hend : (excessOn 2).BearsOut ⟨"excess", 10, 3⟩ := hfigures [.i32 7, .i32 2] rfl
  have hstop : (excessOn 0).BearsOut ⟨"excess", 10, 3⟩ := hfigures [.i32 7, .i32 0] rfl
  rw [Machine.BearsOut, hrun] at hend
  rw [Machine.BearsOut, htrap] at hstop
  exact ⟨hvalid, hend.1, hend.2, hstop.2.1⟩

end Module

end WasmCodegen
