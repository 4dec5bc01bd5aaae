import WasmCodegen.Proofs.Fallible
import WasmCodegen.Proofs.Value

/-!
# The stack machine

A machine has locals, one operand stack, the rest of the sequence it is running, and for each
block it is inside of a label: where to go on when the block ends.  A sequence may only use the
operands above its *floor*, the height of the stack when it was entered, so a block cannot reach
the operands of the sequence around it.

`Machine.step` runs one instruction.  Each step uses up one instruction (`Machine.size_step`), so
a run always comes to an end and `Machine.run` is a total function.
-/

namespace WasmCodegen

/-- What a machine does when the block it is running ends. -/
structure Label where
  /-- What the block has to leave on the stack. -/
  result : Option ValueType
  /-- The floor of the sequence around the block. -/
  floor : Nat
  /-- The instructions after the block. -/
  code : List Instruction

/-- The state of a machine. -/
structure Machine where
  locals : List Value
  /-- The operands, the last one pushed in front. -/
  stack : List Value
  /-- The instructions that are left of the sequence being run. -/
  code : List Instruction
  floor : Nat
  /-- The blocks being run, the innermost in front. -/
  labels : List Label

namespace Machine

/-- A step leads to another state, or it ends the run with what is on the stack. -/
inductive Next where
  | go (m : Machine)
  | finish (stack : List Value)

/-- Takes an operand off the stack. -/
def pop (m : Machine) : Except Stop (Value × Machine) :=
  match m.stack with
  | v :: stack =>
    if m.floor ≤ stack.length then .ok (v, { m with stack }) else .error (.wrong .emptyStack)
  | [] => .error (.wrong .emptyStack)

/-- Takes a word off the stack. -/
def popWord (m : Machine) : Except Stop (Int32 × Machine) := do
  match ← m.pop with
  | (.i32 n, m) => return (n, m)
  | _ => .error (.wrong .typeMismatch)

/-- Puts an operand on the stack. -/
def push (m : Machine) (v : Value) : Machine := { m with stack := v :: m.stack }

/-- The operands above the floor. -/
def own (m : Machine) : List Value := m.stack.take (m.stack.length - m.floor)

/-- Stores an operand, which has to have the type of the local. -/
def store (m : Machine) (slot : Nat) (v : Value) : Except Stop Machine :=
  match m.locals[slot]? with
  | some old =>
    if v.type = old.type then
      .ok { m with locals := m.locals.set slot v }
    else
      .error (.wrong .typeMismatch)
  | none => .error (.wrong .noSuchLocal)

/-- Goes on after the sequence at hand, which has ended. -/
def close (m : Machine) : Except Stop Next :=
  match m.labels with
  | [] => .ok (.finish m.stack)
  | label :: labels =>
    if m.own.map Value.type = label.result.toList then
      .ok (.go { m with code := label.code, floor := label.floor, labels })
    else
      .error (.wrong .typeMismatch)

/-- Runs an instruction that is not the end of a sequence; `m` is the state after it has been
fetched. -/
def exec (m : Machine) : Instruction → Except Stop Machine
  | .const value => .ok (m.push (.i32 value))
  | .localGet slot =>
    match m.locals[slot]? with
    | some v => .ok (m.push v)
    | none => .error (.wrong .noSuchLocal)
  | .localSet slot => do
    let (v, m) ← m.pop
    m.store slot v
  | .arith op => do
    let (b, m) ← m.popWord
    let (a, m) ← m.popWord
    return m.push (.i32 (← op.apply a b))
  | .drop => do
    let (_, m) ← m.pop
    return m
  | .block result body =>
    .ok { m with
      code := body
      floor := m.stack.length
      labels := ⟨result, m.floor, m.code⟩ :: m.labels }
  | .endSeq => .error (.wrong .missingEnd)

/-- Runs one instruction.  An `endSeq` ends its sequence and has to be the last instruction of
it. -/
def step (m : Machine) : Except Stop Next :=
  match m.code with
  | [] => .error (.wrong .missingEnd)
  | [.endSeq] => m.close
  | i :: rest => do
    return .go (← exec { m with code := rest } i)

/-- The number of instructions that are left to run. -/
def size (m : Machine) : Nat :=
  Instruction.sizeSeq m.code +
    m.labels.foldr (fun label left => Instruction.sizeSeq label.code + left) 0

/-- A machine that is about to run a body.  The locals are the arguments, and then the zeros of
the declared types. -/
def start (declared : List ValueType) (body : List Instruction) (args : List Value) : Machine where
  locals := args ++ declared.map Value.zero
  stack := []
  code := body
  floor := 0
  labels := []

/-! ## Every step uses up one instruction -/

theorem pop_eq_ok {m m' : Machine} {v : Value} (h : m.pop = .ok (v, m')) :
    m = m'.push v ∧ m.floor ≤ m'.stack.length := by
  obtain ⟨locals, stack, code, floor, labels⟩ := m
  cases stack with
  | nil => cases h
  | cons top stack =>
    simp only [pop] at h
    split at h
    · cases h
      exact ⟨rfl, by assumption⟩
    · cases h

theorem popWord_eq_ok {m m' : Machine} {n : Int32} (h : m.popWord = .ok (n, m')) :
    m.pop = .ok (.i32 n, m') := by
  obtain ⟨⟨v, m₁⟩, hpop, hword⟩ := Fallible.bind_eq_ok_iff.1 h
  cases v <;> cases hword
  exact hpop

theorem store_eq_ok {m m' : Machine} {slot : Nat} {v : Value} (h : m.store slot v = .ok m') :
    m' = { m with locals := m.locals.set slot v } := by
  unfold store at h
  split at h
  · split at h
    · cases h
      rfl
    · cases h
  · cases h

theorem size_exec {m m' : Machine} {i : Instruction} (h : m.exec i = .ok m') :
    m'.size + 1 = i.size + m.size := by
  cases i with
  | const value =>
    cases h
    exact Nat.add_comm _ _
  | localGet slot =>
    simp only [exec] at h
    split at h
    · cases h
      exact Nat.add_comm _ _
    · cases h
  | localSet slot =>
    obtain ⟨⟨v, m₁⟩, hpop, hstore⟩ := Fallible.bind_eq_ok_iff.1 h
    obtain rfl := store_eq_ok hstore
    obtain ⟨rfl, -⟩ := pop_eq_ok hpop
    exact Nat.add_comm _ _
  | arith op =>
    obtain ⟨⟨b, m₁⟩, hb, h₁⟩ := Fallible.bind_eq_ok_iff.1 h
    obtain ⟨⟨a, m₂⟩, ha, h₂⟩ := Fallible.bind_eq_ok_iff.1 h₁
    obtain ⟨c, hc, h₃⟩ := Fallible.bind_eq_ok_iff.1 h₂
    cases h₃
    obtain ⟨rfl, -⟩ := pop_eq_ok (popWord_eq_ok hb)
    obtain ⟨rfl, -⟩ := pop_eq_ok (popWord_eq_ok ha)
    exact Nat.add_comm _ _
  | drop =>
    obtain ⟨⟨v, m₁⟩, hpop, h₁⟩ := Fallible.bind_eq_ok_iff.1 h
    cases h₁
    obtain ⟨rfl, -⟩ := pop_eq_ok hpop
    exact Nat.add_comm _ _
  | block result body =>
    cases h
    simp only [size, Instruction.size, List.foldr_cons]
    omega
  | endSeq => cases h

/-- A step that goes on has left a block, which has its result, or it has run an instruction. -/
theorem step_eq_go {m m' : Machine} (h : m.step = .ok (.go m')) :
    (∃ label labels, m.code = [.endSeq] ∧ m.labels = label :: labels ∧
      m.own.map Value.type = label.result.toList ∧
      m' = { m with code := label.code, floor := label.floor, labels }) ∨
    ∃ i rest, m.code = i :: rest ∧ exec { m with code := rest } i = .ok m' := by
  unfold step at h
  split at h
  · cases h
  · rename_i hcode
    unfold close at h
    split at h
    · cases h
    · rename_i label labels hlabels
      split at h
      · rename_i hresult
        cases h
        exact .inl ⟨label, labels, hcode, hlabels, hresult, rfl⟩
      · cases h
  · rename_i i rest _ hcode
    obtain ⟨m₁, hexec, hgo⟩ := Fallible.bind_eq_ok_iff.1 h
    cases hgo
    exact .inr ⟨i, rest, hcode, hexec⟩

theorem size_step {m m' : Machine} (h : m.step = .ok (.go m')) : m'.size + 1 = m.size := by
  obtain ⟨locals, stack, code, floor, labels⟩ := m
  obtain ⟨label, labels', rfl, rfl, -, rfl⟩ | ⟨i, rest, rfl, hexec⟩ := step_eq_go h
  · exact Nat.add_comm _ _
  · have hsize := size_exec hexec
    simp only [size, Instruction.sizeSeq] at hsize ⊢
    omega

/-- Runs a machine to its end and gives what is on the stack then. -/
def run (m : Machine) : Except Stop (List Value) :=
  match _h : m.step with
  | .ok (.go m') => m'.run
  | .ok (.finish stack) => .ok stack
  | .error stop => .error stop
termination_by m.size
decreasing_by
  have := size_step _h
  omega

/-! ## Running instructions -/

/-- A run goes on after its first step. -/
theorem run_eq_step (m : Machine) :
    m.run = m.step >>= fun
      | .go m' => m'.run
      | .finish stack => .ok stack := by
  rw [run]
  split
  all_goals
    rename_i h
    rw [h]
    rfl

section

variable {locals stack : List Value} {rest : List Instruction} {floor : Nat} {labels : List Label}

theorem step_cons {i : Instruction} (hi : i ≠ .endSeq) :
    step ⟨locals, stack, i :: rest, floor, labels⟩ = (do
      return .go (← exec ⟨locals, stack, rest, floor, labels⟩ i)) := by
  cases i with
  | endSeq => exact absurd rfl hi
  | _ => rfl

theorem run_cons {i : Instruction} (hi : i ≠ .endSeq) :
    run ⟨locals, stack, i :: rest, floor, labels⟩ =
      exec ⟨locals, stack, rest, floor, labels⟩ i >>= run := by
  rw [run_eq_step, step_cons hi, bind_assoc]
  rfl

theorem pop_cons {v : Value} (hfloor : floor ≤ stack.length) :
    pop ⟨locals, v :: stack, rest, floor, labels⟩ =
      .ok (v, ⟨locals, stack, rest, floor, labels⟩) :=
  if_pos hfloor

theorem popWord_cons {n : Int32} (hfloor : floor ≤ stack.length) :
    popWord ⟨locals, .i32 n :: stack, rest, floor, labels⟩ =
      .ok (n, ⟨locals, stack, rest, floor, labels⟩) := by
  rw [popWord, pop_cons hfloor]
  rfl

theorem exec_localGet {slot : Nat} {v : Value} (h : locals[slot]? = some v) :
    exec ⟨locals, stack, rest, floor, labels⟩ (.localGet slot) =
      .ok ⟨locals, v :: stack, rest, floor, labels⟩ := by
  rw [exec, h]
  rfl

theorem exec_localSet {slot : Nat} {v old : Value} (hfloor : floor ≤ stack.length)
    (h : locals[slot]? = some old) (htype : v.type = old.type) :
    exec ⟨locals, v :: stack, rest, floor, labels⟩ (.localSet slot) =
      .ok ⟨locals.set slot v, stack, rest, floor, labels⟩ := by
  have hstore : store ⟨locals, stack, rest, floor, labels⟩ slot v =
      .ok ⟨locals.set slot v, stack, rest, floor, labels⟩ := by
    simp [store, h, htype]
  rw [exec, pop_cons hfloor]
  exact hstore

theorem exec_arith {op : ArithOp} {a b : Int32} (hfloor : floor ≤ stack.length) :
    exec ⟨locals, .i32 b :: .i32 a :: stack, rest, floor, labels⟩ (.arith op) =
      (do return ⟨locals, .i32 (← op.apply a b) :: stack, rest, floor, labels⟩) := by
  have hfloor' : floor ≤ stack.length + 1 := Nat.le_succ_of_le hfloor
  rw [exec, popWord_cons hfloor']
  change (popWord ⟨locals, .i32 a :: stack, rest, floor, labels⟩ >>= fun (a, m) => do
    return m.push (.i32 (← op.apply a b))) = _
  rw [popWord_cons hfloor]
  rfl

theorem exec_drop {v : Value} (hfloor : floor ≤ stack.length) :
    exec ⟨locals, v :: stack, rest, floor, labels⟩ .drop =
      .ok ⟨locals, stack, rest, floor, labels⟩ := by
  rw [exec, pop_cons hfloor]
  rfl

/-- A block that leaves its result hands it to the sequence around it. -/
theorem close_cons {label : Label} {own : List Value}
    (hown : own.map Value.type = label.result.toList) :
    close ⟨locals, own ++ stack, rest, stack.length, label :: labels⟩ =
      .ok (.go ⟨locals, own ++ stack, label.code, label.floor, labels⟩) := by
  simp [close, Machine.own, hown]

theorem run_const (value : Int32) :
    run ⟨locals, stack, .const value :: rest, floor, labels⟩ =
      run ⟨locals, .i32 value :: stack, rest, floor, labels⟩ :=
  run_cons (by simp)

theorem run_localGet {slot : Nat} {v : Value} (h : locals[slot]? = some v) :
    run ⟨locals, stack, .localGet slot :: rest, floor, labels⟩ =
      run ⟨locals, v :: stack, rest, floor, labels⟩ := by
  rw [run_cons (by simp), exec_localGet h]
  rfl

theorem run_localSet {slot : Nat} {v old : Value} (hfloor : floor ≤ stack.length)
    (h : locals[slot]? = some old) (htype : v.type = old.type) :
    run ⟨locals, v :: stack, .localSet slot :: rest, floor, labels⟩ =
      run ⟨locals.set slot v, stack, rest, floor, labels⟩ := by
  rw [run_cons (by simp), exec_localSet hfloor h htype]
  rfl

theorem run_drop {v : Value} (hfloor : floor ≤ stack.length) :
    run ⟨locals, v :: stack, .drop :: rest, floor, labels⟩ =
      run ⟨locals, stack, rest, floor, labels⟩ := by
  rw [run_cons (by simp), exec_drop hfloor]
  rfl

theorem run_arith {op : ArithOp} {a b : Int32} (hfloor : floor ≤ stack.length) :
    run ⟨locals, .i32 b :: .i32 a :: stack, .arith op :: rest, floor, labels⟩ =
      (do run ⟨locals, .i32 (← op.apply a b) :: stack, rest, floor, labels⟩) := by
  rw [run_cons (by simp), exec_arith hfloor, bind_assoc]
  rfl

theorem run_block {result : Option ValueType} {body : List Instruction} :
    run ⟨locals, stack, .block result body :: rest, floor, labels⟩ =
      run ⟨locals, stack, body, stack.length, ⟨result, floor, rest⟩ :: labels⟩ :=
  run_cons (by simp)

/-- A block that leaves its result goes on after it. -/
theorem run_endSeq {label : Label} {own : List Value}
    (hown : own.map Value.type = label.result.toList) :
    run ⟨locals, own ++ stack, [.endSeq], stack.length, label :: labels⟩ =
      run ⟨locals, own ++ stack, label.code, label.floor, labels⟩ := by
  rw [run_eq_step, step, close_cons hown]
  rfl

/-- A body that has come to its end gives what is on the stack. -/
theorem run_endSeq_nil : run ⟨locals, stack, [.endSeq], floor, []⟩ = .ok stack := by
  rw [run_eq_step]
  rfl

end

end Machine

end WasmCodegen
