import WasmCodegen.Lowering.Body

/-!
# Values and arithmetic

The values that a program computes with, and the ways in which a computation can stop short.  A
trap is part of what a program means; a misstep is not, and a program that takes one has no
meaning.

Arithmetic is given twice.  `BinaryOp.meaning` is what an operator of the source means: the
operation on integers, with its result reduced to a word, and a trap where a quotient does not
exist.  `ArithOp.apply` is what an instruction computes on words.
`BinaryOp.apply_eq_meaning` proves that they agree.
-/

namespace WasmCodegen

/-- A value of one of the value types.  Floating-point values are kept as their bits: no
instruction looks inside them. -/
inductive Value where
  | i32 (value : Int32)
  | i64 (value : Int64)
  | f32 (bits : UInt32)
  | f64 (bits : UInt64)
deriving DecidableEq

namespace Value

/-- The type of a value. -/
def type : Value → ValueType
  | .i32 _ => .i32
  | .i64 _ => .i64
  | .f32 _ => .f32
  | .f64 _ => .f64

/-- The zero of a type. -/
def zero : ValueType → Value
  | .i32 => .i32 0
  | .i64 => .i64 0
  | .f32 => .f32 0
  | .f64 => .f64 0

@[simp] theorem type_zero (t : ValueType) : (zero t).type = t := by
  cases t <;> rfl

theorem exists_eq_i32 {v : Value} (h : v.type = .numeric) : ∃ n, v = .i32 n := by
  cases v with
  | i32 n => exact ⟨n, rfl⟩
  | i64 _ => cases h
  | f32 _ => cases h
  | f64 _ => cases h

/-- Where a list of types has a type, values of these types have one of it. -/
theorem exists_getElem? {values : List Value} {types : List ValueType}
    (h : values.map type = types) {slot : Nat} {t : ValueType} (hslot : types[slot]? = some t) :
    ∃ v, values[slot]? = some v ∧ v.type = t := by
  rw [← h, List.getElem?_map, Option.map_eq_some_iff] at hslot
  exact hslot

/-- A value may be replaced by one of its type. -/
theorem map_type_set {values : List Value} {slot : Nat} {v old : Value}
    (hslot : values[slot]? = some old) (htype : v.type = old.type) :
    (values.set slot v).map type = values.map type := by
  obtain ⟨hlt, rfl⟩ := List.getElem?_eq_some_iff.1 hslot
  rw [List.map_set, htype, ← List.map_set, List.set_getElem_self]

end Value

/-- What a program must not do. -/
inductive Misstep where
  /-- Use a name that has no value. -/
  | unboundName
  /-- Use a construct that has no meaning. -/
  | noMeaning
  /-- Take a value from a stack that has none left for the sequence at hand. -/
  | emptyStack
  /-- Refer to a local that does not exist. -/
  | noSuchLocal
  /-- Operate on a value of the wrong type, or store one. -/
  | typeMismatch
  /-- Run past the end of a sequence. -/
  | missingEnd
deriving DecidableEq

/-- Why a computation stops before it has a result. -/
inductive Stop where
  | trap
  | wrong (cause : Misstep)
deriving DecidableEq

/-! ## Arithmetic -/

/-- What an arithmetic operator means.  Sums, differences and products are taken modulo `2 ^ 32`.
A quotient is rounded towards zero; there is none for the divisor `0`, and none for `-2 ^ 31` and
the divisor `-1`, whose quotient is not a word. -/
def BinaryOp.meaning (op : BinaryOp) (a b : Int32) : Except Stop Int32 :=
  match op with
  | .add => .ok (Int32.ofInt (a.toInt + b.toInt))
  | .sub => .ok (Int32.ofInt (a.toInt - b.toInt))
  | .mul => .ok (Int32.ofInt (a.toInt * b.toInt))
  | .div =>
    if b.toInt = 0 ∨ a.toInt = Int32.minValue.toInt ∧ b.toInt = -1 then
      .error .trap
    else
      .ok (Int32.ofInt (a.toInt.tdiv b.toInt))
  | _ => .error (.wrong .noMeaning)

/-- What an arithmetic instruction computes. -/
def ArithOp.apply (op : ArithOp) (a b : Int32) : Except Stop Int32 :=
  match op with
  | .add => .ok (a + b)
  | .sub => .ok (a - b)
  | .mul => .ok (a * b)
  | .divS => if b = 0 ∨ a = Int32.minValue ∧ b = -1 then .error .trap else .ok (a / b)

/-- Division traps on words exactly where it does on integers. -/
theorem ArithOp.traps_iff (a b : Int32) :
    (b = 0 ∨ a = Int32.minValue ∧ b = -1) ↔
      (b.toInt = 0 ∨ a.toInt = Int32.minValue.toInt ∧ b.toInt = -1) := by
  rw [← Int32.toInt_inj, ← Int32.toInt_inj, ← Int32.toInt_inj]
  rfl

/-- An arithmetic instruction gives a word, unless it divides where there is no quotient. -/
theorem ArithOp.apply_ok_or_trap (op : ArithOp) (a b : Int32) :
    (∃ c, op.apply a b = .ok c) ∨
      op.apply a b = .error .trap ∧ op = .divS ∧ (b = 0 ∨ a = Int32.minValue ∧ b = -1) := by
  by_cases htrap : op = .divS ∧ (b = 0 ∨ a = Int32.minValue ∧ b = -1)
  · obtain ⟨rfl, hquotient⟩ := htrap
    exact .inr ⟨if_pos hquotient, rfl, hquotient⟩
  · left
    cases op with
    | divS => exact ⟨a / b, if_neg fun hquotient => htrap ⟨rfl, hquotient⟩⟩
    | _ => exact ⟨_, rfl⟩

/-- The instruction of an operator computes what the operator means. -/
theorem BinaryOp.apply_eq_meaning {op : BinaryOp} {arith : ArithOp} (h : op.arith? = some arith)
    (a b : Int32) : arith.apply a b = op.meaning a b := by
  cases op <;> cases h
  case add => simp [ArithOp.apply, meaning, Int32.ofInt_add]
  case sub => simp [ArithOp.apply, meaning, Int32.ofInt_sub]
  case mul => simp [ArithOp.apply, meaning, Int32.ofInt_mul]
  case div =>
    by_cases htrap : b = 0 ∨ a = Int32.minValue ∧ b = -1
    · rw [ArithOp.apply, meaning, if_pos htrap, if_pos ((ArithOp.traps_iff a b).1 htrap)]
    · rw [ArithOp.apply, meaning, if_neg htrap, if_neg (mt (ArithOp.traps_iff a b).2 htrap)]
      rw [Int32.ofInt_tdiv a.minValue_le_toInt a.toInt_le b.minValue_le_toInt b.toInt_le,
        Int32.ofInt_toInt, Int32.ofInt_toInt]

/-- An arithmetic operator gives a word or traps. -/
theorem BinaryOp.meaning_ok_or_trap {op : BinaryOp} {arith : ArithOp} (h : op.arith? = some arith)
    (a b : Int32) : (∃ c, op.meaning a b = .ok c) ∨ op.meaning a b = .error .trap := by
  rw [← apply_eq_meaning h]
  exact (arith.apply_ok_or_trap a b).imp_right And.left

end WasmCodegen
