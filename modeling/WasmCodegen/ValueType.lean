/-!
# Value types

The four number types of a stack machine's operands and locals.  Arithmetic is on
`ValueType.numeric` alone; the other three reach a program through type annotations.

The order of the types is the order of their constructors (`ValueType.rank`).
-/

namespace WasmCodegen

/-- The type of an operand or of a local. -/
inductive ValueType where
  | i32
  | i64
  | f32
  | f64
deriving DecidableEq

namespace ValueType

/-- The type that literals have and that arithmetic takes and gives. -/
def numeric : ValueType := .i32

/-- The name of the type in source text and in listings. -/
def name : ValueType → String
  | .i32 => "i32"
  | .i64 => "i64"
  | .f32 => "f32"
  | .f64 => "f64"

/-- The type of a name, which has to be spelled exactly. -/
def ofName? : String → Option ValueType
  | "i32" => some .i32
  | "i64" => some .i64
  | "f32" => some .f32
  | "f64" => some .f64
  | _ => none

/-- The capitalised name, used where a list of types is quoted in a message. -/
def label : ValueType → String
  | .i32 => "I32"
  | .i64 => "I64"
  | .f32 => "F32"
  | .f64 => "F64"

/-- A list of types as a message quotes it: labels between brackets. -/
def labels (types : List ValueType) : String :=
  "[" ++ ", ".intercalate (types.map label) ++ "]"

/-- The place of a type in the order of types. -/
def rank : ValueType → Nat
  | .i32 => 0
  | .i64 => 1
  | .f32 => 2
  | .f64 => 3

/-- The types of a list in order, equal types side by side. -/
def sort (types : List ValueType) : List ValueType :=
  types.mergeSort fun a b => a.rank ≤ b.rank

instance : Ord ValueType := ⟨fun a b => compare a.rank b.rank⟩

instance : Std.TransOrd ValueType :=
  inferInstanceAs (Std.TransCmp (compareOn rank))

instance : Std.LawfulEqOrd ValueType where
  eq_of_compare {a b} h := by
    have : a.rank = b.rank := Std.LawfulEqOrd.eq_of_compare h
    cases a <;> cases b <;> simp_all [rank]

end ValueType

end WasmCodegen
