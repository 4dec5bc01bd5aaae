import WasmCodegen.ValueType
import Std.Data.TreeMap

/-!
# Signatures and the signature table

A signature gives the types of a function's parameters and results.  A module lists each
signature that its functions use once, and functions refer to signatures by position.

`SignatureTable.intern` gives the position of a signature and appends the signature if it is new,
so positions follow the order of first use and never change.  Beside the list the table keeps an
index from signatures to positions, which is what makes interning fast.
-/

namespace WasmCodegen

/-- The types of a function's parameters and results. -/
structure Signature where
  params : List ValueType
  results : List ValueType
deriving DecidableEq

namespace Signature

/-- The signature in a listing: two lists of names and an arrow. -/
def text (s : Signature) : String :=
  "(" ++ ", ".intercalate (s.params.map ValueType.name) ++ ") -> (" ++
    ", ".intercalate (s.results.map ValueType.name) ++ ")"

/-- Signatures are ordered by their parameters, then by their results. -/
instance : Ord Signature := ⟨compareLex (compareOn params) (compareOn results)⟩

instance : Std.TransOrd Signature :=
  inferInstanceAs (Std.TransCmp (compareLex (compareOn params) (compareOn results)))

instance : Std.LawfulEqOrd Signature where
  eq_of_compare {s t} h := by
    have h : (compare s.params t.params).then (compare s.results t.results) = .eq := h
    rw [Ordering.then_eq_eq] at h
    cases s
    cases t
    simp_all

end Signature

/-- The distinct signatures of a module in order of first use, with an index to find them. -/
structure SignatureTable where
  /-- The signatures by position. -/
  types : Array Signature := #[]
  /-- The position of each listed signature. -/
  index : Std.TreeMap Signature Nat := {}

namespace SignatureTable

/-- The table without signatures. -/
def empty : SignatureTable := {}

/-- The number of signatures. -/
def size (table : SignatureTable) : Nat := table.types.size

/-- The signature at a position. -/
def get? (table : SignatureTable) (position : Nat) : Option Signature := table.types[position]?

/-- The position of a signature, and the table that lists it. -/
def intern (table : SignatureTable) (s : Signature) : Nat × SignatureTable :=
  match table.index[s]? with
  | some position => (position, table)
  | none =>
    (table.types.size,
      { types := table.types.push s, index := table.index.insert s table.types.size })

/-- The table of a list of signatures, interned in order. -/
def ofList (signatures : List Signature) : SignatureTable :=
  signatures.foldl (fun table s => (table.intern s).2) empty

/-- Two tables are the same if they list the same signatures. -/
instance : BEq SignatureTable := ⟨fun a b => a.types == b.types⟩

end SignatureTable

end WasmCodegen
