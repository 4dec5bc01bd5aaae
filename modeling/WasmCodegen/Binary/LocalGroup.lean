import WasmCodegen.ValueType

/-!
# Groups of locals

The binary format declares locals in groups: a count and the type that so many locals in a row
have.  `LocalGroup.compress` makes the groups as long as they can be.
-/

namespace WasmCodegen

/-- So many locals in a row of one type. -/
structure LocalGroup where
  count : Nat
  type : ValueType
deriving DecidableEq

namespace LocalGroup

/-- Puts one more local in front of grouped locals. -/
def cons (type : ValueType) : List LocalGroup → List LocalGroup
  | [] => [⟨1, type⟩]
  | group :: groups =>
    if group.type = type then
      ⟨group.count + 1, type⟩ :: groups
    else
      ⟨1, type⟩ :: group :: groups

/-- The groups of a list of locals. -/
def compress (locals : List ValueType) : List LocalGroup :=
  locals.foldr cons []

end LocalGroup

end WasmCodegen
