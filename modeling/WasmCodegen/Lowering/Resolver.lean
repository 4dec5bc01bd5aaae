import WasmCodegen.Diagnostic
import WasmCodegen.Signature
import WasmCodegen.Source.Tree

/-!
# Resolvers

Source trees name types without interpreting the names.  A resolver gives them their meaning: it
turns annotations into value types, and the prototype of a function, together with the type that
its body yields, into a signature.

`Resolver.numeric` knows the numeric type alone and checks a declared result against the body.
`Resolver.ofTable` reads types off a table and can fix the parameters or the results of every
signature.
-/

namespace WasmCodegen

/-- The meaning of annotations. -/
structure Resolver where
  /-- The value type of an annotation. -/
  valueType : TypeRef → Except CompileError ValueType
  /-- The value type of a parameter. -/
  param : Param → Except CompileError ValueType
  /-- The signature of a function whose body yields a value of the given type, or none. -/
  signature : Prototype → Option ValueType → Except CompileError Signature

namespace Resolver

/-- A parameter has the type of its annotation, and the numeric type without one. -/
def annotated (valueType : TypeRef → Except CompileError ValueType) (p : Param) :
    Except CompileError ValueType :=
  match p.type with
  | some type => valueType type
  | none => .ok .numeric

/-! ## The numeric resolver -/

/-- The numeric type is the only one that has a name. -/
def numericType (type : TypeRef) : Except CompileError ValueType :=
  if type.name.name = ValueType.numeric.name then
    .ok .numeric
  else
    .error (.typeMismatch
      s!"unknown type '{type.name.name}', only {ValueType.numeric.name} is supported" type.span)

/-- The results of a function: what its body yields, which has to be what it declares. -/
def checkedResults (declared : Option TypeRef) (found : Option ValueType) :
    Except CompileError (List ValueType) :=
  match declared with
  | none => .ok found.toList
  | some type => do
    let want ← numericType type
    match found with
    | some found =>
      if found = want then
        .ok [want]
      else
        .error (.typeMismatch
          s!"function declares result {want.name} but its body yields {found.name}" type.span)
    | none =>
      .error (.typeMismatch
        s!"function declares result {want.name} but its body yields no value" type.span)

/-- The resolver of programs on numbers. -/
def numeric : Resolver where
  valueType := numericType
  param := annotated numericType
  signature prototype found := do
    let params ← prototype.params.mapM (annotated numericType)
    let results ← checkedResults prototype.result found
    return ⟨params, results⟩

/-! ## Resolvers from a table -/

/-- A type has the meaning that the table gives its name. -/
def tableType (types : String → Option ValueType) (type : TypeRef) :
    Except CompileError ValueType :=
  match types type.name.name with
  | some found => .ok found
  | none => .error (.typeMismatch s!"no such type '{type.name.name}'" type.span)

/-- The resolver of a table of types.  Fixed parameters or results stand in every signature in
place of those that the function has. -/
def ofTable (types : String → Option ValueType) (params results : Option (List ValueType)) :
    Resolver where
  valueType := tableType types
  param := annotated (tableType types)
  signature prototype found := do
    let params ← match params with
      | some params => pure params
      | none => prototype.params.mapM (annotated (tableType types))
    let results ← match results, prototype.result with
      | some results, _ => pure results
      | none, some type => ([·]) <$> tableType types type
      | none, none => pure found.toList
    return ⟨params, results⟩

end Resolver

end WasmCodegen
