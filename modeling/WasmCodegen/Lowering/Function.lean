import WasmCodegen.Lowering.Body

/-!
# Lowering functions

A function declaration is lowered on its own (`FunctionDecl.lower`): parameters take the first
slots, the body is lowered in the scope of the parameters, and the resolver gives the signature.
The result still carries its signature; it gets a place in a module's signature table when it is
added to the module.
-/

namespace WasmCodegen

/-- A function that is lowered and not yet part of a module. -/
structure LoweredFunction where
  name : String
  signature : Signature
  paramCount : Nat
  /-- The types of the slots, parameters first. -/
  locals : Array ValueType
  body : List Instruction
  span : Span

namespace Lowering

/-- Declares the parameters in order and gives their types. -/
def lowerParams (ctx : Context) : List Param → Lowering (List ValueType)
  | [] => pure []
  | p :: rest => do
    let type ← ofExcept (ctx.resolver.param p)
    let _ ← declareParam ctx p.name.name type p.name.span
    return type :: (← lowerParams ctx rest)

/-- Lowers a declaration and gives its signature, whose parameters have to be the declared
ones. -/
def lowerDecl (ctx : Context) (decl : FunctionDecl) : Lowering Signature := do
  let params ← lowerParams ctx decl.prototype.params
  let result ← lowerStmts ctx decl.body.stmts
  let signature ← ofExcept (ctx.resolver.signature decl.prototype result)
  if signature.params = params then
    return signature
  else
    throw (.internal <|
      s!"resolver produced params {ValueType.labels signature.params} for '{decl.name.name}' " ++
        s!"but slots were declared as {ValueType.labels params}")

end Lowering

/-- What the lowering of a declaration may consult. -/
def FunctionDecl.context (decl : FunctionDecl) (resolver : Resolver) (maxLocals : Nat) : Context :=
  ⟨decl.name.name, maxLocals, resolver⟩

/-- Lowers a function declaration, with at most `maxLocals` locals. -/
def FunctionDecl.lower (resolver : Resolver) (maxLocals : Nat) (decl : FunctionDecl) :
    Except CompileError LoweredFunction :=
  match Lowering.lowerDecl (decl.context resolver maxLocals) decl {} with
  | .ok signature frame =>
    .ok {
      name := decl.name.name
      signature
      paramCount := decl.prototype.params.length
      locals := frame.scopes.slots
      body := (frame.code.push .endSeq).toList
      span := decl.span }
  | .error e _ => .error e

end WasmCodegen
