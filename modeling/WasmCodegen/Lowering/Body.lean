import WasmCodegen.Lowering.Frame

/-!
# Lowering expressions and statements

An expression is lowered to instructions that leave its value on the stack; the step gives the
type of that value, or `none` for an expression that yields no value.  Operands come before their
operator.  A block runs on a stack of its own and yields what its last statement yields; the
value of any other expression statement is dropped.

A variable's initial value is lowered before the variable is declared, so it does not see the
variable.

Checks are made in the order in which a reader meets them, and the first that fails ends the
lowering of the function.
-/

namespace WasmCodegen

/-- The instruction of a source operator, if the operator is arithmetic. -/
def BinaryOp.arith? : BinaryOp → Option ArithOp
  | .add => some .add
  | .sub => some .sub
  | .mul => some .mul
  | .div => some .divS
  | _ => none

namespace Lowering

/-- The machine word of an integer, if it has one. -/
def word? (value : Int) : Option Int32 :=
  if Int32.minValue.toInt ≤ value ∧ value ≤ Int32.maxValue.toInt then
    some (Int32.ofInt value)
  else
    none

/-- The type of an expression that has to yield a value.  `role` says what the value is for. -/
def requireValue (role : String) (span : Span) : Option ValueType → Lowering ValueType
  | some type => pure type
  | none => throw (.typeMismatch s!"{role} does not produce a value" span)

/-- Checks the type of an operand. -/
def requireNumeric (op : BinaryOp) (span : Span) (type : ValueType) : Lowering Unit :=
  if type = .numeric then
    pure ()
  else
    throw (.typeMismatch
      s!"operator '{op.symbol}' expects {ValueType.numeric.name} operands, found {type.name}" span)

/-- The type that a variable is declared with, if it has an annotation. -/
def declaredType (resolver : Resolver) : Option TypeRef → Lowering (Option ValueType)
  | some type => some <$> ofExcept (resolver.valueType type)
  | none => pure none

/-- The type of a variable: as declared, else that of its initial value, else numeric.  A declared
type and an initial value have to agree. -/
def variableType (name : String) (span : Span) :
    (declared found : Option ValueType) → Lowering ValueType
  | some declared, some found =>
    if found = declared then
      pure declared
    else
      throw (.typeMismatch
        s!"variable '{name}' is declared {declared.name} but initialized with {found.name}" span)
  | some declared, none => pure declared
  | none, some found => pure found
  | none, none => pure .numeric

mutual

/-- Lowers an expression and gives the type of its value, if it yields one. -/
def lowerExpr (ctx : Context) : Expr → Lowering (Option ValueType)
  | .literal (.int value) span => do
    match word? value with
    | some word =>
      emit (.const word)
      return some .numeric
    | none => throw (.literalOutOfRange value span)
  | .path ident span => do
    match ← lookup ident.name with
    | some binding =>
      emit (.localGet binding.slot)
      return some binding.type
    | none => throw (.unboundIdentifier ident.name span)
  | .binary left op right span => do
    match op.arith? with
    | some arith =>
      let leftType ← requireValue "left operand" left.span (← lowerExpr ctx left)
      let rightType ← requireValue "right operand" right.span (← lowerExpr ctx right)
      requireNumeric op left.span leftType
      requireNumeric op right.span rightType
      emit (.arith arith)
      return some .numeric
    | none => throw (.unsupportedOperator op.symbol span)
  | .block ⟨stmts, _⟩ => do
    enterScope
    let (result, body) ← nested (lowerStmts ctx stmts)
    leaveScope
    emit (.block result (body.push .endSeq).toList)
    return result
  | e => throw (.unsupportedConstruct e.describe e.span)

/-- Lowers a statement.  The last statement of a block yields its value; any other yields none. -/
def lowerStmt (ctx : Context) (last : Bool) : Stmt → Lowering (Option ValueType)
  | .expr value _ => do
    match ← lowerExpr ctx value with
    | some type =>
      if last then
        return some type
      else
        emit .drop
        return none
    | none => return none
  | .varDecl ⟨name, type, init, _, span⟩ => do
    let declared ← declaredType ctx.resolver type
    match init with
    | some value =>
      let found ← requireValue "initializer" value.span (← lowerExpr ctx value)
      let type ← variableType name.name span declared (some found)
      let slot ← declareLocal ctx name.name type name.span
      emit (.localSet slot)
      return none
    | none =>
      let type ← variableType name.name span declared none
      let _ ← declareLocal ctx name.name type name.span
      return none
  | .function decl => throw (.unsupportedConstruct "nested function declaration" decl.span)
  | s => throw (.unsupportedConstruct s.describe s.span)

/-- Lowers the statements of a block in the scope at hand and gives the type of the block's
value. -/
def lowerStmts (ctx : Context) : List Stmt → Lowering (Option ValueType)
  | [] => pure none
  | [s] => lowerStmt ctx true s
  | s :: rest => do
    let _ ← lowerStmt ctx false s
    lowerStmts ctx rest

end

/-- Lowers an expression that has to yield a value. -/
def lowerValue (ctx : Context) (role : String) (e : Expr) : Lowering ValueType := do
  requireValue role e.span (← lowerExpr ctx e)

end Lowering

end WasmCodegen
