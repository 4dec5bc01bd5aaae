import WasmCodegen.Proofs.LoweringRules
import WasmCodegen.Proofs.Value

/-!
# What a source program means

Function bodies are evaluated in a lexical environment, which gives each name in sight its value.
There is no assignment: an environment only grows, at the front, and a block that is left takes
its names with it because evaluation goes on in the environment outside.

Evaluation is a total function on trees.  It ends with a value or without one (`Expr.eval` gives
`some` or `none`), it traps, or it takes a misstep, as on a construct that has no meaning.
Nothing here depends on how programs are lowered.
-/

namespace WasmCodegen

/-- The values of the names in sight. -/
def Environment := String → Option Value

namespace Environment

/-- No name in sight. -/
def empty : Environment := fun _ => none

/-- Puts a name in sight, in front of any other variable of that name. -/
def bind (env : Environment) (name : String) (value : Value) : Environment :=
  fun other => if name = other then some value else env other

/-- Puts parameters in sight, each with its argument. -/
def bindParams (env : Environment) : List Param → List Value → Environment
  | p :: params, arg :: args => (env.bind p.name.name arg).bindParams params args
  | _, _ => env

end Environment

/-- The word that an operand has to be. -/
def operand : Option Value → Except Stop Int32
  | some (.i32 n) => .ok n
  | _ => .error (.wrong .typeMismatch)

/-- The value that an initializer has to have. -/
def initialValue : Option Value → Except Stop Value
  | some value => .ok value
  | none => .error (.wrong .typeMismatch)

/-- The value of a variable that is declared without one: the zero of its type. -/
def Resolver.zeroOf (resolver : Resolver) (type : Option TypeRef) : Except Stop Value :=
  match resolver.typeOr .numeric type with
  | .ok type => .ok (.zero type)
  | .error _ => .error (.wrong .noMeaning)

mutual

/-- The value of an expression, if it has one. -/
def Expr.eval (resolver : Resolver) (env : Environment) : Expr → Except Stop (Option Value)
  | .literal (.int value) _ =>
    if Int32.minValue.toInt ≤ value ∧ value ≤ Int32.maxValue.toInt then
      .ok (some (.i32 (Int32.ofInt value)))
    else
      .error (.wrong .noMeaning)
  | .path ident _ =>
    match env ident.name with
    | some value => .ok (some value)
    | none => .error (.wrong .unboundName)
  | .binary left op right _ => do
    let a ← operand (← left.eval resolver env)
    let b ← operand (← right.eval resolver env)
    return some (.i32 (← op.meaning a b))
  | .block ⟨stmts, _⟩ => evalStmts resolver env stmts
  | _ => .error (.wrong .noMeaning)

/-- The value of a list of statements: that of the last, if it is an expression.  A variable is in
sight of the statements that follow its declaration, and not of its own initializer. -/
def evalStmts (resolver : Resolver) (env : Environment) :
    List Stmt → Except Stop (Option Value)
  | [] => .ok none
  | [.expr e _] => e.eval resolver env
  | .expr e _ :: rest => do
    let _ ← e.eval resolver env
    evalStmts resolver env rest
  | .varDecl ⟨name, _, some value, _, _⟩ :: rest => do
    let v ← initialValue (← value.eval resolver env)
    evalStmts resolver (env.bind name.name v) rest
  | .varDecl ⟨name, type, none, _, _⟩ :: rest => do
    let v ← resolver.zeroOf type
    evalStmts resolver (env.bind name.name v) rest
  | _ :: _ => .error (.wrong .noMeaning)

end

/-- The value of a call: that of the body, where the parameters have the arguments as values. -/
def FunctionDecl.eval (resolver : Resolver) (decl : FunctionDecl) (args : List Value) :
    Except Stop (Option Value) :=
  evalStmts resolver (Environment.empty.bindParams decl.prototype.params args) decl.body.stmts

end WasmCodegen
