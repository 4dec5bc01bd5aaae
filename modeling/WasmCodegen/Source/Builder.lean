import WasmCodegen.Source.Tree

/-!
# Building source trees

A front end that has no source text builds its trees here.  The builder hands out spans, each on
a line of its own, so that messages about two nodes can be told apart (`Builder.fresh`).  Every
constructor takes the span of its node, if the caller knows it, and else draws a fresh one; the
parts of a node are built before the node draws its span.

A binary expression needs no span from the supply: it covers its operands (`Expr.combine?`).
Where that span does not exist there is no tree, so building is partial: the builder is a state
monad over `Option`, whose state is the next unused line.
-/

namespace WasmCodegen

/-- The binary expression over two operands.  Its span is the join of theirs. -/
def Expr.combine? (left : Expr) (op : BinaryOp) (right : Expr) : Option Expr := do
  let span ← left.span.join? right.span
  some (.binary left op right span)

/-- The state is the next line that no span has taken. -/
abbrev Builder := StateT UInt32 Option

namespace Builder

/-- The supply before any span is drawn. -/
def firstLine : UInt32 := 1

/-- The span on a line, as the supply gives it. -/
def spanAt (line : UInt32) : Span := ⟨line, 1, 1⟩

/-- A span on the next unused line. -/
def fresh : Builder Span := do
  let line ← get
  let next ← (Span.addWords? line 1 : Option UInt32)
  set next
  return spanAt line

/-- The given span, or a fresh one. -/
def spanOr : Option Span → Builder Span
  | some span => pure span
  | none => fresh

/-- A name. -/
def ident (name : String) (span : Option Span) : Builder Ident :=
  return ⟨name, ← spanOr span⟩

/-- A type annotation. -/
def typeRef (name : String) (span : Option Span) : Builder TypeRef :=
  return .named (← ident name span)

/-! ## Expressions -/

/-- A literal. -/
def literal (value : Literal) (span : Option Span) : Builder Expr :=
  return .literal value (← spanOr span)

/-- A variable.  The node and the name in it share one span. -/
def path (name : String) (span : Option Span) : Builder Expr := do
  let name ← ident name span
  return .path name name.span

/-- A binary expression, which by itself covers its operands. -/
def binary (left : Expr) (op : BinaryOp) (right : Expr) : Option Span → Builder Expr
  | some span => return .binary left op right span
  | none => (left.combine? op right : Option Expr)

/-- A unary expression. -/
def unary (op : UnaryOp) (operand : Expr) (span : Option Span) : Builder Expr :=
  return .unary op operand (← spanOr span)

/-- A block. -/
def block (stmts : List Stmt) (span : Option Span) : Builder Block :=
  return ⟨stmts, ← spanOr span⟩

/-- A call. -/
def call (callee : Expr) (args : List Expr) (span : Option Span) : Builder Expr :=
  return .call callee args (← spanOr span)

/-- An array. -/
def array (elements : List Expr) (span : Option Span) : Builder Expr :=
  return .array elements (← spanOr span)

/-- An element of an array. -/
def index (object position : Expr) (span : Option Span) : Builder Expr :=
  return .index object position (← spanOr span)

/-- A pattern that takes an array apart, with a name for the elements left over if it has one. -/
def arrayPattern (elements : List String) (rest : Option String) (span : Option Span) :
    Builder Expr := do
  let elements ← elements.mapM (ident · none)
  let rest ← rest.mapM (ident · none)
  return .arrayPattern elements rest (← spanOr span)

/-- A member of an object. -/
def member (object : Expr) (field : String) (span : Option Span) : Builder Expr := do
  let field ← ident field none
  return .member object field (← spanOr span)

/-- A new object of a class. -/
def construct (className : String) (args : List Expr) (span : Option Span) : Builder Expr := do
  let className ← ident className none
  return .construct className args (← spanOr span)

/-! ## Statements and declarations -/

/-- An expression as a statement, which by itself covers the expression. -/
def exprStmt (value : Expr) (span : Option Span) : Stmt :=
  .expr value (span.getD value.span)

/-- A name as it is declared, with its annotation: the name, the annotation's name, and the span
of each if it is known. -/
structure Declared where
  name : String
  nameSpan : Option Span := none
  type : Option String := none
  typeSpan : Option Span := none

/-- The name and the annotation of a declaration. -/
def declared (d : Declared) : Builder (Ident × Option TypeRef) := do
  let name ← ident d.name d.nameSpan
  let type ← d.type.mapM (typeRef · d.typeSpan)
  return (name, type)

/-- A variable declaration, which by itself covers the name. -/
def varDecl (d : Declared) (init : Option Expr) (mutable : Bool) (span : Option Span) :
    Builder VarDecl := do
  let (name, type) ← declared d
  return ⟨name, type, init, mutable, span.getD name.span⟩

/-- A parameter, which covers its name. -/
def param (d : Declared) : Builder Param := do
  let (name, type) ← declared d
  return ⟨name, type, name.span⟩

/-- The parameters and the result of a function. -/
def prototype (params : List Declared) (result : Option String) (resultSpan : Option Span) :
    Builder Prototype := do
  let params ← params.mapM param
  let result ← result.mapM (typeRef · resultSpan)
  return ⟨params, result, ← fresh⟩

/-- A function over a finished body, which by itself covers its name. -/
def functionDecl (name : String) (nameSpan : Option Span) (params : List Declared)
    (result : Option String) (resultSpan : Option Span) (body : Block) (span : Option Span) :
    Builder FunctionDecl := do
  let name ← ident name nameSpan
  let prototype ← prototype params result resultSpan
  return ⟨name, prototype, body, span.getD name.span⟩

/-- A branch. -/
def branch (condition : Expr) (thenBlock : Block) (elseBlock : Option Block)
    (span : Option Span) : Builder Stmt :=
  return .branch condition thenBlock elseBlock (← spanOr span)

/-- A loop. -/
def loop (binding : String) (iterable : Expr) (body : Block) (span : Option Span) :
    Builder Stmt := do
  let binding ← ident binding none
  return .loop binding iterable body (← spanOr span)

/-- A statement that leaves the loop around it. -/
def breakLoop (span : Option Span) : Builder Stmt :=
  return .breakLoop (← spanOr span)

/-- A statement that ends the function, with a value if it gives one back. -/
def returnValue (value : Option Expr) (span : Option Span) : Builder Stmt :=
  return .returnValue value (← spanOr span)

/-- A class over finished fields and methods. -/
def classDecl (name : String) (implements : List String) (fields : List VarDecl)
    (methods : List FunctionDecl) (span : Option Span) : Builder Stmt := do
  let name ← ident name none
  let implements ← implements.mapM (ident · none)
  return .classDecl ⟨name, implements, fields, methods, ← spanOr span⟩

/-- A method of an interface, which covers its name. -/
def interfaceMethod (name : String) (params : List Declared) (result : Option String)
    (resultSpan : Option Span) : Builder InterfaceMethod := do
  let name ← ident name none
  let prototype ← prototype params result resultSpan
  return ⟨name, prototype, name.span⟩

/-- An interface over finished methods. -/
def interfaceDecl (name : String) (methods : List InterfaceMethod) (span : Option Span) :
    Builder Stmt := do
  let name ← ident name none
  return .interfaceDecl name methods (← spanOr span)

end Builder

end WasmCodegen
