import WasmCodegen.Source.Span

/-!
# Source trees

The trees that a front end hands to the code generator.  Every node carries the span of source
text it was read from.

The tree has more kinds of node than the generator lowers: unary operators, calls, arrays,
member access, object construction, classes, interfaces, branches and loops are all parsed, and
refused later with a message.  `Expr.describe` and `Stmt.describe` are the words that such a
message uses for the node.
-/

namespace WasmCodegen

/-- A name at a place in the source. -/
structure Ident where
  name : String
  span : Span
deriving DecidableEq

/-- A type annotation: a type's name, which the tree does not interpret. -/
structure TypeRef where
  name : Ident
  span : Span
deriving DecidableEq

/-- The annotation that consists of a name and covers no more than it. -/
def TypeRef.named (name : Ident) : TypeRef := ⟨name, name.span⟩

/-- A parameter of a function, with its annotation if it has one. -/
structure Param where
  name : Ident
  type : Option TypeRef
  span : Span
deriving DecidableEq

/-- What a function says about itself before its body: parameters and result. -/
structure Prototype where
  params : List Param
  result : Option TypeRef
  span : Span
deriving DecidableEq

/-! ## Operators and literals -/

/-- Operators between two operands. -/
inductive BinaryOp where
  | add
  | sub
  | mul
  | div
  | rem
  | assign
  | eq
  | and
  | or
  | bitAnd
deriving DecidableEq

/-- The spelling of the operator in source text. -/
def BinaryOp.symbol : BinaryOp → String
  | .add => "+"
  | .sub => "-"
  | .mul => "*"
  | .div => "/"
  | .rem => "%"
  | .assign => "="
  | .eq => "=="
  | .and => "&&"
  | .or => "||"
  | .bitAnd => "&"

/-- The operator of a spelling. -/
def BinaryOp.ofSymbol? : String → Option BinaryOp
  | "+" => some .add
  | "-" => some .sub
  | "*" => some .mul
  | "/" => some .div
  | "%" => some .rem
  | "=" => some .assign
  | "==" => some .eq
  | "&&" => some .and
  | "||" => some .or
  | "&" => some .bitAnd
  | _ => none

/-- Different operators are spelled differently: the spelling can be read back. -/
theorem BinaryOp.ofSymbol?_symbol (op : BinaryOp) : ofSymbol? op.symbol = some op := by
  cases op <;> rfl

theorem BinaryOp.symbol_injective : Function.Injective BinaryOp.symbol := by
  intro op op' h
  have hread : some op = some op' := by rw [← ofSymbol?_symbol, h, ofSymbol?_symbol]
  exact Option.some.inj hread

/-- Operators in front of one operand. -/
inductive UnaryOp where
  | neg
  | not
deriving DecidableEq

/-- The spelling of the operator in source text. -/
def UnaryOp.symbol : UnaryOp → String
  | .neg => "-"
  | .not => "!"

/-- The operator of a spelling. -/
def UnaryOp.ofSymbol? : String → Option UnaryOp
  | "-" => some .neg
  | "!" => some .not
  | _ => none

/-- A literal.  An integer is kept as written: whether it fits a machine word is decided when it
is lowered. -/
inductive Literal where
  | int (value : Int)
  | string (value : String)
  | bool (value : Bool)
deriving DecidableEq

/-- A method that an interface asks for. -/
structure InterfaceMethod where
  name : Ident
  prototype : Prototype
  span : Span
deriving DecidableEq

/-! ## Expressions and statements -/

mutual

/-- An expression. -/
inductive Expr where
  | literal (value : Literal) (span : Span)
  | path (ident : Ident) (span : Span)
  | binary (left : Expr) (op : BinaryOp) (right : Expr) (span : Span)
  | block (body : Block)
  | unary (op : UnaryOp) (operand : Expr) (span : Span)
  | call (callee : Expr) (args : List Expr) (span : Span)
  | array (elements : List Expr) (span : Span)
  | index (object : Expr) (position : Expr) (span : Span)
  | arrayPattern (elements : List Ident) (rest : Option Ident) (span : Span)
  | member (object : Expr) (field : Ident) (span : Span)
  | construct (className : Ident) (args : List Expr) (span : Span)

/-- A statement. -/
inductive Stmt where
  | expr (value : Expr) (span : Span)
  | varDecl (decl : VarDecl)
  | function (decl : FunctionDecl)
  | classDecl (decl : ClassDecl)
  | interfaceDecl (name : Ident) (methods : List InterfaceMethod) (span : Span)
  | branch (condition : Expr) (thenBlock : Block) (elseBlock : Option Block) (span : Span)
  | loop (binding : Ident) (iterable : Expr) (body : Block) (span : Span)
  | breakLoop (span : Span)
  | returnValue (value : Option Expr) (span : Span)

/-- Statements between braces. -/
structure Block where
  stmts : List Stmt
  span : Span

/-- The declaration of a variable, with its annotation and initial value if it has them. -/
structure VarDecl where
  name : Ident
  type : Option TypeRef
  init : Option Expr
  mutable : Bool
  span : Span

/-- The declaration of a function. -/
structure FunctionDecl where
  name : Ident
  prototype : Prototype
  body : Block
  span : Span

/-- The declaration of a class. -/
structure ClassDecl where
  name : Ident
  implements : List Ident
  fields : List VarDecl
  methods : List FunctionDecl
  span : Span

end

/-- The source text that an expression covers. -/
def Expr.span : Expr → Span
  | .literal _ span => span
  | .path _ span => span
  | .binary _ _ _ span => span
  | .block body => body.span
  | .unary _ _ span => span
  | .call _ _ span => span
  | .array _ span => span
  | .index _ _ span => span
  | .arrayPattern _ _ span => span
  | .member _ _ span => span
  | .construct _ _ span => span

/-- The kind of an expression in the words of a message. -/
def Expr.describe : Expr → String
  | .literal (.int _) _ => "integer literal"
  | .literal (.string _) _ => "string literal"
  | .literal (.bool _) _ => "boolean literal"
  | .path .. => "path expression"
  | .binary .. => "binary expression"
  | .block _ => "block expression"
  | .unary .. => "unary expression"
  | .call .. => "call expression"
  | .array .. => "array expression"
  | .index .. => "index expression"
  | .arrayPattern .. => "array pattern"
  | .member .. => "member access"
  | .construct .. => "new expression"

/-- The source text that a statement covers. -/
def Stmt.span : Stmt → Span
  | .expr _ span => span
  | .varDecl decl => decl.span
  | .function decl => decl.span
  | .classDecl decl => decl.span
  | .interfaceDecl _ _ span => span
  | .branch _ _ _ span => span
  | .loop _ _ _ span => span
  | .breakLoop span => span
  | .returnValue _ span => span

/-- The kind of a statement in the words of a message. -/
def Stmt.describe : Stmt → String
  | .expr .. => "expression statement"
  | .varDecl _ => "variable declaration"
  | .function _ => "function declaration"
  | .classDecl _ => "class declaration"
  | .interfaceDecl .. => "interface declaration"
  | .branch .. => "if statement"
  | .loop .. => "for statement"
  | .breakLoop _ => "break statement"
  | .returnValue .. => "return statement"

/-- A parsed source file: its items in order. -/
structure SourceModule where
  items : List Stmt
  span : Span := ⟨1, 1, 0⟩

/-- The function declarations among the items, in order. -/
def SourceModule.functions (source : SourceModule) : List FunctionDecl :=
  source.items.filterMap fun
    | .function decl => some decl
    | _ => none

end WasmCodegen
