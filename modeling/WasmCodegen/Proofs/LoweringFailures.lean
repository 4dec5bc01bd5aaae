import WasmCodegen.Proofs.WellFormed

/-!
# How lowering fails

`LowersExpr` and its companions describe the runs of lowering that succeed.  This file describes
the others: `FailsExpr`, `FailsStmt` and `FailsStmts` have a rule for every check that can end a
run, and one for every place in the source where a part that fails makes the whole fail.  A rule
says which error is reported, which code has been emitted by then, how many blocks are still open,
and what the scope table looks like.  `Lowering.failsExpr_of_lowerExpr` proves that a run that does
not succeed follows the rules, and `FunctionDecl.fails_of_lower` says the same of a whole function.

Two checks have no rule, because no run ever fails there.  The scope of a block can always be left
once its statements are lowered, and a parameter always finds as many slots as names in sight.  The
proofs that the rules are complete are where this is used.

A block is lowered into code of its own, so the code of a block that fails is lost; what has been
emitted around it stays.
-/

namespace WasmCodegen

/-! ## Errors -/

namespace CompileError

/-- An expression yields no value where one is needed. -/
def noValue (role : String) (span : Span) : CompileError :=
  .typeMismatch s!"{role} does not produce a value" span

/-- An operand has a type on which there is no arithmetic. -/
def wrongOperand (op : BinaryOp) (type : ValueType) (span : Span) : CompileError :=
  .typeMismatch
    s!"operator '{op.symbol}' expects {ValueType.numeric.name} operands, found {type.name}" span

/-- An initial value does not have the type that the variable is declared with. -/
def wrongInitialValue (name : String) (declared found : ValueType) (span : Span) : CompileError :=
  .typeMismatch
    s!"variable '{name}' is declared {declared.name} but initialized with {found.name}" span

/-- A signature does not begin with the parameters that were declared. -/
def wrongParams (function : String) (found declared : List ValueType) : CompileError :=
  .internal <|
    s!"resolver produced params {ValueType.labels found} for '{function}' " ++
      s!"but slots were declared as {ValueType.labels declared}"

end CompileError

/-- Do expressions of this kind have a lowering? -/
def Expr.hasLowering : Expr → Bool
  | .literal (.int _) _ | .path _ _ | .binary _ _ _ _ | .block _ => true
  | _ => false

/-- Do statements of this kind have a lowering? -/
def Stmt.hasLowering : Stmt → Bool
  | .expr _ _ | .varDecl _ => true
  | _ => false

/-- What a message calls a statement that has no lowering. -/
def Stmt.refusal : Stmt → String
  | .function _ => "nested function declaration"
  | s => s.describe

/-- `table.Refuses ctx name error`: the name cannot be declared here, for the reason that the error
gives.  The limit on the locals comes first. -/
inductive ScopeTable.Refuses (table : ScopeTable) (ctx : Context) (name : Ident) :
    CompileError → Prop
  | limit (hlimit : ctx.maxLocals ≤ table.slotCount) :
      Refuses table ctx name (.tooManyLocals ctx.function ctx.maxLocals name.span)
  | duplicate {first : Binding} (hlimit : table.slotCount < ctx.maxLocals)
      (hscope : table.inScope? name.name = some first) :
      Refuses table ctx name (.duplicateBinding name.name first.span name.span)

/-! ## The rules -/

mutual

/-- `FailsExpr ctx table e error code blocks table'`: lowering the expression ends with `error`.
By then `code` has been emitted, `blocks` blocks are open that were not open before, and the scope
table has changed from `table` to `table'`. -/
inductive FailsExpr (ctx : Context) :
    ScopeTable → Expr → CompileError → List Instruction → Nat → ScopeTable → Prop
  | literal {table : ScopeTable} {value : Int} {span : Span}
      (hword : Lowering.word? value = none) :
      FailsExpr ctx table (.literal (.int value) span) (.literalOutOfRange value span) [] 0 table
  | path {table : ScopeTable} {ident : Ident} {span : Span}
      (hlookup : table.lookup ident.name = none) :
      FailsExpr ctx table (.path ident span) (.unboundIdentifier ident.name span) [] 0 table
  | operator {table : ScopeTable} {left right : Expr} {op : BinaryOp} {span : Span}
      (harith : op.arith? = none) :
      FailsExpr ctx table (.binary left op right span) (.unsupportedOperator op.symbol span) [] 0
        table
  | left {table table' : ScopeTable} {left right : Expr} {op : BinaryOp} {span : Span}
      {arith : ArithOp} {error : CompileError} {code : List Instruction} {blocks : Nat}
      (harith : op.arith? = some arith)
      (hleft : FailsExpr ctx table left error code blocks table') :
      FailsExpr ctx table (.binary left op right span) error code blocks table'
  | leftValue {table table' : ScopeTable} {left right : Expr} {op : BinaryOp} {span : Span}
      {arith : ArithOp} {code : List Instruction} (harith : op.arith? = some arith)
      (hleft : LowersExpr ctx table left code none table') :
      FailsExpr ctx table (.binary left op right span) (.noValue "left operand" left.span) code 0
        table'
  | right {table tableLeft table' : ScopeTable} {left right : Expr} {op : BinaryOp} {span : Span}
      {arith : ArithOp} {error : CompileError} {codeLeft codeRight : List Instruction}
      {blocks : Nat} {typeLeft : ValueType} (harith : op.arith? = some arith)
      (hleft : LowersExpr ctx table left codeLeft (some typeLeft) tableLeft)
      (hright : FailsExpr ctx tableLeft right error codeRight blocks table') :
      FailsExpr ctx table (.binary left op right span) error (codeLeft ++ codeRight) blocks table'
  | rightValue {table tableLeft table' : ScopeTable} {left right : Expr} {op : BinaryOp}
      {span : Span} {arith : ArithOp} {codeLeft codeRight : List Instruction} {typeLeft : ValueType}
      (harith : op.arith? = some arith)
      (hleft : LowersExpr ctx table left codeLeft (some typeLeft) tableLeft)
      (hright : LowersExpr ctx tableLeft right codeRight none table') :
      FailsExpr ctx table (.binary left op right span) (.noValue "right operand" right.span)
        (codeLeft ++ codeRight) 0 table'
  | leftType {table tableLeft table' : ScopeTable} {left right : Expr} {op : BinaryOp} {span : Span}
      {arith : ArithOp} {codeLeft codeRight : List Instruction} {typeLeft typeRight : ValueType}
      (harith : op.arith? = some arith)
      (hleft : LowersExpr ctx table left codeLeft (some typeLeft) tableLeft)
      (hright : LowersExpr ctx tableLeft right codeRight (some typeRight) table')
      (htype : typeLeft ≠ .numeric) :
      FailsExpr ctx table (.binary left op right span) (.wrongOperand op typeLeft left.span)
        (codeLeft ++ codeRight) 0 table'
  | rightType {table tableLeft table' : ScopeTable} {left right : Expr} {op : BinaryOp}
      {span : Span} {arith : ArithOp} {codeLeft codeRight : List Instruction}
      {typeRight : ValueType} (harith : op.arith? = some arith)
      (hleft : LowersExpr ctx table left codeLeft (some .numeric) tableLeft)
      (hright : LowersExpr ctx tableLeft right codeRight (some typeRight) table')
      (htype : typeRight ≠ .numeric) :
      FailsExpr ctx table (.binary left op right span) (.wrongOperand op typeRight right.span)
        (codeLeft ++ codeRight) 0 table'
  | block {table table' : ScopeTable} {stmts : List Stmt} {span : Span} {error : CompileError}
      {code : List Instruction} {blocks : Nat}
      (hstmts : FailsStmts ctx table.enter stmts error code blocks table') :
      FailsExpr ctx table (.block ⟨stmts, span⟩) error [] (blocks + 1) table'
  | unsupported {table : ScopeTable} {e : Expr} (hkind : e.hasLowering = false) :
      FailsExpr ctx table e (.unsupportedConstruct e.describe e.span) [] 0 table

/-- `FailsStmt ctx table s error code blocks table'`: the same for a statement, be it the last of
its block or not. -/
inductive FailsStmt (ctx : Context) :
    ScopeTable → Stmt → CompileError → List Instruction → Nat → ScopeTable → Prop
  | expr {table table' : ScopeTable} {e : Expr} {span : Span} {error : CompileError}
      {code : List Instruction} {blocks : Nat}
      (he : FailsExpr ctx table e error code blocks table') :
      FailsStmt ctx table (.expr e span) error code blocks table'
  | typeRef {table : ScopeTable} {name : Ident} {given : TypeRef} {init : Option Expr}
      {mutable : Bool} {span : Span} {error : CompileError}
      (htype : ctx.resolver.valueType given = .error error) :
      FailsStmt ctx table (.varDecl ⟨name, some given, init, mutable, span⟩) error [] 0 table
  | value {table table' : ScopeTable} {name : Ident} {type : Option TypeRef} {value : Expr}
      {mutable : Bool} {span : Span} {declared : ValueType} {error : CompileError}
      {code : List Instruction} {blocks : Nat}
      (htype : ctx.resolver.typeOr .numeric type = .ok declared)
      (hvalue : FailsExpr ctx table value error code blocks table') :
      FailsStmt ctx table (.varDecl ⟨name, type, some value, mutable, span⟩) error code blocks
        table'
  | noValue {table table' : ScopeTable} {name : Ident} {type : Option TypeRef} {value : Expr}
      {mutable : Bool} {span : Span} {declared : ValueType} {code : List Instruction}
      (htype : ctx.resolver.typeOr .numeric type = .ok declared)
      (hvalue : LowersExpr ctx table value code none table') :
      FailsStmt ctx table (.varDecl ⟨name, type, some value, mutable, span⟩)
        (.noValue "initializer" value.span) code 0 table'
  | wrongValue {table table' : ScopeTable} {name : Ident} {given : TypeRef} {value : Expr}
      {mutable : Bool} {span : Span} {declared found : ValueType} {code : List Instruction}
      (htype : ctx.resolver.valueType given = .ok declared)
      (hvalue : LowersExpr ctx table value code (some found) table') (hne : found ≠ declared) :
      FailsStmt ctx table (.varDecl ⟨name, some given, some value, mutable, span⟩)
        (.wrongInitialValue name.name declared found span) code 0 table'
  | init {table table' : ScopeTable} {name : Ident} {type : Option TypeRef} {value : Expr}
      {mutable : Bool} {span : Span} {found : ValueType} {error : CompileError}
      {code : List Instruction} (hvalue : LowersExpr ctx table value code (some found) table')
      (htype : ctx.resolver.typeOr found type = .ok found)
      (hrefuses : table'.Refuses ctx name error) :
      FailsStmt ctx table (.varDecl ⟨name, type, some value, mutable, span⟩) error code 0 table'
  | bare {table : ScopeTable} {name : Ident} {type : Option TypeRef} {mutable : Bool} {span : Span}
      {declared : ValueType} {error : CompileError}
      (htype : ctx.resolver.typeOr .numeric type = .ok declared)
      (hrefuses : table.Refuses ctx name error) :
      FailsStmt ctx table (.varDecl ⟨name, type, none, mutable, span⟩) error [] 0 table
  | unsupported {table : ScopeTable} {s : Stmt} (hkind : s.hasLowering = false) :
      FailsStmt ctx table s (.unsupportedConstruct s.refusal s.span) [] 0 table

/-- `FailsStmts ctx table stmts error code blocks table'`: the same for the statements of a block,
in the scope at hand.  The first statement that fails ends the run. -/
inductive FailsStmts (ctx : Context) :
    ScopeTable → List Stmt → CompileError → List Instruction → Nat → ScopeTable → Prop
  | here {table table' : ScopeTable} {s : Stmt} {rest : List Stmt} {error : CompileError}
      {code : List Instruction} {blocks : Nat}
      (hs : FailsStmt ctx table s error code blocks table') :
      FailsStmts ctx table (s :: rest) error code blocks table'
  | later {table tableNext table' : ScopeTable} {s : Stmt} {rest : List Stmt}
      {error : CompileError} {code codeRest : List Instruction} {blocks : Nat}
      (hs : LowersStmt ctx table s code tableNext)
      (hrest : FailsStmts ctx tableNext rest error codeRest blocks table') :
      FailsStmts ctx table (s :: rest) error (code ++ codeRest) blocks table'

end

/-- `FailsParams ctx table params error`: declaring the parameters ends with `error`. -/
inductive FailsParams (ctx : Context) : ScopeTable → List Param → CompileError → Prop
  | type {table : ScopeTable} {p : Param} {rest : List Param} {error : CompileError}
      (htype : ctx.resolver.param p = .error error) : FailsParams ctx table (p :: rest) error
  | refused {table : ScopeTable} {p : Param} {rest : List Param} {type : ValueType}
      {error : CompileError} (htype : ctx.resolver.param p = .ok type)
      (hrefuses : table.Refuses ctx p.name error) : FailsParams ctx table (p :: rest) error
  | later {table : ScopeTable} {p : Param} {rest : List Param} {type : ValueType}
      {error : CompileError} (htype : ctx.resolver.param p = .ok type)
      (haccepts : table.Accepts ctx.maxLocals p.name.name) (hparam : table.acceptsParam = true)
      (hrest : FailsParams ctx (table.bind p.name.name type p.name.span) rest error) :
      FailsParams ctx table (p :: rest) error

/-- `decl.Fails resolver maxLocals error`: lowering the declaration ends with `error`. -/
inductive FunctionDecl.Fails (resolver : Resolver) (maxLocals : Nat) (decl : FunctionDecl) :
    CompileError → Prop
  | params {error : CompileError}
      (hparams : FailsParams (decl.context resolver maxLocals) .empty decl.prototype.params error) :
      Fails resolver maxLocals decl error
  | body {types : List ValueType} {tableParams table : ScopeTable} {error : CompileError}
      {code : List Instruction} {blocks : Nat}
      (hparams : LowersParams (decl.context resolver maxLocals) .empty decl.prototype.params types
        tableParams)
      (hbody : FailsStmts (decl.context resolver maxLocals) tableParams decl.body.stmts error code
        blocks table) :
      Fails resolver maxLocals decl error
  | signature {types : List ValueType} {tableParams table : ScopeTable} {code : List Instruction}
      {result : Option ValueType} {error : CompileError}
      (hparams : LowersParams (decl.context resolver maxLocals) .empty decl.prototype.params types
        tableParams)
      (hbody : LowersStmts (decl.context resolver maxLocals) tableParams decl.body.stmts code result
        table)
      (hsignature : resolver.signature decl.prototype result = .error error) :
      Fails resolver maxLocals decl error
  | wrongParams {types : List ValueType} {tableParams table : ScopeTable} {code : List Instruction}
      {result : Option ValueType} {signature : Signature}
      (hparams : LowersParams (decl.context resolver maxLocals) .empty decl.prototype.params types
        tableParams)
      (hbody : LowersStmts (decl.context resolver maxLocals) tableParams decl.body.stmts code result
        table)
      (hsignature : resolver.signature decl.prototype result = .ok signature)
      (hne : signature.params ≠ types) :
      Fails resolver maxLocals decl (.wrongParams decl.name.name signature.params types)

/-! ## Steps that fail

One lemma for each operation: when it fails, with which error, and what it leaves of the state. -/

theorem ScopeTable.declare_eq_error {name : String} {type : ValueType} {span : Span}
    {table table' : ScopeTable} {error : CompileError}
    (h : declare name type span table = .error error table') :
    table' = table ∧ ∃ first, table.inScope? name = some first ∧
      error = .duplicateBinding name first.span span := by
  rw [declare_apply] at h
  cases hscope : table.inScope? name with
  | none => rw [hscope] at h; cases h
  | some first => rw [hscope] at h; cases h; exact ⟨rfl, first, rfl, rfl⟩

/-- A table accepts parameters all the way: in the function's own scope a name that is free there is
not in sight at all. -/
theorem ScopeTable.ShowsTypes.acceptsParam_bind {table : ScopeTable} {scopes : Scopes ValueType}
    (h : table.ShowsTypes scopes) (hparam : table.acceptsParam = true) {name : String}
    (hfresh : table.inScope? name = none) (type : ValueType) (span : Span) :
    (table.bind name type span).acceptsParam = true := by
  have hdepth : table.depth = 0 := by
    rw [ScopeTable.acceptsParam, Bool.and_eq_true, beq_iff_eq] at hparam
    exact hparam.1
  have hnew := h.lookup_eq_none hdepth ((h.fresh_iff name).1 hfresh)
  exact ScopeTable.acceptsParam_bind hparam hnew type span

namespace Lowering

variable {frame frame' : Frame} {error : CompileError}

/-- Two steps fail if the first does, or if the second does after it. -/
theorem bind_eq_error {α β : Type} {x : Lowering α} {g : α → Lowering β}
    (h : (x >>= g) frame = .error error frame') :
    x frame = .error error frame' ∨
      ∃ a between, x frame = .ok a between ∧ g a between = .error error frame' := by
  change EStateM.bind x g frame = .error error frame' at h
  unfold EStateM.bind at h
  split at h
  · rename_i a between hx
    exact .inr ⟨a, between, hx, h⟩
  · rename_i hx
    cases h
    exact .inl hx

theorem bind_of_eq_error {α β : Type} {x : Lowering α} (h : x frame = .error error frame')
    (g : α → Lowering β) : (x >>= g) frame = .error error frame' := by
  change EStateM.bind x g frame = .error error frame'
  rw [EStateM.bind, h]

theorem map_eq_error {α β : Type} {x : Lowering α} {g : α → β}
    (h : (g <$> x) frame = .error error frame') : x frame = .error error frame' := by
  change EStateM.map g x frame = .error error frame' at h
  unfold EStateM.map at h
  split at h
  · cases h
  · rename_i hx
    cases h
    exact hx

theorem ofExcept_eq_error {α : Type} {x : Except CompileError α}
    (h : ofExcept x frame = .error error frame') : x = .error error ∧ frame' = frame := by
  cases x with
  | error e => cases h; exact ⟨rfl, rfl⟩
  | ok a => cases h

theorem onScopes_eq_error {α : Type} {action : ScopeTable.Action α}
    (h : onScopes action frame = .error error frame') :
    ∃ table, action frame.scopes = .error error table ∧ frame' = ⟨table, frame.code⟩ := by
  obtain ⟨scopes, code⟩ := frame
  unfold onScopes at h
  cases haction : action scopes with
  | ok a table => simp only [haction] at h; cases h
  | error e table => simp only [haction] at h; cases h; exact ⟨table, rfl, rfl⟩

/-- What a nested step has emitted before it fails is lost. -/
theorem nested_eq_error {α : Type} {step : Lowering α}
    (h : nested step frame = .error error frame') :
    ∃ inner, step ⟨frame.scopes, #[]⟩ = .error error inner ∧
      frame' = ⟨inner.scopes, frame.code⟩ := by
  obtain ⟨scopes, outer⟩ := frame
  unfold nested at h
  cases hstep : step ⟨scopes, #[]⟩ with
  | ok a reached => simp only [hstep] at h; cases h
  | error e reached => simp only [hstep] at h; cases h; exact ⟨reached, rfl, rfl⟩

/-- A scope cannot be left if it is the function's own, and then nothing changes. -/
theorem leaveScope_eq_error (h : leaveScope frame = .error error frame') :
    frame.scopes.leave? = none ∧ frame' = frame := by
  obtain ⟨table, hleave, rfl⟩ := onScopes_eq_error h
  rw [ScopeTable.leave_apply] at hleave
  cases hnone : frame.scopes.leave? with
  | some outer => rw [hnone] at hleave; cases hleave
  | none => rw [hnone] at hleave; cases hleave; exact ⟨rfl, rfl⟩

theorem reserveLocal_of_le {ctx : Context} {span : Span}
    (h : ctx.maxLocals ≤ frame.scopes.slotCount) :
    reserveLocal ctx span frame =
      .error (.tooManyLocals ctx.function ctx.maxLocals span) frame := by
  show (if ctx.maxLocals ≤ frame.scopes.slotCount then
    throw (.tooManyLocals ctx.function ctx.maxLocals span) else pure () : Lowering Unit) frame = _
  rw [if_pos h]
  rfl

theorem reserveLocal_eq_error {ctx : Context} {span : Span}
    (h : reserveLocal ctx span frame = .error error frame') :
    ctx.maxLocals ≤ frame.scopes.slotCount ∧
      error = .tooManyLocals ctx.function ctx.maxLocals span ∧ frame' = frame := by
  by_cases hlimit : ctx.maxLocals ≤ frame.scopes.slotCount
  · rw [reserveLocal_of_le hlimit] at h
    cases h
    exact ⟨hlimit, rfl, rfl⟩
  · rw [reserveLocal_of_lt (Nat.lt_of_not_le hlimit)] at h
    cases h

/-- A declaration fails as the table says, and changes nothing. -/
theorem declareLocal_eq_error {ctx : Context} (name : Ident) {type : ValueType}
    (h : declareLocal ctx name.name type name.span frame = .error error frame') :
    frame.scopes.Refuses ctx name error ∧ frame' = frame := by
  obtain hreserve | ⟨_, _, hreserve, hscopes⟩ := bind_eq_error h
  · obtain ⟨hlimit, rfl, rfl⟩ := reserveLocal_eq_error hreserve
    exact ⟨.limit hlimit, rfl⟩
  · obtain ⟨hlimit, rfl⟩ := reserveLocal_eq_ok hreserve
    obtain ⟨table, hdeclare, rfl⟩ := onScopes_eq_error hscopes
    obtain ⟨rfl, first, hscope, rfl⟩ := ScopeTable.declare_eq_error hdeclare
    exact ⟨.duplicate hlimit hscope, rfl⟩

/-- A parameter is refused like any variable, or because it comes too late. -/
theorem declareParam_eq_error {ctx : Context} (name : Ident) {type : ValueType}
    (h : declareParam ctx name.name type name.span frame = .error error frame') :
    (frame.scopes.Refuses ctx name error ∨ frame.scopes.acceptsParam = false) ∧
      frame' = frame := by
  obtain hreserve | ⟨_, reserved, hreserve, hscopes⟩ := bind_eq_error h
  · obtain ⟨hlimit, rfl, rfl⟩ := reserveLocal_eq_error hreserve
    exact ⟨.inl (.limit hlimit), rfl⟩
  · obtain ⟨hlimit, rfl⟩ := reserveLocal_eq_ok hreserve
    obtain ⟨table, hdeclare, rfl⟩ := onScopes_eq_error hscopes
    rw [ScopeTable.declareParam_apply] at hdeclare
    by_cases hparam : reserved.scopes.acceptsParam = true
    · rw [if_pos hparam] at hdeclare
      obtain ⟨rfl, first, hscope, rfl⟩ := ScopeTable.declare_eq_error hdeclare
      exact ⟨.inl (.duplicate hlimit hscope), rfl⟩
    · rw [if_neg hparam] at hdeclare
      cases hdeclare
      exact ⟨.inr (Bool.eq_false_iff.2 hparam), rfl⟩

theorem requireValue_eq_error {role : String} {span : Span} {found : Option ValueType}
    (h : requireValue role span found frame = .error error frame') :
    found = none ∧ error = .noValue role span ∧ frame' = frame := by
  cases found with
  | none => cases h; exact ⟨rfl, rfl, rfl⟩
  | some found => cases h

theorem requireNumeric_eq_error {op : BinaryOp} {span : Span} {type : ValueType}
    (h : requireNumeric op span type frame = .error error frame') :
    type ≠ .numeric ∧ error = .wrongOperand op type span ∧ frame' = frame := by
  unfold requireNumeric at h
  by_cases htype : type = .numeric
  · rw [if_pos htype] at h
    cases h
  · rw [if_neg htype] at h
    cases h
    exact ⟨htype, rfl, rfl⟩

theorem declaredType_eq_error {resolver : Resolver} {type : Option TypeRef}
    (h : declaredType resolver type frame = .error error frame') :
    frame' = frame ∧ ∃ given, type = some given ∧ resolver.valueType given = .error error := by
  cases type with
  | none => cases h
  | some given =>
    obtain ⟨hgiven, rfl⟩ := ofExcept_eq_error (map_eq_error h)
    exact ⟨rfl, given, rfl, hgiven⟩

/-- The type of a variable is refused only if it has an annotation and an initial value, and they
differ. -/
theorem variableType_eq_error {name : String} {span : Span} {declared found : Option ValueType}
    (h : variableType name span declared found frame = .error error frame') :
    frame' = frame ∧ ∃ want value, declared = some want ∧ found = some value ∧ value ≠ want ∧
      error = .wrongInitialValue name want value span := by
  rcases declared with _ | want <;> rcases found with _ | value
  · cases h
  · cases h
  · cases h
  · by_cases hagree : value = want
    · rw [variableType, if_pos hagree] at h
      cases h
    · rw [variableType, if_neg hagree] at h
      cases h
      exact ⟨rfl, want, value, rfl, rfl, hagree, rfl⟩

/-! ## Statements -/

section Statements

variable {ctx : Context}

/-- An expression statement fails only if the expression does. -/
theorem lowerStmt_expr_eq_error {last : Bool} {e : Expr} {span : Span}
    (h : lowerStmt ctx last (.expr e span) frame = .error error frame') :
    lowerExpr ctx e frame = .error error frame' := by
  rw [lowerStmt] at h
  obtain he | ⟨found, between, -, h⟩ := bind_eq_error h
  · exact he
  · cases last <;> cases found <;> cases h

/-- A variable without initial value fails at its annotation or at its name. -/
theorem lowerStmt_bare_eq_error {last : Bool} {name : Ident} {type : Option TypeRef}
    {mutable : Bool} {span : Span}
    (h : lowerStmt ctx last (.varDecl ⟨name, type, none, mutable, span⟩) frame =
      .error error frame') :
    frame' = frame ∧
      FailsStmt ctx frame.scopes (.varDecl ⟨name, type, none, mutable, span⟩) error [] 0
        frame.scopes := by
  simp only [lowerStmt] at h
  obtain hdeclared | ⟨declared, _, hdeclared, h₁⟩ := bind_eq_error h
  · obtain ⟨rfl, given, rfl, htype⟩ := declaredType_eq_error hdeclared
    exact ⟨rfl, .typeRef htype⟩
  obtain ⟨rfl, htypeOr⟩ := declaredType_eq_ok hdeclared
  obtain hgiven | ⟨given, _, hgiven, h₂⟩ := bind_eq_error h₁
  · obtain ⟨-, _, _, -, hnone, -⟩ := variableType_eq_error hgiven
    cases hnone
  obtain ⟨-, -, rfl⟩ := variableType_eq_ok hgiven
  obtain hdeclare | ⟨slot, _, hdeclare, h₃⟩ := bind_eq_error h₂
  · obtain ⟨hrefuses, rfl⟩ := declareLocal_eq_error _ hdeclare
    exact ⟨rfl, .bare (htypeOr _) hrefuses⟩
  cases h₃

/-- A variable with an initial value fails at its annotation, in the value, or once the value is
there: because there is none, because its type is not the declared one, or because the name is
refused. -/
theorem lowerStmt_init_eq_error {last : Bool} {name : Ident} {type : Option TypeRef} {value : Expr}
    {mutable : Bool} {span : Span}
    (h : lowerStmt ctx last (.varDecl ⟨name, type, some value, mutable, span⟩) frame =
      .error error frame') :
    (frame' = frame ∧ ∃ given, type = some given ∧ ctx.resolver.valueType given = .error error) ∨
      ∃ declared, ctx.resolver.typeOr .numeric type = .ok declared ∧
        (lowerExpr ctx value frame = .error error frame' ∨
          ∃ found, lowerExpr ctx value frame = .ok found frame' ∧
            ∀ code, LowersExpr ctx frame.scopes value code found frame'.scopes →
              FailsStmt ctx frame.scopes (.varDecl ⟨name, type, some value, mutable, span⟩) error
                code 0 frame'.scopes) := by
  simp only [lowerStmt] at h
  obtain hdeclared | ⟨declared, _, hdeclared, h₁⟩ := bind_eq_error h
  · exact .inl (declaredType_eq_error hdeclared)
  obtain ⟨rfl, htypeOr⟩ := declaredType_eq_ok hdeclared
  refine .inr ⟨_, htypeOr .numeric, ?_⟩
  obtain hvalue | ⟨yielded, between, hvalue, h₂⟩ := bind_eq_error h₁
  · exact .inl hvalue
  refine .inr ?_
  obtain hfound | ⟨found, _, hfound, h₃⟩ := bind_eq_error h₂
  · obtain ⟨rfl, rfl, rfl⟩ := requireValue_eq_error hfound
    exact ⟨none, hvalue, fun _ hlowers => .noValue (htypeOr .numeric) hlowers⟩
  obtain ⟨rfl, rfl⟩ := requireValue_eq_ok hfound
  obtain hgiven | ⟨given, _, hgiven, h₄⟩ := bind_eq_error h₃
  · obtain ⟨rfl, want, _, rfl, hsome, hne, rfl⟩ := variableType_eq_error hgiven
    cases hsome
    refine ⟨some found, hvalue, fun _ hlowers => ?_⟩
    -- the declared type can only come from an annotation
    cases type with
    | none => cases hdeclared
    | some annotated => exact .wrongValue (htypeOr want) hlowers hne
  obtain ⟨htype, hagree, rfl⟩ := variableType_eq_ok hgiven
  obtain rfl : found = given := hagree found rfl
  obtain hdeclare | ⟨slot, _, hdeclare, h₅⟩ := bind_eq_error h₄
  · obtain ⟨hrefuses, rfl⟩ := declareLocal_eq_error _ hdeclare
    have hannotated := (htypeOr found).trans (congrArg Except.ok htype.symm)
    exact ⟨some found, hvalue, fun _ hlowers => .init hlowers hannotated hrefuses⟩
  cases h₅

/-- A statement list fails in its first statement, or after it. -/
theorem lowerStmts_cons_eq_error {s : Stmt} {rest : List Stmt}
    (h : lowerStmts ctx (s :: rest) frame = .error error frame') :
    (∃ last, lowerStmt ctx last s frame = .error error frame') ∨
      ∃ ignored between, lowerStmt ctx false s frame = .ok ignored between ∧
        lowerStmts ctx rest between = .error error frame' := by
  cases rest with
  | nil => exact .inl ⟨true, h⟩
  | cons next rest =>
    rw [lowerStmts] at h
    · obtain hs | hrest := bind_eq_error h
      · exact .inl ⟨false, hs⟩
      · exact .inr hrest
    · exact List.cons_ne_nil next rest

end Statements

/-! ## Runs that fail -/

section

variable {ctx : Context}

mutual

/-- An expression that is not lowered fails by the rules. -/
theorem failsExpr_of_lowerExpr {frame frame' : Frame} {error : CompileError} :
    (e : Expr) → lowerExpr ctx e frame = .error error frame' →
      ∃ code blocks, FailsExpr ctx frame.scopes e error code blocks frame'.scopes ∧
        Emits frame frame' code
  | .literal (.int value) span, h => by
    simp only [lowerExpr] at h
    cases hword : word? value with
    | some word => rw [hword] at h; cases h
    | none =>
      rw [hword] at h
      cases h
      exact ⟨[], 0, .literal hword, .nothing rfl⟩
  | .path ident span, h => by
    simp only [lowerExpr] at h
    obtain hget | ⟨_, _, hget, h₁⟩ := bind_eq_error h
    · cases hget
    cases hget
    cases hlookup : frame.scopes.lookup ident.name with
    | some binding => rw [hlookup] at h₁; cases h₁
    | none =>
      rw [hlookup] at h₁
      cases h₁
      exact ⟨[], 0, .path hlookup, .nothing rfl⟩
  | .binary left op right span, h => by
    simp only [lowerExpr] at h
    cases harith : op.arith? with
    | none =>
      rw [harith] at h
      cases h
      exact ⟨[], 0, .operator harith, .nothing rfl⟩
    | some arith =>
      rw [harith] at h
      obtain hleft | ⟨leftFound, leftFrame, hleft, h₁⟩ := bind_eq_error h
      · obtain ⟨code, blocks, hfails, hemits⟩ := failsExpr_of_lowerExpr left hleft
        exact ⟨code, blocks, .left harith hfails, hemits⟩
      obtain ⟨codeLeft, hlowersLeft, hemitsLeft⟩ := lowersExpr_of_lowerExpr left hleft
      obtain hleftValue | ⟨leftType, _, hleftValue, h₂⟩ := bind_eq_error h₁
      · obtain ⟨rfl, rfl, rfl⟩ := requireValue_eq_error hleftValue
        exact ⟨codeLeft, 0, .leftValue harith hlowersLeft, hemitsLeft⟩
      obtain ⟨rfl, rfl⟩ := requireValue_eq_ok hleftValue
      obtain hright | ⟨rightFound, rightFrame, hright, h₃⟩ := bind_eq_error h₂
      · obtain ⟨codeRight, blocks, hfails, hemitsRight⟩ := failsExpr_of_lowerExpr right hright
        exact ⟨_, blocks, .right harith hlowersLeft hfails, hemitsLeft.trans hemitsRight⟩
      obtain ⟨codeRight, hlowersRight, hemitsRight⟩ := lowersExpr_of_lowerExpr right hright
      have hemits := hemitsLeft.trans hemitsRight
      obtain hrightValue | ⟨rightType, _, hrightValue, h₄⟩ := bind_eq_error h₃
      · obtain ⟨rfl, rfl, rfl⟩ := requireValue_eq_error hrightValue
        exact ⟨_, 0, .rightValue harith hlowersLeft hlowersRight, hemits⟩
      obtain ⟨rfl, rfl⟩ := requireValue_eq_ok hrightValue
      obtain hnumeric | ⟨_, _, hnumeric, h₅⟩ := bind_eq_error h₄
      · obtain ⟨htype, rfl, rfl⟩ := requireNumeric_eq_error hnumeric
        exact ⟨_, 0, .leftType harith hlowersLeft hlowersRight htype, hemits⟩
      obtain ⟨rfl, rfl⟩ := requireNumeric_eq_ok hnumeric
      obtain hnumeric | ⟨_, _, hnumeric, h₆⟩ := bind_eq_error h₅
      · obtain ⟨htype, rfl, rfl⟩ := requireNumeric_eq_error hnumeric
        exact ⟨_, 0, .rightType harith hlowersLeft hlowersRight htype, hemits⟩
      cases h₆
  | .block ⟨stmts, span⟩, h => by
    simp only [lowerExpr] at h
    obtain henter | ⟨_, _, henter, h₁⟩ := bind_eq_error h
    · cases henter
    cases henter
    obtain hnested | ⟨⟨found, inner⟩, _, hnested, h₂⟩ := bind_eq_error h₁
    · obtain ⟨inner, hstmts, rfl⟩ := nested_eq_error hnested
      obtain ⟨code, blocks, hfails, -⟩ := failsStmts_of_lowerStmts stmts hstmts
      exact ⟨[], blocks + 1, .block hfails, .nothing rfl⟩
    obtain ⟨tableInner, hstmts, rfl⟩ := nested_eq_ok hnested
    obtain hleaveScope | ⟨_, _, -, h₃⟩ := bind_eq_error h₂
    · -- the scope that was opened is there to be left
      obtain ⟨hnone, -⟩ := leaveScope_eq_error hleaveScope
      obtain ⟨code, hlowers, -⟩ := lowersStmts_of_lowerStmts stmts hstmts
      obtain ⟨outer, houter⟩ := hlowers.exists_leave
      rw [houter] at hnone
      cases hnone
    cases h₃
  | .literal (.string _) _, h | .literal (.bool _) _, h | .unary _ _ _, h | .call _ _ _, h
  | .array _ _, h | .index _ _ _, h | .arrayPattern _ _ _, h | .member _ _ _, h
  | .construct _ _ _, h => by
    simp only [lowerExpr] at h
    cases h
    exact ⟨[], 0, .unsupported rfl, .nothing rfl⟩

/-- A statement that is not lowered fails by the rules. -/
theorem failsStmt_of_lowerStmt {frame frame' : Frame} {error : CompileError} {last : Bool} :
    (s : Stmt) → lowerStmt ctx last s frame = .error error frame' →
      ∃ code blocks, FailsStmt ctx frame.scopes s error code blocks frame'.scopes ∧
        Emits frame frame' code
  | .expr e span, h => by
    obtain ⟨code, blocks, hfails, hemits⟩ := failsExpr_of_lowerExpr e (lowerStmt_expr_eq_error h)
    exact ⟨code, blocks, .expr hfails, hemits⟩
  | .varDecl ⟨name, type, none, mutable, span⟩, h => by
    obtain ⟨rfl, hfails⟩ := lowerStmt_bare_eq_error h
    exact ⟨[], 0, hfails, .nothing rfl⟩
  | .varDecl ⟨name, type, some value, mutable, span⟩, h => by
    obtain ⟨rfl, given, rfl, htype⟩ | ⟨declared, htype, hvalue | ⟨found, hvalue, hfails⟩⟩ :=
      lowerStmt_init_eq_error h
    · exact ⟨[], 0, .typeRef htype, .nothing rfl⟩
    · obtain ⟨code, blocks, hfails, hemits⟩ := failsExpr_of_lowerExpr value hvalue
      exact ⟨code, blocks, .value htype hfails, hemits⟩
    · obtain ⟨code, hlowers, hemits⟩ := lowersExpr_of_lowerExpr value hvalue
      exact ⟨code, 0, hfails code hlowers, hemits⟩
  | .function _, h | .classDecl _, h | .interfaceDecl _ _ _, h | .branch _ _ _ _, h
  | .loop _ _ _ _, h | .breakLoop _, h | .returnValue _ _, h => by
    simp only [lowerStmt] at h
    cases h
    exact ⟨[], 0, .unsupported rfl, .nothing rfl⟩

/-- Statements that are not lowered fail by the rules. -/
theorem failsStmts_of_lowerStmts {frame frame' : Frame} {error : CompileError} :
    (stmts : List Stmt) → lowerStmts ctx stmts frame = .error error frame' →
      ∃ code blocks, FailsStmts ctx frame.scopes stmts error code blocks frame'.scopes ∧
        Emits frame frame' code
  | [], h => by
    simp only [lowerStmts] at h
    cases h
  | s :: rest, h => by
    obtain ⟨last, hs⟩ | ⟨ignored, between, hs, hrest⟩ := lowerStmts_cons_eq_error h
    · obtain ⟨code, blocks, hfails, hemits⟩ := failsStmt_of_lowerStmt s hs
      exact ⟨code, blocks, .here hfails, hemits⟩
    · obtain ⟨code, hlowers, hemits⟩ := lowersStmt_of_lowerStmt s hs
      obtain ⟨codeRest, blocks, hfails, hemitsRest⟩ := failsStmts_of_lowerStmts rest hrest
      exact ⟨code ++ codeRest, blocks, .later hlowers hfails, hemits.trans hemitsRest⟩

end

/-- Parameters that are not declared fail by the rules. -/
theorem failsParams_of_lowerParams {params : List Param}
    (h : lowerParams ctx params frame = .error error frame')
    (hparam : frame.scopes.acceptsParam = true) {scopes : Scopes ValueType}
    (hscopes : frame.scopes.ShowsTypes scopes) : FailsParams ctx frame.scopes params error := by
  induction params generalizing frame scopes with
  | nil => cases h
  | cons p rest ih =>
    obtain hresolve | ⟨type, resolved, hresolve, h₁⟩ := bind_eq_error h
    · exact .type (ofExcept_eq_error hresolve).1
    obtain ⟨htype, rfl⟩ := ofExcept_eq_ok hresolve
    obtain hdeclare | ⟨slot, _, hdeclare, h₂⟩ := bind_eq_error h₁
    · obtain ⟨hrefuses | hfalse, -⟩ := declareParam_eq_error _ hdeclare
      · exact .refused htype hrefuses
      · rw [hparam] at hfalse
        cases hfalse
    obtain ⟨haccepts, -, rfl⟩ := declareParam_eq_ok hdeclare
    obtain hrest | ⟨types, _, -, h₃⟩ := bind_eq_error h₂
    · have hnext := hscopes.acceptsParam_bind hparam haccepts.fresh type p.name.span
      exact .later htype haccepts hparam (ih hrest hnext (hscopes.bind _ _ _))
    cases h₃

end

end Lowering

/-- A declaration that is not lowered fails by the rules. -/
theorem FunctionDecl.fails_of_lower {resolver : Resolver} {maxLocals : Nat} {decl : FunctionDecl}
    {error : CompileError} (h : decl.lower resolver maxLocals = .error error) :
    decl.Fails resolver maxLocals error := by
  unfold lower at h
  split at h
  · cases h
  rename_i hdecl
  cases h
  obtain hparams | ⟨types, paramFrame, hparams, h₁⟩ := Lowering.bind_eq_error hdecl
  · exact .params (Lowering.failsParams_of_lowerParams hparams rfl ScopeTable.showsTypes_empty)
  obtain ⟨hlowersParams, -⟩ := Lowering.lowersParams_of_lowerParams hparams
  obtain hbody | ⟨result, _, hbody, h₂⟩ := Lowering.bind_eq_error h₁
  · obtain ⟨code, blocks, hfails, -⟩ := Lowering.failsStmts_of_lowerStmts _ hbody
    exact .body hlowersParams hfails
  obtain ⟨code, hlowersBody, -⟩ := Lowering.lowersStmts_of_lowerStmts _ hbody
  obtain hresolve | ⟨signature, _, hresolve, h₃⟩ := Lowering.bind_eq_error h₂
  · exact .signature hlowersParams hlowersBody (Lowering.ofExcept_eq_error hresolve).1
  obtain ⟨hsignature, rfl⟩ := Lowering.ofExcept_eq_ok hresolve
  by_cases heq : signature.params = types
  · rw [if_pos heq] at h₃
    cases h₃
  · rw [if_neg heq] at h₃
    cases h₃
    exact .wrongParams hlowersParams hlowersBody hsignature heq

end WasmCodegen
