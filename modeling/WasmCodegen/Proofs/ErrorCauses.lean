import WasmCodegen.Proofs.LocalLimit

/-!
# What errors are about

An error of lowering names a place in the source and says what is wrong there.  This file says that
it is right: whatever error a function declaration gives under the numeric resolver, it has a part
of which the complaint is true (`FunctionDecl.cause_of_lower`).

A part of a declaration is looked at where it stands.  `FunctionDecl.sites` lists the parts, each
with the declarations that are complete at this point: the parameters and variables of the same and
of the enclosing scopes, with the spans of their names.  `Cause sites error` has a rule for every
complaint, and the rules speak of parts and scopes alone.  Runs of lowering only come up in the
proof, which follows the rules of failure: the scope table that a run has reached shows the scopes
of the site (`ScopeTable.ShowsSpans`).

The words of a complaint about an operator or a construct are those of the program.  They are worth
something because they can be read back: `Cause.exists_operator` and `Cause.exists_unsupported` get
from the text to the one operator, or the one kind of construct, that it stands for.

The limit on the locals is not about a part by itself, but about how many variables come before it.
That has been settled by comparing runs under two limits (`FunctionDecl.lower_eq_or_cut`).
-/

namespace WasmCodegen

/-! ## Sites -/

/-- A part of a function declaration. -/
inductive Node where
  | param (p : Param)
  | expr (e : Expr)
  | stmt (s : Stmt)
  /-- The declared result, for a body. -/
  | result (given : TypeRef) (body : Block)

namespace Node

/-- The name that a part declares. -/
def name? : Node → Option Ident
  | .param p => some p.name
  | .stmt (.varDecl decl) => some decl.name
  | _ => none

/-- The annotation of a part. -/
def typeRef? : Node → Option TypeRef
  | .param p => p.type
  | .stmt (.varDecl decl) => decl.type
  | .result given _ => some given
  | _ => none

end Node

/-- A part of a function declaration where it stands: names that are declared there have the spans
of their declarations. -/
structure Site where
  scopes : Scopes Span
  node : Node

namespace Scopes

/-- Declares a name with its span. -/
def mark (scopes : Scopes Span) (name : Ident) : Scopes Span := scopes.declare name.name name.span

/-- What is declared after a statement. -/
def after (scopes : Scopes Span) : Stmt → Scopes Span
  | .varDecl decl => scopes.mark decl.name
  | _ => scopes

end Scopes

mutual

/-- The parts of an expression.  Only the expressions that have a lowering are looked into. -/
def Expr.sites (scopes : Scopes Span) : Expr → List Site
  | .binary left op right span =>
    ⟨scopes, .expr (.binary left op right span)⟩ :: (left.sites scopes ++ right.sites scopes)
  | .block ⟨stmts, span⟩ =>
    ⟨scopes, .expr (.block ⟨stmts, span⟩)⟩ :: Stmt.allSites scopes.enter stmts
  | e => [⟨scopes, .expr e⟩]

/-- The parts of a statement.  An initial value does not see the variable. -/
def Stmt.sites (scopes : Scopes Span) : Stmt → List Site
  | .expr e span => ⟨scopes, .stmt (.expr e span)⟩ :: e.sites scopes
  | .varDecl ⟨name, type, some value, mutable, span⟩ =>
    ⟨scopes, .stmt (.varDecl ⟨name, type, some value, mutable, span⟩)⟩ :: value.sites scopes
  | s => [⟨scopes, .stmt s⟩]

/-- The parts of the statements of a block. -/
def Stmt.allSites (scopes : Scopes Span) : List Stmt → List Site
  | [] => []
  | s :: rest => s.sites scopes ++ Stmt.allSites (scopes.after s) rest

end

/-- The sites of parameters. -/
def Param.sites (scopes : Scopes Span) : List Param → List Site
  | [] => []
  | p :: rest => ⟨scopes, .param p⟩ :: Param.sites (scopes.mark p.name) rest

/-- The scope of a function's parameters, which is that of the body's own variables too. -/
def FunctionDecl.paramScopes (decl : FunctionDecl) : Scopes Span :=
  decl.prototype.params.foldl (fun scopes p => scopes.mark p.name) {}

/-- The parts of a declaration. -/
def FunctionDecl.sites (decl : FunctionDecl) : List Site :=
  Param.sites {} decl.prototype.params ++ (Stmt.allSites decl.paramScopes decl.body.stmts ++
    decl.prototype.result.toList.map fun given => ⟨decl.paramScopes, .result given decl.body⟩)

/-! ## Causes -/

mutual

/-- Does the expression yield a value?  A block may not. -/
def Expr.hasValue : Expr → Bool
  | .block ⟨stmts, _⟩ => Stmt.hasValue stmts
  | _ => true

/-- Do the statements of a block yield a value?  They do if the last one is an expression that
does. -/
def Stmt.hasValue : List Stmt → Bool
  | [] => false
  | [.expr e _] => e.hasValue
  | [_] => false
  | _ :: rest => Stmt.hasValue rest

end

namespace CompileError

/-- A type has a name that means nothing. -/
def unknownType (given : TypeRef) : CompileError :=
  .typeMismatch
    s!"unknown type '{given.name.name}', only {ValueType.numeric.name} is supported" given.span

/-- A function declares a result, and its body yields no value. -/
def noResult (given : TypeRef) : CompileError :=
  .typeMismatch
    s!"function declares result {ValueType.numeric.name} but its body yields no value" given.span

end CompileError

/-- `Cause sites error`: there is a site of which the error is true. -/
inductive Cause (sites : List Site) : CompileError → Prop
  /-- A name is used that no parameter and no complete variable of the same or an enclosing scope
  has. -/
  | unbound {scopes : Scopes Span} {ident : Ident} {span : Span}
      (hsite : ⟨scopes, .expr (.path ident span)⟩ ∈ sites)
      (hfind : scopes.find? ident.name = none) :
      Cause sites (.unboundIdentifier ident.name span)
  /-- A name is declared that has been declared in the same scope. -/
  | duplicate {scopes : Scopes Span} {node : Node} {name : Ident} {first : Span}
      (hsite : ⟨scopes, node⟩ ∈ sites) (hname : node.name? = some name)
      (hfirst : scopes.inner.lookup name.name = some first) :
      Cause sites (.duplicateBinding name.name first name.span)
  | literal {scopes : Scopes Span} {value : Int} {span : Span}
      (hsite : ⟨scopes, .expr (.literal (.int value) span)⟩ ∈ sites)
      (hrange : value < -2147483648 ∨ 2147483647 < value) :
      Cause sites (.literalOutOfRange value span)
  | operator {scopes : Scopes Span} {left right : Expr} {op : BinaryOp} {span : Span}
      (hsite : ⟨scopes, .expr (.binary left op right span)⟩ ∈ sites)
      (hop : op.isArithmetic = false) : Cause sites (.unsupportedOperator op.symbol span)
  | expr {scopes : Scopes Span} {e : Expr} (hsite : ⟨scopes, .expr e⟩ ∈ sites)
      (hkind : e.hasLowering = false) : Cause sites (.unsupportedConstruct e.describe e.span)
  | stmt {scopes : Scopes Span} {s : Stmt} (hsite : ⟨scopes, .stmt s⟩ ∈ sites)
      (hkind : s.hasLowering = false) : Cause sites (.unsupportedConstruct s.refusal s.span)
  | unknownType {scopes : Scopes Span} {node : Node} {given : TypeRef}
      (hsite : ⟨scopes, node⟩ ∈ sites) (hgiven : node.typeRef? = some given)
      (hname : given.name.name ≠ "i32") : Cause sites (.unknownType given)
  | left {scopes : Scopes Span} {left right : Expr} {op : BinaryOp} {span : Span}
      (hsite : ⟨scopes, .expr (.binary left op right span)⟩ ∈ sites)
      (hop : op.isArithmetic = true) (hvalue : left.hasValue = false) :
      Cause sites (.noValue "left operand" left.span)
  | right {scopes : Scopes Span} {left right : Expr} {op : BinaryOp} {span : Span}
      (hsite : ⟨scopes, .expr (.binary left op right span)⟩ ∈ sites)
      (hop : op.isArithmetic = true) (hvalue : right.hasValue = false) :
      Cause sites (.noValue "right operand" right.span)
  | initializer {scopes : Scopes Span} {name : Ident} {type : Option TypeRef} {value : Expr}
      {mutable : Bool} {span : Span}
      (hsite : ⟨scopes, .stmt (.varDecl ⟨name, type, some value, mutable, span⟩)⟩ ∈ sites)
      (hvalue : value.hasValue = false) : Cause sites (.noValue "initializer" value.span)
  | result {scopes : Scopes Span} {given : TypeRef} {body : Block}
      (hsite : ⟨scopes, .result given body⟩ ∈ sites) (hname : given.name.name = "i32")
      (hvalue : Stmt.hasValue body.stmts = false) : Cause sites (.noResult given)

theorem Cause.mono {sites sites' : List Site} {error : CompileError} (h : Cause sites error)
    (hsubset : sites ⊆ sites') : Cause sites' error := by
  cases h with
  | unbound hsite hfind => exact .unbound (hsubset hsite) hfind
  | duplicate hsite hname hfirst => exact .duplicate (hsubset hsite) hname hfirst
  | literal hsite hrange => exact .literal (hsubset hsite) hrange
  | operator hsite hop => exact .operator (hsubset hsite) hop
  | expr hsite hkind => exact .expr (hsubset hsite) hkind
  | stmt hsite hkind => exact .stmt (hsubset hsite) hkind
  | unknownType hsite hgiven hname => exact .unknownType (hsubset hsite) hgiven hname
  | left hsite hop hvalue => exact .left (hsubset hsite) hop hvalue
  | right hsite hop hvalue => exact .right (hsubset hsite) hop hvalue
  | initializer hsite hvalue => exact .initializer (hsubset hsite) hvalue
  | result hsite hname hvalue => exact .result (hsubset hsite) hname hvalue

/-! ## What a text stands for -/

/-- The kinds of expressions and statements that have no lowering. -/
inductive Unsupported where
  | stringLiteral
  | boolLiteral
  | unary
  | call
  | array
  | index
  | arrayPattern
  | member
  | construct
  | nestedFunction
  | classDecl
  | interfaceDecl
  | branch
  | loop
  | breakLoop
  | returnValue
deriving DecidableEq

/-- The kind that a message means. -/
def Unsupported.ofText? : String → Option Unsupported
  | "string literal" => some .stringLiteral
  | "boolean literal" => some .boolLiteral
  | "unary expression" => some .unary
  | "call expression" => some .call
  | "array expression" => some .array
  | "index expression" => some .index
  | "array pattern" => some .arrayPattern
  | "member access" => some .member
  | "new expression" => some .construct
  | "nested function declaration" => some .nestedFunction
  | "class declaration" => some .classDecl
  | "interface declaration" => some .interfaceDecl
  | "if statement" => some .branch
  | "for statement" => some .loop
  | "break statement" => some .breakLoop
  | "return statement" => some .returnValue
  | _ => none

/-- The kind of an expression, if it has no lowering. -/
def Expr.unsupported? : Expr → Option Unsupported
  | .literal (.string _) _ => some .stringLiteral
  | .literal (.bool _) _ => some .boolLiteral
  | .unary .. => some .unary
  | .call .. => some .call
  | .array .. => some .array
  | .index .. => some .index
  | .arrayPattern .. => some .arrayPattern
  | .member .. => some .member
  | .construct .. => some .construct
  | .literal (.int _) _ | .path .. | .binary .. | .block _ => none

/-- The kind of a statement, if it has no lowering. -/
def Stmt.unsupported? : Stmt → Option Unsupported
  | .function _ => some .nestedFunction
  | .classDecl _ => some .classDecl
  | .interfaceDecl .. => some .interfaceDecl
  | .branch .. => some .branch
  | .loop .. => some .loop
  | .breakLoop _ => some .breakLoop
  | .returnValue .. => some .returnValue
  | .expr .. | .varDecl _ => none

/-- The description of an expression without lowering means its kind. -/
theorem Expr.exists_unsupported {e : Expr} (h : e.hasLowering = false) :
    ∃ kind, e.unsupported? = some kind ∧ Unsupported.ofText? e.describe = some kind := by
  cases e with
  | literal value span =>
    cases value with
    | int value => cases h
    | string text => exact ⟨.stringLiteral, rfl, rfl⟩
    | bool value => exact ⟨.boolLiteral, rfl, rfl⟩
  | path | binary | block => cases h
  | _ => exact ⟨_, rfl, rfl⟩

/-- So does what a message calls a statement without lowering. -/
theorem Stmt.exists_unsupported {s : Stmt} (h : s.hasLowering = false) :
    ∃ kind, s.unsupported? = some kind ∧ Unsupported.ofText? s.refusal = some kind := by
  cases s with
  | expr | varDecl => cases h
  | _ => exact ⟨_, rfl, rfl⟩

namespace Node

/-- The kind of a part, if it has no lowering. -/
def unsupported? : Node → Option Unsupported
  | .expr e => e.unsupported?
  | .stmt s => s.unsupported?
  | .param _ | .result .. => none

/-- The source text that a part covers. -/
def span : Node → Span
  | .param p => p.span
  | .expr e => e.span
  | .stmt s => s.span
  | .result given _ => given.span

end Node

/-- A message about an operator means an operator, and this one is used where the message says. -/
theorem Cause.exists_operator {sites : List Site} {symbol : String} {span : Span}
    (h : Cause sites (.unsupportedOperator symbol span)) :
    ∃ op, BinaryOp.ofSymbol? symbol = some op ∧ op.isArithmetic = false ∧
      ∃ scopes left right, ⟨scopes, .expr (.binary left op right span)⟩ ∈ sites := by
  cases h with
  | operator hsite hop => exact ⟨_, BinaryOp.ofSymbol?_symbol _, hop, _, _, _, hsite⟩

/-- A message about a construct means a kind, and there is a construct of this kind where the
message says. -/
theorem Cause.exists_unsupported {sites : List Site} {text : String} {span : Span}
    (h : Cause sites (.unsupportedConstruct text span)) :
    ∃ kind, Unsupported.ofText? text = some kind ∧
      ∃ site ∈ sites, site.node.unsupported? = some kind ∧ site.node.span = span := by
  cases h with
  | expr hsite hkind =>
    obtain ⟨kind, hexpr, htext⟩ := Expr.exists_unsupported hkind
    exact ⟨kind, htext, _, hsite, hexpr, rfl⟩
  | stmt hsite hkind =>
    obtain ⟨kind, hstmt, htext⟩ := Stmt.exists_unsupported hkind
    exact ⟨kind, htext, _, hsite, hstmt, rfl⟩

/-! ## Errors explained -/

/-- An error has its cause in a site, or it is about the limit on the locals. -/
def Explained (ctx : Context) (sites : List Site) (error : CompileError) : Prop :=
  Cause sites error ∨ ∃ span, error = .tooManyLocals ctx.function ctx.maxLocals span

theorem Explained.mono {ctx : Context} {sites sites' : List Site} {error : CompileError}
    (h : Explained ctx sites error) (hsubset : sites ⊆ sites') : Explained ctx sites' error :=
  h.imp_left fun hcause => hcause.mono hsubset

/-! ## Sites of parts -/

section

variable (scopes : Scopes Span)

theorem Expr.mem_sites (e : Expr) : ⟨scopes, .expr e⟩ ∈ e.sites scopes := by
  cases e with
  | block body => cases body; exact List.mem_cons_self
  | _ => exact List.mem_cons_self

theorem Expr.sites_subset_binary (left right : Expr) (op : BinaryOp) (span : Span) :
    left.sites scopes ⊆ (Expr.binary left op right span).sites scopes ∧
      right.sites scopes ⊆ (Expr.binary left op right span).sites scopes :=
  ⟨fun _ h => List.mem_cons_of_mem _ (List.mem_append_left _ h),
    fun _ h => List.mem_cons_of_mem _ (List.mem_append_right _ h)⟩

theorem Stmt.mem_sites (s : Stmt) : ⟨scopes, .stmt s⟩ ∈ s.sites scopes := by
  cases s with
  | varDecl decl =>
    obtain ⟨name, type, _ | value, mutable, span⟩ := decl
    · exact List.mem_cons_self
    · exact List.mem_cons_self
  | _ => exact List.mem_cons_self

end

/-! ## Checks that fail -/

theorem Lowering.out_of_range_of_word? {value : Int} (h : word? value = none) :
    value < -2147483648 ∨ 2147483647 < value := by
  by_contra hrange
  have hwithin : -2147483648 ≤ value ∧ value ≤ 2147483647 := by omega
  obtain ⟨word, hword⟩ := exists_word_iff.2 hwithin
  cases h.symm.trans hword

theorem BinaryOp.isArithmetic_eq_false {op : BinaryOp} (h : op.arith? = none) :
    op.isArithmetic = false := by
  cases hop : op.isArithmetic with
  | false => rfl
  | true =>
    obtain ⟨arith, harith⟩ := exists_arith_iff.2 hop
    cases h.symm.trans harith

/-! ## What the numeric resolver knows -/

namespace Resolver

theorem numericType_eq_error {given : TypeRef} {error : CompileError}
    (h : numericType given = .error error) :
    given.name.name ≠ "i32" ∧ error = .unknownType given := by
  unfold numericType at h
  split at h
  · cases h
  · rename_i hname
    cases h
    exact ⟨hname, rfl⟩

theorem numericType_eq_ok {given : TypeRef} {type : ValueType} (h : numericType given = .ok type) :
    type = .numeric ∧ given.name.name = "i32" := by
  unfold numericType at h
  split at h
  · rename_i hname
    cases h
    exact ⟨rfl, hname⟩
  · cases h

theorem annotated_numericType_eq_ok {p : Param} {type : ValueType}
    (h : annotated numericType p = .ok type) : type = .numeric := by
  unfold annotated at h
  split at h
  · exact (numericType_eq_ok h).1
  · cases h
    rfl

theorem annotated_numericType_eq_error {p : Param} {error : CompileError}
    (h : annotated numericType p = .error error) :
    ∃ given, p.type = some given ∧ given.name.name ≠ "i32" ∧ error = .unknownType given := by
  unfold annotated at h
  split at h
  · rename_i given hgiven
    exact ⟨given, hgiven, numericType_eq_error h⟩
  · cases h

theorem typeOr_numeric_eq_ok {type : Option TypeRef} {declared : ValueType}
    (h : numeric.typeOr .numeric type = .ok declared) : declared = .numeric := by
  cases type with
  | none => cases h; rfl
  | some given => exact (numericType_eq_ok h).1

end Resolver

/-! ## What lowered parts yield -/

theorem Stmt.hasValue_cons (s : Stmt) {rest : List Stmt} (h : rest ≠ []) :
    Stmt.hasValue (s :: rest) = Stmt.hasValue rest := by
  cases rest with
  | nil => exact absurd rfl h
  | cons next rest => cases s <;> rfl

/-- The statements after a declaration yield what all of them do. -/
theorem Stmt.hasValue_varDecl (decl : VarDecl) (rest : List Stmt) :
    Stmt.hasValue (.varDecl decl :: rest) = Stmt.hasValue rest := by
  cases rest with
  | nil => rfl
  | cons next rest => exact Stmt.hasValue_cons _ (List.cons_ne_nil next rest)

/-- Scopes in which every name has the numeric type. -/
def Scopes.AllNumeric (types : Scopes ValueType) : Prop :=
  ∀ name level type, types.find? name = some (level, type) → type = .numeric

theorem Scopes.AllNumeric.enter {types : Scopes ValueType} (h : types.AllNumeric) :
    types.enter.AllNumeric := h

theorem Scopes.AllNumeric.declare {types : Scopes ValueType} (h : types.AllNumeric)
    (name : String) : (types.declare name .numeric).AllNumeric := by
  intro other level type hfind
  rw [find?, Scopes.declare, search, List.lookup_cons] at hfind
  by_cases heq : (other == name) = true
  · rw [heq] at hfind
    cases hfind
    rfl
  · rw [Bool.eq_false_iff.2 heq] at hfind
    exact h other level type hfind

mutual

/-- Where all names are numbers, so is every value. -/
theorem YieldsExpr.result_eq {types : Scopes ValueType} {e : Expr} {result : Option ValueType} :
    YieldsExpr .numeric types e result → types.AllNumeric →
      result = if e.hasValue then some .numeric else none
  | .literal _ _, _ => rfl
  | .path hfind, h => congrArg some (h _ _ _ hfind)
  | .binary _ _ _, _ => rfl
  | .block hstmts, h => hstmts.result_eq h.enter

theorem YieldsStmts.result_eq {types : Scopes ValueType} {stmts : List Stmt}
    {result : Option ValueType} :
    YieldsStmts .numeric types stmts result → types.AllNumeric →
      result = if Stmt.hasValue stmts then some .numeric else none
  | .nil, _ => rfl
  | .last he, h => he.result_eq h
  | .next hrest _ hstmts, h => by
    rw [Stmt.hasValue_cons _ hrest]
    exact hstmts.result_eq h
  | .init hvalue _ _ hstmts, h => by
    have htype := hvalue.result_eq h
    split at htype
    · cases htype
      rw [Stmt.hasValue_varDecl]
      exact hstmts.result_eq (h.declare _)
    · cases htype
  | .typed htype _ hstmts, h => by
    obtain ⟨rfl, -⟩ := Resolver.numericType_eq_ok htype
    rw [Stmt.hasValue_varDecl]
    exact hstmts.result_eq (h.declare _)
  | .bare _ hstmts, h => by
    rw [Stmt.hasValue_varDecl]
    exact hstmts.result_eq (h.declare _)

end

/-! ## Tables and the spans of declarations -/

/-- The names that the table has in sight, at every level, are declared where the scopes say, and
all of them are numbers. -/
structure ScopeTable.ShowsSpans (table : ScopeTable) (scopes : Scopes Span) : Prop where
  spans : ∃ s, table.Shows s ∧ s.map Variable.span = scopes
  types : ∃ types, table.ShowsTypes types ∧ types.AllNumeric

namespace ScopeTable.ShowsSpans

variable {table table' : ScopeTable} {scopes : Scopes Span}

theorem empty : ScopeTable.empty.ShowsSpans {} where
  spans := ⟨{}, shows_empty, rfl⟩
  types := ⟨{}, showsTypes_empty, fun _ _ _ hfind => by cases hfind⟩

theorem of_levels_eq (h : table.ShowsSpans scopes) (hlevels : table'.levels = table.levels) :
    table'.ShowsSpans scopes := by
  obtain ⟨⟨s, hshows, hspans⟩, types, htypes, hnumeric⟩ := h
  exact ⟨⟨s, hlevels.trans hshows, hspans⟩, types, htypes.of_levels_eq hlevels, hnumeric⟩

theorem enter (h : table.ShowsSpans scopes) : table.enter.ShowsSpans scopes.enter := by
  obtain ⟨⟨s, hshows, rfl⟩, types, htypes, hnumeric⟩ := h
  exact ⟨⟨s.enter, hshows.enter, rfl⟩, types.enter, htypes.enter, hnumeric.enter⟩

theorem bind (h : table.ShowsSpans scopes) (name : Ident) :
    (table.bind name.name .numeric name.span).ShowsSpans (scopes.mark name) := by
  obtain ⟨⟨s, hshows, rfl⟩, types, htypes, hnumeric⟩ := h
  exact ⟨⟨_, hshows.bind _ _ _, rfl⟩, _, htypes.bind _ _ _, hnumeric.declare _⟩

/-- A name that the table does not know is declared nowhere. -/
theorem find?_eq_none (h : table.ShowsSpans scopes) {name : String}
    (hlookup : table.lookup name = none) : scopes.find? name = none := by
  obtain ⟨⟨s, hshows, rfl⟩, -⟩ := h
  rw [hshows.lookup_eq, Scopes.lookup, Scopes.meaning, Option.map_eq_none_iff] at hlookup
  rw [Scopes.find?_map, Scopes.find?, hlookup, Option.map_none]

/-- A name that the table has in its innermost scope is declared there. -/
theorem lookup_eq_some (h : table.ShowsSpans scopes) {name : String} {first : Binding}
    (hscope : table.inScope? name = some first) :
    scopes.inner.lookup name = some first.span := by
  obtain ⟨⟨s, hshows, rfl⟩, -⟩ := h
  rw [hshows.inScope?_eq, Option.map_eq_some_iff] at hscope
  obtain ⟨v, hv, rfl⟩ := hscope
  rw [Scopes.map, Scopes.lookup_map, hv]
  rfl

/-- A name is refused because it is in its scope already, or because of the limit. -/
theorem explained_of_refuses (h : table.ShowsSpans scopes) {ctx : Context} {name : Ident}
    {error : CompileError} (hrefuses : table.Refuses ctx name error) {sites : List Site}
    {node : Node} (hsite : ⟨scopes, node⟩ ∈ sites) (hname : node.name? = some name) :
    Explained ctx sites error := by
  cases hrefuses with
  | limit => exact .inr ⟨name.span, rfl⟩
  | duplicate _ hscope => exact .inl (.duplicate hsite hname (h.lookup_eq_some hscope))

end ScopeTable.ShowsSpans

/-! ## Runs -/

section

variable {ctx : Context}

theorem LowersExpr.result_eq {table table' : ScopeTable} {e : Expr} {code : List Instruction}
    {result : Option ValueType} (h : LowersExpr ctx table e code result table')
    (hctx : ctx.resolver = .numeric) {scopes : Scopes Span} (hscopes : table.ShowsSpans scopes) :
    result = if e.hasValue then some .numeric else none := by
  obtain ⟨-, types, htypes, hnumeric⟩ := hscopes
  have hyields := h.yields htypes
  rw [hctx] at hyields
  exact hyields.result_eq hnumeric

/-- A value is a number. -/
theorem LowersExpr.type_eq {table table' : ScopeTable} {e : Expr} {code : List Instruction}
    {type : ValueType} (h : LowersExpr ctx table e code (some type) table')
    (hctx : ctx.resolver = .numeric) {scopes : Scopes Span} (hscopes : table.ShowsSpans scopes) :
    type = .numeric := by
  have hresult := h.result_eq hctx hscopes
  split at hresult
  · exact Option.some.inj hresult
  · cases hresult

/-- An expression without value can be told by its form. -/
theorem LowersExpr.hasValue_eq_false {table table' : ScopeTable} {e : Expr}
    {code : List Instruction} (h : LowersExpr ctx table e code none table')
    (hctx : ctx.resolver = .numeric) {scopes : Scopes Span} (hscopes : table.ShowsSpans scopes) :
    e.hasValue = false := by
  have hresult := h.result_eq hctx hscopes
  split at hresult
  · cases hresult
  · rename_i hvalue
    exact Bool.eq_false_iff.2 hvalue

/-- After a statement its declaration is in sight. -/
theorem LowersStmt.showsSpans {table table' : ScopeTable} {s : Stmt} {code : List Instruction}
    (h : LowersStmt ctx table s code table') (hctx : ctx.resolver = .numeric)
    {scopes : Scopes Span} (hscopes : table.ShowsSpans scopes) :
    table'.ShowsSpans (scopes.after s) := by
  cases h with
  | drop he | skip he => exact hscopes.of_levels_eq he.levels_eq
  | init hvalue =>
    obtain rfl := hvalue.type_eq hctx hscopes
    exact (hscopes.of_levels_eq hvalue.levels_eq).bind _
  | bare htype =>
    rw [hctx] at htype
    obtain rfl := Resolver.typeOr_numeric_eq_ok htype
    exact hscopes.bind _

mutual

/-- An expression that fails has a part that explains the error. -/
theorem FailsExpr.explained {table table' : ScopeTable} {e : Expr} {error : CompileError}
    {code : List Instruction} {blocks : Nat} (hctx : ctx.resolver = .numeric) :
    FailsExpr ctx table e error code blocks table' → ∀ {scopes : Scopes Span},
      table.ShowsSpans scopes → Explained ctx (e.sites scopes) error
  | .literal hword, scopes, _ =>
    .inl (.literal (Expr.mem_sites scopes _) (Lowering.out_of_range_of_word? hword))
  | .path hlookup, scopes, hscopes =>
    .inl (.unbound (Expr.mem_sites scopes _) (hscopes.find?_eq_none hlookup))
  | .operator harith, scopes, _ =>
    .inl (.operator (Expr.mem_sites scopes _) (BinaryOp.isArithmetic_eq_false harith))
  | .left _ hleft, scopes, hscopes =>
    (hleft.explained hctx hscopes).mono (Expr.sites_subset_binary scopes _ _ _ _).1
  | .leftValue harith hleft, scopes, hscopes =>
    .inl (.left (Expr.mem_sites scopes _) (BinaryOp.exists_arith_iff.1 ⟨_, harith⟩)
      (hleft.hasValue_eq_false hctx hscopes))
  | .right _ hleft hright, scopes, hscopes =>
    (hright.explained hctx (hscopes.of_levels_eq hleft.levels_eq)).mono
      (Expr.sites_subset_binary scopes _ _ _ _).2
  | .rightValue harith hleft hright, scopes, hscopes =>
    .inl (.right (Expr.mem_sites scopes _) (BinaryOp.exists_arith_iff.1 ⟨_, harith⟩)
      (hright.hasValue_eq_false hctx (hscopes.of_levels_eq hleft.levels_eq)))
  | .leftType _ hleft _ htype, _, hscopes => absurd (hleft.type_eq hctx hscopes) htype
  | .rightType _ hleft hright htype, _, hscopes =>
    absurd (hright.type_eq hctx (hscopes.of_levels_eq hleft.levels_eq)) htype
  | .block hstmts, _, hscopes =>
    (hstmts.explained hctx hscopes.enter).mono fun _ h => List.mem_cons_of_mem _ h
  | .unsupported hkind, scopes, _ => .inl (.expr (Expr.mem_sites scopes _) hkind)

theorem FailsStmt.explained {table table' : ScopeTable} {s : Stmt} {error : CompileError}
    {code : List Instruction} {blocks : Nat} (hctx : ctx.resolver = .numeric) :
    FailsStmt ctx table s error code blocks table' → ∀ {scopes : Scopes Span},
      table.ShowsSpans scopes → Explained ctx (s.sites scopes) error
  | .expr he, _, hscopes =>
    (he.explained hctx hscopes).mono fun _ h => List.mem_cons_of_mem _ h
  | .typeRef htype, scopes, _ => by
    rw [hctx] at htype
    obtain ⟨hname, rfl⟩ := Resolver.numericType_eq_error htype
    exact .inl (.unknownType (Stmt.mem_sites scopes _) rfl hname)
  | .value _ hvalue, _, hscopes =>
    (hvalue.explained hctx hscopes).mono fun _ h => List.mem_cons_of_mem _ h
  | .noValue _ hvalue, scopes, hscopes =>
    .inl (.initializer (Stmt.mem_sites scopes _) (hvalue.hasValue_eq_false hctx hscopes))
  | .wrongValue htype hvalue hne, _, hscopes => by
    -- annotation and value are numbers both
    rw [hctx] at htype
    obtain ⟨rfl, -⟩ := Resolver.numericType_eq_ok htype
    exact absurd (hvalue.type_eq hctx hscopes) hne
  | .init hvalue _ hrefuses, scopes, hscopes =>
    (hscopes.of_levels_eq hvalue.levels_eq).explained_of_refuses hrefuses
      (Stmt.mem_sites scopes _) rfl
  | .bare _ hrefuses, scopes, hscopes =>
    hscopes.explained_of_refuses hrefuses (Stmt.mem_sites scopes _) rfl
  | .unsupported hkind, scopes, _ => .inl (.stmt (Stmt.mem_sites scopes _) hkind)

theorem FailsStmts.explained {table table' : ScopeTable} {stmts : List Stmt} {error : CompileError}
    {code : List Instruction} {blocks : Nat} (hctx : ctx.resolver = .numeric) :
    FailsStmts ctx table stmts error code blocks table' → ∀ {scopes : Scopes Span},
      table.ShowsSpans scopes → Explained ctx (Stmt.allSites scopes stmts) error
  | .here hs, _, hscopes =>
    (hs.explained hctx hscopes).mono (List.subset_append_left _ _)
  | .later hs hrest, _, hscopes =>
    (hrest.explained hctx (hs.showsSpans hctx hscopes)).mono (List.subset_append_right _ _)

end

/-- Parameters that cannot be declared have one among them that explains the error. -/
theorem FailsParams.explained {table : ScopeTable} {params : List Param} {error : CompileError}
    (h : FailsParams ctx table params error) (hctx : ctx.resolver = .numeric)
    {scopes : Scopes Span} (hscopes : table.ShowsSpans scopes) :
    Explained ctx (Param.sites scopes params) error := by
  induction h generalizing scopes with
  | type htype =>
    rw [hctx] at htype
    obtain ⟨given, hgiven, hname, rfl⟩ := Resolver.annotated_numericType_eq_error htype
    exact .inl (.unknownType List.mem_cons_self hgiven hname)
  | refused _ hrefuses => exact hscopes.explained_of_refuses hrefuses List.mem_cons_self rfl
  | later htype _ _ _ ih =>
    rw [hctx] at htype
    obtain rfl := Resolver.annotated_numericType_eq_ok htype
    exact (ih (hscopes.bind _)).mono fun _ h => List.mem_cons_of_mem _ h

/-- Once the parameters are declared, their names are in sight. -/
theorem LowersParams.showsSpans {table table' : ScopeTable} {params : List Param}
    {types : List ValueType} (h : LowersParams ctx table params types table')
    (hctx : ctx.resolver = .numeric) {scopes : Scopes Span} (hscopes : table.ShowsSpans scopes) :
    table'.ShowsSpans (params.foldl (fun scopes p => scopes.mark p.name) scopes) := by
  induction h generalizing scopes with
  | nil => exact hscopes
  | cons htype _ _ _ ih =>
    rw [hctx] at htype
    obtain rfl := Resolver.annotated_numericType_eq_ok htype
    exact ih (hscopes.bind _)

end

/-! ## Functions -/

namespace FunctionDecl

variable {decl : FunctionDecl} {maxLocals : Nat} {error : CompileError}

/-- The numeric resolver has a signature for parameters that could be declared. -/
theorem mapM_params {types : List ValueType} {table : ScopeTable}
    (h : LowersParams (decl.context .numeric maxLocals) .empty decl.prototype.params types table) :
    decl.prototype.params.mapM (Resolver.annotated Resolver.numericType) = .ok types :=
  Fallible.mapM_eq_ok_iff.2 (h.resolve ScopeTable.showsTypes_empty).1

/-- A result is refused because of its name, or because the body yields nothing. -/
theorem cause_of_checkedResults {declared : Option TypeRef} {body : Block} (scopes : Scopes Span)
    (h : Resolver.checkedResults declared
      (if Stmt.hasValue body.stmts then some .numeric else none) = .error error) :
    Cause (declared.toList.map fun given => ⟨scopes, .result given body⟩) error := by
  cases declared with
  | none => cases h
  | some given =>
    rcases Fallible.bind_eq_error_iff.1 h with htype | ⟨want, htype, hwant⟩
    · obtain ⟨hname, rfl⟩ := Resolver.numericType_eq_error htype
      exact .unknownType List.mem_cons_self rfl hname
    · obtain ⟨rfl, hname⟩ := Resolver.numericType_eq_ok htype
      cases hvalue : Stmt.hasValue body.stmts with
      | true =>
        rw [hvalue, if_pos rfl] at hwant
        cases hwant
      | false =>
        rw [hvalue] at hwant
        cases hwant
        exact .result List.mem_cons_self hname hvalue

/-- A declaration that fails has a part that explains the error. -/
theorem Fails.explained (h : decl.Fails .numeric maxLocals error) :
    Explained (decl.context .numeric maxLocals) decl.sites error := by
  cases h with
  | params hparams =>
    exact (hparams.explained rfl .empty).mono (List.subset_append_left _ _)
  | body hparams hbody =>
    refine (hbody.explained rfl (hparams.showsSpans rfl .empty)).mono ?_
    exact fun _ h => List.mem_append_right _ (List.mem_append_left _ h)
  | signature hparams hbody hsignature =>
    obtain ⟨-, types, htypes, hnumeric⟩ := hparams.showsSpans rfl .empty
    rw [(hbody.yields htypes).result_eq hnumeric] at hsignature
    rcases Fallible.bind_eq_error_iff.1 hsignature with hmap | ⟨_, -, hresults⟩
    · cases (mapM_params hparams).symm.trans hmap
    rcases Fallible.bind_eq_error_iff.1 hresults with hchecked | ⟨_, -, hpure⟩
    · refine .inl ((cause_of_checkedResults decl.paramScopes hchecked).mono ?_)
      exact fun _ h => List.mem_append_right _ (List.mem_append_right _ h)
    · cases hpure
  | wrongParams hparams _ hsignature hne =>
    obtain ⟨types, hmap, hresults⟩ := Fallible.bind_eq_ok_iff.1 hsignature
    obtain ⟨results, -, hpure⟩ := Fallible.bind_eq_ok_iff.1 hresults
    cases hpure
    cases (mapM_params hparams).symm.trans hmap
    exact absurd rfl hne

/-- **Errors are justified by the source.**  If a declaration cannot be lowered, then it has a site
of which the error is true, or the error is that of the limit, and the name it points at is that of
the variable before which as many others are complete as the limit allows. -/
theorem cause_of_lower (h : decl.lower .numeric maxLocals = .error error) :
    Cause decl.sites error ∨ ∃ name, decl.declaredNames[maxLocals]? = some name ∧
      error = .tooManyLocals decl.name.name maxLocals name.span := by
  rcases (fails_of_lower h).explained with hcause | ⟨span, hspan⟩
  · exact .inl hcause
  -- a run with slots to spare would report another limit, so it cannot have failed in this way
  have hample := Nat.le_max_left decl.declaredNames.length (maxLocals + 1)
  rcases lower_eq_or_cut hample maxLocals with heq | ⟨name, hname, hcut⟩
  · rcases (fails_of_lower (heq.symm.trans h)).explained with hcause | ⟨_, hother⟩
    · exact .inl hcause
    · cases hspan
      have hlimit := (CompileError.tooManyLocals.inj hother).2.1
      have hlt : maxLocals < max decl.declaredNames.length (maxLocals + 1) := by omega
      exact absurd hlimit (Nat.ne_of_lt hlt)
  · exact .inr ⟨name, hname, Except.error.inj (h.symm.trans hcut)⟩

/-- The last `y` is outside the block that declares it.  With slots to spare the error is about this
name; with one slot it is about the variable that comes second. -/
theorem cause_of_lower_initialBlock :
    ((initialBlock "y").lower .numeric 3 = .error (.unboundIdentifier "y" ⟨6, 1, 1⟩) ∧
      Cause (initialBlock "y").sites (.unboundIdentifier "y" ⟨6, 1, 1⟩)) ∧
    (initialBlock "y").lower .numeric 1 = .error (.tooManyLocals "f" 1 ⟨3, 9, 1⟩) ∧
      ∃ name, (initialBlock "y").declaredNames[1]? = some name ∧ name.span = ⟨3, 9, 1⟩ := by
  have hstray : (initialBlock "y").lower .numeric 3 =
      .error (.unboundIdentifier "y" ⟨6, 1, 1⟩) := by
    with_unfolding_all rfl
  have hlimit : (initialBlock "y").lower .numeric 1 = .error (.tooManyLocals "f" 1 ⟨3, 9, 1⟩) := by
    with_unfolding_all rfl
  refine ⟨⟨hstray, ?_⟩, hlimit, ?_⟩
  · rcases cause_of_lower hstray with hcause | ⟨name, -, hname⟩
    · exact hcause
    · cases hname
  · rcases cause_of_lower hlimit with hcause | ⟨name, hname, herror⟩
    · cases hcause
    · exact ⟨name, hname, (CompileError.tooManyLocals.inj herror).2.2.symm⟩

end FunctionDecl

end WasmCodegen
