import WasmCodegen.Assembly
import WasmCodegen.Proofs.Generation
import WasmCodegen.Proofs.LoweringFailures
import WasmCodegen.Proofs.ModuleReports

/-!
# Internal errors

Three checks of the lowering end with an internal error, which is an error that no source should be
able to cause: a block that cannot leave its scope, a parameter that comes after a local variable,
and a signature that does not begin with the declared parameters.  The first two never fail, and so
the rules of `FailsExpr` and its companions have no case for them.  The third is up to the resolver.

`FunctionDecl.Fails.blame` goes through the rules.  An internal error is one that the resolver gave
(`FunctionDecl.ResolverFails`), or else the resolver gave a parameter one type and listed another in
the signature (`FunctionDecl.ParamsDiffer`).  A resolver that does neither is `Resolver.Blameless`;
under such a resolver internal errors do not occur, and the numeric resolver is one.
-/

namespace WasmCodegen

/-- Is the error one that no source should cause? -/
def CompileError.isInternal : CompileError → Bool
  | .internal _ => true
  | _ => false

namespace FunctionDecl

variable (resolver : Resolver) (maxLocals : Nat) (decl : FunctionDecl)

/-- The resolver gives the error when it is asked about the declaration: about a parameter, about an
annotation in the body, or about the signature, once the result of the body is known. -/
inductive ResolverFails (error : CompileError) : Prop
  | param {p : Param} (hp : p ∈ decl.prototype.params) (herror : resolver.param p = .error error)
  | typeRef {type : TypeRef} (htype : type ∈ Stmt.typeRefs decl.body.stmts)
      (herror : resolver.valueType type = .error error)
  | signature {result : Option ValueType}
      (hresult : decl.bodyResult resolver maxLocals = .ok result)
      (herror : resolver.signature decl.prototype result = .error error)

/-- The parameters of the signature are not of the types that the resolver gave for the parameters
one by one. -/
def ParamsDiffer : Prop :=
  ∃ types result signature,
    List.Forall₂ (fun p type => resolver.param p = .ok type) decl.prototype.params types ∧
    decl.bodyResult resolver maxLocals = .ok result ∧
    resolver.signature decl.prototype result = .ok signature ∧ signature.params ≠ types

end FunctionDecl

/-! ## Whom to blame -/

section

variable {ctx : Context}

/-- Among the variables there is one with an annotation for which the resolver gives the error. -/
def Resolver.Rejects (resolver : Resolver) (vars : List VarDecl) (error : CompileError) : Prop :=
  ∃ v ∈ vars, ∃ type, v.type = some type ∧ resolver.valueType type = .error error

theorem Resolver.Rejects.mono {resolver : Resolver} {vars vars' : List VarDecl}
    {error : CompileError} (h : resolver.Rejects vars error) (hsub : vars ⊆ vars') :
    resolver.Rejects vars' error := by
  obtain ⟨v, hmem, hrejects⟩ := h
  exact ⟨v, hsub hmem, hrejects⟩

theorem ScopeTable.Refuses.isInternal_eq_false {table : ScopeTable} {name : Ident}
    {error : CompileError} (h : table.Refuses ctx name error) : error.isInternal = false := by
  cases h with
  | limit => rfl
  | duplicate => rfl

mutual

/-- An expression fails for a reason of its own, or by an annotation that the resolver rejects. -/
theorem FailsExpr.blame {table table' : ScopeTable} {e : Expr} {error : CompileError}
    {code : List Instruction} {blocks : Nat} :
    FailsExpr ctx table e error code blocks table' →
      error.isInternal = false ∨ ctx.resolver.Rejects e.declarations error
  | .literal _ | .path _ | .operator _ | .leftValue _ _ | .rightValue _ _ _ | .leftType _ _ _ _
  | .rightType _ _ _ _ | .unsupported _ => .inl rfl
  | .left _ hleft => by
    rw [Expr.declarations]
    exact hleft.blame.imp_right fun h => h.mono (List.subset_append_left _ _)
  | .right _ _ hright => by
    rw [Expr.declarations]
    exact hright.blame.imp_right fun h => h.mono (List.subset_append_right _ _)
  | .block hstmts => hstmts.blame

theorem FailsStmt.blame {table table' : ScopeTable} {s : Stmt} {error : CompileError}
    {code : List Instruction} {blocks : Nat} :
    FailsStmt ctx table s error code blocks table' →
      error.isInternal = false ∨ ctx.resolver.Rejects (Stmt.declarations [s]) error
  | .noValue _ _ | .wrongValue _ _ _ | .unsupported _ => .inl rfl
  | .init _ _ hrefuses | .bare _ hrefuses => .inl hrefuses.isInternal_eq_false
  | .expr he => by
    rw [Stmt.declarations_expr]
    exact he.blame
  | .typeRef htype => .inr ⟨_, Stmt.mem_declarations _, _, rfl, htype⟩
  | .value _ hvalue => by
    rw [Stmt.declarations_init]
    exact hvalue.blame.imp_right fun h => h.mono (List.subset_append_left _ _)

theorem FailsStmts.blame {table table' : ScopeTable} {stmts : List Stmt} {error : CompileError}
    {code : List Instruction} {blocks : Nat} :
    FailsStmts ctx table stmts error code blocks table' →
      error.isInternal = false ∨ ctx.resolver.Rejects (Stmt.declarations stmts) error
  | .here hs => by
    rw [Stmt.declarations_cons]
    exact hs.blame.imp_right fun h => h.mono (List.subset_append_left _ _)
  | .later _ hrest => by
    rw [Stmt.declarations_cons]
    exact hrest.blame.imp_right fun h => h.mono (List.subset_append_right _ _)

end

/-- Parameters fail for a reason of their own, or by one that the resolver rejects. -/
theorem FailsParams.blame {table : ScopeTable} {params : List Param} {error : CompileError}
    (h : FailsParams ctx table params error) :
    error.isInternal = false ∨ ∃ p ∈ params, ctx.resolver.param p = .error error := by
  induction h with
  | type htype => exact .inr ⟨_, List.mem_cons_self, htype⟩
  | refused _ hrefuses => exact .inl hrefuses.isInternal_eq_false
  | later _ _ _ _ ih =>
    rcases ih with hown | ⟨p, hp, herror⟩
    · exact .inl hown
    · exact .inr ⟨p, List.mem_cons_of_mem _ hp, herror⟩

end

/-- A declaration fails for a reason of its own, or the resolver is to blame. -/
theorem FunctionDecl.Fails.blame {resolver : Resolver} {maxLocals : Nat} {decl : FunctionDecl}
    {error : CompileError} (h : decl.Fails resolver maxLocals error) :
    error.isInternal = false ∨ decl.ResolverFails resolver maxLocals error ∨
      decl.ParamsDiffer resolver maxLocals := by
  cases h with
  | params hparams =>
    rcases hparams.blame with hown | ⟨p, hp, herror⟩
    · exact .inl hown
    · exact .inr (.inl (.param hp herror))
  | body _ hbody =>
    rcases hbody.blame with hown | ⟨v, hv, type, htype, herror⟩
    · exact .inl hown
    · exact .inr (.inl (.typeRef (List.mem_filterMap.2 ⟨v, hv, htype⟩) herror))
  | signature hparams hbody hsignature =>
    exact .inr (.inl (.signature (bodyResult_of_lowers hparams hbody) hsignature))
  | wrongParams hparams hbody hsignature hne =>
    obtain ⟨htypes, -⟩ := hparams.resolve ScopeTable.showsTypes_empty
    exact .inr (.inr ⟨_, _, _, htypes, bodyResult_of_lowers hparams hbody, hsignature, hne⟩)

/-! ## Resolvers without blame -/

/-- A resolver that gives no internal errors, and gives the parameters of a signature the types that
it gives them one by one. -/
structure Resolver.Blameless (resolver : Resolver) : Prop where
  valueType : ∀ {type error}, resolver.valueType type = .error error → error.isInternal = false
  param : ∀ {p error}, resolver.param p = .error error → error.isInternal = false
  signature : ∀ {prototype result error}, resolver.signature prototype result = .error error →
    error.isInternal = false
  params : ∀ {prototype result signature}, resolver.signature prototype result = .ok signature →
    List.Forall₂ (fun p type => resolver.param p = .ok type) prototype.params signature.params

/-- Under such a resolver no declaration fails with an internal error. -/
theorem Resolver.Blameless.isInternal_lower {resolver : Resolver} (h : resolver.Blameless)
    {maxLocals : Nat} {decl : FunctionDecl} {error : CompileError}
    (herror : decl.lower resolver maxLocals = .error error) : error.isInternal = false := by
  rcases (FunctionDecl.fails_of_lower herror).blame with hown | hfails | hdiffer
  · exact hown
  · cases hfails with
    | param _ herror => exact h.param herror
    | typeRef _ herror => exact h.valueType herror
    | signature _ herror => exact h.signature herror
  · obtain ⟨types, result, signature, htypes, -, hsignature, hne⟩ := hdiffer
    have hlisted := Fallible.mapM_eq_ok_iff.2 (h.params hsignature)
    have hgiven := Fallible.mapM_eq_ok_iff.2 htypes
    exact absurd (Except.ok.inj (hlisted.symm.trans hgiven)) hne

namespace Resolver

theorem isInternal_numericType {type : TypeRef} {error : CompileError}
    (h : numericType type = .error error) : error.isInternal = false := by
  unfold numericType at h
  split at h
  · cases h
  · cases h
    rfl

theorem isInternal_annotated_numericType {p : Param} {error : CompileError}
    (h : annotated numericType p = .error error) : error.isInternal = false := by
  unfold annotated at h
  split at h
  · exact isInternal_numericType h
  · cases h

theorem isInternal_checkedResults {declared : Option TypeRef} {found : Option ValueType}
    {error : CompileError} (h : checkedResults declared found = .error error) :
    error.isInternal = false := by
  unfold checkedResults at h
  split at h
  · cases h
  · rcases Fallible.bind_eq_error_iff.1 h with htype | ⟨want, -, hfound⟩
    · exact isInternal_numericType htype
    · split at hfound
      · split at hfound
        · cases hfound
        · cases hfound
          rfl
      · cases hfound
        rfl

theorem blameless_numeric : numeric.Blameless where
  valueType := isInternal_numericType
  param := isInternal_annotated_numericType
  signature h := by
    rcases Fallible.bind_eq_error_iff.1 h with hparams | ⟨params, -, h⟩
    · obtain ⟨_, p, _, -, -, hp⟩ := Fallible.mapM_eq_error_iff.1 hparams
      exact isInternal_annotated_numericType hp
    rcases Fallible.bind_eq_error_iff.1 h with hresults | ⟨results, -, h⟩
    · exact isInternal_checkedResults hresults
    · cases h
  params h := by
    obtain ⟨params, hparams, h⟩ := Fallible.bind_eq_ok_iff.1 h
    obtain ⟨results, -, h⟩ := Fallible.bind_eq_ok_iff.1 h
    cases h
    exact Fallible.mapM_eq_ok_iff.1 hparams

end Resolver

/-! ## Whole modules -/

namespace SourceModule

theorem isInternal_itemReport {before : List Stmt} {item : Stmt} {error : CompileError}
    (h : itemReport before item = some error) : error.isInternal = false := by
  cases item with
  | function decl =>
    obtain ⟨first, -, rfl⟩ := Option.map_eq_some_iff.1 h
    rfl
  | _ => cases h; rfl

theorem lower_of_bodyReport {resolver : Resolver} {maxLocals : Nat} {before : List Stmt}
    {item : Stmt} {error : CompileError}
    (h : bodyReport resolver maxLocals before item = some error) :
    ∃ decl, item = .function decl ∧ decl.lower resolver maxLocals = .error error := by
  cases item with
  | function decl =>
    rw [bodyReport] at h
    split at h
    · rename_i hlower
      cases h
      exact ⟨decl, rfl, hlower⟩
    · cases h
  | _ => cases h

/-- Under a resolver without blame there are no internal errors among the reports of a run. -/
theorem isInternal_of_mem_reports {resolver : Resolver} (hresolver : resolver.Blameless)
    {options : Options} {source : SourceModule} {reports : Diagnostics}
    (h : source.generate resolver options = .error reports) {error : CompileError}
    (hmem : .compilation error ∈ reports) : error.isInternal = false := by
  obtain ⟨-, rfl⟩ := reports_of_generate h
  obtain ⟨found, hfound, heq⟩ := List.mem_map.1 hmem
  obtain rfl := Diagnostic.compilation.inj heq
  rcases List.mem_append.1 hfound with hitem | hbody
  · obtain ⟨_, _, -, hreport⟩ := exists_of_mem_collect hitem
    exact isInternal_itemReport hreport
  · obtain ⟨_, _, -, hreport⟩ := exists_of_mem_collect hbody
    obtain ⟨decl, -, hlower⟩ := lower_of_bodyReport hreport
    exact hresolver.isInternal_lower hlower

/-- A run up to the binary fails as a run up to the module does, or with a single report of another
kind. -/
theorem assemble_eq_error {resolver : Resolver} {options : Options} {source : SourceModule}
    {reports : Diagnostics} (h : source.assemble resolver options = .error reports) :
    source.generate resolver options = .error reports ∨
      (∃ e, reports = [.validation e]) ∨ ∃ e, reports = [.encoding e] := by
  rcases Fallible.bind_eq_error_iff.1 h with hgenerate | ⟨output, -, h⟩
  · exact .inl hgenerate
  rcases Fallible.bind_eq_error_iff.1 h with hvalidate | ⟨report, -, h⟩
  · obtain ⟨e, -, rfl⟩ := Fallible.mapError_eq_error_iff.1 hvalidate
    exact .inr (.inl ⟨e, rfl⟩)
  rcases Fallible.bind_eq_error_iff.1 h with hencode | ⟨bytes, -, h⟩
  · obtain ⟨e, -, rfl⟩ := Fallible.mapError_eq_error_iff.1 hencode
    exact .inr (.inr ⟨e, rfl⟩)
  · cases h

end SourceModule

/-- **Internal errors are the resolver's.**  Lowering a declaration ends with an internal error only
if the resolver gave that error, or if it listed parameters in the signature that are not of the
types it gave for them.  Under the numeric resolver no run reports an internal error. -/
theorem FunctionDecl.internal_of_resolver :
    (∀ (resolver : Resolver) (maxLocals : Nat) (decl : FunctionDecl) (reason : String),
      decl.lower resolver maxLocals = .error (.internal reason) →
        decl.ResolverFails resolver maxLocals (.internal reason) ∨
          decl.ParamsDiffer resolver maxLocals) ∧
    ∀ (options : Options) (source : SourceModule) (reports : Diagnostics),
      source.generate .numeric options = .error reports ∨
          source.assemble .numeric options = .error reports →
        ∀ reason, .compilation (.internal reason) ∉ reports := by
  constructor
  · intro resolver maxLocals decl reason h
    rcases (fails_of_lower h).blame with hown | hblame
    · cases hown
    · exact hblame
  · intro options source reports h reason hmem
    have hgenerate : source.generate .numeric options = .error reports := by
      rcases h with h | h
      · exact h
      rcases SourceModule.assemble_eq_error h with h | ⟨e, rfl⟩ | ⟨e, rfl⟩
      · exact h
      · simp at hmem
      · simp at hmem
    cases SourceModule.isInternal_of_mem_reports Resolver.blameless_numeric hgenerate hmem

/-- `f(a) { a }` -/
def FunctionDecl.echo : FunctionDecl where
  name := ⟨"f", .unknown⟩
  prototype := ⟨[⟨⟨"a", .unknown⟩, none, .unknown⟩], none, .unknown⟩
  body := ⟨[.expr (.path ⟨"a", .unknown⟩ .unknown) .unknown], .unknown⟩
  span := .unknown

/-- A resolver that gives the parameter one type and lists another is to blame; the numeric resolver
is not, whatever else is wrong with the source. -/
theorem FunctionDecl.internal_of_resolver_echo :
    (echo.lower (.ofTable (fun _ => none) (some [.i64]) none) 1 = .error (.internal
        "resolver produced params [I64] for 'f' but slots were declared as [I32]") ∧
      echo.ParamsDiffer (.ofTable (fun _ => none) (some [.i64]) none) 1) ∧
    SourceModule.generate .numeric .default { items := [.function echo, .function echo] } =
        .error [.compilation (.duplicateFunction "f" .unknown .unknown)] ∧
      ∀ reason, .compilation (.internal reason) ∉
        [Diagnostic.compilation (.duplicateFunction "f" .unknown .unknown)] := by
  have htable : echo.lower (.ofTable (fun _ => none) (some [.i64]) none) 1 = .error (.internal
      "resolver produced params [I64] for 'f' but slots were declared as [I32]") := by
    with_unfolding_all rfl
  have hnumeric : SourceModule.generate .numeric .default
      { items := [.function echo, .function echo] } =
        .error [.compilation (.duplicateFunction "f" .unknown .unknown)] := by
    with_unfolding_all rfl
  refine ⟨⟨htable, ?_⟩, hnumeric, internal_of_resolver.2 _ _ _ (.inl hnumeric)⟩
  rcases internal_of_resolver.1 _ _ _ _ htable with hfails | hdiffer
  · cases hfails with
    | param hp herror => cases List.mem_singleton.1 hp; cases herror
    | typeRef htype _ => cases htype
    | signature _ herror => cases herror
  · exact hdiffer

end WasmCodegen
