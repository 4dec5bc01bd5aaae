import WasmCodegen.Proofs.LoweringRules

/-!
# What follows the rules is lowered

`LowersExpr` and its companions describe successful runs of lowering, and `lowersExpr_of_lowerExpr`
says that there are no others.  This file proves that every run they describe takes place: from the
scope table of the rule, and whatever has been emitted before, lowering gives the result of the
rule, leaves its scope table and appends its code (`Lowering.lowerExpr_of_lowersExpr`).  So whether
a declaration can be lowered is a question about the rules alone (`FunctionDecl.lower_eq_ok_iff`).

No rule mentions the order in which checks are made.  That none of them gets in the way of a run
that the rules allow is what the lemmas about single steps say.
-/

namespace WasmCodegen

namespace Lowering

/-! ## Steps that do not fail -/

theorem ofExcept_of_eq_ok {α : Type} {x : Except CompileError α} {a : α} (h : x = .ok a)
    (frame : Frame) : ofExcept x frame = .ok a frame := by
  rw [h]
  rfl

theorem onScopes_of_eq_ok {α : Type} {action : ScopeTable.Action α} {frame : Frame} {a : α}
    {table : ScopeTable} (h : action frame.scopes = .ok a table) :
    onScopes action frame = .ok a ⟨table, frame.code⟩ := by
  rw [onScopes, h]

theorem nested_of_eq_ok {α : Type} {step : Lowering α} {frame inner : Frame} {a : α}
    (h : step ⟨frame.scopes, #[]⟩ = .ok a inner) :
    nested step frame = .ok (a, inner.code) ⟨inner.scopes, frame.code⟩ := by
  rw [nested, h]

theorem leaveScope_of_eq_some {frame : Frame} {table : ScopeTable}
    (h : frame.scopes.leave? = some table) :
    leaveScope frame = .ok () ⟨table, frame.code⟩ := by
  refine onScopes_of_eq_ok ?_
  rw [ScopeTable.leave_apply, h]

section

variable {ctx : Context} {frame : Frame} {name : String}

theorem reserveLocal_of_lt {span : Span} (h : frame.scopes.slotCount < ctx.maxLocals) :
    reserveLocal ctx span frame = .ok () frame := by
  show (if ctx.maxLocals ≤ frame.scopes.slotCount then
    throw (.tooManyLocals ctx.function ctx.maxLocals span) else pure () : Lowering Unit) frame = _
  rw [if_neg (Nat.not_le_of_lt h)]
  rfl

theorem declare_of_fresh (type : ValueType) (span : Span) {table : ScopeTable}
    (h : table.inScope? name = none) :
    ScopeTable.declare name type span table = .ok table.slotCount (table.bind name type span) := by
  rw [ScopeTable.declare_apply, h]

/-- A table that accepts a variable declares it. -/
theorem declareLocal_of_accepts (type : ValueType) (span : Span)
    (h : frame.scopes.Accepts ctx.maxLocals name) :
    declareLocal ctx name type span frame =
      .ok frame.scopes.slotCount ⟨frame.scopes.bind name type span, frame.code⟩ := by
  rw [declareLocal, bind_of_eq_ok (reserveLocal_of_lt h.slotCount_lt)]
  exact onScopes_of_eq_ok (declare_of_fresh type span h.fresh)

theorem declareParam_of_accepts (type : ValueType) (span : Span)
    (h : frame.scopes.Accepts ctx.maxLocals name) (hparam : frame.scopes.acceptsParam = true) :
    declareParam ctx name type span frame =
      .ok frame.scopes.slotCount ⟨frame.scopes.bind name type span, frame.code⟩ := by
  rw [declareParam, bind_of_eq_ok (reserveLocal_of_lt h.slotCount_lt)]
  refine onScopes_of_eq_ok ?_
  rw [ScopeTable.declareParam_apply, if_pos hparam]
  exact declare_of_fresh type span h.fresh

/-- An annotation that has a type gives it, and no annotation gives none. -/
theorem declaredType_of_typeOr {resolver : Resolver} {default found : ValueType}
    {type : Option TypeRef} (h : resolver.typeOr default type = .ok found) (frame : Frame) :
    declaredType resolver type frame = .ok (type.map fun _ => found) frame := by
  cases type with
  | none => rfl
  | some type =>
    have h : resolver.valueType type = .ok found := h
    rw [declaredType, h]
    rfl

/-! ## Expressions and statements -/

/-- Two operands of the numeric type are followed by the instruction of the operator. -/
theorem lowerExpr_binary_of {left right : Expr} {op : BinaryOp} {span : Span} {arith : ArithOp}
    {first second : Frame} (harith : op.arith? = some arith)
    (hleft : lowerExpr ctx left frame = .ok (some .numeric) first)
    (hright : lowerExpr ctx right first = .ok (some .numeric) second) :
    lowerExpr ctx (.binary left op right span) frame =
      .ok (some .numeric) ⟨second.scopes, second.code.push (.arith arith)⟩ := by
  have hleftValue : requireValue "left operand" left.span (some .numeric) first =
      .ok .numeric first := rfl
  have hrightValue : requireValue "right operand" right.span (some .numeric) second =
      .ok .numeric second := rfl
  have hnumeric : ∀ span, requireNumeric op span .numeric second = .ok () second := fun _ => rfl
  simp only [lowerExpr, harith]
  rw [bind_of_eq_ok hleft, bind_of_eq_ok hleftValue, bind_of_eq_ok hright,
    bind_of_eq_ok hrightValue, bind_of_eq_ok (hnumeric _), bind_of_eq_ok (hnumeric _)]
  rfl

/-- The statements of a block are lowered with a scope and with code of their own. -/
theorem lowerExpr_block_of {stmts : List Stmt} {span : Span} {result : Option ValueType}
    {inner : Frame} {table : ScopeTable}
    (hstmts : lowerStmts ctx stmts ⟨frame.scopes.enter, #[]⟩ = .ok result inner)
    (hleave : inner.scopes.leave? = some table) :
    lowerExpr ctx (.block ⟨stmts, span⟩) frame =
      .ok result ⟨table, frame.code.push (.block result (inner.code.push .endSeq).toList)⟩ := by
  have henter : enterScope frame = .ok () ⟨frame.scopes.enter, frame.code⟩ := rfl
  have hnested : nested (lowerStmts ctx stmts) ⟨frame.scopes.enter, frame.code⟩ =
      .ok (result, inner.code) ⟨inner.scopes, frame.code⟩ := nested_of_eq_ok hstmts
  have hscope : leaveScope ⟨inner.scopes, frame.code⟩ = .ok () ⟨table, frame.code⟩ :=
    leaveScope_of_eq_some hleave
  simp only [lowerExpr]
  rw [bind_of_eq_ok henter, bind_of_eq_ok hnested, bind_of_eq_ok hscope]
  rfl

/-- The last statement of a block yields its value. -/
theorem lowerStmt_last_of {e : Expr} {span : Span} {result : Option ValueType} {between : Frame}
    (he : lowerExpr ctx e frame = .ok result between) :
    lowerStmt ctx true (.expr e span) frame = .ok result between := by
  rw [lowerStmt, bind_of_eq_ok he]
  cases result <;> rfl

theorem lowerStmt_drop_of {e : Expr} {span : Span} {type : ValueType} {between : Frame}
    (he : lowerExpr ctx e frame = .ok (some type) between) :
    lowerStmt ctx false (.expr e span) frame =
      .ok none ⟨between.scopes, between.code.push .drop⟩ := by
  rw [lowerStmt, bind_of_eq_ok he]
  rfl

theorem lowerStmt_skip_of {e : Expr} {span : Span} {between : Frame}
    (he : lowerExpr ctx e frame = .ok none between) :
    lowerStmt ctx false (.expr e span) frame = .ok none between := by
  rw [lowerStmt, bind_of_eq_ok he]
  rfl

/-- A variable whose initial value is lowered and agrees with the annotation is declared. -/
theorem lowerStmt_init_of {last : Bool} {ident : Ident} {type : Option TypeRef} {value : Expr}
    {mutable : Bool} {span : Span} {found : ValueType} {between : Frame}
    (hvalue : lowerExpr ctx value frame = .ok (some found) between)
    (htype : ctx.resolver.typeOr found type = .ok found)
    (haccepts : between.scopes.Accepts ctx.maxLocals ident.name) :
    lowerStmt ctx last (.varDecl ⟨ident, type, some value, mutable, span⟩) frame =
      .ok none ⟨between.scopes.bind ident.name found ident.span,
        between.code.push (.localSet between.scopes.slotCount)⟩ := by
  have hrequire : requireValue "initializer" value.span (some found) between =
      .ok found between := rfl
  have hagree : variableType ident.name span (type.map fun _ => found) (some found) between =
      .ok found between := by
    cases type with
    | none => rfl
    | some type =>
      rw [Option.map_some, variableType, if_pos rfl]
      rfl
  simp only [lowerStmt]
  rw [bind_of_eq_ok (declaredType_of_typeOr htype frame), bind_of_eq_ok hvalue,
    bind_of_eq_ok hrequire, bind_of_eq_ok hagree,
    bind_of_eq_ok (declareLocal_of_accepts found ident.span haccepts)]
  rfl

/-- A variable without initial value is declared with the type of its annotation. -/
theorem lowerStmt_bare_of {last : Bool} {ident : Ident} {type : Option TypeRef} {mutable : Bool}
    {span : Span} {declared : ValueType}
    (htype : ctx.resolver.typeOr .numeric type = .ok declared)
    (haccepts : frame.scopes.Accepts ctx.maxLocals ident.name) :
    lowerStmt ctx last (.varDecl ⟨ident, type, none, mutable, span⟩) frame =
      .ok none ⟨frame.scopes.bind ident.name declared ident.span, frame.code⟩ := by
  have hgiven : variableType ident.name span (type.map fun _ => declared) none frame =
      .ok declared frame := by
    cases type with
    | none =>
      cases htype
      rfl
    | some type => rfl
  simp only [lowerStmt]
  rw [bind_of_eq_ok (declaredType_of_typeOr htype frame), bind_of_eq_ok hgiven,
    bind_of_eq_ok (declareLocal_of_accepts declared ident.span haccepts)]
  rfl

/-- A statement is lowered before those that follow.  One that is no expression yields nothing, so
it may as well be the last. -/
theorem lowerStmts_cons_of {s : Stmt} {rest : List Stmt} {between : Frame}
    (hlast : ∀ e span, s = .expr e span → rest ≠ [])
    (hs : lowerStmt ctx false s frame = .ok none between) :
    lowerStmts ctx (s :: rest) frame = lowerStmts ctx rest between := by
  cases rest with
  | nil =>
    show lowerStmt ctx true s frame = lowerStmts ctx [] between
    rw [lowerStmt_last_eq fun e span h => hlast e span h rfl, hs]
    rfl
  | cons next rest =>
    rw [lowerStmts, bind_of_eq_ok hs]
    exact List.cons_ne_nil next rest

end

/-! ## Runs -/

section

variable {ctx : Context}

mutual

/-- An expression is lowered as the rules say. -/
theorem lowerExpr_of_lowersExpr {table table' : ScopeTable} {e : Expr} {code : List Instruction}
    {result : Option ValueType} : LowersExpr ctx table e code result table' →
      ∀ emitted : Array Instruction,
        lowerExpr ctx e ⟨table, emitted⟩ = .ok result ⟨table', emitted ++ code.toArray⟩
  | .literal hword, emitted => by
    simp only [lowerExpr, hword]
    rw [← Array.push_eq_append]
    rfl
  | .path hlookup, emitted => by
    simp only [lowerExpr]
    rw [bind_of_eq_ok (show lookup _ ⟨table, emitted⟩ = .ok _ ⟨table, emitted⟩ from rfl), hlookup,
      ← Array.push_eq_append]
    rfl
  | .binary harith hleft hright, emitted => by
    rw [lowerExpr_binary_of harith (lowerExpr_of_lowersExpr hleft _)
      (lowerExpr_of_lowersExpr hright _)]
    simp
  | .block hstmts hleave, emitted => by
    rw [lowerExpr_block_of (lowerStmts_of_lowersStmts hstmts _) hleave]
    simp

/-- A statement is lowered as the rules say. -/
theorem lowerStmt_of_lowersStmt {table table' : ScopeTable} {s : Stmt} {code : List Instruction} :
    LowersStmt ctx table s code table' → ∀ emitted : Array Instruction,
      lowerStmt ctx false s ⟨table, emitted⟩ = .ok none ⟨table', emitted ++ code.toArray⟩
  | .drop he, emitted => by
    rw [lowerStmt_drop_of (lowerExpr_of_lowersExpr he emitted)]
    simp
  | .skip he, emitted => lowerStmt_skip_of (lowerExpr_of_lowersExpr he emitted)
  | .init hvalue htype haccepts, emitted => by
    rw [lowerStmt_init_of (lowerExpr_of_lowersExpr hvalue emitted) htype haccepts]
    simp
  | .bare htype haccepts, emitted => by
    rw [lowerStmt_bare_of htype haccepts]
    simp

/-- Statements are lowered as the rules say. -/
theorem lowerStmts_of_lowersStmts {table table' : ScopeTable} {stmts : List Stmt}
    {code : List Instruction} {result : Option ValueType} :
    LowersStmts ctx table stmts code result table' → ∀ emitted : Array Instruction,
      lowerStmts ctx stmts ⟨table, emitted⟩ = .ok result ⟨table', emitted ++ code.toArray⟩
  | .nil, emitted => by
    rw [lowerStmts, Array.append_empty]
    rfl
  | .last he, emitted => by
    rw [lowerStmts, lowerStmt_last_of (lowerExpr_of_lowersExpr he emitted)]
  | .cons hlast hs hstmts, emitted => by
    rw [lowerStmts_cons_of hlast (lowerStmt_of_lowersStmt hs emitted),
      lowerStmts_of_lowersStmts hstmts]
    simp

end

/-- Parameters are declared as the rules say. -/
theorem lowerParams_of_lowersParams {table table' : ScopeTable} {params : List Param}
    {types : List ValueType} (h : LowersParams ctx table params types table')
    (emitted : Array Instruction) :
    lowerParams ctx params ⟨table, emitted⟩ = .ok types ⟨table', emitted⟩ := by
  induction h with
  | nil => rfl
  | cons htype haccepts hparam _ ih =>
    rw [lowerParams, bind_of_eq_ok (ofExcept_of_eq_ok htype _),
      bind_of_eq_ok (declareParam_of_accepts _ _ haccepts hparam), bind_of_eq_ok ih]
    rfl

end

end Lowering

/-- Parameters and a body that follow the rules give what the body yields. -/
theorem FunctionDecl.bodyResult_of_lowers {resolver : Resolver} {maxLocals : Nat}
    {decl : FunctionDecl} {types : List ValueType} {tableParams table : ScopeTable}
    {code : List Instruction} {result : Option ValueType}
    (hparams : LowersParams (decl.context resolver maxLocals) .empty decl.prototype.params types
      tableParams)
    (hbody : LowersStmts (decl.context resolver maxLocals) tableParams decl.body.stmts code result
      table) : decl.bodyResult resolver maxLocals = .ok result := by
  have hrunParams := Lowering.lowerParams_of_lowersParams hparams #[]
  have hrunBody := Lowering.lowerStmts_of_lowersStmts hbody #[]
  simp only [bodyResult]
  rw [show ({} : Frame) = ⟨.empty, #[]⟩ from rfl, Lowering.bind_of_eq_ok hrunParams, hrunBody]

/-- A declaration that follows the rules is lowered. -/
theorem FunctionDecl.lower_of_lowers {resolver : Resolver} {maxLocals : Nat} {decl : FunctionDecl}
    {result : Option ValueType} {f : LoweredFunction}
    (h : decl.Lowers resolver maxLocals result f) :
    decl.lower resolver maxLocals = .ok f ∧ decl.bodyResult resolver maxLocals = .ok result := by
  obtain @⟨signature, tableParams, table, code, hparams, hbody, hsignature⟩ := h
  let ctx := decl.context resolver maxLocals
  have hrunParams : Lowering.lowerParams ctx decl.prototype.params {} =
      .ok signature.params ⟨tableParams, #[]⟩ := Lowering.lowerParams_of_lowersParams hparams #[]
  have hrunBody := Lowering.lowerStmts_of_lowersStmts hbody #[]
  have hresolve : ctx.resolver.signature decl.prototype result = .ok signature := hsignature
  have hdecl : Lowering.lowerDecl ctx decl {} = .ok signature ⟨table, #[] ++ code.toArray⟩ := by
    rw [Lowering.lowerDecl, Lowering.bind_of_eq_ok hrunParams, Lowering.bind_of_eq_ok hrunBody,
      Lowering.bind_of_eq_ok (Lowering.ofExcept_of_eq_ok hresolve _), if_pos rfl]
    rfl
  constructor
  · rw [lower, hdecl]
    simp
  · exact bodyResult_of_lowers hparams hbody

/-- The rules are the successful runs. -/
theorem FunctionDecl.lower_eq_ok_iff {resolver : Resolver} {maxLocals : Nat} {decl : FunctionDecl}
    {f : LoweredFunction} :
    decl.lower resolver maxLocals = .ok f ↔ ∃ result, decl.Lowers resolver maxLocals result f := by
  constructor
  · intro h
    obtain ⟨result, -, hlowers⟩ := lowers_of_lower h
    exact ⟨result, hlowers⟩
  · rintro ⟨result, hlowers⟩
    exact (lower_of_lowers hlowers).1

end WasmCodegen
