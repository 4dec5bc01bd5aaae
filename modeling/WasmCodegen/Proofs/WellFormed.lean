import WasmCodegen.Proofs.Declarations
import WasmCodegen.Proofs.LexicalScopes
import WasmCodegen.Proofs.LoweringRuns
import WasmCodegen.Proofs.ScopeDiscipline

/-!
# Well-formed functions

Which function declarations can be lowered?  This file answers in the terms of the source language:
by scopes that give names a type, and by rules that say of an expression or of a statement list that
it is well formed and what it yields (`YieldsExpr`, `YieldsStmts`).  The rules know nothing of
slots, code or frames.  A declaration is well formed (`FunctionDecl.WellFormed`) if its parameters
have types and different names, its body follows the rules in the scope of the parameters, there are
no more variables than allowed, and the resolver has a signature for what the body yields.

`FunctionDecl.lower_iff_wellFormed` says that these are the declarations that are lowered.  One half
reads a run, which is a derivation in `LowersExpr`, as a derivation here.  The other half builds the
run; there the limit on the variables has to be known in advance, and it is, because the slots that
a run takes are the variables in the text (`LowersExpr.slotCount_eq`).
-/

namespace WasmCodegen

/-! ## The rules -/

/-- Is this one of the four operations of arithmetic? -/
def BinaryOp.isArithmetic : BinaryOp → Bool
  | .add | .sub | .mul | .div => true
  | _ => false

mutual

/-- `YieldsExpr resolver scopes e result`: where names have the types that the scopes give, the
expression is well formed and yields a value of type `result`, if any. -/
inductive YieldsExpr (resolver : Resolver) :
    Scopes ValueType → Expr → Option ValueType → Prop
  | literal {scopes : Scopes ValueType} {value : Int} {span : Span}
      (hlow : -2147483648 ≤ value) (hhigh : value ≤ 2147483647) :
      YieldsExpr resolver scopes (.literal (.int value) span) (some .i32)
  | path {scopes : Scopes ValueType} {ident : Ident} {span : Span} {level : Nat} {type : ValueType}
      (hfind : scopes.find? ident.name = some (level, type)) :
      YieldsExpr resolver scopes (.path ident span) (some type)
  | binary {scopes : Scopes ValueType} {left right : Expr} {op : BinaryOp} {span : Span}
      (hop : op.isArithmetic = true) (hleft : YieldsExpr resolver scopes left (some .i32))
      (hright : YieldsExpr resolver scopes right (some .i32)) :
      YieldsExpr resolver scopes (.binary left op right span) (some .i32)
  | block {scopes : Scopes ValueType} {stmts : List Stmt} {span : Span} {result : Option ValueType}
      (hstmts : YieldsStmts resolver scopes.enter stmts result) :
      YieldsExpr resolver scopes (.block ⟨stmts, span⟩) result

/-- `YieldsStmts resolver scopes stmts result`: the same for the statements of a block, in the scope
at hand.  They yield what the last one yields, if it is an expression. -/
inductive YieldsStmts (resolver : Resolver) :
    Scopes ValueType → List Stmt → Option ValueType → Prop
  | nil {scopes : Scopes ValueType} : YieldsStmts resolver scopes [] none
  | last {scopes : Scopes ValueType} {e : Expr} {span : Span} {result : Option ValueType}
      (he : YieldsExpr resolver scopes e result) :
      YieldsStmts resolver scopes [.expr e span] result
  | next {scopes : Scopes ValueType} {e : Expr} {span : Span} {rest : List Stmt}
      {ignored result : Option ValueType} (hrest : rest ≠ [])
      (he : YieldsExpr resolver scopes e ignored)
      (hstmts : YieldsStmts resolver scopes rest result) :
      YieldsStmts resolver scopes (.expr e span :: rest) result
  | init {scopes : Scopes ValueType} {name : Ident} {declared : Option TypeRef} {value : Expr}
      {mutable : Bool} {span : Span} {rest : List Stmt} {type : ValueType}
      {result : Option ValueType} (hvalue : YieldsExpr resolver scopes value (some type))
      (htype : ∀ given ∈ declared, resolver.valueType given = .ok type)
      (hfresh : scopes.inner.lookup name.name = none)
      (hstmts : YieldsStmts resolver (scopes.declare name.name type) rest result) :
      YieldsStmts resolver scopes
        (.varDecl ⟨name, declared, some value, mutable, span⟩ :: rest) result
  | typed {scopes : Scopes ValueType} {name : Ident} {given : TypeRef} {mutable : Bool}
      {span : Span} {rest : List Stmt} {type : ValueType} {result : Option ValueType}
      (htype : resolver.valueType given = .ok type)
      (hfresh : scopes.inner.lookup name.name = none)
      (hstmts : YieldsStmts resolver (scopes.declare name.name type) rest result) :
      YieldsStmts resolver scopes (.varDecl ⟨name, some given, none, mutable, span⟩ :: rest) result
  | bare {scopes : Scopes ValueType} {name : Ident} {mutable : Bool} {span : Span}
      {rest : List Stmt} {result : Option ValueType}
      (hfresh : scopes.inner.lookup name.name = none)
      (hstmts : YieldsStmts resolver (scopes.declare name.name .i32) rest result) :
      YieldsStmts resolver scopes (.varDecl ⟨name, none, none, mutable, span⟩ :: rest) result

end

/-- The scope of a function's parameters, which have the given types.  It is the scope of the body's
own variables too. -/
def FunctionDecl.scope (decl : FunctionDecl) (types : List ValueType) : Scopes ValueType where
  inner := ((decl.prototype.params.map (·.name.name)).zip types).reverse

/-- `decl.WellFormed resolver maxLocals result signature`: the declaration is well formed, its body
yields a value of type `result`, if any, and it has the given signature. -/
structure FunctionDecl.WellFormed (resolver : Resolver) (maxLocals : Nat) (decl : FunctionDecl)
    (result : Option ValueType) (signature : Signature) : Prop where
  /-- The parameters have the types that the signature lists. -/
  params : List.Forall₂ (fun p type => resolver.param p = .ok type)
    decl.prototype.params signature.params
  names : (decl.prototype.params.map (·.name.name)).Nodup
  body : YieldsStmts resolver (decl.scope signature.params) decl.body.stmts result
  limit : decl.prototype.params.length + Stmt.variableCount decl.body.stmts ≤ maxLocals
  signature : resolver.signature decl.prototype result = .ok signature

/-! ## Tables and the types of names -/

namespace Scopes

variable {α β : Type}

/-- Scopes with something else declared for each name. -/
def map (g : α → β) (s : Scopes α) : Scopes β :=
  ⟨s.inner.map (Prod.map id g), s.outer.map (List.map (Prod.map id g))⟩

theorem lookup_map (g : α → β) (scope : List (String × α)) (name : String) :
    (scope.map (Prod.map id g)).lookup name = (scope.lookup name).map g := by
  induction scope with
  | nil => rfl
  | cons entry scope ih =>
    obtain ⟨declared, a⟩ := entry
    rw [List.map_cons, Prod.map_apply, id_eq, List.lookup_cons, List.lookup_cons, ih]
    cases name == declared <;> rfl

theorem search_map (g : α → β) (scopes : List (List (String × α))) (name : String) :
    search name (scopes.map (List.map (Prod.map id g))) =
      (search name scopes).map (Prod.map id g) := by
  induction scopes with
  | nil => rfl
  | cons scope outer ih =>
    rw [List.map_cons, search, search, lookup_map, ih, List.length_map]
    cases scope.lookup name <;> rfl

theorem find?_map (g : α → β) (s : Scopes α) (name : String) :
    (s.map g).find? name = (s.find? name).map (Prod.map id g) :=
  search_map g (s.inner :: s.outer) name

end Scopes

/-- The names that the table has in sight, at every level, have the types that the scopes give. -/
def ScopeTable.ShowsTypes (table : ScopeTable) (scopes : Scopes ValueType) : Prop :=
  ∃ s, table.Shows s ∧ s.map Variable.type = scopes

namespace ScopeTable

variable {table table' : ScopeTable} {scopes : Scopes ValueType}

theorem showsTypes_empty : empty.ShowsTypes {} := ⟨{}, shows_empty, rfl⟩

theorem ShowsTypes.of_levels_eq (h : table.ShowsTypes scopes)
    (hlevels : table'.levels = table.levels) : table'.ShowsTypes scopes := by
  obtain ⟨s, hshows, hmap⟩ := h
  exact ⟨s, hlevels.trans hshows, hmap⟩

theorem ShowsTypes.enter (h : table.ShowsTypes scopes) : table.enter.ShowsTypes scopes.enter := by
  obtain ⟨s, hshows, rfl⟩ := h
  exact ⟨s.enter, hshows.enter, rfl⟩

theorem ShowsTypes.bind (h : table.ShowsTypes scopes) (name : String) (type : ValueType)
    (span : Span) : (table.bind name type span).ShowsTypes (scopes.declare name type) := by
  obtain ⟨s, hshows, rfl⟩ := h
  exact ⟨_, hshows.bind name type span, rfl⟩

theorem ShowsTypes.find?_eq (h : table.ShowsTypes scopes) (name : String) :
    scopes.find? name = (table.lookup name).map fun b => (b.depth, b.type) := by
  obtain ⟨s, hshows, rfl⟩ := h
  rw [hshows.lookup_eq, Scopes.find?_map, Scopes.lookup, Scopes.meaning, Option.map_map]
  rfl

/-- The scopes give a name the level and the type of its binding. -/
theorem ShowsTypes.find?_of_lookup (h : table.ShowsTypes scopes) {name : String} {b : Binding}
    (hlookup : table.lookup name = some b) : scopes.find? name = some (b.depth, b.type) := by
  rw [h.find?_eq, hlookup, Option.map_some]

theorem ShowsTypes.exists_lookup (h : table.ShowsTypes scopes) {name : String} {level : Nat}
    {type : ValueType} (hfind : scopes.find? name = some (level, type)) :
    ∃ b, table.lookup name = some b ∧ b.type = type := by
  rw [h.find?_eq, Option.map_eq_some_iff] at hfind
  obtain ⟨b, hlookup, hb⟩ := hfind
  exact ⟨b, hlookup, congrArg Prod.snd hb⟩

/-- A name is new to the innermost scope exactly if the table has no binding for it there. -/
theorem ShowsTypes.fresh_iff (h : table.ShowsTypes scopes) (name : String) :
    table.inScope? name = none ↔ scopes.inner.lookup name = none := by
  obtain ⟨s, hshows, rfl⟩ := h
  rw [hshows.inScope?_eq, Scopes.map, Scopes.lookup_map, Option.map_eq_none_iff,
    Option.map_eq_none_iff]

end ScopeTable

/-! ## What the checks of lowering mean -/

/-- The integers that have a machine word. -/
theorem Lowering.exists_word_iff {value : Int} :
    (∃ word, word? value = some word) ↔ -2147483648 ≤ value ∧ value ≤ 2147483647 := by
  have hlow : Int32.minValue.toInt = -2147483648 := rfl
  have hhigh : Int32.maxValue.toInt = 2147483647 := rfl
  rw [word?, hlow, hhigh]
  by_cases h : -2147483648 ≤ value ∧ value ≤ 2147483647
  · simp [h]
  · simp [h]

/-- The operators that have an instruction are those of arithmetic. -/
theorem BinaryOp.exists_arith_iff {op : BinaryOp} :
    (∃ arith, op.arith? = some arith) ↔ op.isArithmetic = true := by
  cases op <;> simp [arith?, isArithmetic]

/-- An annotation agrees with a type if it has this type, and no annotation agrees with any. -/
theorem Resolver.typeOr_eq_ok_self_iff {resolver : Resolver} {declared : Option TypeRef}
    {type : ValueType} :
    resolver.typeOr type declared = .ok type ↔
      ∀ given ∈ declared, resolver.valueType given = .ok type := by
  cases declared <;> simp [typeOr]

section

variable {ctx : Context}

/-! ## The slots of a run -/

mutual

/-- An expression takes a slot for each variable declared in it. -/
theorem LowersExpr.slotCount_eq {table table' : ScopeTable} {e : Expr} {code : List Instruction}
    {result : Option ValueType} : LowersExpr ctx table e code result table' →
      table'.slotCount = table.slotCount + e.declarations.length
  | .literal _ => rfl
  | .path _ => rfl
  | .binary _ hleft hright => by
    rw [Expr.declarations, List.length_append, hright.slotCount_eq, hleft.slotCount_eq,
      Nat.add_assoc]
  | .block hstmts hleave => by
    rw [Expr.declarations, ScopeTable.slotCount_leave hleave, hstmts.slotCount_eq,
      ScopeTable.slotCount_enter]

/-- A statement takes a slot for each variable declared in it. -/
theorem LowersStmt.slotCount_eq {table table' : ScopeTable} {s : Stmt} {code : List Instruction} :
    LowersStmt ctx table s code table' →
      table'.slotCount = table.slotCount + (Stmt.declarations [s]).length
  | .drop he | .skip he => by rw [Stmt.declarations_expr, he.slotCount_eq]
  | .init hvalue _ _ => by
    rw [Stmt.declarations_init, List.length_append, List.length_singleton,
      ScopeTable.slotCount_bind, hvalue.slotCount_eq, Nat.add_assoc]
  | .bare _ _ => by
    rw [Stmt.declarations_bare, List.length_singleton, ScopeTable.slotCount_bind]

/-- Statements take a slot for each variable declared in them. -/
theorem LowersStmts.slotCount_eq {table table' : ScopeTable} {stmts : List Stmt}
    {code : List Instruction} {result : Option ValueType} :
    LowersStmts ctx table stmts code result table' →
      table'.slotCount = table.slotCount + (Stmt.declarations stmts).length
  | .nil => rfl
  | .last he => by rw [Stmt.declarations_expr, he.slotCount_eq]
  | .cons _ hs hstmts => by
    rw [Stmt.declarations_cons, List.length_append, hstmts.slotCount_eq, hs.slotCount_eq,
      Nat.add_assoc]

end

mutual

/-- The limit is checked before each slot is taken, so it is kept. -/
theorem LowersExpr.slotCount_le_limit {table table' : ScopeTable} {e : Expr}
    {code : List Instruction} {result : Option ValueType} :
    LowersExpr ctx table e code result table' → table.slotCount ≤ ctx.maxLocals →
      table'.slotCount ≤ ctx.maxLocals
  | .literal _, h | .path _, h => h
  | .binary _ hleft hright, h => hright.slotCount_le_limit (hleft.slotCount_le_limit h)
  | .block hstmts hleave, h => by
    rw [ScopeTable.slotCount_leave hleave]
    exact hstmts.slotCount_le_limit h

theorem LowersStmt.slotCount_le_limit {table table' : ScopeTable} {s : Stmt}
    {code : List Instruction} : LowersStmt ctx table s code table' →
      table.slotCount ≤ ctx.maxLocals → table'.slotCount ≤ ctx.maxLocals
  | .drop he, h | .skip he, h => he.slotCount_le_limit h
  | .init _ _ haccepts, _ | .bare _ haccepts, _ => by
    rw [ScopeTable.slotCount_bind]
    exact haccepts.slotCount_lt

theorem LowersStmts.slotCount_le_limit {table table' : ScopeTable} {stmts : List Stmt}
    {code : List Instruction} {result : Option ValueType} :
    LowersStmts ctx table stmts code result table' → table.slotCount ≤ ctx.maxLocals →
      table'.slotCount ≤ ctx.maxLocals
  | .nil, h => h
  | .last he, h => he.slotCount_le_limit h
  | .cons _ hs hstmts, h => hstmts.slotCount_le_limit (hs.slotCount_le_limit h)

end

/-! ## A run follows the rules -/

/-- The two rules for a variable without initial value, in one. -/
theorem YieldsStmts.uninitialized {resolver : Resolver} {scopes : Scopes ValueType} {name : Ident}
    {declared : Option TypeRef} {mutable : Bool} {span : Span} {rest : List Stmt}
    {type : ValueType} {result : Option ValueType}
    (htype : resolver.typeOr .numeric declared = .ok type)
    (hfresh : scopes.inner.lookup name.name = none)
    (hstmts : YieldsStmts resolver (scopes.declare name.name type) rest result) :
    YieldsStmts resolver scopes (.varDecl ⟨name, declared, none, mutable, span⟩ :: rest)
      result := by
  cases declared with
  | some given => exact .typed htype hfresh hstmts
  | none =>
    cases htype
    exact .bare hfresh hstmts

mutual

/-- A lowered expression is well formed and yields what its code leaves. -/
theorem LowersExpr.yields {table table' : ScopeTable} {e : Expr} {code : List Instruction}
    {result : Option ValueType} : LowersExpr ctx table e code result table' →
      ∀ {scopes : Scopes ValueType}, table.ShowsTypes scopes →
        YieldsExpr ctx.resolver scopes e result
  | .literal hword, _, _ => by
    obtain ⟨hlow, hhigh⟩ := Lowering.exists_word_iff.1 ⟨_, hword⟩
    exact .literal hlow hhigh
  | .path hlookup, _, hscopes => .path (hscopes.find?_of_lookup hlookup)
  | .binary harith hleft hright, _, hscopes =>
    .binary (BinaryOp.exists_arith_iff.1 ⟨_, harith⟩) (hleft.yields hscopes)
      (hright.yields (hscopes.of_levels_eq hleft.levels_eq))
  | .block hstmts _, _, hscopes => .block (hstmts.yields hscopes.enter)

/-- A lowered statement is well formed before statements that are so where its declaration is in
sight. -/
theorem LowersStmt.yields {table table' : ScopeTable} {s : Stmt} {code : List Instruction} :
    LowersStmt ctx table s code table' → ∀ {scopes : Scopes ValueType} {rest : List Stmt}
      {result : Option ValueType}, table.ShowsTypes scopes →
      (∀ e span, s = .expr e span → rest ≠ []) →
      (∀ {scopes' : Scopes ValueType}, table'.ShowsTypes scopes' →
        YieldsStmts ctx.resolver scopes' rest result) →
      YieldsStmts ctx.resolver scopes (s :: rest) result
  | .drop he, _, _, _, hscopes, hlast, hrest | .skip he, _, _, _, hscopes, hlast, hrest =>
    .next (hlast _ _ rfl) (he.yields hscopes) (hrest (hscopes.of_levels_eq he.levels_eq))
  | .init hvalue htype haccepts, _, _, _, hscopes, _, hrest => by
    have hinit := hscopes.of_levels_eq hvalue.levels_eq
    exact .init (hvalue.yields hscopes) (Resolver.typeOr_eq_ok_self_iff.1 htype)
      ((hinit.fresh_iff _).1 haccepts.fresh) (hrest (hinit.bind _ _ _))
  | .bare htype haccepts, _, _, _, hscopes, _, hrest =>
    .uninitialized htype ((hscopes.fresh_iff _).1 haccepts.fresh) (hrest (hscopes.bind _ _ _))

theorem LowersStmts.yields {table table' : ScopeTable} {stmts : List Stmt}
    {code : List Instruction} {result : Option ValueType} :
    LowersStmts ctx table stmts code result table' → ∀ {scopes : Scopes ValueType},
      table.ShowsTypes scopes → YieldsStmts ctx.resolver scopes stmts result
  | .nil, _, _ => .nil
  | .last he, _, hscopes => .last (he.yields hscopes)
  | .cons hlast hs hstmts, _, hscopes => hs.yields hscopes hlast hstmts.yields

end

/-! ## What follows the rules has a run -/

/-- The scope that a block has opened is there to be left when its statements are done. -/
theorem LowersStmts.exists_leave {table table' : ScopeTable} {stmts : List Stmt}
    {code : List Instruction} {result : Option ValueType}
    (h : LowersStmts ctx table.enter stmts code result table') :
    ∃ outer, table'.leave? = some outer := by
  cases hleave : table'.leave? with
  | some outer => exact ⟨outer, rfl⟩
  | none =>
    have hlength := congrArg List.length h.tail_levels_eq
    rw [List.length_tail, List.length_tail, ScopeTable.length_levels, ScopeTable.length_levels,
      (table'.leave?_eq_none_iff).1 hleave, ScopeTable.depth_enter] at hlength
    cases hlength

/-- From every table that gives names the types of the scopes and has slots left for the variables
in the expression, the expression has a lowering. -/
def LowerableExpr (ctx : Context) (scopes : Scopes ValueType) (e : Expr)
    (result : Option ValueType) : Prop :=
  ∀ ⦃table : ScopeTable⦄, table.ShowsTypes scopes →
    table.slotCount + e.declarations.length ≤ ctx.maxLocals →
      ∃ code table', LowersExpr ctx table e code result table'

/-- The same for statements. -/
def LowerableStmts (ctx : Context) (scopes : Scopes ValueType) (stmts : List Stmt)
    (result : Option ValueType) : Prop :=
  ∀ ⦃table : ScopeTable⦄, table.ShowsTypes scopes →
    table.slotCount + (Stmt.declarations stmts).length ≤ ctx.maxLocals →
      ∃ code table', LowersStmts ctx table stmts code result table'

namespace LowerableExpr

variable {scopes : Scopes ValueType} {span : Span}

theorem binary {left right : Expr} {op : BinaryOp} (hop : op.isArithmetic = true)
    (hleft : LowerableExpr ctx scopes left (some .i32))
    (hright : LowerableExpr ctx scopes right (some .i32)) :
    LowerableExpr ctx scopes (.binary left op right span) (some .i32) := by
  intro table hscopes hlimit
  rw [Expr.declarations, List.length_append] at hlimit
  obtain ⟨arith, harith⟩ := BinaryOp.exists_arith_iff.2 hop
  obtain ⟨codeLeft, tableLeft, hlowersLeft⟩ := hleft hscopes (by omega)
  have hcount := hlowersLeft.slotCount_eq
  obtain ⟨codeRight, tableRight, hlowersRight⟩ :=
    hright (hscopes.of_levels_eq hlowersLeft.levels_eq) (by omega)
  exact ⟨_, tableRight, .binary harith hlowersLeft hlowersRight⟩

theorem block {stmts : List Stmt} {result : Option ValueType}
    (hstmts : LowerableStmts ctx scopes.enter stmts result) :
    LowerableExpr ctx scopes (.block ⟨stmts, span⟩) result := by
  intro table hscopes hlimit
  rw [Expr.declarations] at hlimit
  obtain ⟨code, tableInner, hlowers⟩ := hstmts hscopes.enter hlimit
  obtain ⟨tableOuter, hleave⟩ := hlowers.exists_leave
  exact ⟨_, tableOuter, .block hlowers hleave⟩

end LowerableExpr

namespace LowerableStmts

variable {scopes : Scopes ValueType} {span : Span} {rest : List Stmt} {result : Option ValueType}

theorem next {e : Expr} {ignored : Option ValueType} (hrest : rest ≠ [])
    (he : LowerableExpr ctx scopes e ignored) (hstmts : LowerableStmts ctx scopes rest result) :
    LowerableStmts ctx scopes (.expr e span :: rest) result := by
  intro table hscopes hlimit
  rw [Stmt.declarations_cons, List.length_append, Stmt.declarations_expr] at hlimit
  obtain ⟨code, tableNext, hlowers⟩ := he hscopes (by omega)
  have hcount := hlowers.slotCount_eq
  obtain ⟨codeRest, table', hlowersRest⟩ :=
    hstmts (hscopes.of_levels_eq hlowers.levels_eq) (by omega)
  -- the value of the expression is dropped, if it has one
  cases ignored with
  | none => exact ⟨_, table', .cons (fun _ _ _ => hrest) (.skip hlowers) hlowersRest⟩
  | some type => exact ⟨_, table', .cons (fun _ _ _ => hrest) (.drop hlowers) hlowersRest⟩

variable {name : Ident} {declared : Option TypeRef} {mutable : Bool} {type : ValueType}

/-- A table with a slot left takes a new variable, and what follows the variable is lowered. -/
theorem declare {table : ScopeTable} (hscopes : table.ShowsTypes scopes)
    (hlimit : table.slotCount + (1 + (Stmt.declarations rest).length) ≤ ctx.maxLocals)
    (hfresh : scopes.inner.lookup name.name = none)
    (hstmts : LowerableStmts ctx (scopes.declare name.name type) rest result) :
    table.Accepts ctx.maxLocals name.name ∧
      ∃ code table', LowersStmts ctx (table.bind name.name type name.span) rest code result
        table' := by
  refine ⟨⟨by omega, (hscopes.fresh_iff _).2 hfresh⟩, hstmts (hscopes.bind _ _ _) ?_⟩
  rw [ScopeTable.slotCount_bind]
  omega

theorem init {value : Expr} (hvalue : LowerableExpr ctx scopes value (some type))
    (htype : ∀ given ∈ declared, ctx.resolver.valueType given = .ok type)
    (hfresh : scopes.inner.lookup name.name = none)
    (hstmts : LowerableStmts ctx (scopes.declare name.name type) rest result) :
    LowerableStmts ctx scopes (.varDecl ⟨name, declared, some value, mutable, span⟩ :: rest)
      result := by
  intro table hscopes hlimit
  rw [Stmt.declarations_cons, List.length_append, Stmt.declarations_init, List.length_append,
    List.length_singleton] at hlimit
  obtain ⟨code, tableInit, hlowers⟩ := hvalue hscopes (by omega)
  have hcount := hlowers.slotCount_eq
  obtain ⟨haccepts, codeRest, table', hlowersRest⟩ :=
    declare (hscopes.of_levels_eq hlowers.levels_eq) (by omega) hfresh hstmts
  have hannotated := Resolver.typeOr_eq_ok_self_iff.2 htype
  exact ⟨_, table', .cons (fun _ _ h => by cases h) (.init hlowers hannotated haccepts)
    hlowersRest⟩

theorem bare (htype : ctx.resolver.typeOr .numeric declared = .ok type)
    (hfresh : scopes.inner.lookup name.name = none)
    (hstmts : LowerableStmts ctx (scopes.declare name.name type) rest result) :
    LowerableStmts ctx scopes (.varDecl ⟨name, declared, none, mutable, span⟩ :: rest)
      result := by
  intro table hscopes hlimit
  rw [Stmt.declarations_cons, List.length_append, Stmt.declarations_bare,
    List.length_singleton] at hlimit
  obtain ⟨haccepts, codeRest, table', hlowers⟩ := declare hscopes hlimit hfresh hstmts
  exact ⟨_, table', .cons (fun _ _ h => by cases h) (.bare htype haccepts) hlowers⟩

end LowerableStmts

mutual

/-- A well-formed expression can be lowered. -/
theorem YieldsExpr.lowerable {scopes : Scopes ValueType} {e : Expr} {result : Option ValueType} :
    YieldsExpr ctx.resolver scopes e result → LowerableExpr ctx scopes e result
  | .literal hlow hhigh => by
    intro table _ _
    obtain ⟨word, hword⟩ := Lowering.exists_word_iff.2 ⟨hlow, hhigh⟩
    exact ⟨_, table, .literal hword⟩
  | .path hfind => by
    intro table hscopes _
    obtain ⟨b, hlookup, rfl⟩ := hscopes.exists_lookup hfind
    exact ⟨_, table, .path hlookup⟩
  | .binary hop hleft hright => .binary hop hleft.lowerable hright.lowerable
  | .block hstmts => .block hstmts.lowerable

/-- Well-formed statements can be lowered. -/
theorem YieldsStmts.lowerable {scopes : Scopes ValueType} {stmts : List Stmt}
    {result : Option ValueType} :
    YieldsStmts ctx.resolver scopes stmts result → LowerableStmts ctx scopes stmts result
  | .nil => fun table _ _ => ⟨[], table, .nil⟩
  | .last he => by
    intro table hscopes hlimit
    rw [Stmt.declarations_expr] at hlimit
    obtain ⟨code, table', hlowers⟩ := he.lowerable hscopes hlimit
    exact ⟨code, table', .last hlowers⟩
  | .next hrest he hstmts => .next hrest he.lowerable hstmts.lowerable
  | .init hvalue htype hfresh hstmts => .init hvalue.lowerable htype hfresh hstmts.lowerable
  | .typed htype hfresh hstmts => .bare htype hfresh hstmts.lowerable
  | .bare hfresh hstmts => .bare rfl hfresh hstmts.lowerable

end

/-! ## Parameters -/

/-- A table that accepts a parameter accepts another one after it, if the name was not in sight. -/
theorem ScopeTable.acceptsParam_bind {table : ScopeTable} (h : table.acceptsParam = true)
    {name : String} (hnew : table.lookup name = none) (type : ValueType) (span : Span) :
    (table.bind name type span).acceptsParam = true := by
  have hcontains : table.visible.contains name = false := by
    rw [← Std.TreeMap.isSome_getElem?_eq_contains]
    exact congrArg Option.isSome hnew
  rw [acceptsParam, Bool.and_eq_true, beq_iff_eq, beq_iff_eq] at h ⊢
  rw [depth_bind, slotCount_bind, h.2, bind, Std.TreeMap.size_insert, hcontains]
  exact ⟨h.1, rfl⟩

/-- Scopes with several declarations added, the last one in front. -/
def Scopes.declareAll {α : Type} (s : Scopes α) (entries : List (String × α)) : Scopes α :=
  ⟨entries.reverse ++ s.inner, s.outer⟩

theorem Scopes.declareAll_cons {α : Type} (s : Scopes α) (name : String) (a : α)
    (entries : List (String × α)) :
    s.declareAll ((name, a) :: entries) = (s.declare name a).declareAll entries := by
  simp [declareAll, declare]

theorem Scopes.lookup_declare_eq_none_iff {α : Type} {s : Scopes α} {name other : String} {a : α} :
    (s.declare name a).inner.lookup other = none ↔ other ≠ name ∧ s.inner.lookup other = none := by
  by_cases h : other = name
  · simp [declare, h]
  · have hbeq : (other == name) = false := beq_false_of_ne h
    simp [declare, List.lookup_cons, hbeq, h]

/-- In a scope with none around it, a name that is not declared means nothing. -/
theorem ScopeTable.ShowsTypes.lookup_eq_none {table : ScopeTable} {scopes : Scopes ValueType}
    (h : table.ShowsTypes scopes) (hdepth : table.depth = 0) {name : String}
    (hnew : scopes.inner.lookup name = none) : table.lookup name = none := by
  have houter : scopes.outer = [] := by
    obtain ⟨s, hshows, rfl⟩ := h
    rw [hshows.depth_eq, Scopes.level] at hdepth
    rw [Scopes.map, List.length_eq_zero_iff.1 hdepth]
    rfl
  have hfind := h.find?_eq name
  rw [Scopes.find?, houter, Scopes.search, hnew, Scopes.search] at hfind
  exact Option.map_eq_none_iff.1 hfind.symm

/-- Parameters that are declared have types, and names that are new, each to those before it. -/
theorem LowersParams.resolve {table table' : ScopeTable} {params : List Param}
    {types : List ValueType} (h : LowersParams ctx table params types table')
    {scopes : Scopes ValueType} (hscopes : table.ShowsTypes scopes) :
    List.Forall₂ (fun p type => ctx.resolver.param p = .ok type) params types ∧
      (params.map (·.name.name)).Nodup ∧
      (∀ p ∈ params, scopes.inner.lookup p.name.name = none) ∧
      table'.ShowsTypes (scopes.declareAll ((params.map (·.name.name)).zip types)) := by
  induction h generalizing scopes with
  | nil => exact ⟨.nil, List.nodup_nil, by simp, hscopes⟩
  | cons htype haccepts _ _ ih =>
    obtain ⟨htypes, hnames, hnew, hshows⟩ := ih (hscopes.bind _ _ _)
    simp only [Scopes.lookup_declare_eq_none_iff] at hnew
    rw [← Scopes.declareAll_cons] at hshows
    refine ⟨.cons htype htypes, List.nodup_cons.2 ⟨?_, hnames⟩, ?_, hshows⟩
    · intro hmem
      obtain ⟨p, hp, hname⟩ := List.mem_map.1 hmem
      exact (hnew p hp).1 hname
    · rw [List.forall_mem_cons]
      exact ⟨(hscopes.fresh_iff _).1 haccepts.fresh, fun p hp => (hnew p hp).2⟩

theorem LowersParams.slotCount_eq {table table' : ScopeTable} {params : List Param}
    {types : List ValueType} (h : LowersParams ctx table params types table') :
    table'.slotCount = table.slotCount + params.length := by
  have hsize := congrArg List.length h.slots_eq
  rw [List.length_append, ← h.length_eq] at hsize
  exact hsize

theorem LowersParams.slotCount_le_limit {table table' : ScopeTable} {params : List Param}
    {types : List ValueType} (h : LowersParams ctx table params types table')
    (hlimit : table.slotCount ≤ ctx.maxLocals) : table'.slotCount ≤ ctx.maxLocals := by
  induction h with
  | nil => exact hlimit
  | cons _ haccepts _ _ ih =>
    refine ih ?_
    rw [ScopeTable.slotCount_bind]
    exact haccepts.slotCount_lt

/-- Parameters with types and with different new names are declared, if there are slots for them. -/
theorem LowersParams.exists_of_resolve {params : List Param} {types : List ValueType}
    (htypes : List.Forall₂ (fun p type => ctx.resolver.param p = .ok type) params types)
    (hnames : (params.map (·.name.name)).Nodup) {table : ScopeTable}
    {scopes : Scopes ValueType} (hscopes : table.ShowsTypes scopes)
    (hnew : ∀ p ∈ params, scopes.inner.lookup p.name.name = none)
    (hparam : table.acceptsParam = true)
    (hlimit : table.slotCount + params.length ≤ ctx.maxLocals) :
    ∃ table', LowersParams ctx table params types table' := by
  induction htypes generalizing table scopes with
  | nil => exact ⟨table, .nil⟩
  | @cons p type params types htype _ ih =>
    rw [List.map_cons, List.nodup_cons] at hnames
    rw [List.forall_mem_cons] at hnew
    rw [List.length_cons] at hlimit
    have hdepth : table.depth = 0 := by
      rw [ScopeTable.acceptsParam, Bool.and_eq_true, beq_iff_eq] at hparam
      exact hparam.1
    have hnext : ∀ q ∈ params,
        (scopes.declare p.name.name type).inner.lookup q.name.name = none := by
      intro q hq
      refine Scopes.lookup_declare_eq_none_iff.2 ⟨fun hname => hnames.1 ?_, hnew.2 q hq⟩
      exact List.mem_map.2 ⟨q, hq, hname⟩
    have hparamNext : (table.bind p.name.name type p.name.span).acceptsParam = true :=
      ScopeTable.acceptsParam_bind hparam (hscopes.lookup_eq_none hdepth hnew.1) type p.name.span
    obtain ⟨table', hlowers⟩ := ih hnames.2 (hscopes.bind _ _ p.name.span) hnext hparamNext (by
      rw [ScopeTable.slotCount_bind]
      omega)
    have haccepts : table.Accepts ctx.maxLocals p.name.name :=
      ⟨by omega, (hscopes.fresh_iff _).2 hnew.1⟩
    exact ⟨table', .cons htype haccepts hparam hlowers⟩

end

/-! ## Functions -/

namespace FunctionDecl

variable {resolver : Resolver} {maxLocals : Nat} {decl : FunctionDecl}

theorem scope_eq_declareAll (types : List ValueType) :
    decl.scope types =
      ({} : Scopes ValueType).declareAll ((decl.prototype.params.map (·.name.name)).zip types) := by
  rw [scope, Scopes.declareAll, List.append_nil]

/-- A declaration that is lowered is well formed. -/
theorem Lowers.wellFormed {result : Option ValueType} {f : LoweredFunction}
    (h : decl.Lowers resolver maxLocals result f) :
    decl.WellFormed resolver maxLocals result f.signature := by
  obtain ⟨hparams, hbody, hsignature⟩ := h
  obtain ⟨htypes, hnames, -, hscopes⟩ := hparams.resolve ScopeTable.showsTypes_empty
  have hlimit := hbody.slotCount_le_limit (hparams.slotCount_le_limit (Nat.zero_le _))
  rw [hbody.slotCount_eq, hparams.slotCount_eq, ScopeTable.slotCount_empty, Nat.zero_add] at hlimit
  rw [← scope_eq_declareAll] at hscopes
  exact ⟨htypes, hnames, hbody.yields hscopes, hlimit, hsignature⟩

/-- A well-formed declaration is lowered, with the signature and the result that make it so. -/
theorem WellFormed.exists_lowers {result : Option ValueType} {signature : Signature}
    (h : decl.WellFormed resolver maxLocals result signature) :
    ∃ f, decl.Lowers resolver maxLocals result f ∧ f.signature = signature := by
  have hlimit := h.limit
  let ctx := decl.context resolver maxLocals
  obtain ⟨tableParams, hparams⟩ : ∃ table,
      LowersParams ctx .empty decl.prototype.params signature.params table := by
    refine LowersParams.exists_of_resolve h.params h.names ScopeTable.showsTypes_empty ?_ rfl ?_
    · exact fun _ _ => rfl
    · rw [ScopeTable.slotCount_empty, Nat.zero_add]
      exact Nat.le_trans (Nat.le_add_right _ _) hlimit
  obtain ⟨-, -, -, hscopes⟩ := hparams.resolve ScopeTable.showsTypes_empty
  rw [← scope_eq_declareAll] at hscopes
  have hbody : LowerableStmts ctx (decl.scope signature.params) decl.body.stmts result :=
    h.body.lowerable
  obtain ⟨code, table, hlowers⟩ := hbody hscopes (by
    rw [hparams.slotCount_eq, ScopeTable.slotCount_empty, Nat.zero_add]
    exact hlimit)
  exact ⟨_, .intro hparams hlowers h.signature, rfl⟩

/-- Exactly the well-formed declarations are lowered.  What makes a declaration well formed is also
what comes out: the signature of the function, and the type of the value that its body yields. -/
theorem lower_iff_wellFormed (resolver : Resolver) (maxLocals : Nat) (decl : FunctionDecl) :
    ((∃ f, decl.lower resolver maxLocals = .ok f) ↔
      ∃ result signature, decl.WellFormed resolver maxLocals result signature) ∧
    ∀ result signature, decl.WellFormed resolver maxLocals result signature →
      decl.bodyResult resolver maxLocals = .ok result ∧
        ∃ f, decl.lower resolver maxLocals = .ok f ∧ f.signature = signature := by
  have hlower : ∀ result signature, decl.WellFormed resolver maxLocals result signature →
      decl.bodyResult resolver maxLocals = .ok result ∧
        ∃ f, decl.lower resolver maxLocals = .ok f ∧ f.signature = signature := by
    intro result signature h
    obtain ⟨f, hlowers, hsignature⟩ := h.exists_lowers
    obtain ⟨hf, hresult⟩ := lower_of_lowers hlowers
    exact ⟨hresult, f, hf, hsignature⟩
  refine ⟨⟨?_, ?_⟩, hlower⟩
  · rintro ⟨f, hf⟩
    obtain ⟨result, hlowers⟩ := lower_eq_ok_iff.1 hf
    exact ⟨result, f.signature, hlowers.wellFormed⟩
  · rintro ⟨result, signature, h⟩
    obtain ⟨-, f, hf, -⟩ := hlower result signature h
    exact ⟨f, hf⟩

end FunctionDecl

end WasmCodegen
