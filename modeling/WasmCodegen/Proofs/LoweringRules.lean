import WasmCodegen.Lowering.Function
import WasmCodegen.Proofs.Fallible

/-!
# Lowering as a relation

`Lowering.lowerExpr` and its companions thread a frame through every step and may fail at each.
What a successful run does is much simpler: it turns one scope table into another and appends a
piece of code.  `LowersExpr`, `LowersStmt` and `LowersStmts` say this by rules, one for each
construct that has a lowering, and `lowersExpr_of_lowerExpr` proves that every successful run
follows them.  Facts about successful runs are then proved by induction on the rules, without a look
at the frame.

The rules follow the source tree: a statement list is lowered from the front, and its last
statement is the one that may leave a value.  Every other statement leaves none (`LowersStmt`).
-/

namespace WasmCodegen

/-- The type that an annotation gives, or a type in place of a missing annotation. -/
def Resolver.typeOr (resolver : Resolver) (default : ValueType) :
    Option TypeRef → Except CompileError ValueType
  | some type => resolver.valueType type
  | none => .ok default

/-- May a variable be declared here?  There has to be a slot left, and the name must not be
declared in the innermost scope yet. -/
structure ScopeTable.Accepts (table : ScopeTable) (maxLocals : Nat) (name : String) : Prop where
  slotCount_lt : table.slotCount < maxLocals
  fresh : table.inScope? name = none

mutual

/-- `LowersExpr ctx table e code result table'`: the expression is lowered to `code`, which leaves
a value of type `result`, if any; the scope table changes from `table` to `table'`. -/
inductive LowersExpr (ctx : Context) :
    ScopeTable → Expr → List Instruction → Option ValueType → ScopeTable → Prop
  | literal {table : ScopeTable} {value : Int} {span : Span} {word : Int32}
      (hword : Lowering.word? value = some word) :
      LowersExpr ctx table (.literal (.int value) span) [.const word] (some .numeric) table
  | path {table : ScopeTable} {ident : Ident} {span : Span} {binding : Binding}
      (hlookup : table.lookup ident.name = some binding) :
      LowersExpr ctx table (.path ident span) [.localGet binding.slot] (some binding.type) table
  | binary {table tableLeft tableRight : ScopeTable} {left right : Expr} {op : BinaryOp}
      {span : Span} {arith : ArithOp} {codeLeft codeRight : List Instruction}
      (harith : op.arith? = some arith)
      (hleft : LowersExpr ctx table left codeLeft (some .numeric) tableLeft)
      (hright : LowersExpr ctx tableLeft right codeRight (some .numeric) tableRight) :
      LowersExpr ctx table (.binary left op right span)
        (codeLeft ++ (codeRight ++ [.arith arith])) (some .numeric) tableRight
  | block {table tableInner tableOuter : ScopeTable} {stmts : List Stmt} {span : Span}
      {code : List Instruction} {result : Option ValueType}
      (hstmts : LowersStmts ctx table.enter stmts code result tableInner)
      (hleave : tableInner.leave? = some tableOuter) :
      LowersExpr ctx table (.block ⟨stmts, span⟩) [.block result (code ++ [.endSeq])] result
        tableOuter

/-- `LowersStmt ctx table s code table'`: the statement is lowered to `code`, which leaves no
value. -/
inductive LowersStmt (ctx : Context) :
    ScopeTable → Stmt → List Instruction → ScopeTable → Prop
  | drop {table table' : ScopeTable} {e : Expr} {span : Span} {code : List Instruction}
      {type : ValueType} (he : LowersExpr ctx table e code (some type) table') :
      LowersStmt ctx table (.expr e span) (code ++ [.drop]) table'
  | skip {table table' : ScopeTable} {e : Expr} {span : Span} {code : List Instruction}
      (he : LowersExpr ctx table e code none table') :
      LowersStmt ctx table (.expr e span) code table'
  | init {table tableInit : ScopeTable} {name : Ident} {type : Option TypeRef} {value : Expr}
      {mutable : Bool} {span : Span} {code : List Instruction} {found : ValueType}
      (hvalue : LowersExpr ctx table value code (some found) tableInit)
      (htype : ctx.resolver.typeOr found type = .ok found)
      (haccepts : tableInit.Accepts ctx.maxLocals name.name) :
      LowersStmt ctx table (.varDecl ⟨name, type, some value, mutable, span⟩)
        (code ++ [.localSet tableInit.slotCount]) (tableInit.bind name.name found name.span)
  | bare {table : ScopeTable} {name : Ident} {type : Option TypeRef} {mutable : Bool} {span : Span}
      {declared : ValueType} (htype : ctx.resolver.typeOr .numeric type = .ok declared)
      (haccepts : table.Accepts ctx.maxLocals name.name) :
      LowersStmt ctx table (.varDecl ⟨name, type, none, mutable, span⟩) []
        (table.bind name.name declared name.span)

/-- `LowersStmts ctx table stmts code result table'`: the statements of a block are lowered, in the
scope at hand.  Their value is that of the last one, if it is an expression. -/
inductive LowersStmts (ctx : Context) :
    ScopeTable → List Stmt → List Instruction → Option ValueType → ScopeTable → Prop
  | nil {table : ScopeTable} : LowersStmts ctx table [] [] none table
  | last {table table' : ScopeTable} {e : Expr} {span : Span} {code : List Instruction}
      {result : Option ValueType} (he : LowersExpr ctx table e code result table') :
      LowersStmts ctx table [.expr e span] code result table'
  | cons {table tableNext table' : ScopeTable} {s : Stmt} {rest : List Stmt}
      {code codeRest : List Instruction} {result : Option ValueType}
      (hlast : ∀ e span, s = .expr e span → rest ≠ []) (hs : LowersStmt ctx table s code tableNext)
      (hstmts : LowersStmts ctx tableNext rest codeRest result table') :
      LowersStmts ctx table (s :: rest) (code ++ codeRest) result table'

end

/-- `LowersParams ctx table params types table'`: the parameters are declared in order, with the
given types. -/
inductive LowersParams (ctx : Context) :
    ScopeTable → List Param → List ValueType → ScopeTable → Prop
  | nil {table : ScopeTable} : LowersParams ctx table [] [] table
  | cons {table table' : ScopeTable} {p : Param} {rest : List Param} {type : ValueType}
      {types : List ValueType} (htype : ctx.resolver.param p = .ok type)
      (haccepts : table.Accepts ctx.maxLocals p.name.name) (hparam : table.acceptsParam = true)
      (hrest : LowersParams ctx (table.bind p.name.name type p.name.span) rest types table') :
      LowersParams ctx table (p :: rest) (type :: types) table'

/-- The type of the value that the body of a function yields, if it yields one. -/
def FunctionDecl.bodyResult (resolver : Resolver) (maxLocals : Nat) (decl : FunctionDecl) :
    Except CompileError (Option ValueType) :=
  let ctx := decl.context resolver maxLocals
  match (do let _ ← Lowering.lowerParams ctx decl.prototype.params
            Lowering.lowerStmts ctx decl.body.stmts : Lowering _) {} with
  | .ok result _ => .ok result
  | .error e _ => .error e

/-- `decl.Lowers resolver maxLocals result f`: the declaration is lowered to `f`, and its body
yields a value of type `result`, if any. -/
inductive FunctionDecl.Lowers (resolver : Resolver) (maxLocals : Nat) (decl : FunctionDecl)
    (result : Option ValueType) : LoweredFunction → Prop
  | intro {signature : Signature} {tableParams table : ScopeTable} {code : List Instruction}
      (hparams : LowersParams (decl.context resolver maxLocals) .empty decl.prototype.params
        signature.params tableParams)
      (hbody : LowersStmts (decl.context resolver maxLocals) tableParams decl.body.stmts code
        result table)
      (hsignature : resolver.signature decl.prototype result = .ok signature) :
      Lowers resolver maxLocals decl result
        { name := decl.name.name
          signature
          paramCount := decl.prototype.params.length
          locals := table.slots
          body := code ++ [.endSeq]
          span := decl.span }

/-! ## Steps that succeed

One lemma for each operation: when it succeeds, and what it makes of the state. -/

namespace ScopeTable

theorem leave_eq_ok {table table' : ScopeTable} (h : leave table = .ok () table') :
    table.leave? = some table' := by
  rw [leave_apply] at h
  cases hleave : table.leave? with
  | none => rw [hleave] at h; cases h
  | some inner => rw [hleave] at h; cases h; rfl

theorem declare_eq_ok {name : String} {type : ValueType} {span : Span} {table table' : ScopeTable}
    {slot : Nat} (h : declare name type span table = .ok slot table') :
    table.inScope? name = none ∧ slot = table.slotCount ∧ table' = table.bind name type span := by
  rw [declare_apply] at h
  cases hscope : table.inScope? name with
  | none => rw [hscope] at h; cases h; exact ⟨rfl, rfl, rfl⟩
  | some first => rw [hscope] at h; cases h

end ScopeTable

namespace Lowering

theorem bind_eq_ok {α β : Type} {x : Lowering α} {g : α → Lowering β} {frame frame' : Frame} {b : β}
    (h : (x >>= g) frame = .ok b frame') :
    ∃ a between, x frame = .ok a between ∧ g a between = .ok b frame' := by
  change EStateM.bind x g frame = .ok b frame' at h
  unfold EStateM.bind at h
  split at h
  · rename_i a between hx
    exact ⟨a, between, hx, h⟩
  · cases h

theorem bind_of_eq_ok {α β : Type} {x : Lowering α} {frame between : Frame} {a : α}
    (h : x frame = .ok a between) (g : α → Lowering β) : (x >>= g) frame = g a between := by
  change EStateM.bind x g frame = g a between
  rw [EStateM.bind, h]

theorem map_eq_ok {α β : Type} {x : Lowering α} {g : α → β} {frame frame' : Frame} {b : β}
    (h : (g <$> x) frame = .ok b frame') : ∃ a, x frame = .ok a frame' ∧ b = g a := by
  change EStateM.map g x frame = .ok b frame' at h
  unfold EStateM.map at h
  split at h
  · rename_i a between hx
    cases h
    exact ⟨a, hx, rfl⟩
  · cases h

theorem ofExcept_eq_ok {α : Type} {x : Except CompileError α} {frame frame' : Frame} {a : α}
    (h : ofExcept x frame = .ok a frame') : x = .ok a ∧ frame' = frame := by
  cases x with
  | error e => cases h
  | ok a => cases h; exact ⟨rfl, rfl⟩

theorem onScopes_eq_ok {α : Type} {action : ScopeTable.Action α} {frame frame' : Frame} {a : α}
    (h : onScopes action frame = .ok a frame') :
    ∃ table, action frame.scopes = .ok a table ∧ frame' = ⟨table, frame.code⟩ := by
  obtain ⟨scopes, code⟩ := frame
  unfold onScopes at h
  cases haction : action scopes with
  | ok a table => simp only [haction] at h; cases h; exact ⟨table, rfl, rfl⟩
  | error e table => simp only [haction] at h; cases h

theorem nested_eq_ok {α : Type} {step : Lowering α} {frame frame' : Frame} {a : α}
    {inner : Array Instruction} (h : nested step frame = .ok (a, inner) frame') :
    ∃ table, step ⟨frame.scopes, #[]⟩ = .ok a ⟨table, inner⟩ ∧ frame' = ⟨table, frame.code⟩ := by
  obtain ⟨scopes, outer⟩ := frame
  unfold nested at h
  cases hstep : step ⟨scopes, #[]⟩ with
  | ok a reached => simp only [hstep] at h; cases h; exact ⟨reached.scopes, rfl, rfl⟩
  | error e reached => simp only [hstep] at h; cases h

theorem leaveScope_eq_ok {frame frame' : Frame} (h : leaveScope frame = .ok () frame') :
    ∃ table, frame.scopes.leave? = some table ∧ frame' = ⟨table, frame.code⟩ := by
  obtain ⟨table, hleave, hframe⟩ := onScopes_eq_ok h
  exact ⟨table, ScopeTable.leave_eq_ok hleave, hframe⟩

theorem reserveLocal_eq_ok {ctx : Context} {span : Span} {frame frame' : Frame}
    (h : reserveLocal ctx span frame = .ok () frame') :
    frame.scopes.slotCount < ctx.maxLocals ∧ frame' = frame := by
  obtain ⟨_, _, hget, h⟩ := bind_eq_ok h
  cases hget
  split at h
  · cases h
  · rename_i hlimit
    cases h
    exact ⟨Nat.lt_of_not_le hlimit, rfl⟩

theorem declareLocal_eq_ok {ctx : Context} {name : String} {type : ValueType} {span : Span}
    {frame frame' : Frame} {slot : Nat}
    (h : declareLocal ctx name type span frame = .ok slot frame') :
    frame.scopes.Accepts ctx.maxLocals name ∧ slot = frame.scopes.slotCount ∧
      frame' = ⟨frame.scopes.bind name type span, frame.code⟩ := by
  obtain ⟨_, between, hreserve, hscopes⟩ := bind_eq_ok h
  obtain ⟨hlimit, rfl⟩ := reserveLocal_eq_ok hreserve
  obtain ⟨table, hdeclare, hframe⟩ := onScopes_eq_ok hscopes
  obtain ⟨hfresh, hslot, rfl⟩ := ScopeTable.declare_eq_ok hdeclare
  exact ⟨⟨hlimit, hfresh⟩, hslot, hframe⟩

theorem requireValue_eq_ok {role : String} {span : Span} {found : Option ValueType}
    {frame frame' : Frame} {type : ValueType}
    (h : requireValue role span found frame = .ok type frame') :
    found = some type ∧ frame' = frame := by
  cases found with
  | none => cases h
  | some found => cases h; exact ⟨rfl, rfl⟩

theorem requireNumeric_eq_ok {op : BinaryOp} {span : Span} {type : ValueType}
    {frame frame' : Frame} (h : requireNumeric op span type frame = .ok () frame') :
    type = .numeric ∧ frame' = frame := by
  unfold requireNumeric at h
  split at h
  · rename_i htype
    cases h
    exact ⟨htype, rfl⟩
  · cases h

theorem declaredType_eq_ok {resolver : Resolver} {type : Option TypeRef}
    {declared : Option ValueType} {frame frame' : Frame}
    (h : declaredType resolver type frame = .ok declared frame') :
    frame' = frame ∧ ∀ default, resolver.typeOr default type = .ok (declared.getD default) := by
  cases type with
  | none => cases h; exact ⟨rfl, fun _ => rfl⟩
  | some type =>
    obtain ⟨given, hgiven, rfl⟩ := map_eq_ok h
    obtain ⟨hvalue, rfl⟩ := ofExcept_eq_ok hgiven
    exact ⟨rfl, fun _ => hvalue⟩

/-- The type of a variable is what its annotation says, and an initial value agrees with it. -/
theorem variableType_eq_ok {name : String} {span : Span} {declared found : Option ValueType}
    {frame frame' : Frame} {type : ValueType}
    (h : variableType name span declared found frame = .ok type frame') :
    type = declared.getD (found.getD .numeric) ∧ (∀ value ∈ found, value = type) ∧
      frame' = frame := by
  rcases declared with _ | declared <;> rcases found with _ | found
  · cases h; exact ⟨rfl, by simp, rfl⟩
  · cases h; exact ⟨rfl, by simp, rfl⟩
  · cases h; exact ⟨rfl, by simp, rfl⟩
  · by_cases hagree : found = declared
    · rw [variableType, if_pos hagree] at h
      cases h
      exact ⟨rfl, by simp [hagree], rfl⟩
    · rw [variableType, if_neg hagree] at h
      cases h

/-! ## Statements that succeed -/

section Statements

variable {ctx : Context} {frame frame' : Frame} {result : Option ValueType}

/-- An expression statement leaves its value if it is the last one, and drops it otherwise. -/
theorem lowerStmt_expr_eq_ok {last : Bool} {e : Expr} {span : Span}
    (h : lowerStmt ctx last (.expr e span) frame = .ok result frame') :
    ∃ found between, lowerExpr ctx e frame = .ok found between ∧
      (last = true ∧ result = found ∧ frame' = between ∨
        last = false ∧ result = none ∧ frame'.scopes = between.scopes ∧
          frame'.code.toList = between.code.toList ++ (found.map fun _ => .drop).toList) := by
  rw [lowerStmt] at h
  obtain ⟨found, between, he, h⟩ := bind_eq_ok h
  refine ⟨found, between, he, ?_⟩
  cases last <;> cases found
  · cases h; exact .inr ⟨rfl, rfl, rfl, by simp⟩
  · cases h; exact .inr ⟨rfl, rfl, rfl, by simp⟩
  · cases h; exact .inl ⟨rfl, rfl, rfl⟩
  · cases h; exact .inl ⟨rfl, rfl, rfl⟩

/-- A variable with an initial value is declared after the value is lowered, and then set. -/
theorem lowerStmt_init_eq_ok {last : Bool} {name : Ident} {type : Option TypeRef} {value : Expr}
    {mutable : Bool} {span : Span}
    (h : lowerStmt ctx last (.varDecl ⟨name, type, some value, mutable, span⟩) frame =
      .ok result frame') :
    ∃ found between, lowerExpr ctx value frame = .ok (some found) between ∧
      ctx.resolver.typeOr found type = .ok found ∧
      between.scopes.Accepts ctx.maxLocals name.name ∧ result = none ∧
      frame' = ⟨between.scopes.bind name.name found name.span,
        between.code.push (.localSet between.scopes.slotCount)⟩ := by
  simp only [lowerStmt] at h
  obtain ⟨declared, _, hdeclared, h₁⟩ := bind_eq_ok h
  obtain ⟨rfl, htypeOr⟩ := declaredType_eq_ok hdeclared
  obtain ⟨yielded, between, hvalue, h₂⟩ := bind_eq_ok h₁
  obtain ⟨found, _, hfound, h₃⟩ := bind_eq_ok h₂
  obtain ⟨rfl, rfl⟩ := requireValue_eq_ok hfound
  obtain ⟨given, _, hgiven, h₄⟩ := bind_eq_ok h₃
  obtain ⟨htype, hagree, rfl⟩ := variableType_eq_ok hgiven
  obtain rfl : found = given := hagree found rfl
  obtain ⟨slot, _, hdeclare, h₅⟩ := bind_eq_ok h₄
  obtain ⟨haccepts, rfl, rfl⟩ := declareLocal_eq_ok hdeclare
  cases h₅
  have hannotated := (htypeOr found).trans (congrArg Except.ok htype.symm)
  exact ⟨found, _, hvalue, hannotated, haccepts, rfl, rfl⟩

/-- A variable without initial value is declared, and nothing is emitted. -/
theorem lowerStmt_bare_eq_ok {last : Bool} {name : Ident} {type : Option TypeRef}
    {mutable : Bool} {span : Span}
    (h : lowerStmt ctx last (.varDecl ⟨name, type, none, mutable, span⟩) frame =
      .ok result frame') :
    ∃ declared, ctx.resolver.typeOr .numeric type = .ok declared ∧
      frame.scopes.Accepts ctx.maxLocals name.name ∧ result = none ∧
      frame' = ⟨frame.scopes.bind name.name declared name.span, frame.code⟩ := by
  simp only [lowerStmt] at h
  obtain ⟨declared, _, hdeclared, h₁⟩ := bind_eq_ok h
  obtain ⟨rfl, htypeOr⟩ := declaredType_eq_ok hdeclared
  obtain ⟨given, _, hgiven, h₂⟩ := bind_eq_ok h₁
  obtain ⟨htype, -, rfl⟩ := variableType_eq_ok hgiven
  obtain ⟨slot, _, hdeclare, h₃⟩ := bind_eq_ok h₂
  obtain ⟨haccepts, rfl, rfl⟩ := declareLocal_eq_ok hdeclare
  cases h₃
  have hannotated := (htypeOr .numeric).trans (congrArg Except.ok htype.symm)
  exact ⟨given, hannotated, haccepts, rfl, rfl⟩

/-- Only an expression can be told to keep its value. -/
theorem lowerStmt_last_eq {s : Stmt} (h : ∀ e span, s ≠ .expr e span) :
    lowerStmt ctx true s = lowerStmt ctx false s := by
  cases s with
  | expr e span => exact absurd rfl (h e span)
  | varDecl decl => obtain ⟨name, type, _ | value, mutable, span⟩ := decl <;> simp only [lowerStmt]
  | _ => simp only [lowerStmt]

/-- A statement list is lowered from the front; a single statement is the last one. -/
theorem lowerStmts_cons_eq_ok {s : Stmt} {rest : List Stmt}
    (h : lowerStmts ctx (s :: rest) frame = .ok result frame') :
    rest = [] ∧ lowerStmt ctx true s frame = .ok result frame' ∨
      rest ≠ [] ∧ ∃ ignored between, lowerStmt ctx false s frame = .ok ignored between ∧
        lowerStmts ctx rest between = .ok result frame' := by
  cases rest with
  | nil => exact .inl ⟨rfl, h⟩
  | cons next rest =>
    rw [lowerStmts] at h
    · obtain ⟨ignored, between, hs, h⟩ := bind_eq_ok h
      exact .inr ⟨List.cons_ne_nil next rest, ignored, between, hs, h⟩
    · exact List.cons_ne_nil next rest

/-- A declaration yields nothing, so it may be taken as followed by the rest of the list even if
it is the last statement. -/
theorem lowerStmts_varDecl_eq_ok {decl : VarDecl} {rest : List Stmt}
    (h : lowerStmts ctx (.varDecl decl :: rest) frame = .ok result frame') :
    ∃ ignored between, lowerStmt ctx false (.varDecl decl) frame = .ok ignored between ∧
      lowerStmts ctx rest between = .ok result frame' := by
  obtain ⟨rfl, hs⟩ | ⟨-, hrest⟩ := lowerStmts_cons_eq_ok h
  · rw [lowerStmt_last_eq fun _ _ h => by cases h] at hs
    refine ⟨result, frame', hs, ?_⟩
    obtain ⟨name, type, _ | value, mutable, span⟩ := decl
    · obtain ⟨_, _, _, rfl, _⟩ := lowerStmt_bare_eq_ok hs
      rfl
    · obtain ⟨_, _, _, _, _, rfl, _⟩ := lowerStmt_init_eq_ok hs
      rfl
  · exact hrest

end Statements

/-! ## Runs that succeed -/

/-- The code of a frame grows at its end. -/
def Emits (frame frame' : Frame) (code : List Instruction) : Prop :=
  frame'.code.toList = frame.code.toList ++ code

theorem Emits.trans {frame between frame' : Frame} {first second : List Instruction}
    (h : Emits frame between first) (h' : Emits between frame' second) :
    Emits frame frame' (first ++ second) := by
  rw [Emits, h', h, List.append_assoc]

/-- A step may emit nothing. -/
theorem Emits.nothing {frame frame' : Frame} (h : frame'.code = frame.code) :
    Emits frame frame' [] := by
  rw [Emits, h, List.append_nil]

theorem Emits.push (scopes : ScopeTable) (frame : Frame) (i : Instruction) :
    Emits frame ⟨scopes, frame.code.push i⟩ [i] :=
  Array.toList_push

mutual

/-- A lowered expression follows the rules. -/
theorem lowersExpr_of_lowerExpr {ctx : Context} {frame frame' : Frame}
    {result : Option ValueType} : (e : Expr) → lowerExpr ctx e frame = .ok result frame' →
      ∃ code, LowersExpr ctx frame.scopes e code result frame'.scopes ∧ Emits frame frame' code
  | .literal (.int value) span, h => by
    simp only [lowerExpr] at h
    cases hword : word? value with
    | none => rw [hword] at h; cases h
    | some word =>
      rw [hword] at h
      cases h
      exact ⟨[.const word], .literal hword, .push _ frame _⟩
  | .path ident span, h => by
    simp only [lowerExpr] at h
    obtain ⟨_, _, hget, h₁⟩ := bind_eq_ok h
    cases hget
    cases hlookup : frame.scopes.lookup ident.name with
    | none => rw [hlookup] at h₁; cases h₁
    | some binding =>
      rw [hlookup] at h₁
      cases h₁
      exact ⟨[.localGet binding.slot], .path hlookup, .push _ frame _⟩
  | .binary left op right span, h => by
    simp only [lowerExpr] at h
    cases harith : op.arith? with
    | none => rw [harith] at h; cases h
    | some arith =>
      rw [harith] at h
      obtain ⟨leftFound, leftFrame, hleft, h₁⟩ := bind_eq_ok h
      obtain ⟨leftType, _, hleftValue, h₂⟩ := bind_eq_ok h₁
      obtain ⟨rfl, rfl⟩ := requireValue_eq_ok hleftValue
      obtain ⟨rightFound, rightFrame, hright, h₃⟩ := bind_eq_ok h₂
      obtain ⟨rightType, _, hrightValue, h₄⟩ := bind_eq_ok h₃
      obtain ⟨rfl, rfl⟩ := requireValue_eq_ok hrightValue
      obtain ⟨_, _, hleftNumeric, h₅⟩ := bind_eq_ok h₄
      obtain ⟨rfl, rfl⟩ := requireNumeric_eq_ok hleftNumeric
      obtain ⟨_, _, hrightNumeric, h₆⟩ := bind_eq_ok h₅
      obtain ⟨rfl, rfl⟩ := requireNumeric_eq_ok hrightNumeric
      cases h₆
      obtain ⟨codeLeft, hlowersLeft, hemitsLeft⟩ := lowersExpr_of_lowerExpr left hleft
      obtain ⟨codeRight, hlowersRight, hemitsRight⟩ := lowersExpr_of_lowerExpr right hright
      exact ⟨codeLeft ++ (codeRight ++ [.arith arith]), .binary harith hlowersLeft hlowersRight,
        hemitsLeft.trans (hemitsRight.trans (.push _ _ _))⟩
  | .block ⟨stmts, span⟩, h => by
    simp only [lowerExpr] at h
    obtain ⟨_, _, henter, h₁⟩ := bind_eq_ok h
    cases henter
    obtain ⟨⟨found, inner⟩, _, hnested, h₂⟩ := bind_eq_ok h₁
    obtain ⟨tableInner, hstmts, rfl⟩ := nested_eq_ok hnested
    obtain ⟨_, _, hleaveScope, h₃⟩ := bind_eq_ok h₂
    obtain ⟨tableOuter, hleave, rfl⟩ := leaveScope_eq_ok hleaveScope
    cases h₃
    obtain ⟨code, hlowers, hemits⟩ := lowersStmts_of_lowerStmts stmts hstmts
    obtain rfl : inner.toList = code := hemits
    refine ⟨[.block found (inner.toList ++ [.endSeq])], .block hlowers hleave, ?_⟩
    rw [← Array.toList_push]
    exact .push _ frame _
  | .literal (.string _) _, h | .literal (.bool _) _, h | .unary _ _ _, h | .call _ _ _, h
  | .array _ _, h | .index _ _ _, h | .arrayPattern _ _ _, h | .member _ _ _, h
  | .construct _ _ _, h => by
    simp only [lowerExpr] at h
    cases h

/-- A lowered statement follows the rules, if its value is not wanted. -/
theorem lowersStmt_of_lowerStmt {ctx : Context} {frame frame' : Frame}
    {result : Option ValueType} : (s : Stmt) → lowerStmt ctx false s frame = .ok result frame' →
      ∃ code, LowersStmt ctx frame.scopes s code frame'.scopes ∧ Emits frame frame' code
  | .expr e span, h => by
    obtain ⟨found, between, he, ⟨hlast, -⟩ | ⟨-, -, hscopes, hdrop⟩⟩ := lowerStmt_expr_eq_ok h
    · cases hlast
    · obtain ⟨code, hlowers, hemits⟩ := lowersExpr_of_lowerExpr e he
      rw [hscopes]
      cases found with
      | none =>
        have hdrop : Emits between frame' [] := hdrop
        have hskip := hemits.trans hdrop
        rw [List.append_nil] at hskip
        exact ⟨code, .skip hlowers, hskip⟩
      | some type =>
        have hdrop : Emits between frame' [.drop] := hdrop
        exact ⟨code ++ [.drop], .drop hlowers, hemits.trans hdrop⟩
  | .varDecl ⟨name, type, some value, mutable, span⟩, h => by
    obtain ⟨found, valued, hvalue, hannotated, haccepts, -, rfl⟩ := lowerStmt_init_eq_ok h
    obtain ⟨code, hlowers, hemits⟩ := lowersExpr_of_lowerExpr value hvalue
    exact ⟨_, .init hlowers hannotated haccepts, hemits.trans (.push _ valued _)⟩
  | .varDecl ⟨name, type, none, mutable, span⟩, h => by
    obtain ⟨declared, hannotated, haccepts, -, rfl⟩ := lowerStmt_bare_eq_ok h
    exact ⟨[], .bare hannotated haccepts, .nothing rfl⟩
  | .function _, h | .classDecl _, h | .interfaceDecl _ _ _, h | .branch _ _ _ _, h
  | .loop _ _ _ _, h | .breakLoop _, h | .returnValue _ _, h => by
    simp only [lowerStmt] at h
    cases h

/-- Lowered statements follow the rules. -/
theorem lowersStmts_of_lowerStmts {ctx : Context} {frame frame' : Frame}
    {result : Option ValueType} : (stmts : List Stmt) →
      lowerStmts ctx stmts frame = .ok result frame' →
      ∃ code, LowersStmts ctx frame.scopes stmts code result frame'.scopes ∧
        Emits frame frame' code
  | [], h => by
    cases h
    exact ⟨[], .nil, .nothing rfl⟩
  | .expr e span :: rest, h => by
    obtain ⟨rfl, hs⟩ | ⟨hrest, ignored, between, hs, h₁⟩ := lowerStmts_cons_eq_ok h
    · obtain ⟨found, between, he, ⟨-, rfl, rfl⟩ | ⟨hlast, -⟩⟩ := lowerStmt_expr_eq_ok hs
      · obtain ⟨code, hlowers, hemits⟩ := lowersExpr_of_lowerExpr e he
        exact ⟨code, .last hlowers, hemits⟩
      · cases hlast
    · obtain ⟨code, hlowers, hemits⟩ := lowersStmt_of_lowerStmt (.expr e span) hs
      obtain ⟨codeRest, hlowersRest, hemitsRest⟩ := lowersStmts_of_lowerStmts rest h₁
      exact ⟨_, .cons (fun _ _ _ => hrest) hlowers hlowersRest, hemits.trans hemitsRest⟩
  | .varDecl decl :: rest, h => by
    obtain ⟨ignored, between, hs, h₁⟩ := lowerStmts_varDecl_eq_ok h
    obtain ⟨code, hlowers, hemits⟩ := lowersStmt_of_lowerStmt (.varDecl decl) hs
    obtain ⟨codeRest, hlowersRest, hemitsRest⟩ := lowersStmts_of_lowerStmts rest h₁
    exact ⟨_, .cons (fun _ _ h => by cases h) hlowers hlowersRest, hemits.trans hemitsRest⟩
  | .function _ :: _, h | .classDecl _ :: _, h | .interfaceDecl _ _ _ :: _, h
  | .branch _ _ _ _ :: _, h | .loop _ _ _ _ :: _, h | .breakLoop _ :: _, h
  | .returnValue _ _ :: _, h => by
    obtain ⟨-, hs⟩ | ⟨-, _, _, hs, -⟩ := lowerStmts_cons_eq_ok h <;>
    · simp only [lowerStmt] at hs
      cases hs

end

/-! ## Functions that are lowered -/

theorem declareParam_eq_ok {ctx : Context} {name : String} {type : ValueType} {span : Span}
    {frame frame' : Frame} {slot : Nat}
    (h : declareParam ctx name type span frame = .ok slot frame') :
    frame.scopes.Accepts ctx.maxLocals name ∧ frame.scopes.acceptsParam = true ∧
      frame' = ⟨frame.scopes.bind name type span, frame.code⟩ := by
  obtain ⟨_, between, hreserve, hscopes⟩ := bind_eq_ok h
  obtain ⟨hlimit, rfl⟩ := reserveLocal_eq_ok hreserve
  obtain ⟨table, hdeclare, hframe⟩ := onScopes_eq_ok hscopes
  rw [ScopeTable.declareParam_apply] at hdeclare
  split at hdeclare
  · rename_i hparam
    obtain ⟨hfresh, -, rfl⟩ := ScopeTable.declare_eq_ok hdeclare
    exact ⟨⟨hlimit, hfresh⟩, hparam, hframe⟩
  · cases hdeclare

theorem lowersParams_of_lowerParams {ctx : Context} {params : List Param}
    {types : List ValueType} {frame frame' : Frame}
    (h : lowerParams ctx params frame = .ok types frame') :
    LowersParams ctx frame.scopes params types frame'.scopes ∧ frame'.code = frame.code := by
  induction params generalizing frame types with
  | nil => cases h; exact ⟨.nil, rfl⟩
  | cons p rest ih =>
    obtain ⟨type, _, hresolve, h₁⟩ := bind_eq_ok h
    obtain ⟨htype, rfl⟩ := ofExcept_eq_ok hresolve
    obtain ⟨slot, _, hdeclare, h₂⟩ := bind_eq_ok h₁
    obtain ⟨haccepts, hparam, rfl⟩ := declareParam_eq_ok hdeclare
    obtain ⟨types', _, hrest, h₃⟩ := bind_eq_ok h₂
    cases h₃
    obtain ⟨hlowers, hcode⟩ := ih hrest
    exact ⟨.cons htype haccepts hparam hlowers, hcode⟩

end Lowering

/-- A lowered declaration follows the rules, from an empty scope table on. -/
theorem FunctionDecl.lowers_of_lower {resolver : Resolver} {maxLocals : Nat}
    {decl : FunctionDecl} {f : LoweredFunction} (h : decl.lower resolver maxLocals = .ok f) :
    ∃ result, decl.bodyResult resolver maxLocals = .ok result ∧
      decl.Lowers resolver maxLocals result f := by
  unfold lower at h
  split at h
  · rename_i signature frame hdecl
    cases h
    obtain ⟨params, paramFrame, hparams, h₁⟩ := Lowering.bind_eq_ok hdecl
    obtain ⟨result, _, hbody, h₂⟩ := Lowering.bind_eq_ok h₁
    obtain ⟨_, _, hresolve, h₃⟩ := Lowering.bind_eq_ok h₂
    obtain ⟨hsignature, rfl⟩ := Lowering.ofExcept_eq_ok hresolve
    split at h₃
    · rename_i heq
      cases h₃
      subst heq
      obtain ⟨hlowersParams, hcode⟩ := Lowering.lowersParams_of_lowerParams hparams
      obtain ⟨code, hlowersBody, hemits⟩ := Lowering.lowersStmts_of_lowerStmts _ hbody
      have hbodyCode : frame.code.toList = code := by
        rw [hemits, hcode]
        rfl
      refine ⟨result, ?_, ?_⟩
      · simp only [bodyResult]
        rw [Lowering.bind_of_eq_ok hparams, hbody]
      · rw [Array.toList_push, hbodyCode]
        exact .intro hlowersParams hlowersBody hsignature
    · cases h₃
  · cases h

end WasmCodegen
