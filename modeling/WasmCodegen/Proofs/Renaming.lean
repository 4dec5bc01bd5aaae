import WasmCodegen.Proofs.LoweringFailures

/-!
# Renamed functions

Names of variables are there for the reader.  This file compares two function declarations, where
one comes from the other by an injective renaming of parameters and variables, with spans and
mutability as they please (`FunctionDecl.Renames`).  Under the numeric resolver both are lowered to
the same function, or both fail with an error of the same kind (`FunctionDecl.Renames.lower`).

The two runs are followed side by side.  Their scope tables differ in every key, but they show
scopes that are the same up to the renaming (`ScopeTable.Renames`), so a look-up finds the same slot
and a name is in its scope in both or in none.  `Lowering.Simulates` says of two steps that they
agree from such tables on.  It is closed under sequencing, so that the induction over the source has
a line for each construct and does not look at frames.
-/

namespace WasmCodegen

/-! ## Kinds of errors -/

/-- What an error is about, without names and places. -/
inductive CompileError.Kind where
  | unsupportedConstruct
  | duplicateBinding
  | unboundIdentifier
  | unsupportedOperator
  | typeMismatch
  | literalOutOfRange
  | duplicateFunction
  | tooManyLocals
  | internal
deriving DecidableEq

/-- The kind of an error. -/
def CompileError.kind : CompileError → CompileError.Kind
  | .unsupportedConstruct _ _ => .unsupportedConstruct
  | .duplicateBinding _ _ _ => .duplicateBinding
  | .unboundIdentifier _ _ => .unboundIdentifier
  | .unsupportedOperator _ _ => .unsupportedOperator
  | .typeMismatch _ _ => .typeMismatch
  | .literalOutOfRange _ _ => .literalOutOfRange
  | .duplicateFunction _ _ _ => .duplicateFunction
  | .tooManyLocals _ _ _ => .tooManyLocals
  | .internal _ => .internal

/-! ## Renamed source -/

/-- Annotations that name the same type, or none at all. -/
abbrev TypeRef.Same (type type' : Option TypeRef) : Prop :=
  Option.Rel (fun given given' : TypeRef => given'.name.name = given.name.name) type type'

mutual

/-- `RenamesExpr ρ e e'`: the second expression is the first one after renaming, up to spans and
mutability.  What has no lowering is not looked into. -/
inductive RenamesExpr (ρ : String → String) : Expr → Expr → Prop
  | literal (value : Literal) {span span' : Span} :
      RenamesExpr ρ (.literal value span) (.literal value span')
  | path {ident ident' : Ident} {span span' : Span} (hname : ident'.name = ρ ident.name) :
      RenamesExpr ρ (.path ident span) (.path ident' span')
  | binary (op : BinaryOp) {left left' right right' : Expr} {span span' : Span}
      (hleft : RenamesExpr ρ left left') (hright : RenamesExpr ρ right right') :
      RenamesExpr ρ (.binary left op right span) (.binary left' op right' span')
  | block {stmts stmts' : List Stmt} {span span' : Span} (hstmts : RenamesStmts ρ stmts stmts') :
      RenamesExpr ρ (.block ⟨stmts, span⟩) (.block ⟨stmts', span'⟩)
  | other {e e' : Expr} (hkind : e.hasLowering = false) (hkind' : e'.hasLowering = false) :
      RenamesExpr ρ e e'

/-- The same for a statement. -/
inductive RenamesStmt (ρ : String → String) : Stmt → Stmt → Prop
  | expr {e e' : Expr} {span span' : Span} (he : RenamesExpr ρ e e') :
      RenamesStmt ρ (.expr e span) (.expr e' span')
  | init {name name' : Ident} {type type' : Option TypeRef} {value value' : Expr}
      {mutable mutable' : Bool} {span span' : Span} (hname : name'.name = ρ name.name)
      (htype : TypeRef.Same type type') (hvalue : RenamesExpr ρ value value') :
      RenamesStmt ρ (.varDecl ⟨name, type, some value, mutable, span⟩)
        (.varDecl ⟨name', type', some value', mutable', span'⟩)
  | bare {name name' : Ident} {type type' : Option TypeRef} {mutable mutable' : Bool}
      {span span' : Span} (hname : name'.name = ρ name.name) (htype : TypeRef.Same type type') :
      RenamesStmt ρ (.varDecl ⟨name, type, none, mutable, span⟩)
        (.varDecl ⟨name', type', none, mutable', span'⟩)
  | other {s s' : Stmt} (hkind : s.hasLowering = false) (hkind' : s'.hasLowering = false) :
      RenamesStmt ρ s s'

/-- The same for statements, one by one. -/
inductive RenamesStmts (ρ : String → String) : List Stmt → List Stmt → Prop
  | nil : RenamesStmts ρ [] []
  | cons {s s' : Stmt} {rest rest' : List Stmt} (hs : RenamesStmt ρ s s')
      (hrest : RenamesStmts ρ rest rest') : RenamesStmts ρ (s :: rest) (s' :: rest')

end

/-- The same for a parameter. -/
structure RenamesParam (ρ : String → String) (p p' : Param) : Prop where
  name : p'.name.name = ρ p.name.name
  type : TypeRef.Same p.type p'.type

/-- The same for a function, which keeps its name. -/
structure RenamesFunction (ρ : String → String) (decl decl' : FunctionDecl) : Prop where
  name : decl'.name.name = decl.name.name
  params : List.Forall₂ (RenamesParam ρ) decl.prototype.params decl'.prototype.params
  result : TypeRef.Same decl.prototype.result decl'.prototype.result
  body : RenamesStmts ρ decl.body.stmts decl'.body.stmts

/-- `decl.Renames decl'`: the second declaration is the first one after an injective renaming of its
parameters and variables, up to spans and mutability. -/
def FunctionDecl.Renames (decl decl' : FunctionDecl) : Prop :=
  ∃ ρ : String → String, Function.Injective ρ ∧ RenamesFunction ρ decl decl'

/-! ## Renamed scopes -/

namespace Scopes

variable {α : Type} {ρ : String → String}

/-- Scopes in which every name is replaced. -/
def rename (ρ : String → String) (s : Scopes α) : Scopes α :=
  ⟨s.inner.map (Prod.map ρ id), s.outer.map (List.map (Prod.map ρ id))⟩

theorem lookup_rename (hρ : Function.Injective ρ) (scope : List (String × α)) (name : String) :
    (scope.map (Prod.map ρ id)).lookup (ρ name) = scope.lookup name := by
  induction scope with
  | nil => rfl
  | cons entry scope ih =>
    obtain ⟨declared, a⟩ := entry
    have hbeq : (ρ name == ρ declared) = (name == declared) := by
      rw [Bool.eq_iff_iff, beq_iff_eq, beq_iff_eq, hρ.eq_iff]
    rw [List.map_cons, Prod.map_apply, id_eq, List.lookup_cons, List.lookup_cons, ih, hbeq]

theorem search_rename (hρ : Function.Injective ρ) (scopes : List (List (String × α)))
    (name : String) :
    search (ρ name) (scopes.map (List.map (Prod.map ρ id))) = search name scopes := by
  induction scopes with
  | nil => rfl
  | cons scope outer ih => rw [List.map_cons, search, search, lookup_rename hρ, ih, List.length_map]

/-- A new name finds what the old one found. -/
theorem find?_rename (hρ : Function.Injective ρ) (s : Scopes α) (name : String) :
    (s.rename ρ).find? (ρ name) = s.find? name :=
  search_rename hρ (s.inner :: s.outer) name

end Scopes

/-- The local that holds a variable. -/
def Variable.storage (v : Variable) : ValueType × Nat := (v.type, v.slot)

/-- `table.Renames ρ table'`: the tables have the same slots, and they show the same scopes up to
the renaming and the places of the declarations. -/
structure ScopeTable.Renames (ρ : String → String) (table table' : ScopeTable) : Prop where
  slots : table'.slots = table.slots
  scopes : ∃ s s', table.Shows s ∧ table'.Shows s' ∧
    s'.map Variable.storage = (s.map Variable.storage).rename ρ

namespace ScopeTable

/-- In nested scopes the innermost block can be left. -/
theorem Shows.exists_leave {table : ScopeTable} {inner scope : List (String × Variable)}
    {outer : List (List (String × Variable))} (h : table.Shows ⟨inner, scope :: outer⟩) :
    ∃ table', table.leave? = some table' ∧ table'.Shows ⟨scope, outer⟩ := by
  rcases h.leave with ⟨-, hnone⟩ | ⟨table', s', hleave, hs', hshows⟩
  · cases hnone
  · cases hs'
    exact ⟨table', hleave, hshows⟩

namespace Renames

variable {ρ : String → String} {table table' : ScopeTable}

theorem empty : Renames ρ ScopeTable.empty ScopeTable.empty :=
  ⟨rfl, {}, {}, shows_empty, shows_empty, rfl⟩

theorem slotCount_eq (h : Renames ρ table table') : table'.slotCount = table.slotCount :=
  congrArg Array.size h.slots

theorem enter (h : Renames ρ table table') : Renames ρ table.enter table'.enter := by
  obtain ⟨hslots, s, s', hshows, hshows', heq⟩ := h
  exact ⟨hslots, s.enter, s'.enter, hshows.enter, hshows'.enter, congrArg Scopes.enter heq⟩

/-- Blocks are left in step. -/
theorem leave (h : Renames ρ table table') :
    table.leave? = none ∧ table'.leave? = none ∨
      ∃ outer outer', table.leave? = some outer ∧ table'.leave? = some outer' ∧
        Renames ρ outer outer' := by
  obtain ⟨hslots, ⟨inner, around⟩, ⟨inner', around'⟩, hshows, hshows', heq⟩ := h
  have haround := congrArg Scopes.outer heq
  cases around with
  | nil =>
    cases around' with
    | nil =>
      exact .inl ⟨(leave?_eq_none_iff _).2 hshows.depth_eq,
        (leave?_eq_none_iff _).2 hshows'.depth_eq⟩
    | cons _ _ => cases haround
  | cons scope outer =>
    cases around' with
    | nil => cases haround
    | cons scope' outer' =>
      obtain ⟨left, hleave, hleft⟩ := hshows.exists_leave
      obtain ⟨left', hleave', hleft'⟩ := hshows'.exists_leave
      refine .inr ⟨left, left', hleave, hleave', ?_, _, _, hleft, hleft', ?_⟩
      · rw [slots_leave hleave, slots_leave hleave', hslots]
      · obtain ⟨hscope, houter⟩ := List.cons.inj haround
        exact congrArg₂ Scopes.mk hscope houter

theorem bind (h : Renames ρ table table') (name : String) (type : ValueType) (span span' : Span) :
    Renames ρ (table.bind name type span) (table'.bind (ρ name) type span') := by
  have hcount := h.slotCount_eq
  obtain ⟨hslots, s, s', hshows, hshows', heq⟩ := h
  refine ⟨congrArg (·.push type) hslots, _, _, hshows.bind name type span,
    hshows'.bind (ρ name) type span', ?_⟩
  rw [hcount]
  exact congrArg (·.declare (ρ name) (type, table.slotCount)) heq

/-- A look-up finds the same local. -/
theorem lookup_eq (h : Renames ρ table table') (hρ : Function.Injective ρ) (name : String) :
    (table'.lookup (ρ name)).map (fun b => (b.type, b.slot)) =
      (table.lookup name).map fun b => (b.type, b.slot) := by
  obtain ⟨-, s, s', hshows, hshows', heq⟩ := h
  have hfind := Scopes.find?_rename hρ (s.map Variable.storage) name
  rw [← heq, Scopes.find?_map, Scopes.find?_map] at hfind
  have hstorage := congrArg (Option.map Prod.snd) hfind
  rw [Option.map_map, Option.map_map] at hstorage
  rw [hshows.lookup_eq, hshows'.lookup_eq, Scopes.lookup, Scopes.lookup, Scopes.meaning,
    Scopes.meaning, Option.map_map, Option.map_map]
  exact hstorage

/-- A name is in its scope in both tables or in none. -/
theorem inScope?_eq_none_iff (h : Renames ρ table table') (hρ : Function.Injective ρ)
    (name : String) : table'.inScope? (ρ name) = none ↔ table.inScope? name = none := by
  obtain ⟨-, s, s', hshows, hshows', heq⟩ := h
  have hlookup := Scopes.lookup_rename hρ (s.map Variable.storage).inner name
  have hinner : (s'.map Variable.storage).inner =
      (s.map Variable.storage).inner.map (Prod.map ρ id) := congrArg Scopes.inner heq
  rw [← hinner, Scopes.map, Scopes.map, Scopes.lookup_map, Scopes.lookup_map] at hlookup
  have hnone := congrArg Option.isNone hlookup
  rw [Option.isNone_map, Option.isNone_map] at hnone
  rw [hshows.inScope?_eq, hshows'.inScope?_eq, Option.map_eq_none_iff, Option.map_eq_none_iff,
    ← Option.isNone_iff_eq_none, ← Option.isNone_iff_eq_none, hnone]

end Renames

end ScopeTable

/-! ## Outcomes that match -/

namespace Outcomes

/-- Two computations give results that are related, or errors of the same kind. -/
inductive Matches {α β : Type} (R : α → β → Prop) :
    Except CompileError α → Except CompileError β → Prop
  | ok {a : α} {b : β} (h : R a b) : Matches R (.ok a) (.ok b)
  | error {e e' : CompileError} (h : e'.kind = e.kind) : Matches R (.error e) (.error e')

theorem Matches.bind {α α' β β' : Type} {R : α → α' → Prop} {S : β → β' → Prop}
    {x : Except CompileError α} {x' : Except CompileError α'} {g : α → Except CompileError β}
    {g' : α' → Except CompileError β'} (hx : Matches R x x')
    (hg : ∀ {a a'}, R a a' → Matches S (g a) (g' a')) : Matches S (x >>= g) (x' >>= g') := by
  cases hx with
  | ok h => exact hg h
  | error h => exact .error h

theorem Matches.mapM {α α' β : Type} {R : α → α' → Prop} {g : α → Except CompileError β}
    {g' : α' → Except CompileError β} {xs : List α} {xs' : List α'} (h : List.Forall₂ R xs xs')
    (hg : ∀ {x x'}, R x x' → Matches Eq (g x) (g' x')) : Matches Eq (xs.mapM g) (xs'.mapM g') := by
  induction h with
  | nil => exact .ok rfl
  | cons hx _ ih =>
    rw [List.mapM_cons, List.mapM_cons]
    refine (hg hx).bind fun hy => ih.bind fun hys => ?_
    rw [hy, hys]
    exact .ok rfl

end Outcomes

namespace Resolver

open Outcomes

theorem matches_numericType {given given' : TypeRef} (h : given'.name.name = given.name.name) :
    Matches Eq (numericType given) (numericType given') := by
  unfold numericType
  rw [h]
  split
  · exact .ok rfl
  · exact .error rfl

theorem matches_annotated {ρ : String → String} {p p' : Param} (h : RenamesParam ρ p p') :
    Matches Eq (annotated numericType p) (annotated numericType p') := by
  obtain ⟨name, type, span⟩ := p
  obtain ⟨name', type', span'⟩ := p'
  cases h.type with
  | none => exact .ok rfl
  | some hgiven => exact matches_numericType hgiven

theorem matches_checkedResults {declared declared' : Option TypeRef}
    (h : TypeRef.Same declared declared') (found : Option ValueType) :
    Matches Eq (checkedResults declared found) (checkedResults declared' found) := by
  cases h with
  | none => exact .ok rfl
  | some hgiven =>
    refine (matches_numericType hgiven).bind fun hwant => ?_
    subst hwant
    cases found with
    | none => exact .error rfl
    | some found =>
      dsimp only
      split
      · exact .ok rfl
      · exact .error rfl

/-- The numeric resolver has the same signature for prototypes with the same types. -/
theorem matches_signature {ρ : String → String} {prototype prototype' : Prototype}
    (hparams : List.Forall₂ (RenamesParam ρ) prototype.params prototype'.params)
    (hresult : TypeRef.Same prototype.result prototype'.result) (found : Option ValueType) :
    Matches Eq (numeric.signature prototype found) (numeric.signature prototype' found) := by
  refine (Matches.mapM hparams matches_annotated).bind fun htypes => ?_
  refine (matches_checkedResults hresult found).bind fun hresults => ?_
  rw [htypes, hresults]
  exact .ok rfl

end Resolver

/-! ## Steps that agree -/

/-- The same code has been emitted, and the tables are those of a renamed source. -/
structure Frame.Renames (ρ : String → String) (frame frame' : Frame) : Prop where
  code : frame'.code = frame.code
  scopes : frame.scopes.Renames ρ frame'.scopes

namespace Lowering

variable {ρ : String → String} {α β : Type}

/-- Two runs give the same and go on from renamed frames, or fail with errors of the same kind. -/
inductive Agree (ρ : String → String) :
    EStateM.Result CompileError Frame α → EStateM.Result CompileError Frame α → Prop
  | ok {a : α} {frame frame' : Frame} (h : frame.Renames ρ frame') :
      Agree ρ (.ok a frame) (.ok a frame')
  | error {e e' : CompileError} {frame frame' : Frame} (h : e'.kind = e.kind) :
      Agree ρ (.error e frame) (.error e' frame')

theorem Agree.bind {x x' : Lowering α} {g g' : α → Lowering β} {frame frame' : Frame}
    (h : Agree ρ (x frame) (x' frame'))
    (hg : ∀ {a between between'}, x frame = .ok a between → x' frame' = .ok a between' →
      between.Renames ρ between' → Agree ρ (g a between) (g' a between')) :
    Agree ρ ((x >>= g) frame) ((x' >>= g') frame') := by
  generalize hx : x frame = outcome at h
  generalize hx' : x' frame' = outcome' at h
  cases h with
  | ok hframes =>
    rw [bind_of_eq_ok hx, bind_of_eq_ok hx']
    exact hg hx hx' hframes
  | error hkind =>
    rw [bind_of_eq_error hx, bind_of_eq_error hx']
    exact .error hkind

/-- Two steps agree from all frames of a renamed source. -/
def Simulates (ρ : String → String) (x x' : Lowering α) : Prop :=
  ∀ ⦃frame frame' : Frame⦄, frame.Renames ρ frame' → Agree ρ (x frame) (x' frame')

namespace Simulates

theorem pure (a : α) : Simulates ρ (Pure.pure a) (Pure.pure a) := fun _ _ h => .ok h

theorem throw {e e' : CompileError} (h : e'.kind = e.kind) :
    Simulates ρ (MonadExcept.throw e : Lowering α) (MonadExcept.throw e') :=
  fun _ _ _ => .error h

theorem bind {x x' : Lowering α} {g g' : α → Lowering β} (hx : Simulates ρ x x')
    (hg : ∀ a, Simulates ρ (g a) (g' a)) : Simulates ρ (x >>= g) (x' >>= g') := fun _ _ h =>
  (hx h).bind fun _ _ hbetween => hg _ hbetween

theorem ofExcept {x x' : Except CompileError α} (h : Outcomes.Matches Eq x x') :
    Simulates ρ (Lowering.ofExcept x) (Lowering.ofExcept x') := by
  cases h with
  | ok h => rw [h]; exact pure _
  | error h => exact throw h

theorem emit (i : Instruction) : Simulates ρ (Lowering.emit i) (Lowering.emit i) := fun _ _ h =>
  .ok ⟨congrArg (·.push i) h.code, h.scopes⟩

/-- Code that is collected is the same on both sides. -/
theorem nested {x x' : Lowering α} (h : Simulates ρ x x') :
    Simulates ρ (Lowering.nested x) (Lowering.nested x') := by
  intro frame frame' hframe
  have hstart : Frame.Renames ρ ⟨frame.scopes, #[]⟩ ⟨frame'.scopes, #[]⟩ := ⟨rfl, hframe.scopes⟩
  have hagree := h hstart
  rw [Lowering.nested, Lowering.nested]
  generalize x ⟨frame.scopes, #[]⟩ = outcome at hagree
  generalize x' ⟨frame'.scopes, #[]⟩ = outcome' at hagree
  cases hagree with
  | @ok a between between' hframes =>
    show Agree ρ (.ok (a, between.code) ⟨between.scopes, frame.code⟩)
      (.ok (a, between'.code) ⟨between'.scopes, frame'.code⟩)
    rw [hframes.code]
    exact .ok ⟨hframe.code, hframes.scopes⟩
  | error hkind => exact .error hkind

theorem enterScope : Simulates ρ Lowering.enterScope Lowering.enterScope := fun _ _ h =>
  .ok ⟨h.code, h.scopes.enter⟩

theorem leaveScope : Simulates ρ Lowering.leaveScope Lowering.leaveScope := by
  intro frame frame' h
  rw [Lowering.leaveScope, Lowering.onScopes, Lowering.onScopes, ScopeTable.leave_apply,
    ScopeTable.leave_apply]
  rcases h.scopes.leave with ⟨hnone, hnone'⟩ | ⟨outer, outer', hleave, hleave', houter⟩
  · rw [hnone, hnone']
    exact .error rfl
  · rw [hleave, hleave']
    exact .ok ⟨h.code, houter⟩

/-- What depends on the local of a name alone goes on in the same way. -/
theorem lookup (hρ : Function.Injective ρ) (name : String) {g g' : Option Binding → Lowering α}
    (hnone : Simulates ρ (g none) (g' none))
    (hsome : ∀ b b', b'.type = b.type → b'.slot = b.slot →
      Simulates ρ (g (some b)) (g' (some b'))) :
    Simulates ρ (Lowering.lookup name >>= g) (Lowering.lookup (ρ name) >>= g') := by
  intro frame frame' h
  have hlookup := h.scopes.lookup_eq hρ name
  show Agree ρ (g (frame.scopes.lookup name) frame) (g' (frame'.scopes.lookup (ρ name)) frame')
  cases hfound : frame.scopes.lookup name with
  | none =>
    rw [hfound, Option.map_none, Option.map_eq_none_iff] at hlookup
    rw [hlookup]
    exact hnone h
  | some b =>
    rw [hfound, Option.map_some, Option.map_eq_some_iff] at hlookup
    obtain ⟨b', hfound', hstorage⟩ := hlookup
    rw [hfound']
    exact hsome b b' (congrArg Prod.fst hstorage) (congrArg Prod.snd hstorage) h

theorem reserveLocal (ctx : Context) (span span' : Span) :
    Simulates ρ (Lowering.reserveLocal ctx span) (Lowering.reserveLocal ctx span') := by
  intro frame frame' h
  have hcount := h.scopes.slotCount_eq
  by_cases hlt : frame.scopes.slotCount < ctx.maxLocals
  · have hlt' : frame'.scopes.slotCount < ctx.maxLocals := by rwa [hcount]
    rw [reserveLocal_of_lt hlt, reserveLocal_of_lt hlt']
    exact .ok h
  · have hle := Nat.le_of_not_lt hlt
    have hle' : ctx.maxLocals ≤ frame'.scopes.slotCount := by rwa [hcount]
    rw [reserveLocal_of_le hle, reserveLocal_of_le hle']
    exact .error rfl

theorem declare (hρ : Function.Injective ρ) (name : String) (type : ValueType)
    (span span' : Span) :
    Simulates ρ (onScopes (ScopeTable.declare name type span))
      (onScopes (ScopeTable.declare (ρ name) type span')) := by
  intro frame frame' h
  have hiff := h.scopes.inScope?_eq_none_iff hρ name
  rw [onScopes, onScopes, ScopeTable.declare_apply, ScopeTable.declare_apply]
  cases hscope : frame.scopes.inScope? name with
  | none =>
    rw [hiff.2 hscope, h.scopes.slotCount_eq]
    exact .ok ⟨h.code, h.scopes.bind name type span span'⟩
  | some first =>
    cases hscope' : frame'.scopes.inScope? (ρ name) with
    | none =>
      rw [hiff.1 hscope'] at hscope
      cases hscope
    | some first' => exact .error rfl

theorem declareLocal (hρ : Function.Injective ρ) (ctx : Context) {name name' : Ident}
    (hname : name'.name = ρ name.name) (type : ValueType) :
    Simulates ρ (Lowering.declareLocal ctx name.name type name.span)
      (Lowering.declareLocal ctx name'.name type name'.span) := by
  rw [hname]
  exact (reserveLocal ctx _ _).bind fun _ => declare hρ _ _ _ _

theorem requireValue (role : String) (span span' : Span) (found : Option ValueType) :
    Simulates ρ (Lowering.requireValue role span found)
      (Lowering.requireValue role span' found) := by
  cases found with
  | none => exact throw rfl
  | some type => exact pure type

theorem requireNumeric (op : BinaryOp) (span span' : Span) (type : ValueType) :
    Simulates ρ (Lowering.requireNumeric op span type)
      (Lowering.requireNumeric op span' type) := by
  unfold Lowering.requireNumeric
  split
  · exact pure ()
  · exact throw rfl

theorem declaredType {type type' : Option TypeRef} (h : TypeRef.Same type type') :
    Simulates ρ (Lowering.declaredType .numeric type) (Lowering.declaredType .numeric type') := by
  cases h with
  | none => exact pure none
  | some hgiven =>
    exact (ofExcept (Resolver.matches_numericType hgiven)).bind fun type => pure (some type)

theorem variableType (name name' : String) (span span' : Span) (declared found : Option ValueType) :
    Simulates ρ (Lowering.variableType name span declared found)
      (Lowering.variableType name' span' declared found) := by
  rcases declared with _ | want <;> rcases found with _ | value
  · exact pure _
  · exact pure _
  · exact pure _
  · rw [Lowering.variableType, Lowering.variableType]
    split
    · exact pure _
    · exact throw rfl

end Simulates

/-! ## The body -/

theorem lowerExpr_of_hasLowering_eq_false (ctx : Context) {e : Expr} (h : e.hasLowering = false) :
    lowerExpr ctx e = throw (.unsupportedConstruct e.describe e.span) := by
  cases e with
  | literal value _ =>
    cases value with
    | int _ => cases h
    | _ => simp only [lowerExpr]
  | path | binary | block => cases h
  | _ => simp only [lowerExpr]

theorem lowerStmt_of_hasLowering_eq_false (ctx : Context) (last : Bool) {s : Stmt}
    (h : s.hasLowering = false) :
    lowerStmt ctx last s = throw (.unsupportedConstruct s.refusal s.span) := by
  cases s with
  | expr | varDecl => cases h
  | _ => simp only [lowerStmt, Stmt.refusal, Stmt.span]

section

variable {ctx : Context}

mutual

/-- A renamed expression is lowered in step with the one it comes from. -/
theorem simulates_lowerExpr (hctx : ctx.resolver = .numeric) (hρ : Function.Injective ρ)
    {e e' : Expr} : RenamesExpr ρ e e' → Simulates ρ (lowerExpr ctx e) (lowerExpr ctx e')
  | .literal (.int value) => by
    simp only [lowerExpr]
    cases word? value with
    | none => exact .throw rfl
    | some word => exact (Simulates.emit _).bind fun _ => .pure _
  | .literal (.string _) | .literal (.bool _) => by
    simp only [lowerExpr]
    exact .throw rfl
  | .path hname => by
    simp only [lowerExpr, hname]
    refine .lookup hρ _ (.throw rfl) fun b b' htype hslot => ?_
    simp only [htype, hslot]
    exact (Simulates.emit _).bind fun _ => .pure _
  | .binary op hleft hright => by
    simp only [lowerExpr]
    cases op.arith? with
    | none => exact .throw rfl
    | some arith =>
      exact (simulates_lowerExpr hctx hρ hleft).bind fun found =>
        (Simulates.requireValue _ _ _ found).bind fun type =>
        (simulates_lowerExpr hctx hρ hright).bind fun found' =>
        (Simulates.requireValue _ _ _ found').bind fun type' =>
        (Simulates.requireNumeric _ _ _ type).bind fun _ =>
        (Simulates.requireNumeric _ _ _ type').bind fun _ =>
        (Simulates.emit _).bind fun _ => .pure _
  | .block hstmts => by
    simp only [lowerExpr]
    exact Simulates.enterScope.bind fun _ =>
      (simulates_lowerStmts hctx hρ hstmts).nested.bind fun _ =>
      Simulates.leaveScope.bind fun _ => (Simulates.emit _).bind fun _ => .pure _
  | .other hkind hkind' => by
    rw [lowerExpr_of_hasLowering_eq_false ctx hkind, lowerExpr_of_hasLowering_eq_false ctx hkind']
    exact .throw rfl

/-- The same for a statement. -/
theorem simulates_lowerStmt (hctx : ctx.resolver = .numeric) (hρ : Function.Injective ρ)
    (last : Bool) {s s' : Stmt} :
    RenamesStmt ρ s s' → Simulates ρ (lowerStmt ctx last s) (lowerStmt ctx last s')
  | .expr he => by
    simp only [lowerStmt]
    refine (simulates_lowerExpr hctx hρ he).bind fun found => ?_
    cases found with
    | none => exact .pure _
    | some type =>
      cases last with
      | true => exact .pure _
      | false => exact (Simulates.emit _).bind fun _ => .pure _
  | .init hname htype hvalue => by
    simp only [lowerStmt, hctx]
    exact (Simulates.declaredType htype).bind fun declared =>
      (simulates_lowerExpr hctx hρ hvalue).bind fun found =>
      (Simulates.requireValue _ _ _ found).bind fun type =>
      (Simulates.variableType _ _ _ _ declared (some type)).bind fun type =>
      (Simulates.declareLocal hρ ctx hname type).bind fun slot =>
      (Simulates.emit _).bind fun _ => .pure _
  | .bare hname htype => by
    simp only [lowerStmt, hctx]
    exact (Simulates.declaredType htype).bind fun declared =>
      (Simulates.variableType _ _ _ _ declared none).bind fun type =>
      (Simulates.declareLocal hρ ctx hname type).bind fun _ => .pure _
  | .other hkind hkind' => by
    rw [lowerStmt_of_hasLowering_eq_false ctx last hkind,
      lowerStmt_of_hasLowering_eq_false ctx last hkind']
    exact .throw rfl

/-- The same for the statements of a block. -/
theorem simulates_lowerStmts (hctx : ctx.resolver = .numeric) (hρ : Function.Injective ρ)
    {stmts stmts' : List Stmt} :
    RenamesStmts ρ stmts stmts' → Simulates ρ (lowerStmts ctx stmts) (lowerStmts ctx stmts')
  | .nil => by
    simp only [lowerStmts]
    exact .pure _
  | .cons hs .nil => by
    simp only [lowerStmts]
    exact simulates_lowerStmt hctx hρ true hs
  | .cons hs (.cons hnext hrest) => by
    simp only [lowerStmts]
    exact (simulates_lowerStmt hctx hρ false hs).bind fun _ =>
      simulates_lowerStmts hctx hρ (.cons hnext hrest)

end

/-! ## Parameters -/

/-- Where parameters may follow, a parameter is declared like any variable. -/
theorem declareParam_of_acceptsParam {frame : Frame} (h : frame.scopes.acceptsParam = true)
    (name : String) (type : ValueType) (span : Span) :
    declareParam ctx name type span frame = declareLocal ctx name type span frame := by
  cases hreserve : reserveLocal ctx span frame with
  | ok _ between =>
    obtain ⟨-, rfl⟩ := reserveLocal_eq_ok hreserve
    rw [declareParam, declareLocal, bind_of_eq_ok hreserve, bind_of_eq_ok hreserve, onScopes,
      onScopes, ScopeTable.declareParam_apply, if_pos h]
  | error e between =>
    rw [declareParam, declareLocal, bind_of_eq_error hreserve, bind_of_eq_error hreserve]

theorem agree_declareParam (hρ : Function.Injective ρ) {name name' : Ident}
    (hname : name'.name = ρ name.name) {frame frame' : Frame} (h : frame.Renames ρ frame')
    (haccepts : frame.scopes.acceptsParam = true) (haccepts' : frame'.scopes.acceptsParam = true)
    (type : ValueType) :
    Agree ρ (declareParam ctx name.name type name.span frame)
      (declareParam ctx name'.name type name'.span frame') := by
  rw [declareParam_of_acceptsParam haccepts, declareParam_of_acceptsParam haccepts']
  exact Simulates.declareLocal hρ ctx hname type h

/-- Renamed parameters are declared in step with those they come from. -/
theorem agree_lowerParams (hctx : ctx.resolver = .numeric) (hρ : Function.Injective ρ)
    {params params' : List Param} (hparams : List.Forall₂ (RenamesParam ρ) params params')
    {frame frame' : Frame} (h : frame.Renames ρ frame')
    (haccepts : frame.scopes.acceptsParam = true) (haccepts' : frame'.scopes.acceptsParam = true) :
    Agree ρ (lowerParams ctx params frame) (lowerParams ctx params' frame') := by
  induction hparams generalizing frame frame' with
  | nil => exact .ok h
  | @cons p p' rest rest' hp _ ih =>
    have hresolve : Simulates ρ (ofExcept (ctx.resolver.param p))
        (ofExcept (ctx.resolver.param p')) := by
      rw [hctx]
      exact .ofExcept (Resolver.matches_annotated hp)
    refine (hresolve h).bind fun htype htype' _ => ?_
    obtain ⟨-, rfl⟩ := ofExcept_eq_ok htype
    obtain ⟨-, rfl⟩ := ofExcept_eq_ok htype'
    refine (agree_declareParam hρ hp.name h haccepts haccepts' _).bind
      fun hdeclared hdeclared' hnext => ?_
    obtain ⟨hfresh, -, rfl⟩ := declareParam_eq_ok hdeclared
    obtain ⟨hfresh', -, rfl⟩ := declareParam_eq_ok hdeclared'
    obtain ⟨-, s, s', hshows, hshows', -⟩ := h.scopes
    have hparam := ScopeTable.ShowsTypes.acceptsParam_bind ⟨s, hshows, rfl⟩ haccepts hfresh.fresh
    have hparam' :=
      ScopeTable.ShowsTypes.acceptsParam_bind ⟨s', hshows', rfl⟩ haccepts' hfresh'.fresh
    exact (ih hnext (hparam _ _) (hparam' _ _)).bind fun _ _ hlast => .ok hlast

end

end Lowering

/-! ## Functions -/

/-- Lowered functions that differ at most in their spans. -/
def LoweredFunction.Same (f f' : LoweredFunction) : Prop := f' = { f with span := f'.span }

/-- **Renaming does not matter.**  A function and its renamed version are lowered to the same
function, or fail with errors of the same kind. -/
theorem FunctionDecl.Renames.lower {decl decl' : FunctionDecl} (h : decl.Renames decl')
    (maxLocals : Nat) :
    Outcomes.Matches LoweredFunction.Same (decl.lower .numeric maxLocals)
      (decl'.lower .numeric maxLocals) := by
  obtain ⟨ρ, hρ, hname, hparams, hresult, hbody⟩ := h
  let ctx := decl.context .numeric maxLocals
  have hctx : decl'.context .numeric maxLocals = ctx := by rw [context, hname]; rfl
  have hstart : Frame.Renames ρ {} {} := ⟨rfl, .empty⟩
  have hagree : Lowering.Agree ρ (Lowering.lowerDecl ctx decl {})
      (Lowering.lowerDecl ctx decl' {}) := by
    refine (Lowering.agree_lowerParams rfl hρ hparams hstart rfl rfl).bind fun _ _ hdeclared => ?_
    refine (Lowering.simulates_lowerStmts rfl hρ hbody hdeclared).bind fun _ _ hlowered => ?_
    refine Lowering.Simulates.bind (.ofExcept (Resolver.matches_signature hparams hresult _))
      (fun signature => ?_) hlowered
    split
    · exact .pure _
    · exact .throw rfl
  rw [FunctionDecl.lower, FunctionDecl.lower, hctx]
  generalize Lowering.lowerDecl ctx decl {} = outcome at hagree
  generalize Lowering.lowerDecl ctx decl' {} = outcome' at hagree
  cases hagree with
  | ok hframes =>
    refine .ok ?_
    simp only [LoweredFunction.Same, hname, hparams.length_eq, hframes.scopes.slots, hframes.code]
  | error hkind => exact .error hkind

end WasmCodegen
