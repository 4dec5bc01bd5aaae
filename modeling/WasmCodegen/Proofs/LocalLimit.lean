import WasmCodegen.Proofs.LoweringFailures

/-!
# The limit on locals

How many locals a function may have is checked each time a variable gets its slot.  This file says
that the check cuts lowering off and does nothing else: under a smaller limit a declaration is
lowered as under one that is large enough, up to the variable for which there is no slot, and there
it fails (`FunctionDecl.lower_eq_or_cut`).

Which variable that is can be read off the source.  `FunctionDecl.declaredNames` lists the variables
of a declaration in the order of their slots: the parameters, then the variables of the body, where
one that is declared in an initial value comes before the variable that is initialized.  The
variable without a slot stands at the place in this list that the limit gives.

## The argument

Two runs of the same step are compared, one with slots to spare and one under the limit.
`Lowering.Cuts` says of such a pair that it agrees or that the second run is cut off at the right
name.  The relation is closed under sequencing (`Cuts.bind`), so each construct is settled by the
steps it is made of, in the order in which the construct takes them.
-/

namespace WasmCodegen

/-- The same context with another limit. -/
def Context.limited (ctx : Context) (limit : Nat) : Context :=
  { ctx with maxLocals := limit }

/-! ## Runs that are cut off -/

namespace Lowering

/-- The outcome of a step is that of the step with slots to spare, or else it is cut off at the name
that the limit gives, counted from the slots that were taken before the step. -/
def CutOff {α : Type} (ctx : Context) (limit : Nat) (names : List Ident) (frame : Frame)
    (full cut : EStateM.Result CompileError Frame α) : Prop :=
  cut = full ∨ ∃ name frame', names[limit - frame.scopes.slotCount]? = some name ∧
    cut = .error (.tooManyLocals ctx.function limit name.span) frame'

/-- `Cuts ctx limit names full cut`: the step `full` declares the names in order, and `cut` is the
same step under the limit. -/
structure Cuts {α : Type} (ctx : Context) (limit : Nat) (names : List Ident)
    (full cut : Lowering α) : Prop where
  cutOff : ∀ frame, frame.scopes.slotCount ≤ limit →
    frame.scopes.slotCount + names.length ≤ ctx.maxLocals →
      CutOff ctx limit names frame (full frame) (cut frame)
  /-- Each name takes a slot. -/
  slotCount_eq : ∀ {frame a frame'}, full frame = .ok a frame' →
    frame'.scopes.slotCount = frame.scopes.slotCount + names.length
  /-- The limit is kept. -/
  slotCount_le : ∀ {frame a frame'}, frame.scopes.slotCount ≤ limit → cut frame = .ok a frame' →
    frame'.scopes.slotCount ≤ limit

namespace Cuts

variable {α β : Type} {ctx : Context} {limit : Nat} {names names' : List Ident}

/-- A step that takes no slot does not ask for the limit. -/
theorem same {step : Lowering α}
    (h : ∀ {frame a frame'}, step frame = .ok a frame' →
      frame'.scopes.slotCount = frame.scopes.slotCount) : Cuts ctx limit [] step step where
  cutOff _ _ _ := .inl rfl
  slotCount_eq := h
  slotCount_le hle hstep := by rwa [h hstep]

/-- Nor does a check, which leaves the frame as it is. -/
theorem check {step : Lowering α}
    (h : ∀ {frame a frame'}, step frame = .ok a frame' → frame' = frame) :
    Cuts ctx limit [] step step := by
  apply same
  intro frame a frame' hstep
  rw [h hstep]

theorem pure (a : α) : Cuts ctx limit [] (Pure.pure a) (Pure.pure a) := by
  apply check
  intro frame b frame' h
  cases h
  rfl

/-- A step that fails is not cut off, whatever it would have declared. -/
theorem throw (error : CompileError) :
    Cuts ctx limit names (MonadExcept.throw error : Lowering α) (MonadExcept.throw error) where
  cutOff _ _ _ := .inl rfl
  slotCount_eq hstep := by cases hstep
  slotCount_le _ hstep := by cases hstep

theorem emit (i : Instruction) : Cuts ctx limit [] (Lowering.emit i) (Lowering.emit i) := by
  apply same
  intro frame a frame' h
  cases h
  rfl

/-- Two steps are cut off in the first or, with the slots that it has taken, in the second. -/
theorem bind {full cut : Lowering α} {g g' : α → Lowering β} (h : Cuts ctx limit names full cut)
    (hg : ∀ a, Cuts ctx limit names' (g a) (g' a)) :
    Cuts ctx limit (names ++ names') (full >>= g) (cut >>= g') where
  cutOff frame hle hroom := by
    rw [List.length_append, ← Nat.add_assoc] at hroom
    have hfirst := Nat.le_trans (Nat.le_add_right _ _) hroom
    rcases h.cutOff frame hle hfirst with heq | ⟨name, reached, hname, hcut⟩
    · cases hfull : full frame with
      | error e reached =>
        have hcut := heq.trans hfull
        exact .inl ((bind_of_eq_error hcut g').trans (bind_of_eq_error hfull g).symm)
      | ok a between =>
        have hcut := heq.trans hfull
        rw [bind_of_eq_ok hfull, bind_of_eq_ok hcut]
        have hcount := h.slotCount_eq hfull
        have hkept := h.slotCount_le hle hcut
        rw [← hcount] at hroom
        rcases (hg a).cutOff between hkept hroom with hsame | ⟨name, reached, hname, hcut⟩
        · exact .inl hsame
        · refine .inr ⟨name, reached, ?_, hcut⟩
          rw [List.getElem?_append_right (by omega), ← hname]
          congr 1
          omega
    · refine .inr ⟨name, reached, ?_, bind_of_eq_error hcut g'⟩
      rwa [List.getElem?_append_left (List.getElem?_eq_some_iff.1 hname).1]
  slotCount_eq hstep := by
    obtain ⟨a, between, hfull, hnext⟩ := bind_eq_ok hstep
    rw [(hg a).slotCount_eq hnext, h.slotCount_eq hfull, List.length_append, Nat.add_assoc]
  slotCount_le hle hstep := by
    obtain ⟨a, between, hcut, hnext⟩ := bind_eq_ok hstep
    exact (hg a).slotCount_le (h.slotCount_le hle hcut) hnext

/-- The code of a step does not matter, so it may as well be collected. -/
theorem nested {full cut : Lowering α} (h : Cuts ctx limit names full cut) :
    Cuts ctx limit names (Lowering.nested full) (Lowering.nested cut) where
  cutOff frame hle hroom := by
    rcases h.cutOff ⟨frame.scopes, #[]⟩ hle hroom with heq | ⟨name, reached, hname, hcut⟩
    · left
      rw [Lowering.nested, Lowering.nested, heq]
    · refine .inr ⟨name, ⟨reached.scopes, frame.code⟩, hname, ?_⟩
      rw [Lowering.nested, hcut]
  slotCount_eq hstep := by
    obtain ⟨table, hfull, rfl⟩ := nested_eq_ok hstep
    have hcount := h.slotCount_eq hfull
    exact hcount
  slotCount_le {frame} _ _ hle hstep := by
    obtain ⟨table, hcut, rfl⟩ := nested_eq_ok hstep
    have hstart : (⟨frame.scopes, #[]⟩ : Frame).scopes.slotCount ≤ limit := hle
    have hkept := h.slotCount_le hstart hcut
    exact hkept

theorem enterScope : Cuts ctx limit [] Lowering.enterScope Lowering.enterScope := by
  apply same
  intro frame a frame' h
  cases h
  rfl

theorem leaveScope : Cuts ctx limit [] Lowering.leaveScope Lowering.leaveScope := by
  apply same
  intro frame a frame' h
  obtain ⟨table, hleave, rfl⟩ := leaveScope_eq_ok h
  exact ScopeTable.slotCount_leave hleave

theorem lookup (name : String) :
    Cuts ctx limit [] (Lowering.lookup name) (Lowering.lookup name) := by
  apply check
  intro frame a frame' h
  cases h
  rfl

/-- This is where the limit is asked for: with all slots taken the run is cut off here, and
otherwise what follows is the same under both limits. -/
theorem reserve {name : Ident} {declare : Lowering α}
    (h : ∀ {frame a frame'}, declare frame = .ok a frame' →
      frame'.scopes.slotCount = frame.scopes.slotCount + 1) :
    Cuts ctx limit [name] (do reserveLocal ctx name.span; declare)
      (do reserveLocal (ctx.limited limit) name.span; declare) where
  cutOff frame hle hroom := by
    have hroom : frame.scopes.slotCount < ctx.maxLocals := hroom
    by_cases hlt : frame.scopes.slotCount < (ctx.limited limit).maxLocals
    · left
      rw [bind_of_eq_ok (reserveLocal_of_lt hroom), bind_of_eq_ok (reserveLocal_of_lt hlt)]
    · have hfull : frame.scopes.slotCount = limit := Nat.le_antisymm hle (Nat.le_of_not_lt hlt)
      refine .inr ⟨name, frame, ?_, bind_of_eq_error ?_ _⟩
      · rw [hfull, Nat.sub_self]
        rfl
      · exact reserveLocal_of_le (Nat.le_of_eq hfull.symm)
  slotCount_eq hstep := by
    obtain ⟨_, between, hreserve, hdeclare⟩ := bind_eq_ok hstep
    obtain ⟨-, rfl⟩ := reserveLocal_eq_ok hreserve
    exact h hdeclare
  slotCount_le _ hstep := by
    obtain ⟨_, between, hreserve, hdeclare⟩ := bind_eq_ok hstep
    obtain ⟨hlt, rfl⟩ := reserveLocal_eq_ok hreserve
    rw [h hdeclare]
    exact hlt

theorem declareLocal (name : Ident) (type : ValueType) :
    Cuts ctx limit [name] (Lowering.declareLocal ctx name.name type name.span)
      (Lowering.declareLocal (ctx.limited limit) name.name type name.span) := by
  apply reserve
  intro frame slot frame' h
  obtain ⟨table, hdeclare, rfl⟩ := onScopes_eq_ok h
  obtain ⟨-, -, rfl⟩ := ScopeTable.declare_eq_ok hdeclare
  exact ScopeTable.slotCount_bind _ _ _ _

theorem declareParam (name : Ident) (type : ValueType) :
    Cuts ctx limit [name] (Lowering.declareParam ctx name.name type name.span)
      (Lowering.declareParam (ctx.limited limit) name.name type name.span) := by
  apply reserve
  intro frame slot frame' h
  obtain ⟨table, hdeclare, rfl⟩ := onScopes_eq_ok h
  rw [ScopeTable.declareParam_apply] at hdeclare
  split at hdeclare
  · obtain ⟨-, -, rfl⟩ := ScopeTable.declare_eq_ok hdeclare
    exact ScopeTable.slotCount_bind _ _ _ _
  · cases hdeclare

/-- A step that takes no slot may come before another one. -/
theorem after {full cut : Lowering α} {g g' : α → Lowering β} (h : Cuts ctx limit [] full cut)
    (hg : ∀ a, Cuts ctx limit names (g a) (g' a)) :
    Cuts ctx limit names (full >>= g) (cut >>= g') :=
  h.bind hg

/-- It may come at the end, too. -/
theorem before {full cut : Lowering α} {g g' : α → Lowering β} (h : Cuts ctx limit names full cut)
    (hg : ∀ a, Cuts ctx limit [] (g a) (g' a)) :
    Cuts ctx limit names (full >>= g) (cut >>= g') := by
  have hbind := h.bind hg
  rwa [List.append_nil] at hbind

end Cuts

section

variable {ctx : Context} {limit : Nat}

mutual

/-- Under a limit an expression is lowered as without, or cut off. -/
theorem cuts_lowerExpr : (e : Expr) →
    Cuts ctx limit (e.declarations.map (·.name)) (lowerExpr ctx e)
      (lowerExpr (ctx.limited limit) e)
  | .literal (.int value) span => by
    simp only [lowerExpr]
    cases word? value with
    | none => exact .throw _
    | some word => exact (Cuts.emit _).after fun _ => .pure _
  | .path ident span => by
    simp only [lowerExpr]
    refine (Cuts.lookup ident.name).after fun found => ?_
    cases found with
    | none => exact .throw _
    | some binding => exact (Cuts.emit _).after fun _ => .pure _
  | .binary left op right span => by
    rw [Expr.declarations, List.map_append]
    simp only [lowerExpr]
    cases op.arith? with
    | none => exact .throw _
    | some arith =>
      refine (cuts_lowerExpr left).bind fun _ => (Cuts.check ?_).after fun _ =>
        (cuts_lowerExpr right).before fun _ => (Cuts.check ?_).after fun _ =>
        (Cuts.check ?_).after fun _ => (Cuts.check ?_).after fun _ =>
        (Cuts.emit _).after fun _ => .pure _
      · exact fun h => (requireValue_eq_ok h).2
      · exact fun h => (requireValue_eq_ok h).2
      · exact fun h => (requireNumeric_eq_ok h).2
      · exact fun h => (requireNumeric_eq_ok h).2
  | .block ⟨stmts, span⟩ => by
    rw [Expr.declarations]
    simp only [lowerExpr]
    exact Cuts.enterScope.after fun _ => (cuts_lowerStmts stmts).nested.before fun _ =>
      Cuts.leaveScope.after fun _ => (Cuts.emit _).after fun _ => .pure _
  | .literal (.string _) _ | .literal (.bool _) _ | .unary _ _ _ | .call _ _ _
  | .array _ _ | .index _ _ _ | .arrayPattern _ _ _ | .member _ _ _
  | .construct _ _ _ => by
    simp only [lowerExpr]
    exact .throw _

/-- The same for a statement. -/
theorem cuts_lowerStmt (last : Bool) : (s : Stmt) →
    Cuts ctx limit ((Stmt.declarations [s]).map (·.name)) (lowerStmt ctx last s)
      (lowerStmt (ctx.limited limit) last s)
  | .expr e span => by
    rw [Stmt.declarations_expr]
    simp only [lowerStmt]
    refine (cuts_lowerExpr e).before fun found => ?_
    cases found with
    | none => exact .pure _
    | some type =>
      cases last with
      | true => exact .pure _
      | false => exact (Cuts.emit _).after fun _ => .pure _
  | .varDecl ⟨name, type, some value, mutable, span⟩ => by
    rw [Stmt.declarations_init, List.map_append]
    simp only [lowerStmt]
    refine (Cuts.check ?_).after fun _ => (cuts_lowerExpr value).bind fun _ =>
      (Cuts.check ?_).after fun _ => (Cuts.check ?_).after fun _ =>
      (Cuts.declareLocal name _).before fun _ => (Cuts.emit _).after fun _ => .pure _
    · exact fun h => (declaredType_eq_ok h).1
    · exact fun h => (requireValue_eq_ok h).2
    · exact fun h => (variableType_eq_ok h).2.2
  | .varDecl ⟨name, type, none, mutable, span⟩ => by
    rw [Stmt.declarations_bare]
    simp only [lowerStmt]
    refine (Cuts.check ?_).after fun _ => (Cuts.check ?_).after fun _ =>
      (Cuts.declareLocal name _).before fun _ => .pure _
    · exact fun h => (declaredType_eq_ok h).1
    · exact fun h => (variableType_eq_ok h).2.2
  | .function _ | .classDecl _ | .interfaceDecl _ _ _ | .branch _ _ _ _ | .loop _ _ _ _
  | .breakLoop _ | .returnValue _ _ => by
    simp only [lowerStmt]
    exact .throw _

/-- The same for the statements of a block. -/
theorem cuts_lowerStmts : (stmts : List Stmt) →
    Cuts ctx limit ((Stmt.declarations stmts).map (·.name)) (lowerStmts ctx stmts)
      (lowerStmts (ctx.limited limit) stmts)
  | [] => by
    simp only [lowerStmts]
    exact .pure _
  | [s] => by
    simp only [lowerStmts]
    exact cuts_lowerStmt true s
  | s :: next :: rest => by
    rw [Stmt.declarations_cons, List.map_append]
    simp only [lowerStmts]
    exact (cuts_lowerStmt false s).bind fun _ => cuts_lowerStmts (next :: rest)

end

theorem cuts_lowerParams (params : List Param) :
    Cuts ctx limit (params.map (·.name)) (lowerParams ctx params)
      (lowerParams (ctx.limited limit) params) := by
  induction params with
  | nil => exact .pure _
  | cons p rest ih =>
    refine (Cuts.check fun h => (ofExcept_eq_ok h).2).after fun type => ?_
    exact (Cuts.declareParam p.name type).bind fun _ => ih.before fun _ => .pure _

theorem cuts_lowerDecl (decl : FunctionDecl) :
    Cuts ctx limit decl.declaredNames (lowerDecl ctx decl)
      (lowerDecl (ctx.limited limit) decl) := by
  refine (cuts_lowerParams _).bind fun params => (cuts_lowerStmts _).before fun result => ?_
  refine (Cuts.check fun h => (ofExcept_eq_ok h).2).after fun signature => ?_
  by_cases heq : signature.params = params
  · rw [if_pos heq]
    exact .pure _
  · rw [if_neg heq]
    exact .throw _

end

end Lowering

/-! ## Functions -/

namespace FunctionDecl

variable {resolver : Resolver} {ample : Nat} {decl : FunctionDecl}

/-- Under a limit a declaration is lowered as with slots to spare, or lowering is cut off at the
variable that would be one too many. -/
theorem lower_eq_or_cut (h : decl.declaredNames.length ≤ ample) (limit : Nat) :
    decl.lower resolver limit = decl.lower resolver ample ∨
      ∃ name, decl.declaredNames[limit]? = some name ∧
        decl.lower resolver limit =
          .error (.tooManyLocals decl.name.name limit name.span) := by
  let ctx := decl.context resolver ample
  have hcuts : Lowering.Cuts ctx limit decl.declaredNames (Lowering.lowerDecl ctx decl)
      (Lowering.lowerDecl (decl.context resolver limit) decl) := Lowering.cuts_lowerDecl decl
  have hroom : ({} : Frame).scopes.slotCount + decl.declaredNames.length ≤ ample := by
    rw [show ({} : Frame).scopes.slotCount = 0 from rfl, Nat.zero_add]
    exact h
  rcases hcuts.cutOff {} (Nat.zero_le limit) hroom with heq | ⟨name, frame, hname, hcut⟩
  · left
    rw [lower, lower, heq]
  · refine .inr ⟨name, hname, ?_⟩
    rw [lower, hcut]
    rfl

/-- A lowered function has a local for each name that its declaration declares, and no more locals
than it may have. -/
theorem size_locals_of_lower {limit : Nat} {f : LoweredFunction}
    (h : decl.lower resolver limit = .ok f) :
    f.locals.size = decl.declaredNames.length ∧ f.locals.size ≤ limit := by
  let ctx := decl.context resolver limit
  have hcuts : Lowering.Cuts ctx limit decl.declaredNames (Lowering.lowerDecl ctx decl)
      (Lowering.lowerDecl ctx decl) := Lowering.cuts_lowerDecl decl
  unfold lower at h
  split at h
  · rename_i signature frame hdecl
    cases h
    have hstart : ({} : Frame).scopes.slotCount ≤ limit := Nat.zero_le limit
    exact ⟨(hcuts.slotCount_eq hdecl).trans (Nat.zero_add _), hcuts.slotCount_le hstart hdecl⟩
  · cases h

/-- **The limit only cuts lowering off.**  Take the outcome with slots to spare.  If it is a
function, then under any limit the outcome is that function as long as its locals fit, and otherwise
lowering fails at the first variable, in the order of slots, for which there is none.  If it is an
error, then the outcome under any limit is this error, unless lowering is cut off before.  So a
declaration that can be lowered under a limit is lowered alike under every higher one. -/
theorem lower_of_limit (hample : decl.declaredNames.length ≤ ample) (limit : Nat) :
    (∀ f, decl.lower resolver ample = .ok f →
      (f.locals.size ≤ limit → decl.lower resolver limit = .ok f) ∧
      (limit < f.locals.size → ∃ name, decl.declaredNames[limit]? = some name ∧
        decl.lower resolver limit =
          .error (.tooManyLocals decl.name.name limit name.span))) ∧
    (∀ error, decl.lower resolver ample = .error error →
      decl.lower resolver limit = .error error ∨
        ∃ name, decl.declaredNames[limit]? = some name ∧
          decl.lower resolver limit =
            .error (.tooManyLocals decl.name.name limit name.span)) ∧
    ∀ f higher, limit ≤ higher → decl.lower resolver limit = .ok f →
      decl.lower resolver higher = .ok f := by
  have hfits : ∀ f limit, decl.lower resolver ample = .ok f → f.locals.size ≤ limit →
      decl.lower resolver limit = .ok f := by
    intro f limit hf hle
    rcases lower_eq_or_cut hample limit with heq | ⟨name, hname, -⟩
    · exact heq.trans hf
    · obtain ⟨hlt, -⟩ := List.getElem?_eq_some_iff.1 hname
      rw [← (size_locals_of_lower hf).1] at hlt
      exact absurd hle (Nat.not_le_of_lt hlt)
  refine ⟨?_, ?_, ?_⟩
  · intro f hf
    refine ⟨hfits f limit hf, fun hlt => ?_⟩
    rcases lower_eq_or_cut hample limit with heq | hcut
    · -- a function that is lowered under the limit keeps to it
      have hle := (size_locals_of_lower (heq.trans hf)).2
      exact absurd hle (Nat.not_le_of_lt hlt)
    · exact hcut
  · intro error herror
    rcases lower_eq_or_cut hample limit with heq | hcut
    · exact .inl (heq.trans herror)
    · exact .inr hcut
  · intro f higher hle hf
    rcases lower_eq_or_cut hample limit with heq | ⟨name, -, hcut⟩
    · have hsize := (size_locals_of_lower hf).2
      exact hfits f higher (heq.symm.trans hf) (Nat.le_trans hsize hle)
    · cases hcut.symm.trans hf

/-- `f(a) { let x = { let y = a; y + 1 }; last }`: the slots are those of `a`, `y` and `x`. -/
def initialBlock (last : String) : FunctionDecl where
  name := ⟨"f", ⟨1, 1, 1⟩⟩
  prototype := ⟨[⟨⟨"a", ⟨1, 3, 1⟩⟩, none, ⟨1, 3, 1⟩⟩], none, ⟨1, 2, 3⟩⟩
  body := ⟨[
    .varDecl ⟨⟨"x", ⟨2, 5, 1⟩⟩, none,
      some (.block ⟨[
        .varDecl ⟨⟨"y", ⟨3, 9, 1⟩⟩, none, some (.path ⟨"a", ⟨3, 13, 1⟩⟩ ⟨3, 13, 1⟩), false,
          ⟨3, 5, 9⟩⟩,
        .expr (.binary (.path ⟨"y", ⟨4, 5, 1⟩⟩ ⟨4, 5, 1⟩) .add (.literal (.int 1) ⟨4, 9, 1⟩)
          ⟨4, 5, 5⟩) ⟨4, 5, 5⟩], ⟨2, 9, 1⟩⟩),
      false, ⟨2, 1, 9⟩⟩,
    .expr (.path ⟨last, ⟨6, 1, 1⟩⟩ ⟨6, 1, 1⟩) ⟨6, 1, 1⟩], ⟨1, 6, 1⟩⟩
  span := ⟨1, 1, 6⟩

/-- With three slots the function is lowered; with two there is none for `x`, and with one there is
none for `y`, which is declared in the initial value of `x` and comes first. -/
theorem lower_of_limit_initialBlock :
    (∃ f, (initialBlock "x").lower .numeric 3 = .ok f ∧
      (initialBlock "x").lower .numeric 9 = .ok f) ∧
    (initialBlock "x").lower .numeric 2 = .error (.tooManyLocals "f" 2 ⟨2, 5, 1⟩) ∧
    (initialBlock "x").lower .numeric 1 = .error (.tooManyLocals "f" 1 ⟨3, 9, 1⟩) := by
  have hnames : (initialBlock "x").declaredNames =
      [⟨"a", ⟨1, 3, 1⟩⟩, ⟨"y", ⟨3, 9, 1⟩⟩, ⟨"x", ⟨2, 5, 1⟩⟩] := rfl
  have hample : (initialBlock "x").declaredNames.length ≤ 3 := by rw [hnames]; decide
  obtain ⟨f, hf, hsize⟩ : ∃ f, (initialBlock "x").lower .numeric 3 = .ok f ∧ f.locals.size = 3 := by
    constructor
    constructor
    · with_unfolding_all rfl
    · rfl
  have hcut : ∀ limit < 3, ∃ name, (initialBlock "x").declaredNames[limit]? = some name ∧
      (initialBlock "x").lower .numeric limit = .error (.tooManyLocals "f" limit name.span) := by
    intro limit hlt
    refine ((lower_of_limit hample limit).1 f hf).2 ?_
    rwa [hsize]
  refine ⟨⟨f, hf, ((lower_of_limit hample 9).1 f hf).1 ?_⟩, ?_, ?_⟩
  · rw [hsize]
    decide
  · obtain ⟨name, hname, hlower⟩ := hcut 2 (by decide)
    rw [hnames] at hname
    cases hname
    exact hlower
  · obtain ⟨name, hname, hlower⟩ := hcut 1 (by decide)
    rw [hnames] at hname
    cases hname
    exact hlower

end FunctionDecl

end WasmCodegen
