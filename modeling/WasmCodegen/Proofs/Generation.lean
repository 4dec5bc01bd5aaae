import WasmCodegen.Module.Generation
import WasmCodegen.Proofs.TypedLowering

/-!
# Generated modules

A module is generated in three passes: items are screened, the functions among them are lowered,
and the lowered functions are committed one after the other, each entering its signature into the
table.  `SourceModule.generate_eq_ok` describes the outcome of a successful run: the functions of
the module correspond to the declarations of the source, one by one and in order, and each refers
to the signature it was lowered with.  No name is used twice (`SourceModule.nodup_names_of_screen`),
and there is no signature but those of functions (`Module.exists_function_of_mem_types`).

The last part compares generator and validator.  What the generator makes is valid except where
a resolver gives a function a result that its body does not leave, and the numeric resolver never
does (`SourceModule.generate_valid_iff`).
-/

namespace WasmCodegen

/-! ## Committing functions -/

namespace SignatureTable

/-- The index gives each signature a position where it stands. -/
def Sound (table : SignatureTable) : Prop :=
  ∀ s position, table.index[s]? = some position → table.get? position = some s

/-- Positions keep their signatures when the table grows. -/
theorem get?_mono {table table' : SignatureTable} {position : Nat} {s : Signature}
    (hgrow : table.types.toList <+: table'.types.toList) (h : table.get? position = some s) :
    table'.get? position = some s := by
  rw [get?, ← Array.getElem?_toList] at h ⊢
  exact getElem?_mono hgrow h

theorem types_grow_intern (table : SignatureTable) (s : Signature) :
    table.types.toList <+: (table.intern s).2.types.toList := by
  unfold SignatureTable.intern
  cases table.index[s]? with
  | some position => exact List.prefix_refl _
  | none => exact ⟨[s], Array.toList_push.symm⟩

theorem mem_types_intern {table : SignatureTable} {s other : Signature}
    (h : other ∈ (table.intern s).2.types.toList) :
    other ∈ table.types.toList ∨ s = other := by
  unfold SignatureTable.intern at h
  cases hindex : table.index[s]? with
  | some position =>
    rw [hindex] at h
    exact .inl h
  | none =>
    simp only [hindex, Array.toList_push, List.mem_append, List.mem_singleton] at h
    exact h.imp_right Eq.symm

/-- Interning gives the position of the signature. -/
theorem Sound.get?_intern {table : SignatureTable} (h : table.Sound) (s : Signature) :
    (table.intern s).2.get? (table.intern s).1 = some s := by
  unfold SignatureTable.intern
  cases hindex : table.index[s]? with
  | some position => exact h s position hindex
  | none => simp [get?]

theorem Sound.intern {table : SignatureTable} (h : table.Sound) (s : Signature) :
    (table.intern s).2.Sound := by
  intro other position hother
  have hgrow := table.types_grow_intern s
  have hself := h.get?_intern s
  unfold SignatureTable.intern at hother hgrow hself ⊢
  cases hindex : table.index[s]? with
  | some found =>
    rw [hindex] at hother
    exact h other position hother
  | none =>
    simp only [hindex] at hother hgrow hself ⊢
    rw [Std.TreeMap.getElem?_insert] at hother
    split at hother
    · rename_i hcompare
      cases hother
      rw [← Std.LawfulEqOrd.eq_of_compare hcompare]
      exact hself
    · exact get?_mono hgrow (h other position hother)

theorem sound_empty : empty.Sound := by
  intro s position h
  simp [empty] at h

end SignatureTable

/-- `g.Comes types f`: the function `g` of a module with these signatures was lowered as `f`. -/
structure Func.Comes (g : Func) (types : SignatureTable) (f : LoweredFunction) : Prop where
  signature : types.get? g.typeIndex = some f.signature
  name : g.name = f.name
  paramCount : g.paramCount = f.paramCount
  locals : g.locals = f.locals
  body : g.body = f.body
  span : g.span = f.span

namespace Module

theorem comes_commit {types : SignatureTable} (h : types.Sound) (f : LoweredFunction) :
    (f.commit types).1.Comes (f.commit types).2 f :=
  ⟨h.get?_intern f.signature, rfl, rfl, rfl, rfl, rfl⟩

/-- Functions are appended in order, and positions of signatures never change. -/
theorem comes_foldl_add {m : Module} (h : m.types.Sound) (fs : List LoweredFunction) :
    m.types.types.toList <+: (fs.foldl add m).types.types.toList ∧
      ∃ added, (fs.foldl add m).functions.toList = m.functions.toList ++ added ∧
        List.Forall₂ (fun f g => g.Comes (fs.foldl add m).types f) fs added := by
  induction fs generalizing m with
  | nil => exact ⟨List.prefix_refl _, [], (List.append_nil _).symm, .nil⟩
  | cons f fs ih =>
    have hgrow : m.types.types.toList <+: (m.add f).types.types.toList :=
      m.types.types_grow_intern f.signature
    obtain ⟨hgrow', added, hfunctions, hcomes⟩ := ih (m := m.add f) (h.intern f.signature)
    refine ⟨hgrow.trans hgrow', (f.commit m.types).1 :: added, ?_, .cons ?_ hcomes⟩
    · rw [List.foldl_cons, hfunctions]
      change (m.functions.push (f.commit m.types).1).toList ++ added = _
      rw [Array.toList_push, List.append_assoc]
      rfl
    · have hfirst := comes_commit h f
      exact { hfirst with signature := SignatureTable.get?_mono hgrow' hfirst.signature }

/-- The functions of a module correspond to the lowered functions, one by one. -/
theorem comes_ofLowered (fs : List LoweredFunction) :
    List.Forall₂ (fun f g => g.Comes (ofLowered fs).types f) fs
      (ofLowered fs).functions.toList := by
  obtain ⟨-, added, hfunctions, hcomes⟩ := comes_foldl_add (m := {}) SignatureTable.sound_empty fs
  rw [ofLowered, hfunctions]
  exact hcomes

/-- The signatures that functions add are their own. -/
theorem mem_types_foldl_add {m : Module} {fs : List LoweredFunction} {s : Signature}
    (h : s ∈ (fs.foldl add m).types.types.toList) :
    s ∈ m.types.types.toList ∨ ∃ f ∈ fs, f.signature = s := by
  induction fs generalizing m with
  | nil => exact .inl h
  | cons f fs ih =>
    rcases ih h with hmem | ⟨g, hg, hsignature⟩
    · rcases SignatureTable.mem_types_intern hmem with hmem | hsignature
      · exact .inl hmem
      · exact .inr ⟨f, List.mem_cons_self, hsignature⟩
    · exact .inr ⟨g, List.mem_cons_of_mem f hg, hsignature⟩

/-- Every signature of the module is that of a function. -/
theorem exists_function_of_mem_types {fs : List LoweredFunction} {s : Signature}
    (h : s ∈ (ofLowered fs).types.types.toList) :
    ∃ g ∈ (ofLowered fs).functions, (ofLowered fs).types.get? g.typeIndex = some s := by
  rcases mem_types_foldl_add h with hmem | ⟨f, hf, rfl⟩
  · exact absurd hmem List.not_mem_nil
  · obtain ⟨g, hg, hcomes⟩ := exists_mem_of_forall₂ (comes_ofLowered fs) hf
    exact ⟨g, Array.mem_toList_iff.1 hg, hcomes.signature⟩

end Module

/-! ## Screening items -/

namespace Outcomes

variable {ε α β : Type}

/-- If a function gives no error on a list, it gives the results in order. -/
theorem forall₂_results {g : α → Except ε β} {xs : List α} (h : errors (xs.map g) = []) :
    List.Forall₂ (fun x y => g x = .ok y) xs (results (xs.map g)) := by
  induction xs with
  | nil => exact .nil
  | cons x xs ih =>
    rw [List.map_cons] at h ⊢
    cases hx : g x with
    | error e => simp [errors, hx] at h
    | ok y =>
      rw [hx] at h
      exact .cons hx (ih h)

end Outcomes

namespace SourceModule

/-- Items that pass the screening without errors are the functions to lower. -/
theorem results_screen {items : List Stmt} {defined : Std.TreeMap String Span}
    (h : Outcomes.errors (screen defined items) = []) (span : Span) :
    Outcomes.results (screen defined items) = functions ⟨items, span⟩ := by
  induction items generalizing defined with
  | nil => rfl
  | cons item rest ih =>
    cases item with
    | function decl =>
      simp only [screen] at h ⊢
      cases hdefined : defined[decl.name.name]? with
      | some first => simp [Outcomes.errors, hdefined] at h
      | none =>
        rw [hdefined] at h
        exact congrArg (decl :: ·) (ih h)
    | _ => simp [screen, Outcomes.errors] at h

/-- Items that pass the screening without errors define different names, none of them before. -/
theorem nodup_names_of_screen {items : List Stmt} {defined : Std.TreeMap String Span}
    (h : Outcomes.errors (screen defined items) = []) (span : Span) :
    ((functions ⟨items, span⟩).map (·.name.name)).Nodup ∧
      ∀ decl ∈ functions ⟨items, span⟩, defined[decl.name.name]? = none := by
  induction items generalizing defined with
  | nil => exact ⟨List.nodup_nil, fun _ hmem => nomatch hmem⟩
  | cons item rest ih =>
    cases item with
    | function decl =>
      simp only [screen] at h
      cases hdefined : defined[decl.name.name]? with
      | some first => simp [Outcomes.errors, hdefined] at h
      | none =>
        rw [hdefined] at h
        obtain ⟨hnodup, hnew⟩ := ih h
        have hother : ∀ other ∈ functions ⟨rest, span⟩, other.name.name ≠ decl.name.name ∧
            defined[other.name.name]? = none := by
          intro other hmem
          have hinsert := hnew other hmem
          rw [Std.TreeMap.getElem?_insert] at hinsert
          split at hinsert
          · cases hinsert
          · rename_i hcompare
            refine ⟨fun hname => hcompare ?_, hinsert⟩
            rw [hname]
            exact Std.ReflCmp.compare_self
        refine ⟨List.nodup_cons.2 ⟨?_, hnodup⟩, List.forall_mem_cons.2 ⟨hdefined, ?_⟩⟩
        · intro hmem
          obtain ⟨other, hother', hname⟩ := List.mem_map.1 hmem
          exact (hother other hother').1 hname
        · exact fun other hmem => (hother other hmem).2
    | _ => simp [screen, Outcomes.errors] at h

/-- A successful run has nothing to report: the items pass the screening, and the module is made of
the functions of the source, each lowered. -/
theorem exists_lowered {resolver : Resolver} {options : Options} {source : SourceModule}
    {m : Module} (h : source.generate resolver options = .ok m) :
    Outcomes.errors (screen {} source.items) = [] ∧
      ∃ fs, List.Forall₂ (fun decl f => decl.lower resolver options.maxLocals = .ok f)
        source.functions fs ∧ m = .ofLowered fs := by
  simp only [generate] at h
  split at h
  · rename_i hnone
    obtain ⟨hscreen, hlower⟩ := List.append_eq_nil_iff.1 hnone
    have hfunctions := results_screen hscreen source.span
    rw [hfunctions] at h hlower
    cases h
    exact ⟨hscreen, _, Outcomes.forall₂_results hlower, rfl⟩
  · cases h

/-- A successful run lowers every function of the source and commits them in order. -/
theorem generate_eq_ok {resolver : Resolver} {options : Options} {source : SourceModule}
    {m : Module} (h : source.generate resolver options = .ok m) :
    List.Forall₂ (fun decl g => ∃ f, decl.lower resolver options.maxLocals = .ok f ∧
      g.Comes m.types f) source.functions m.functions.toList := by
  obtain ⟨-, fs, hlower, rfl⟩ := exists_lowered h
  exact forall₂_comp hlower (Module.comes_ofLowered fs)

/-- The functions of the module have the names of the declarations. -/
theorem names_generate {resolver : Resolver} {options : Options} {source : SourceModule}
    {m : Module} (h : source.generate resolver options = .ok m) :
    m.functions.toList.map Func.name = source.functions.map (·.name.name) := by
  have hnames : List.Forall₂ (· = ·) (source.functions.map (·.name.name))
      (m.functions.toList.map Func.name) := by
    rw [List.forall₂_map_left_iff, List.forall₂_map_right_iff]
    refine (generate_eq_ok h).imp ?_
    rintro decl g ⟨f, hf, hg⟩
    obtain ⟨result, -, hlowers⟩ := FunctionDecl.lowers_of_lower hf
    rw [hg.name]
    cases hlowers
    rfl
  rw [List.forall₂_eq_eq_eq] at hnames
  exact hnames.symm

end SourceModule

/-! ## Generated modules and the validator -/

/-- A function passes the check of its module exactly if its signature has the result that its
body leaves. -/
theorem Func.Comes.check_eq_ok_iff {resolver : Resolver} {maxLocals : Nat}
    {decl : FunctionDecl} {result : Option ValueType} {f : LoweredFunction} {g : Func}
    {types : SignatureTable} (hg : g.Comes types f)
    (hf : decl.Lowers resolver maxLocals result f) :
    g.check types = .ok () ↔ f.signature.results = result.toList := by
  rw [Func.check_eq_ok_iff_fits hg.signature]
  obtain ⟨hcount, hparams⟩ := hf.take_locals
  constructor
  · rintro ⟨-, -, result', hresults, hbody⟩
    rw [hg.locals, hg.body, hf.body_iff] at hbody
    rw [hresults, hbody]
  · intro hresults
    refine ⟨?_, ?_, result, hresults, ?_⟩
    · rw [hg.paramCount, hg.locals]
      exact hcount
    · rw [hg.paramCount, hg.locals]
      exact hparams
    · rw [hg.locals, hg.body, hf.body_iff]

/-- The resolver gives a declaration the results that its body leaves. -/
def FunctionDecl.ResultAgrees (resolver : Resolver) (maxLocals : Nat) (decl : FunctionDecl) :
    Prop :=
  ∃ result signature, decl.bodyResult resolver maxLocals = .ok result ∧
    resolver.signature decl.prototype result = .ok signature ∧
    signature.results = result.toList

theorem FunctionDecl.resultAgrees_iff {resolver : Resolver} {maxLocals : Nat} {decl : FunctionDecl}
    {f : LoweredFunction} (h : decl.lower resolver maxLocals = .ok f) :
    ∃ result, decl.Lowers resolver maxLocals result f ∧
      resolver.signature decl.prototype result = .ok f.signature ∧
      (decl.ResultAgrees resolver maxLocals ↔ f.signature.results = result.toList) := by
  obtain ⟨result, hresult, hlowers⟩ := FunctionDecl.lowers_of_lower h
  have hsignature : resolver.signature decl.prototype result = .ok f.signature := by
    cases hlowers
    assumption
  refine ⟨result, hlowers, hsignature, ?_⟩
  constructor
  · rintro ⟨result', signature', hresult', hsignature', hagree⟩
    obtain rfl : result = result' := Except.ok.inj (hresult.symm.trans hresult')
    obtain rfl : f.signature = signature' := Except.ok.inj (hsignature.symm.trans hsignature')
    exact hagree
  · intro hagree
    exact ⟨result, f.signature, hresult, hsignature, hagree⟩

/-- The numeric resolver takes the results from the body. -/
theorem Resolver.results_numeric {prototype : Prototype} {result : Option ValueType}
    {signature : Signature} (h : numeric.signature prototype result = .ok signature) :
    signature.results = result.toList := by
  obtain ⟨params, -, h₁⟩ := Fallible.bind_eq_ok_iff.1 h
  obtain ⟨results, hresults, h₂⟩ := Fallible.bind_eq_ok_iff.1 h₁
  cases h₂
  unfold checkedResults at hresults
  cases hdeclared : prototype.result with
  | none =>
    rw [hdeclared] at hresults
    cases hresults
    rfl
  | some type =>
    rw [hdeclared] at hresults
    obtain ⟨want, -, h₃⟩ := Fallible.bind_eq_ok_iff.1 hresults
    cases result with
    | none => cases h₃
    | some found =>
      by_cases hfound : found = want
      · subst hfound
        simpa using h₃.symm
      · simp [hfound] at h₃

/-- **Generated modules are valid, as far as the resolver allows.**  A generated module passes the
validator exactly if the resolver gives every function the results that its body leaves, and under
the numeric resolver it always passes. -/
theorem SourceModule.generate_valid_iff {resolver : Resolver} {options : Options}
    {source : SourceModule} {m : Module} (h : source.generate resolver options = .ok m) :
    ((∃ report, m.validate = .ok report) ↔
      ∀ decl ∈ source.functions, decl.ResultAgrees resolver options.maxLocals) ∧
    (resolver = .numeric → ∃ report, m.validate = .ok report) := by
  have hvalid : (∃ report, m.validate = .ok report) ↔
      ∀ decl ∈ source.functions, decl.ResultAgrees resolver options.maxLocals := by
    have hmatch : List.Forall₂ (fun decl g => decl.ResultAgrees resolver options.maxLocals ↔
        g.check m.types = .ok ()) source.functions m.functions.toList := by
      refine (generate_eq_ok h).imp ?_
      rintro decl g ⟨f, hf, hg⟩
      obtain ⟨result, hlowers, -, hagrees⟩ := FunctionDecl.resultAgrees_iff hf
      rw [hagrees, hg.check_eq_ok_iff hlowers]
    rw [Module.exists_report_iff, forall_mem_iff_of_forall₂ hmatch]
    simp only [Array.mem_toList_iff]
  refine ⟨hvalid, ?_⟩
  rintro rfl
  have hnumeric : List.Forall₂ (fun decl _ => decl.ResultAgrees .numeric options.maxLocals ↔ True)
      source.functions m.functions.toList := by
    refine (generate_eq_ok h).imp ?_
    rintro decl g ⟨f, hf, -⟩
    obtain ⟨result, -, hsignature, hagrees⟩ := FunctionDecl.resultAgrees_iff hf
    rw [iff_true, hagrees]
    exact Resolver.results_numeric hsignature
  exact hvalid.2 ((forall_mem_iff_of_forall₂ hnumeric).2 fun _ _ => trivial)

/-- `f(a) { let x = a / 2; { let x = x; x } }`, where the inner variable hides the outer one. -/
def SourceModule.halving : SourceModule where
  items := [.function {
    name := ⟨"f", .unknown⟩
    prototype := ⟨[⟨⟨"a", .unknown⟩, none, .unknown⟩], none, .unknown⟩
    body := ⟨[
      .varDecl ⟨⟨"x", .unknown⟩, none, some (.binary (.path ⟨"a", .unknown⟩ .unknown) .div
        (.literal (.int 2) .unknown) .unknown), false, .unknown⟩,
      .expr (.block ⟨[
        .varDecl ⟨⟨"x", .unknown⟩, none, some (.path ⟨"x", .unknown⟩ .unknown), false, .unknown⟩,
        .expr (.path ⟨"x", .unknown⟩ .unknown) .unknown], .unknown⟩) .unknown], .unknown⟩
    span := .unknown }]

/-- The one function of `SourceModule.halving`, with the results that a resolver gives it. -/
def LoweredFunction.halving (results : List ValueType) : LoweredFunction where
  name := "f"
  signature := ⟨[.i32], results⟩
  paramCount := 1
  locals := #[.i32, .i32, .i32]
  body := [.localGet 0, .const 2, .arith .divS, .localSet 1,
    .block (some .i32) [.localGet 1, .localSet 2, .localGet 2, .endSeq], .endSeq]
  span := .unknown

/-- The numeric resolver makes a valid module of it; a resolver that insists on no results does
not. -/
theorem SourceModule.generate_valid_iff_halving :
    (halving.generate .numeric .default = .ok (.ofLowered [.halving [.i32]]) ∧
      ∃ report, (Module.ofLowered [.halving [.i32]]).validate = .ok report) ∧
    halving.generate (.ofTable (fun _ => none) none (some [])) .default =
      .ok (.ofLowered [.halving []]) ∧
    ¬ ∃ report, (Module.ofLowered [.halving []]).validate = .ok report := by
  have hnumeric : halving.generate .numeric .default = .ok (.ofLowered [.halving [.i32]]) := by
    with_unfolding_all rfl
  have htable : halving.generate (.ofTable (fun _ => none) none (some [])) .default =
      .ok (.ofLowered [.halving []]) := by
    with_unfolding_all rfl
  refine ⟨⟨hnumeric, (generate_valid_iff hnumeric).2 rfl⟩, htable, ?_⟩
  rw [(generate_valid_iff htable).1]
  intro hagrees
  obtain ⟨result, signature, hresult, hsignature, hresults⟩ := hagrees _ (List.mem_singleton.2 rfl)
  have hbody : result = some .i32 := Except.ok.inj (hresult.symm.trans (by with_unfolding_all rfl))
  have hempty : signature = ⟨[.i32], []⟩ := Except.ok.inj (hsignature.symm.trans rfl)
  subst hbody hempty
  cases hresults

end WasmCodegen
