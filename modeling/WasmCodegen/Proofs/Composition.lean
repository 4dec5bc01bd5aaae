import Mathlib.Data.List.Perm.Basic
import WasmCodegen.Proofs.Interning
import WasmCodegen.Proofs.ModuleReports

/-!
# Modules are put together from functions

Functions are lowered independently of each other, and a module shows it.  A run succeeds if every
item is a function, the names are distinct, and each function can be lowered on its own
(`SourceModule.generate_eq_ok_iff`).  All that the functions of a module share is the signature
table, and a module has a closed form: the table lists the signatures in the order of first use, and
each function refers to its own by position (`Module.functions_ofLowered`).

So items that are added at the end change nothing of what is there (`Module.prefix_ofLowered`), and
items in another order give the same functions in that order, up to the numbers of the signatures
(`Module.renumbers_ofLowered`).
-/

namespace WasmCodegen

/-! ## The closed form of a module -/

/-- The function of a module that a lowered function becomes, with a type index. -/
def LoweredFunction.withTypeIndex (f : LoweredFunction) (typeIndex : Nat) : Func where
  name := f.name
  typeIndex := typeIndex
  paramCount := f.paramCount
  locals := f.locals
  body := f.body
  span := f.span

theorem Func.Comes.eq_withTypeIndex {g : Func} {types : SignatureTable} {f : LoweredFunction}
    (h : g.Comes types f) (hindexed : types.Indexed) :
    g = f.withTypeIndex (types.position f.signature) := by
  obtain ⟨hsignature, hname, hparams, hlocals, hbody, hspan⟩ := h
  obtain ⟨name, typeIndex, paramCount, locals, body, span⟩ := g
  rw [LoweredFunction.withTypeIndex, hindexed.position_eq hsignature]
  subst hname hparams hlocals hbody hspan
  rfl

/-- `m'.Renumbers m`: the module `m'` has the functions and the signatures of `m` in another order,
and type indices are those of `m` with other numbers for the same signatures. -/
def Module.Renumbers (m' m : Module) : Prop :=
  m'.types.types.toList.Perm m.types.types.toList ∧
    ∃ renumber : Nat → Nat,
      (∀ i s, m.types.get? i = some s → m'.types.get? (renumber i) = some s) ∧
      m'.functions.toList.Perm
        (m.functions.toList.map fun g => { g with typeIndex := renumber g.typeIndex })

namespace Module

/-- The signatures of functions are interned in order. -/
theorem types_ofLowered (fs : List LoweredFunction) :
    (ofLowered fs).types = .ofList (fs.map (·.signature)) := by
  suffices h : ∀ m : Module, (fs.foldl add m).types =
      (fs.map (·.signature)).foldl (fun table s => (table.intern s).2) m.types from h {}
  induction fs with
  | nil => exact fun m => rfl
  | cons f fs ih => exact fun m => ih (m.add f)

theorem indexed_ofLowered (fs : List LoweredFunction) : (ofLowered fs).types.Indexed := by
  rw [types_ofLowered]
  exact SignatureTable.indexed_ofList _

/-- The table lists the signatures of the functions in the order of first use. -/
theorem toList_types_ofLowered (fs : List LoweredFunction) :
    (ofLowered fs).types.types.toList = (fs.map (·.signature)).eraseDups := by
  rw [types_ofLowered, SignatureTable.types_ofList]

theorem mem_types_ofLowered {fs : List LoweredFunction} {s : Signature} :
    s ∈ (ofLowered fs).types.types.toList ↔ ∃ f ∈ fs, f.signature = s := by
  rw [toList_types_ofLowered, List.mem_eraseDups, List.mem_map]

/-- Each function refers to its signature by position. -/
theorem functions_ofLowered (fs : List LoweredFunction) :
    (ofLowered fs).functions.toList =
      fs.map fun f => f.withTypeIndex ((ofLowered fs).types.position f.signature) := by
  have hcomes := comes_ofLowered fs
  have heq : List.Forall₂ (· = ·)
      (fs.map fun f => f.withTypeIndex ((ofLowered fs).types.position f.signature))
      (ofLowered fs).functions.toList := by
    rw [List.forall₂_map_left_iff]
    exact hcomes.imp fun f g h => (h.eq_withTypeIndex (indexed_ofLowered fs)).symm
  rw [List.forall₂_eq_eq_eq] at heq
  exact heq.symm

/-- Functions that are added at the end leave signatures and functions where they are. -/
theorem prefix_ofLowered (fs more : List LoweredFunction) :
    (ofLowered fs).types.types.toList <+: (ofLowered (fs ++ more)).types.types.toList ∧
      (ofLowered fs).functions.toList <+: (ofLowered (fs ++ more)).functions.toList := by
  have happend : ofLowered (fs ++ more) = more.foldl add (ofLowered fs) := List.foldl_append
  obtain ⟨htypes, added, hfunctions, -⟩ := comes_foldl_add (indexed_ofLowered fs).sound more
  rw [happend]
  exact ⟨htypes, added, hfunctions.symm⟩

/-- Functions in another order give the same module up to the numbers of signatures. -/
theorem renumbers_ofLowered {fs fs' : List LoweredFunction} (h : fs'.Perm fs) :
    (ofLowered fs').Renumbers (ofLowered fs) := by
  have hmem : ∀ s, s ∈ (ofLowered fs').types.types.toList ↔
      s ∈ (ofLowered fs).types.types.toList := by
    intro s
    rw [mem_types_ofLowered, mem_types_ofLowered]
    simp only [h.mem_iff]
  -- a number of the old table stands for a signature, which has its number in the new one
  let renumber (i : Nat) : Nat :=
    ((ofLowered fs).types.get? i).elim i (ofLowered fs').types.position
  have hrenumber : ∀ i s, (ofLowered fs).types.get? i = some s →
      renumber i = (ofLowered fs').types.position s := by
    intro i s hi
    simp only [renumber, hi, Option.elim_some]
  refine ⟨?_, renumber, ?_, ?_⟩
  · exact (List.perm_ext_iff_of_nodup (indexed_ofLowered fs').nodup
      (indexed_ofLowered fs).nodup).2 hmem
  · intro i s hi
    rw [hrenumber i s hi]
    exact SignatureTable.get?_position ((hmem s).2 (SignatureTable.mem_types_of_get? hi))
  · have hmap : (ofLowered fs).functions.toList.map
        (fun g => { g with typeIndex := renumber g.typeIndex }) =
          fs.map fun f => f.withTypeIndex ((ofLowered fs').types.position f.signature) := by
      rw [functions_ofLowered, List.map_map]
      refine List.map_congr_left fun f hf => ?_
      have hlisted := SignatureTable.get?_position (mem_types_ofLowered.2 ⟨f, hf, rfl⟩)
      simp only [Function.comp_apply, LoweredFunction.withTypeIndex, hrenumber _ _ hlisted]
    rw [hmap, functions_ofLowered]
    exact h.map _

end Module

/-! ## When a run succeeds -/

/-- If a function gives results on all of a list, there are no errors. -/
theorem Outcomes.of_forall₂ {ε α β : Type} {g : α → Except ε β} {xs : List α} {ys : List β}
    (h : List.Forall₂ (fun x y => g x = .ok y) xs ys) :
    errors (xs.map g) = [] ∧ results (xs.map g) = ys := by
  induction h with
  | nil => exact ⟨rfl, rfl⟩
  | cons hx _ ih =>
    rw [List.map_cons, hx, errors_ok_cons, results_ok_cons, ih.2]
    exact ⟨ih.1, rfl⟩

namespace SourceModule

theorem firstOf_append_function_eq_none_iff {items : List Stmt} {decl : FunctionDecl}
    {name : String} :
    firstOf (items ++ [.function decl]) name = none ↔
      firstOf items name = none ∧ decl.name.name ≠ name := by
  rw [firstOf_append_function, Option.or_eq_none_iff]
  by_cases hname : decl.name.name = name <;> simp [hname]

/-- There is nothing to report on items that are functions of different names, none of them used
before. -/
theorem collect_itemReport_eq_nil_iff (before items : List Stmt) :
    collect itemReport before items = [] ↔
      (∀ item ∈ items, ∃ decl, item = .function decl) ∧
        ((functions { items }).map (·.name.name)).Nodup ∧
        ∀ decl ∈ functions { items }, firstOf before decl.name.name = none := by
  induction items generalizing before with
  | nil => simp [collect, functions]
  | cons item rest ih =>
    cases item with
    | function decl =>
      have hfunctions : functions { items := .function decl :: rest } =
          decl :: functions { items := rest } := rfl
      rw [collect, List.append_eq_nil_iff, ih, hfunctions, List.map_cons, List.nodup_cons,
        List.forall_mem_cons, List.forall_mem_cons, Option.toList_eq_nil_iff, itemReport,
        Option.map_eq_none_iff]
      simp only [firstOf_append_function_eq_none_iff, List.mem_map]
      constructor
      · rintro ⟨hfirst, hitems, hnodup, hrest⟩
        refine ⟨⟨⟨decl, rfl⟩, hitems⟩, ⟨?_, hnodup⟩, hfirst, fun other h => (hrest other h).1⟩
        rintro ⟨other, hother, hname⟩
        exact (hrest other hother).2 hname.symm
      · rintro ⟨⟨-, hitems⟩, ⟨hnew, hnodup⟩, hfirst, hrest⟩
        refine ⟨hfirst, hitems, hnodup, fun other h => ⟨hrest other h, ?_⟩⟩
        intro hname
        exact hnew ⟨other, h, hname.symm⟩
    | _ => simp [collect, itemReport]

/-- A run succeeds exactly if the items are functions of different names that can be lowered one by
one, and the module is made of what they are lowered to. -/
theorem generate_eq_ok_iff {resolver : Resolver} {options : Options} {source : SourceModule}
    {m : Module} :
    source.generate resolver options = .ok m ↔
      (∀ item ∈ source.items, ∃ decl, item = .function decl) ∧
        (source.functions.map (·.name.name)).Nodup ∧
        ∃ fs, List.Forall₂ (fun decl f => decl.lower resolver options.maxLocals = .ok f)
          source.functions fs ∧ m = .ofLowered fs := by
  have hitems := collect_itemReport_eq_nil_iff [] source.items
  rw [← errors_screen .empty] at hitems
  constructor
  · intro h
    obtain ⟨hscreen, hlowered⟩ := exists_lowered h
    obtain ⟨hkind, hnames, -⟩ := hitems.1 hscreen
    exact ⟨hkind, hnames, hlowered⟩
  · rintro ⟨hkind, hnames, fs, hlower, rfl⟩
    have hscreen := hitems.2 ⟨hkind, hnames, fun decl _ => rfl⟩
    obtain ⟨herrors, hresults⟩ := Outcomes.of_forall₂ hlower
    simp only [generate]
    rw [results_screen hscreen source.span, hscreen, herrors, hresults]
    rfl

/-- The same, without naming the module. -/
theorem exists_generate_iff (resolver : Resolver) (options : Options) (source : SourceModule) :
    (∃ m, source.generate resolver options = .ok m) ↔
      (∀ item ∈ source.items, ∃ decl, item = .function decl) ∧
        (source.functions.map (·.name.name)).Nodup ∧
        ∀ decl ∈ source.functions, ∃ f, decl.lower resolver options.maxLocals = .ok f := by
  rw [← Fallible.exists_mapM_eq_ok_iff]
  simp only [generate_eq_ok_iff, Fallible.mapM_eq_ok_iff]
  constructor
  · rintro ⟨m, hkind, hnames, fs, hlower, -⟩
    exact ⟨hkind, hnames, fs, hlower⟩
  · rintro ⟨hkind, hnames, fs, hlower⟩
    exact ⟨.ofLowered fs, hkind, hnames, fs, hlower, rfl⟩

/-! ## Runs on related sources -/

section

variable {resolver : Resolver} {options : Options} {source other : SourceModule} {m m' : Module}

/-- `source.Composes resolver options m`: the module is put together from the functions of the
source, each lowered on its own. -/
structure Composes (resolver : Resolver) (options : Options) (source : SourceModule) (m : Module) :
    Prop where
  /-- The functions of the module are those of the source in order, and the table lists their
  signatures in the order of first use. -/
  functions : ∃ fs,
    List.Forall₂ (fun decl f => decl.lower resolver options.maxLocals = .ok f)
      source.functions fs ∧
    List.Forall₂ (fun f g => g.Comes m.types f) fs m.functions.toList ∧
    m.types.types.toList = (fs.map (·.signature)).eraseDups
  nodup : m.types.types.toList.Nodup
  /-- Every signature is that of a function. -/
  used : ∀ s ∈ m.types.types.toList, ∃ g ∈ m.functions, m.types.get? g.typeIndex = some s

theorem composes_of_generate (h : source.generate resolver options = .ok m) :
    source.Composes resolver options m := by
  obtain ⟨-, -, fs, hlower, rfl⟩ := generate_eq_ok_iff.1 h
  exact ⟨⟨fs, hlower, Module.comes_ofLowered fs, Module.toList_types_ofLowered fs⟩,
    (Module.indexed_ofLowered fs).nodup, fun s hs => Module.exists_function_of_mem_types hs⟩

/-- More items at the end leave the signatures and the functions where they are. -/
theorem prefix_of_generate (h : source.generate resolver options = .ok m)
    (h' : other.generate resolver options = .ok m') (hitems : source.items <+: other.items) :
    m.types.types.toList <+: m'.types.types.toList ∧
      m.functions.toList <+: m'.functions.toList := by
  obtain ⟨-, -, fs, hlower, rfl⟩ := generate_eq_ok_iff.1 h
  obtain ⟨-, -, fs', hlower', rfl⟩ := generate_eq_ok_iff.1 h'
  obtain ⟨more, hmore⟩ := hitems
  have hfunctions : other.functions = source.functions ++ functions { items := more } := by
    calc other.functions
      _ = functions { items := source.items ++ more } := by rw [hmore]; rfl
      _ = source.functions ++ functions { items := more } := functions_append _ _
  rw [hfunctions, ← Fallible.mapM_eq_ok_iff, List.mapM_append] at hlower'
  obtain ⟨fs₁, hlower₁, hlower'⟩ := Fallible.bind_eq_ok_iff.1 hlower'
  obtain ⟨fs₂, -, hlower'⟩ := Fallible.bind_eq_ok_iff.1 hlower'
  obtain rfl : fs = fs₁ :=
    Except.ok.inj ((Fallible.mapM_eq_ok_iff.2 hlower).symm.trans hlower₁)
  obtain rfl : fs ++ fs₂ = fs' := Except.ok.inj hlower'
  exact Module.prefix_ofLowered fs fs₂

/-- Items in another order give the same module up to the numbers of signatures. -/
theorem renumbers_of_generate (h : source.generate resolver options = .ok m)
    (hperm : other.items.Perm source.items) :
    ∃ m', other.generate resolver options = .ok m' ∧ m'.Renumbers m := by
  obtain ⟨hkind, hnames, fs, hlower, rfl⟩ := generate_eq_ok_iff.1 h
  have hfunctions : other.functions.Perm source.functions := hperm.filterMap _
  obtain ⟨fs', hlower', hfs⟩ := List.perm_comp_forall₂ hfunctions hlower
  refine ⟨.ofLowered fs', generate_eq_ok_iff.2 ⟨?_, ?_, fs', hlower', rfl⟩, ?_⟩
  · exact fun item hitem => hkind item (hperm.mem_iff.1 hitem)
  · exact (hfunctions.map _).nodup_iff.2 hnames
  · exact Module.renumbers_ofLowered hfs

end

/-- **Generation is compositional.**  A run succeeds exactly if the items are functions of different
names, each of which can be lowered on its own.  The module is then put together from what they are
lowered to; more items at the end only add to it, and items in another order only permute it and
renumber its signatures. -/
theorem generate_compositional (resolver : Resolver) (options : Options) (source : SourceModule) :
    ((∃ m, source.generate resolver options = .ok m) ↔
      (∀ item ∈ source.items, ∃ decl, item = .function decl) ∧
        (source.functions.map (·.name.name)).Nodup ∧
        ∀ decl ∈ source.functions, ∃ f, decl.lower resolver options.maxLocals = .ok f) ∧
    ∀ m, source.generate resolver options = .ok m →
      source.Composes resolver options m ∧
      (∀ (longer : SourceModule) (m' : Module), source.items <+: longer.items →
        longer.generate resolver options = .ok m' →
          m.types.types.toList <+: m'.types.types.toList ∧
            m.functions.toList <+: m'.functions.toList) ∧
      ∀ other : SourceModule, other.items.Perm source.items →
        ∃ m', other.generate resolver options = .ok m' ∧ m'.Renumbers m := by
  refine ⟨exists_generate_iff resolver options source, ?_⟩
  intro m h
  refine ⟨composes_of_generate h, ?_, ?_⟩
  · intro longer m' hitems h'
    exact prefix_of_generate h h' hitems
  · intro other hperm
    exact renumbers_of_generate h hperm

/-- `g() { 1 }`, which does not have the signature of the function of `SourceModule.halving`. -/
def one : SourceModule where
  items := [.function {
    name := ⟨"g", .unknown⟩
    prototype := ⟨[], none, .unknown⟩
    body := ⟨[.expr (.literal (.int 1) .unknown) .unknown], .unknown⟩
    span := .unknown }]

end SourceModule

/-- The one function of `SourceModule.one`. -/
def LoweredFunction.one : LoweredFunction where
  name := "g"
  signature := ⟨[], [.i32]⟩
  paramCount := 0
  locals := #[]
  body := [.const 1, .endSeq]
  span := .unknown

/-- Two functions, in either order: the first stays where it is when the second is added, and the
signatures change places with the functions. -/
theorem SourceModule.generate_compositional_halving :
    halving.generate .numeric .default = .ok (.ofLowered [.halving [.i32]]) ∧
    generate .numeric .default { items := halving.items ++ one.items } =
        .ok (.ofLowered [.halving [.i32], .one]) ∧
      Composes .numeric .default { items := halving.items ++ one.items }
        (.ofLowered [.halving [.i32], .one]) ∧
      (Module.ofLowered [.halving [.i32]]).functions.toList <+:
        (Module.ofLowered [.halving [.i32], .one]).functions.toList ∧
      ∃ m', generate .numeric .default { items := one.items ++ halving.items } = .ok m' ∧
        m'.Renumbers (.ofLowered [.halving [.i32], .one]) := by
  have hfirst : halving.generate .numeric .default = .ok (.ofLowered [.halving [.i32]]) := by
    with_unfolding_all rfl
  have hboth : generate .numeric .default { items := halving.items ++ one.items } =
      .ok (.ofLowered [.halving [.i32], .one]) := by
    with_unfolding_all rfl
  obtain ⟨hcomposes, -, hswap⟩ := (generate_compositional _ _ _).2 _ hboth
  obtain ⟨-, hlonger, -⟩ := (generate_compositional _ _ _).2 _ hfirst
  exact ⟨hfirst, hboth, hcomposes, (hlonger _ _ (List.prefix_append _ _) hboth).2,
    hswap _ List.perm_append_comm⟩

end WasmCodegen
