import WasmCodegen.Proofs.ModuleReports
import WasmCodegen.Proofs.Renaming
import WasmCodegen.Proofs.RoundTrip.Modules

/-!
# Renamed modules

What a source module becomes does not depend on the names of variables, on mutability or on where
things stand.  If the functions of a source module are renamed, each by an injective renaming of its
own (`SourceModule.Renames`), then a module comes out as before, with the same bytes, or what is
reported is of the same kinds in the same order (`SourceModule.generate_renamed`).

Functions are lowered one by one, so this is `FunctionDecl.Renames.lower` for each of them.  What is
left is the way from there to the module: the items that are screened out are the same
(`SourceModule.matches_screen`), signatures are entered in the same order
(`Module.same_ofLowered`), and the encoder does not see spans (`Encoder.encode_eq_of_same`).
-/

namespace WasmCodegen

/-- Functions that differ at most in their spans. -/
def Func.Same (f f' : Func) : Prop := f' = { f with span := f'.span }

/-- What a report is about, without names and places. -/
inductive Diagnostic.Kind where
  | compilation (kind : CompileError.Kind)
  | validation
  | encoding
deriving DecidableEq

/-- The kind of a report. -/
def Diagnostic.kind : Diagnostic → Diagnostic.Kind
  | .compilation e => .compilation e.kind
  | .validation _ => .validation
  | .encoding _ => .encoding

/-- `RenamesItem item item'`: a function is renamed, and what is no function stays none. -/
inductive RenamesItem : Stmt → Stmt → Prop
  | function {decl decl' : FunctionDecl} (h : decl.Renames decl') :
      RenamesItem (.function decl) (.function decl')
  | other {item item' : Stmt} (h : ∀ decl, item ≠ .function decl)
      (h' : ∀ decl, item' ≠ .function decl) : RenamesItem item item'

/-- `source.Renames source'`: in the second module the functions of the first are renamed, each in
its own way. -/
def SourceModule.Renames (source source' : SourceModule) : Prop :=
  List.Forall₂ RenamesItem source.items source'.items

theorem Diagnostic.map_kind_compilation (errors : List CompileError) :
    (errors.map Diagnostic.compilation).map Diagnostic.kind =
      (errors.map CompileError.kind).map .compilation := by
  rw [List.map_map, List.map_map]
  rfl

/-! ## Outcomes of lists -/

namespace Outcomes

variable {α β : Type} {R : α → β → Prop} {outcomes : List (Except CompileError α)}
  {outcomes' : List (Except CompileError β)}

theorem kinds_errors (h : List.Forall₂ (Matches R) outcomes outcomes') :
    (errors outcomes').map CompileError.kind = (errors outcomes).map CompileError.kind := by
  induction h with
  | nil => rfl
  | cons hfirst _ ih =>
    cases hfirst with
    | ok _ => rw [errors_ok_cons, errors_ok_cons, ih]
    | error hkind =>
      rw [errors_error_cons, errors_error_cons, List.map_cons, List.map_cons, hkind, ih]

theorem related_results (h : List.Forall₂ (Matches R) outcomes outcomes') :
    List.Forall₂ R (results outcomes) (results outcomes') := by
  induction h with
  | nil => exact .nil
  | cons hfirst _ ih =>
    cases hfirst with
    | ok hresult => exact .cons hresult ih
    | error _ => exact ih

end Outcomes

/-! ## Items -/

namespace SourceModule

open Outcomes

theorem screen_cons_of_not_function {item : Stmt} (h : ∀ decl, item ≠ .function decl)
    (defined : Std.TreeMap String Span) (rest : List Stmt) :
    ∃ construct, screen defined (item :: rest) =
      .error (.unsupportedConstruct construct item.span) :: screen defined rest := by
  cases item with
  | function decl => exact absurd rfl (h decl)
  | _ => exact ⟨_, rfl⟩

/-- The same items are left out, for reasons of the same kind. -/
theorem matches_screen {items items' : List Stmt} (h : List.Forall₂ RenamesItem items items')
    {defined defined' : Std.TreeMap String Span}
    (hdefined : ∀ name : String, defined'[name]?.isSome = defined[name]?.isSome) :
    List.Forall₂ (Matches FunctionDecl.Renames) (screen defined items)
      (screen defined' items') := by
  induction h generalizing defined defined' with
  | nil => exact .nil
  | cons hitem _ ih =>
    cases hitem with
    | other hother hother' =>
      obtain ⟨_, hscreen⟩ := screen_cons_of_not_function hother defined _
      obtain ⟨_, hscreen'⟩ := screen_cons_of_not_function hother' defined' _
      rw [hscreen, hscreen']
      exact .cons (.error rfl) (ih hdefined)
    | @function decl decl' hdecl =>
      have ⟨ρ, _, hfunction⟩ := hdecl
      have hsome := hdefined decl.name.name
      rw [screen, screen, hfunction.name]
      cases hfirst : defined[decl.name.name]? with
      | some first =>
        rw [hfirst, Option.isSome_some, Option.isSome_iff_exists] at hsome
        obtain ⟨first', hfirst'⟩ := hsome
        rw [hfirst']
        exact .cons (.error rfl) (ih hdefined)
      | none =>
        rw [hfirst, Option.isSome_none, Option.isSome_eq_false_iff, Option.isNone_iff_eq_none]
          at hsome
        rw [hsome]
        refine .cons (.ok hdecl) (ih fun name => ?_)
        rw [Std.TreeMap.getElem?_insert, Std.TreeMap.getElem?_insert]
        split
        · rfl
        · exact hdefined name

end SourceModule

/-! ## Modules -/

namespace Module

/-- Functions are added in step. -/
theorem same_foldl_add {functions functions' : List LoweredFunction}
    (h : List.Forall₂ LoweredFunction.Same functions functions') {m m' : Module}
    (htypes : m'.types = m.types)
    (hfunctions : List.Forall₂ Func.Same m.functions.toList m'.functions.toList) :
    (functions'.foldl add m').types = (functions.foldl add m).types ∧
      List.Forall₂ Func.Same (functions.foldl add m).functions.toList
        (functions'.foldl add m').functions.toList := by
  induction h generalizing m m' with
  | nil => exact ⟨htypes, hfunctions⟩
  | @cons f f' _ _ hf _ ih =>
    obtain ⟨name, signature, paramCount, locals, body, span⟩ := f'
    cases hf
    refine ih ?_ ?_
    · rw [add, add, LoweredFunction.commit, LoweredFunction.commit, htypes]
    · rw [add, add, LoweredFunction.commit, LoweredFunction.commit, htypes, Array.toList_push,
        Array.toList_push]
      exact List.rel_append hfunctions (.cons rfl .nil)

theorem same_ofLowered {functions functions' : List LoweredFunction}
    (h : List.Forall₂ LoweredFunction.Same functions functions') :
    (ofLowered functions').types = (ofLowered functions).types ∧
      List.Forall₂ Func.Same (ofLowered functions).functions.toList
        (ofLowered functions').functions.toList :=
  same_foldl_add h rfl .nil

end Module

namespace Encoder

theorem visible_eq_of_same (encoder : Encoder) {f f' : Func} (h : Func.Same f f') :
    encoder.visible f' = encoder.visible f := by
  obtain ⟨name, typeIndex, paramCount, locals, body, span⟩ := f'
  cases h
  rfl

theorem map_visible_eq_of_same (encoder : Encoder) {functions functions' : List Func}
    (h : List.Forall₂ Func.Same functions functions') :
    functions'.map encoder.visible = functions.map encoder.visible := by
  induction h with
  | nil => rfl
  | cons hf _ ih => rw [List.map_cons, List.map_cons, encoder.visible_eq_of_same hf, ih]

/-- Modules that differ at most in spans have the same bytes: those of the module in which functions
are as the bytes show them. -/
theorem encode_eq_of_same (encoder : Encoder) {m m' : Module} (htypes : m'.types = m.types)
    (hfunctions : List.Forall₂ Func.Same m.functions.toList m'.functions.toList) :
    encoder.encode m' = encoder.encode m := by
  let image : Module := ⟨m.types, (m.functions.toList.map encoder.visible).toArray⟩
  have hsections : encoder.sections image = encoder.sections m :=
    sections_eq_of_visible rfl List.toList_toArray
  have hsections' : encoder.sections image = encoder.sections m' := by
    refine sections_eq_of_visible (by rw [htypes]) ?_
    rw [List.toList_toArray, encoder.map_visible_eq_of_same hfunctions]
  rw [encode, encode, ← hsections, ← hsections']

end Encoder

/-! ## Generation -/

namespace SourceModule

open Outcomes

/-- **Names of variables do not matter.**  Take a source module and the same with functions renamed,
spans and mutability as they please.  Either both become modules, and these have the same signatures
and the same functions up to spans, so that every encoder gives the same bytes; or both fail, with
reports of the same kinds in the same order. -/
theorem generate_renamed {source source' : SourceModule} (h : source.Renames source')
    (options : Options) :
    match source.generate .numeric options, source'.generate .numeric options with
    | .ok m, .ok m' =>
      m'.types = m.types ∧ List.Forall₂ Func.Same m.functions.toList m'.functions.toList ∧
        ∀ encoder : Encoder, encoder.encode m' = encoder.encode m
    | .error reports, .error reports' =>
      reports'.map Diagnostic.kind = reports.map Diagnostic.kind
    | _, _ => False := by
  have hscreen : List.Forall₂ (Matches FunctionDecl.Renames) (screen {} source.items)
      (screen {} source'.items) := matches_screen h fun _ => rfl
  have hlowered : List.Forall₂ (Matches LoweredFunction.Same)
      ((results (screen {} source.items)).map (FunctionDecl.lower .numeric options.maxLocals))
      ((results (screen {} source'.items)).map
        (FunctionDecl.lower .numeric options.maxLocals)) := by
    rw [List.forall₂_map_left_iff, List.forall₂_map_right_iff]
    exact (related_results hscreen).imp fun _ _ hdecl => hdecl.lower options.maxLocals
  have hkinds := congrArg₂ (· ++ ·) (kinds_errors hscreen) (kinds_errors hlowered)
  simp only [← List.map_append] at hkinds
  rw [generate, generate]
  generalize errors (screen {} source.items) ++ _ = reports at hkinds
  generalize errors (screen {} source'.items) ++ _ = reports' at hkinds
  cases reports with
  | nil =>
    obtain rfl := List.map_eq_nil_iff.1 hkinds
    obtain ⟨htypes, hfunctions⟩ := Module.same_ofLowered (related_results hlowered)
    exact ⟨htypes, hfunctions, fun encoder => encoder.encode_eq_of_same htypes hfunctions⟩
  | cons error rest =>
    cases reports' with
    | nil => cases hkinds
    | cons error' rest' =>
      show ((error' :: rest').map Diagnostic.compilation).map Diagnostic.kind =
        ((error :: rest).map Diagnostic.compilation).map Diagnostic.kind
      rw [Diagnostic.map_kind_compilation, Diagnostic.map_kind_compilation, hkinds]

/-- `f(a) { let x = { let a = a; a + 1 }; x }` with names to choose, on a given line. -/
def shadowing (a x : String) (mutable : Bool) (line : UInt32) : SourceModule where
  items := [.function {
    name := ⟨"f", ⟨line, 1, 1⟩⟩
    prototype := ⟨[⟨⟨a, ⟨line, 3, 1⟩⟩, none, ⟨line, 3, 1⟩⟩], none, ⟨line, 2, 3⟩⟩
    body := ⟨[
      .varDecl ⟨⟨x, ⟨line, 12, 1⟩⟩, none,
        some (.block ⟨[
          .varDecl ⟨⟨a, ⟨line, 22, 1⟩⟩, none, some (.path ⟨a, ⟨line, 26, 1⟩⟩ ⟨line, 26, 1⟩),
            mutable, ⟨line, 18, 10⟩⟩,
          .expr (.binary (.path ⟨a, ⟨line, 29, 1⟩⟩ ⟨line, 29, 1⟩) .add
            (.literal (.int 1) ⟨line, 33, 1⟩) ⟨line, 29, 5⟩) ⟨line, 29, 5⟩], ⟨line, 16, 20⟩⟩),
        mutable, ⟨line, 8, 28⟩⟩,
      .expr (.path ⟨x, ⟨line, 38, 1⟩⟩ ⟨line, 38, 1⟩) ⟨line, 38, 1⟩], ⟨line, 6, 35⟩⟩
    span := ⟨line, 1, 40⟩ }]

/-- A letter in front of every name. -/
theorem renames_shadowing (a x : String) (mutable mutable' : Bool) (line line' : UInt32) :
    (shadowing a x mutable line).Renames (shadowing ("v" ++ a) ("v" ++ x) mutable' line') := by
  refine .cons (.function ⟨("v" ++ ·), fun _ _ h => by simpa using h, ?_⟩) .nil
  refine ⟨rfl, .cons ⟨rfl, .none⟩ .nil, .none, ?_⟩
  refine .cons (.init rfl .none (.block (.cons (.init rfl .none (.path rfl)) (.cons ?_ .nil)))) ?_
  · exact .expr (.binary _ (.path rfl) (.literal _))
  · exact .cons (.expr (.path rfl)) .nil

/-- The inner variable hides the parameter under both names, and the bytes are the same. -/
theorem generate_renamed_shadowing :
    (shadowing "a" "x" false 1).Renames (shadowing "va" "vx" true 9) ∧
      ∃ m m', (shadowing "a" "x" false 1).generate .numeric .default = .ok m ∧
        (shadowing "va" "vx" true 9).generate .numeric .default = .ok m' ∧
        ∀ encoder : Encoder, encoder.encode m' = encoder.encode m := by
  have hrenames : (shadowing "a" "x" false 1).Renames (shadowing "va" "vx" true 9) :=
    renames_shadowing "a" "x" false true 1 9
  have hgenerate := generate_renamed hrenames .default
  obtain ⟨m, hm⟩ : ∃ m, (shadowing "a" "x" false 1).generate .numeric .default = .ok m := by
    constructor
    with_unfolding_all rfl
  rw [hm] at hgenerate
  cases hm' : (shadowing "va" "vx" true 9).generate .numeric .default with
  | error reports =>
    rw [hm'] at hgenerate
    exact hgenerate.elim
  | ok m' =>
    rw [hm'] at hgenerate
    exact ⟨hrenames, m, m', hm, rfl, hgenerate.2.2⟩

end SourceModule

end WasmCodegen
