import WasmCodegen.Module.Generation

/-!
# What a failed run reports

`SourceModule.generate` finds out which names are taken by a table that it fills on the way.  Here
the reports are given without a table: what is said of an item depends on the items before it alone
(`SourceModule.itemReport`), and so does whether a function is lowered at all
(`SourceModule.bodyReport`).  The reports of a run are those on items, followed by those on bodies,
each in the order of the source (`SourceModule.generate_eq_error_iff`).

The table and the items before are related by `SourceModule.Records`: a name is in the table if
a function before has it, with the place of the first such function.  A repeated name leaves the
table as it is, so the third function of a name is reported against the first, not the second.
-/

namespace WasmCodegen

namespace SourceModule

/-! ## Reports by the items before -/

/-- The first function of a name among items. -/
def firstOf (items : List Stmt) (name : String) : Option FunctionDecl :=
  (functions { items }).find? fun decl => decl.name.name = name

/-- The report on an item itself: it is no function, or its name is that of a function before. -/
def itemReport (before : List Stmt) : Stmt → Option CompileError
  | .function decl =>
    (firstOf before decl.name.name).map fun first =>
      .duplicateFunction decl.name.name first.name.span decl.name.span
  | item =>
    some (.unsupportedConstruct
      s!"{item.describe} at module scope (only function declarations are allowed at module scope)"
      item.span)

/-- The report on the body of a function.  Only the first function of a name is lowered. -/
def bodyReport (resolver : Resolver) (maxLocals : Nat) (before : List Stmt) :
    Stmt → Option CompileError
  | .function decl =>
    match firstOf before decl.name.name, decl.lower resolver maxLocals with
    | none, .error e => some e
    | _, _ => none
  | _ => none

/-- The reports on items that follow the items `before`, in order. -/
def collect (report : List Stmt → Stmt → Option CompileError) (before : List Stmt) :
    List Stmt → List CompileError
  | [] => []
  | item :: rest => (report before item).toList ++ collect report (before ++ [item]) rest

/-- The reports on the items of a source module. -/
def itemReports (source : SourceModule) : List CompileError :=
  collect itemReport [] source.items

/-- The reports on the bodies of the functions of a source module. -/
def bodyReports (resolver : Resolver) (maxLocals : Nat) (source : SourceModule) :
    List CompileError :=
  collect (bodyReport resolver maxLocals) [] source.items

/-- Every report is on an item of the source. -/
theorem exists_of_mem_collect {report : List Stmt → Stmt → Option CompileError}
    {before items : List Stmt} {error : CompileError} (h : error ∈ collect report before items) :
    ∃ earlier, ∃ item ∈ items, report earlier item = some error := by
  induction items generalizing before with
  | nil => exact absurd h List.not_mem_nil
  | cons item rest ih =>
    rcases List.mem_append.1 h with hitem | hrest
    · exact ⟨before, item, List.mem_cons_self, Option.mem_toList.1 hitem⟩
    · obtain ⟨earlier, other, hother, hreport⟩ := ih hrest
      exact ⟨earlier, other, List.mem_cons_of_mem item hother, hreport⟩

/-! ## The table of names -/

theorem functions_append (items more : List Stmt) :
    functions { items := items ++ more } = functions { items } ++ functions { items := more } :=
  List.filterMap_append

/-- A function that comes last is the first of its name if there was none. -/
theorem firstOf_append_function (items : List Stmt) (decl : FunctionDecl) (name : String) :
    firstOf (items ++ [.function decl]) name =
      (firstOf items name).or (if decl.name.name = name then some decl else none) := by
  have hlast : functions { items := [.function decl] } = [decl] := rfl
  rw [firstOf, functions_append, hlast, List.find?_append, List.find?_singleton]
  simp [firstOf]

/-- Items that are no functions have no names. -/
theorem firstOf_append_of_not_function {item : Stmt} (items : List Stmt)
    (h : ∀ decl, item ≠ .function decl) (name : String) :
    firstOf (items ++ [item]) name = firstOf items name := by
  have hlast : functions { items := [item] } = [] := by
    cases item with
    | function decl => exact absurd rfl (h decl)
    | _ => rfl
  rw [firstOf, functions_append, hlast, List.append_nil, firstOf]

/-- The table has the names of the items before, each with the place where it was first given. -/
def Records (defined : Std.TreeMap String Span) (before : List Stmt) : Prop :=
  ∀ name, defined[name]? = (firstOf before name).map (·.name.span)

namespace Records

variable {defined : Std.TreeMap String Span} {before : List Stmt}

theorem empty : Records {} [] := by
  intro name
  simp [firstOf, functions]

/-- A new name enters the table. -/
theorem insert (h : Records defined before) {decl : FunctionDecl}
    (hnew : firstOf before decl.name.name = none) :
    Records (defined.insert decl.name.name decl.name.span) (before ++ [.function decl]) := by
  intro name
  rw [firstOf_append_function, Std.TreeMap.getElem?_insert, h name]
  by_cases hname : decl.name.name = name
  · subst hname
    simp [hnew]
  · simp [hname]

/-- A name that is taken keeps its first place. -/
theorem repeated (h : Records defined before) {decl first : FunctionDecl}
    (hfirst : firstOf before decl.name.name = some first) :
    Records defined (before ++ [.function decl]) := by
  intro name
  rw [firstOf_append_function, h name]
  by_cases hname : decl.name.name = name
  · subst hname
    simp [hfirst]
  · simp [hname]

theorem skip (h : Records defined before) {item : Stmt} (hitem : ∀ decl, item ≠ .function decl) :
    Records defined (before ++ [item]) := by
  intro name
  rw [firstOf_append_of_not_function before hitem, h name]

end Records

end SourceModule

/-! ## The reports of a run -/

namespace Outcomes

variable {ε α : Type}

@[simp]
theorem errors_error_cons (e : ε) (rest : List (Except ε α)) :
    errors (.error e :: rest) = e :: errors rest := rfl

@[simp]
theorem errors_ok_cons (a : α) (rest : List (Except ε α)) :
    errors (.ok a :: rest) = errors rest := rfl

@[simp]
theorem results_error_cons (e : ε) (rest : List (Except ε α)) :
    results (.error e :: rest) = results rest := rfl

@[simp]
theorem results_ok_cons (a : α) (rest : List (Except ε α)) :
    results (.ok a :: rest) = a :: results rest := rfl

end Outcomes

namespace SourceModule

variable {defined : Std.TreeMap String Span} {before : List Stmt}

/-- Screening finds the reports on the items. -/
theorem errors_screen (h : Records defined before) (items : List Stmt) :
    Outcomes.errors (screen defined items) = collect itemReport before items := by
  induction items generalizing defined before with
  | nil => rfl
  | cons item rest ih =>
    cases item with
    | function decl =>
      have hlookup := h decl.name.name
      cases hfirst : firstOf before decl.name.name with
      | some first =>
        rw [hfirst, Option.map_some] at hlookup
        simp [screen, collect, itemReport, hlookup, hfirst, ih (h.repeated hfirst)]
      | none =>
        rw [hfirst, Option.map_none] at hlookup
        simp [screen, collect, itemReport, hlookup, hfirst, ih (h.insert hfirst)]
    | _ =>
      simp only [screen, Outcomes.errors_error_cons]
      exact congrArg (_ :: ·) (ih (h.skip fun _ => nofun))

/-- Screening keeps the functions whose bodies are due for a report. -/
theorem errors_lower_screen (h : Records defined before) (resolver : Resolver) (maxLocals : Nat)
    (items : List Stmt) :
    Outcomes.errors ((Outcomes.results (screen defined items)).map
        (FunctionDecl.lower resolver maxLocals)) =
      collect (bodyReport resolver maxLocals) before items := by
  induction items generalizing defined before with
  | nil => rfl
  | cons item rest ih =>
    cases item with
    | function decl =>
      have hlookup := h decl.name.name
      cases hfirst : firstOf before decl.name.name with
      | some first =>
        rw [hfirst, Option.map_some] at hlookup
        simp [screen, collect, bodyReport, hlookup, hfirst, ih (h.repeated hfirst)]
      | none =>
        rw [hfirst, Option.map_none] at hlookup
        cases hlower : decl.lower resolver maxLocals <;>
          simp [screen, collect, bodyReport, hlookup, hfirst, hlower, ih (h.insert hfirst)]
    | _ =>
      simp only [screen, Outcomes.results_error_cons]
      exact ih (h.skip fun _ => nofun)

/-- A run reports what there is to report, and otherwise makes a module. -/
theorem generate_eq (resolver : Resolver) (options : Options) (source : SourceModule) :
    source.generate resolver options =
      match source.itemReports ++ source.bodyReports resolver options.maxLocals with
      | [] => .ok (.ofLowered (Outcomes.results ((Outcomes.results (screen {} source.items)).map
          (FunctionDecl.lower resolver options.maxLocals))))
      | reports => .error (reports.map .compilation) := by
  rw [itemReports, bodyReports, ← errors_screen .empty, ← errors_lower_screen .empty]
  rfl

theorem reports_of_generate {resolver : Resolver} {options : Options} {source : SourceModule}
    {reports : Diagnostics} (h : source.generate resolver options = .error reports) :
    reports ≠ [] ∧ reports =
      (source.itemReports ++ source.bodyReports resolver options.maxLocals).map .compilation := by
  rw [generate_eq] at h
  split at h
  · cases h
  · rename_i hsome
    obtain rfl := Except.error.inj h
    exact ⟨fun hnil => hsome (List.map_eq_nil_iff.1 hnil), rfl⟩

/-- **What a failed run reports.**  A run fails exactly if there is something to report, and its
reports are those on items, followed by those on the bodies of functions that are the first of
their name. -/
theorem generate_eq_error_iff (resolver : Resolver) (options : Options) (source : SourceModule)
    (reports : Diagnostics) :
    source.generate resolver options = .error reports ↔
      reports ≠ [] ∧ reports =
        (source.itemReports ++ source.bodyReports resolver options.maxLocals).map .compilation := by
  refine ⟨reports_of_generate, ?_⟩
  rintro ⟨hne, rfl⟩
  rw [generate_eq]
  split
  · rename_i hnone
    rw [hnone] at hne
    exact absurd rfl hne
  · rfl

/-- The second and the third `f` are both reported against the first, whose own body is at fault;
their bodies, as wrong as the first, are not looked at. -/
example :
    let f (line : UInt32) : Stmt := .function {
      name := ⟨"f", ⟨line, 1, 1⟩⟩
      prototype := ⟨[], none, ⟨line, 2, 2⟩⟩
      body := ⟨[.expr (.path ⟨"x", ⟨line, 5, 1⟩⟩ ⟨line, 5, 1⟩) ⟨line, 5, 1⟩], ⟨line, 4, 3⟩⟩
      span := ⟨line, 1, 6⟩ }
    generate .numeric .default ⟨[f 1, f 2, .breakLoop ⟨3, 1, 5⟩, f 4], ⟨1, 1, 0⟩⟩ =
      .error [
        .compilation (.duplicateFunction "f" ⟨1, 1, 1⟩ ⟨2, 1, 1⟩),
        .compilation (.unsupportedConstruct
          "break statement at module scope (only function declarations are allowed at module scope)"
          ⟨3, 1, 5⟩),
        .compilation (.duplicateFunction "f" ⟨1, 1, 1⟩ ⟨4, 1, 1⟩),
        .compilation (.unboundIdentifier "x" ⟨1, 5, 1⟩)] := by
  with_unfolding_all rfl

end SourceModule

end WasmCodegen
