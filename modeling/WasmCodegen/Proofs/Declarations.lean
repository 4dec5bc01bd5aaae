import WasmCodegen.Source.Tree

/-!
# The variables in a piece of source

The body of a function declares variables in blocks at any depth, also inside operands and initial
values.  `Stmt.declarations` lists them in the order of their slots, where a variable that is
declared in an initial value comes before the variable that is initialized.  Only the constructs
that have a lowering are looked into.

How many variables there are, what they are called and which annotations they have is read off this
list (`Stmt.variableCount`, `Stmt.declaredNames`, `Stmt.typeRefs`).
-/

namespace WasmCodegen

mutual

/-- The variables that an expression declares, in the order of their slots. -/
def Expr.declarations : Expr → List VarDecl
  | .binary left _ right _ => left.declarations ++ right.declarations
  | .block ⟨stmts, _⟩ => Stmt.declarations stmts
  | _ => []

/-- The variables that statements declare.  A variable gets its slot after those in its initial
value. -/
def Stmt.declarations : List Stmt → List VarDecl
  | [] => []
  | .expr e _ :: rest => e.declarations ++ Stmt.declarations rest
  | .varDecl ⟨name, type, some value, mutable, span⟩ :: rest =>
    value.declarations ++ ⟨name, type, some value, mutable, span⟩ :: Stmt.declarations rest
  | .varDecl ⟨name, type, none, mutable, span⟩ :: rest =>
    ⟨name, type, none, mutable, span⟩ :: Stmt.declarations rest
  | _ :: rest => Stmt.declarations rest

end

namespace Stmt

/-- The number of variables that statements declare. -/
def variableCount (stmts : List Stmt) : Nat := (declarations stmts).length

/-- The names that statements declare, in the order of their slots. -/
def declaredNames (stmts : List Stmt) : List Ident := (declarations stmts).map (·.name)

/-- The annotations of the variables in statements. -/
def typeRefs (stmts : List Stmt) : List TypeRef := (declarations stmts).filterMap (·.type)

/-- The variables of a statement come before those of the statements after it. -/
theorem declarations_cons (s : Stmt) (rest : List Stmt) :
    declarations (s :: rest) = declarations [s] ++ declarations rest := by
  cases s with
  | varDecl decl =>
    obtain ⟨name, type, _ | value, mutable, span⟩ := decl
    · simp [declarations]
    · simp [declarations]
  | _ => simp [declarations]

section

variable (e value : Expr) (name : Ident) (type : Option TypeRef) (mutable : Bool) (span : Span)

theorem declarations_expr : declarations [.expr e span] = e.declarations := by
  rw [declarations, declarations, List.append_nil]

theorem declarations_init : declarations [.varDecl ⟨name, type, some value, mutable, span⟩] =
    value.declarations ++ [⟨name, type, some value, mutable, span⟩] := by
  rw [declarations, declarations]

theorem declarations_bare : declarations [.varDecl ⟨name, type, none, mutable, span⟩] =
    [⟨name, type, none, mutable, span⟩] := by
  rw [declarations, declarations]

end

theorem mem_declarations (v : VarDecl) : v ∈ declarations [.varDecl v] := by
  obtain ⟨name, type, _ | value, mutable, span⟩ := v
  · rw [declarations_bare]
    exact List.mem_singleton.2 rfl
  · rw [declarations_init]
    exact List.mem_append_right _ (List.mem_singleton.2 rfl)

end Stmt

/-- The names that a function declares, in the order of their slots: parameters come first. -/
def FunctionDecl.declaredNames (decl : FunctionDecl) : List Ident :=
  decl.prototype.params.map (·.name) ++ Stmt.declaredNames decl.body.stmts

end WasmCodegen
