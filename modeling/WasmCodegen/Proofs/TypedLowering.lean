import WasmCodegen.Proofs.ScopeDiscipline
import WasmCodegen.Proofs.StackTyping

/-!
# Lowered code is typed

The code of an expression takes nothing from the stack and leaves the value that lowering
announced (`LowersExpr.code`).  Two things grow while code is emitted: the stack, which the frame
rule takes care of, and the list of slots, for which typing is monotone
(`StackTyping.Code.mono`).  So each piece of code is typed under the slots that were there
when it was emitted and stays typed under the locals of the finished function.

A lowered function therefore has the parameters of its signature, and its body leaves the result
that lowering announced and no other (`FunctionDecl.Lowers.body_iff`).  Nothing ties that result to
the results of the signature, which the resolver chooses.
-/

namespace WasmCodegen

namespace StackTyping

/-! ## More locals -/

section

variable {locals locals' : List ValueType}

mutual

theorem Instr.mono {i : Instruction} {before after : List ValueType}
    (hlocals : locals <+: locals') : Instr locals i before after → Instr locals' i before after
  | .const value => .const value
  | .localGet h => .localGet (getElem?_mono hlocals h)
  | .localSet h => .localSet (getElem?_mono hlocals h)
  | .arith op => .arith op
  | .drop type => .drop type
  | .block h => .block (h.mono hlocals)

/-- Code stays typed when locals are added. -/
theorem Code.mono {code : List Instruction} {before after : List ValueType}
    (hlocals : locals <+: locals') : Code locals code before after → Code locals' code before after
  | .nil => .nil
  | .single h => .single (h.mono hlocals)
  | .append h h' => .append (h.mono hlocals) (h'.mono hlocals)
  | .frame below h => .frame below (h.mono hlocals)

theorem Body.mono {body : List Instruction} {result : Option ValueType}
    (hlocals : locals <+: locals') : Body locals body result → Body locals' body result
  | .intro h => .intro (h.mono hlocals)

end

/-- A body has one result: the stack that its code leaves decides it. -/
theorem Body.result_eq {code : List Instruction} {result result' : Option ValueType}
    (h : Code locals code [] result.toList) (h' : Body locals (code ++ [.endSeq]) result') :
    result' = result := by
  let f : Func :=
    { name := "", typeIndex := 0, paramCount := 0, locals := locals.toArray, body := [] }
  have hcheck := Func.checkSequence_of_body (f := f) 0 h'
  have hlast := Func.checkSequence_append (f := f) [] result' 0 [.endSeq] h
  rw [List.append_nil, List.append_nil] at hlast
  rw [hlast] at hcheck
  have hstack := Func.checkEnd_eq_ok_iff.1 hcheck
  cases result <;> cases result' <;> simp_all

end

end StackTyping

/-! ## Expressions and statements -/

section

open StackTyping

variable {ctx : Context}

mutual

/-- The code of an expression leaves its value and touches nothing below. -/
theorem LowersExpr.code_typed {table table' : ScopeTable} {e : Expr} {code : List Instruction}
    {result : Option ValueType} (htable : table.WellTyped) :
    LowersExpr ctx table e code result table' →
      Code table'.slots.toList code [] result.toList
  | .literal _ => .single (.const _)
  | .path hlookup => .single (.localGet (htable.lookup hlookup))
  | .binary _ hleft hright => by
    have hcodeLeft := (hleft.code_typed htable).mono hright.slots_grow
    have hcodeRight := hright.code_typed (hleft.wellTyped htable)
    -- the right operand is computed above the left one
    exact hcodeLeft.append ((hcodeRight.frame [.i32]).append (.single (.arith _)))
  | .block hstmts hleave => by
    rw [ScopeTable.slots_leave hleave]
    exact .single (.block (.intro (hstmts.code_typed htable.enter)))

/-- The code of a statement leaves nothing. -/
theorem LowersStmt.code_typed {table table' : ScopeTable} {s : Stmt} {code : List Instruction}
    (htable : table.WellTyped) :
    LowersStmt ctx table s code table' → Code table'.slots.toList code [] []
  | .drop he => (he.code_typed htable).append (.single (.drop _))
  | .skip he => he.code_typed htable
  | .init hvalue _ _ =>
    ((hvalue.code_typed htable).mono (ScopeTable.slots_prefix_bind _ _ _ _)).append
      (.single (.localSet (ScopeTable.getElem?_slots_bind _ _ _ _)))
  | .bare _ _ => .nil

/-- The code of statements leaves the value of the last one. -/
theorem LowersStmts.code_typed {table table' : ScopeTable} {stmts : List Stmt}
    {code : List Instruction} {result : Option ValueType} (htable : table.WellTyped) :
    LowersStmts ctx table stmts code result table' →
      Code table'.slots.toList code [] result.toList
  | .nil => .nil
  | .last he => he.code_typed htable
  | .cons _ hs hstmts => by
    have hcode := (hs.code_typed htable).mono hstmts.slots_grow
    exact hcode.append (hstmts.code_typed (hs.wellTyped htable))

end

end

/-! ## Functions -/

namespace FunctionDecl

variable {resolver : Resolver} {maxLocals : Nat} {decl : FunctionDecl}
  {result : Option ValueType} {f : LoweredFunction}

/-- The locals of a function begin with the parameters of its signature. -/
theorem Lowers.take_locals (h : decl.Lowers resolver maxLocals result f) :
    f.paramCount ≤ f.locals.size ∧ f.locals.toList.take f.paramCount = f.signature.params := by
  obtain ⟨hparams, hbody, -⟩ := h
  rename_i signature tableParams table code
  have hcount : decl.prototype.params.length = signature.params.length := hparams.length_eq
  obtain ⟨rest, hrest⟩ := hbody.slots_grow
  have hslots : table.slots.toList = signature.params ++ rest := by
    rw [← hrest, hparams.slots_eq]
    rfl
  have hsize : table.slots.size = signature.params.length + rest.length := by
    rw [← Array.length_toList, hslots, List.length_append]
  constructor
  · change decl.prototype.params.length ≤ table.slots.size
    omega
  · change table.slots.toList.take decl.prototype.params.length = signature.params
    rw [hslots, hcount, List.take_left]

/-- The body of a function leaves the result that was announced, and no other. -/
theorem Lowers.body_iff (h : decl.Lowers resolver maxLocals result f) (result' : Option ValueType) :
    StackTyping.Body f.locals.toList f.body result' ↔ result' = result := by
  obtain ⟨hparams, hbody, -⟩ := h
  have hcode := hbody.code_typed (hparams.wellTyped ScopeTable.wellTyped_empty)
  constructor
  · exact StackTyping.Body.result_eq hcode
  · rintro rfl
    exact .intro hcode

end FunctionDecl

end WasmCodegen
