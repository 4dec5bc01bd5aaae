import WasmCodegen.Proofs.LoweringSessions

/-!
# Scopes after a failure

A step of lowering that fails keeps what it has done: scopes that it has opened stay open, and names
that it has declared stay declared.  This file says that nothing is lost by it.  However an
expression fails, the blocks that it has opened and not closed can be left one by one, and then
every name means again what it meant before (`Lowering.lowerExpr_recoverable`).

`FailsExpr` counts these blocks: a rule that goes into a block adds one, and no other rule does.  On
the levels of the table the count says how many levels have been put on top of those there were
(`FailsExpr.drop_levels_eq`).  A statement may fail after others have declared names in the same
scope, so for the statements of a block only the levels outside are as before
(`FailsStmts.tail_drop_levels_eq`), and leaving the block removes the one level in question.
-/

namespace WasmCodegen

/-- The same number of blocks is open, and every name means the same. -/
def ScopeTable.Alike (table table' : ScopeTable) : Prop :=
  table'.depth = table.depth ∧ ∀ name, table'.lookup name = table.lookup name

/-- Slots and code have been added after those there were. -/
def Frame.Grows (frame frame' : Frame) : Prop :=
  frame.scopes.slots.toList <+: frame'.scopes.slots.toList ∧
    frame.code.toList <+: frame'.code.toList

/-- Closes a number of block scopes, from the inside out. -/
def Lowering.leaveScopes : Nat → Lowering Unit
  | 0 => pure ()
  | count + 1 => do
    leaveScope
    leaveScopes count

/-! ## Levels at the point of failure -/

theorem ScopeTable.alike_of_levels_eq {table table' : ScopeTable}
    (h : table'.levels = table.levels) : table.Alike table' := by
  refine ⟨?_, congrFun (lookup_eq_of_levels_eq h)⟩
  have hlength := congrArg List.length h
  rw [length_levels, length_levels] at hlength
  exact Nat.succ.inj hlength

section

variable {ctx : Context}

mutual

/-- An expression that fails has put a level on top for each block that it has left open. -/
theorem FailsExpr.drop_levels_eq {table table' : ScopeTable} {e : Expr} {error : CompileError}
    {code : List Instruction} {blocks : Nat} :
    FailsExpr ctx table e error code blocks table' → table'.levels.drop blocks = table.levels
  | .literal _ => rfl
  | .path _ => rfl
  | .operator _ => rfl
  | .left _ hleft => hleft.drop_levels_eq
  | .leftValue _ hleft => hleft.levels_eq
  | .right _ hleft hright => hright.drop_levels_eq.trans hleft.levels_eq
  | .rightValue _ hleft hright | .leftType _ hleft hright _ | .rightType _ hleft hright _ =>
    hright.levels_eq.trans hleft.levels_eq
  | .block hstmts => by
    -- the level of the block itself is the one that its statements may have changed
    rw [← List.tail_drop, hstmts.tail_drop_levels_eq, ScopeTable.levels_enter, List.tail_cons]
  | .unsupported _ => rfl

/-- A statement that fails has declared nothing in its own scope. -/
theorem FailsStmt.drop_levels_eq {table table' : ScopeTable} {s : Stmt} {error : CompileError}
    {code : List Instruction} {blocks : Nat} :
    FailsStmt ctx table s error code blocks table' → table'.levels.drop blocks = table.levels
  | .expr he => he.drop_levels_eq
  | .typeRef _ => rfl
  | .value _ hvalue => hvalue.drop_levels_eq
  | .noValue _ hvalue => hvalue.levels_eq
  | .wrongValue _ hvalue _ => hvalue.levels_eq
  | .init hvalue _ _ => hvalue.levels_eq
  | .bare _ _ => rfl
  | .unsupported _ => rfl

/-- The statements of a block may have declared names in the scope of the block. -/
theorem FailsStmts.tail_drop_levels_eq {table table' : ScopeTable} {stmts : List Stmt}
    {error : CompileError} {code : List Instruction} {blocks : Nat} :
    FailsStmts ctx table stmts error code blocks table' →
      (table'.levels.drop blocks).tail = table.levels.tail
  | .here hs => congrArg List.tail hs.drop_levels_eq
  | .later hs hrest => hrest.tail_drop_levels_eq.trans hs.tail_levels_eq

end

end

/-! ## Leaving what was left open -/

namespace Lowering

/-- As many scopes can be left as there are levels on top of some that another table has, and that
uncovers them. -/
theorem exists_leaveScopes {table : ScopeTable} {blocks : Nat} {frame : Frame}
    (h : frame.scopes.levels.drop blocks = table.levels) :
    ∃ restored, leaveScopes blocks frame = .ok () restored ∧
      restored.scopes.levels = table.levels := by
  induction blocks generalizing frame with
  | zero => exact ⟨frame, rfl, h⟩
  | succ blocks ih =>
    have hdepth : frame.scopes.depth ≠ 0 := by
      intro hzero
      have hlength := congrArg List.length h
      rw [List.length_drop, ScopeTable.length_levels, ScopeTable.length_levels] at hlength
      omega
    obtain ⟨outer, hleave⟩ : ∃ outer, frame.scopes.leave? = some outer := by
      rw [← Option.isSome_iff_exists, Option.isSome_iff_ne_none]
      exact fun hnone => hdepth ((ScopeTable.leave?_eq_none_iff _).1 hnone)
    have hstep : leaveScope frame = .ok () ⟨outer, frame.code⟩ := by
      rw [leaveScope, onScopes, ScopeTable.leave_apply, hleave]
    have houter : (⟨outer, frame.code⟩ : Frame).scopes.levels.drop blocks = table.levels := by
      rw [← h, ScopeTable.levels_leave hleave, List.drop_tail]
    obtain ⟨restored, hrestored, hlevels⟩ := ih houter
    exact ⟨restored, (bind_of_eq_ok hstep _).trans hrestored, hlevels⟩

/-- **Scopes can be recovered.**  An expression that is lowered leaves depth and names as they were.
One that fails does so once the blocks are left that it has opened and not finished; the rules of
failure count them.  In both cases slots and code are only added.  What is added by an expression
that fails is the code of its finished operands outside of these blocks, so nothing of a block that
fails gets out of it. -/
theorem lowerExpr_recoverable (ctx : Context) (e : Expr) (frame : Frame) :
    match lowerExpr ctx e frame with
    | .ok _ frame' => frame.Grows frame' ∧ frame.scopes.Alike frame'.scopes
    | .error error frame' => frame.Grows frame' ∧
      ∃ code blocks, FailsExpr ctx frame.scopes e error code blocks frame'.scopes ∧
        frame'.code.toList = frame.code.toList ++ code ∧
        ∃ restored, leaveScopes blocks frame' = .ok () restored ∧
          frame.scopes.Alike restored.scopes := by
  cases h : lowerExpr ctx e frame with
  | ok result frame' =>
    obtain ⟨code, hlowers, hemits⟩ := lowersExpr_of_lowerExpr e h
    exact ⟨⟨hlowers.slots_grow, code, hemits.symm⟩, ScopeTable.alike_of_levels_eq hlowers.levels_eq⟩
  | error error frame' =>
    obtain ⟨code, blocks, hfails, hemits⟩ := failsExpr_of_lowerExpr e h
    obtain ⟨restored, hrestored, hlevels⟩ := exists_leaveScopes hfails.drop_levels_eq
    exact ⟨⟨hfails.evolves.slots_grow, code, hemits.symm⟩, code, blocks, hfails, hemits, restored,
      hrestored, ScopeTable.alike_of_levels_eq hlevels⟩

end Lowering

end WasmCodegen
