import WasmCodegen.Proofs.Machine
import WasmCodegen.Proofs.Meaning
import WasmCodegen.Proofs.ScopeDiscipline

/-!
# Lowered code computes what its source means

While the code of a function runs, its locals hold the values of the names in sight, each in the
slot that the scope table gives it (`Realizes`).  Code of an expression or of statements then
does what the source means (`Computes`): it leaves the value, if there is one, on whatever stack it
found, or it traps; and it changes only locals that were declared in it.

The last point is what brings hidden names back.  A block may declare a name again, but in a slot
of its own, so the slot of the outer variable still has its value when the block is left.  It also
keeps slots zero until they are declared, which is all that a variable without an initializer
needs.
-/

namespace WasmCodegen

/-! ## Locals that code leaves alone -/

/-- Only locals from `lo` on and below `hi` differ, and none has another type. -/
structure ChangesWithin (lo hi : Nat) (locals locals' : List Value) : Prop where
  types_eq : locals'.map Value.type = locals.map Value.type
  getElem?_eq : ∀ i, i < lo ∨ hi ≤ i → locals'[i]? = locals[i]?

namespace ChangesWithin

variable {lo mid hi : Nat} {locals locals₁ locals₂ : List Value}

theorem refl (lo hi : Nat) (locals : List Value) : ChangesWithin lo hi locals locals :=
  ⟨rfl, fun _ _ => rfl⟩

theorem trans (hlo : lo ≤ mid) (hhi : mid ≤ hi) (h : ChangesWithin lo mid locals locals₁)
    (h' : ChangesWithin mid hi locals₁ locals₂) : ChangesWithin lo hi locals locals₂ where
  types_eq := h'.types_eq.trans h.types_eq
  getElem?_eq i hi := by
    rw [h'.getElem?_eq i (by omega), h.getElem?_eq i (by omega)]

/-- One local takes a value of its type. -/
theorem set {slot : Nat} {v old : Value} (hslot : locals[slot]? = some old)
    (htype : v.type = old.type) : ChangesWithin slot (slot + 1) locals (locals.set slot v) where
  types_eq := Value.map_type_set hslot htype
  getElem?_eq i hi := List.getElem?_set_ne (by omega)

end ChangesWithin

/-! ## Locals that hold an environment -/

/-- Each name in sight has its value in its slot. -/
def Environment.HeldBy (env : Environment) (table : ScopeTable) (locals : List Value) : Prop :=
  ∀ name, env name = (table.lookup name).bind fun binding => locals[binding.slot]?

namespace Environment.HeldBy

variable {env : Environment} {table table' : ScopeTable} {locals locals' : List Value}

/-- A new variable is held by the next slot. -/
theorem bind {v : Value} (h : env.HeldBy table locals) (hslot : locals[table.slotCount]? = some v)
    (name : String) (type : ValueType) (span : Span) :
    (env.bind name v).HeldBy (table.bind name type span) locals := by
  intro other
  rw [Environment.bind, ScopeTable.lookup_bind]
  by_cases hname : name = other
  · rw [if_pos hname, if_pos hname, Option.bind_some, hslot]
  · rw [if_neg hname, if_neg hname]
    exact h other

/-- Locals that are not declared yet do not matter. -/
theorem change (h : env.HeldBy table locals) (htable : table.WellTyped)
    (hlookup : table'.lookup = table.lookup)
    (hlocals : ∀ i, i < table.slotCount → locals'[i]? = locals[i]?) :
    env.HeldBy table' locals' := by
  intro name
  rw [h name, hlookup]
  cases hbinding : table.lookup name with
  | none => rfl
  | some binding =>
    obtain ⟨hlt, -⟩ := List.getElem?_eq_some_iff.1 (htable.lookup hbinding)
    exact (hlocals _ hlt).symm

end Environment.HeldBy

/-- `Realizes slots table env locals`: the locals have the types of `slots`, they hold the
environment, and those that are not declared yet are zero. -/
structure Realizes (slots : List ValueType) (table : ScopeTable) (env : Environment)
    (locals : List Value) : Prop where
  wellTyped : table.WellTyped
  grow : table.slots.toList <+: slots
  types_eq : locals.map Value.type = slots
  held : env.HeldBy table locals
  zero : ∀ i, table.slotCount ≤ i → locals[i]? = slots[i]?.map Value.zero

namespace Realizes

variable {slots : List ValueType} {table table' : ScopeTable} {env : Environment}
  {locals locals' : List Value}

/-- A name in sight has a value of its type, in its slot. -/
theorem lookup (h : Realizes slots table env locals) {name : String} {binding : Binding}
    (hlookup : table.lookup name = some binding) :
    ∃ v, env name = some v ∧ locals[binding.slot]? = some v ∧ v.type = binding.type := by
  have hslot := getElem?_mono h.grow (h.wellTyped.lookup hlookup)
  obtain ⟨v, hv, htype⟩ := Value.exists_getElem? h.types_eq hslot
  refine ⟨v, ?_, hv, htype⟩
  rw [h.held, hlookup, Option.bind_some, hv]

/-- Code that leaves the levels as they were, and the locals in sight too, leaves the environment
as it was. -/
theorem after (h : Realizes slots table env locals) (hlevels : table'.levels = table.levels)
    (hgrow : table.slots.toList <+: table'.slots.toList) (hslots : table'.slots.toList <+: slots)
    (hchange : ChangesWithin table.slotCount table'.slotCount locals locals') :
    Realizes slots table' env locals' where
  wellTyped := h.wellTyped.mono (fun _ hlevel => hlevels ▸ hlevel) hgrow
  grow := hslots
  types_eq := hchange.types_eq.trans h.types_eq
  held := by
    refine h.held.change h.wellTyped (ScopeTable.lookup_eq_of_levels_eq hlevels) fun i hi => ?_
    exact hchange.getElem?_eq i (Or.inl hi)
  zero i hi := by
    have hcount : table.slotCount ≤ table'.slotCount := hgrow.length_le
    rw [hchange.getElem?_eq i (Or.inr hi)]
    exact h.zero i (Nat.le_trans hcount hi)

theorem enter (h : Realizes slots table env locals) : Realizes slots table.enter env locals where
  wellTyped := h.wellTyped.enter
  grow := h.grow
  types_eq := h.types_eq
  held := h.held
  zero := h.zero

/-- A variable that is declared has the value that is in the next slot. -/
theorem bind (h : Realizes slots table env locals) {name : String} {type : ValueType} {span : Span}
    {v : Value} (hslots : (table.bind name type span).slots.toList <+: slots)
    (hv : locals'[table.slotCount]? = some v)
    (hchange : ChangesWithin table.slotCount (table.slotCount + 1) locals locals') :
    Realizes slots (table.bind name type span) (env.bind name v) locals' where
  wellTyped := h.wellTyped.bind name type span
  grow := hslots
  types_eq := hchange.types_eq.trans h.types_eq
  held := by
    have hheld : env.HeldBy table locals' :=
      h.held.change h.wellTyped rfl fun i hi => hchange.getElem?_eq i (Or.inl hi)
    exact hheld.bind hv name type span
  zero i hi := by
    rw [ScopeTable.slotCount_bind] at hi
    rw [hchange.getElem?_eq i (Or.inr hi)]
    exact h.zero i (by omega)

/-- A variable with an initial value, which is stored in the next slot. -/
theorem store (h : Realizes slots table env locals) {name : String} {type : ValueType} {span : Span}
    {v : Value} (hslots : (table.bind name type span).slots.toList <+: slots)
    (hv : v.type = type) :
    ∃ old, locals[table.slotCount]? = some old ∧ v.type = old.type ∧
      Realizes slots (table.bind name type span) (env.bind name v)
        (locals.set table.slotCount v) := by
  have hslot := getElem?_mono hslots (ScopeTable.getElem?_slots_bind table name type span)
  obtain ⟨old, hold, htype⟩ := Value.exists_getElem? h.types_eq hslot
  have hsame : v.type = old.type := hv.trans htype.symm
  obtain ⟨hlt, -⟩ := List.getElem?_eq_some_iff.1 hold
  exact ⟨old, hold, hsame, h.bind hslots (List.getElem?_set_self hlt) (.set hold hsame)⟩

/-- A variable without an initial value.  Nothing has been stored in the next slot yet. -/
theorem declare (h : Realizes slots table env locals) {name : String} {type : ValueType}
    {span : Span} (hslots : (table.bind name type span).slots.toList <+: slots) :
    Realizes slots (table.bind name type span) (env.bind name (.zero type)) locals := by
  have hslot := getElem?_mono hslots (ScopeTable.getElem?_slots_bind table name type span)
  have hzero : locals[table.slotCount]? = some (.zero type) := by
    rw [h.zero _ (Nat.le_refl _), hslot, Option.map_some]
  exact h.bind hslots hzero (.refl _ _ locals)

end Realizes

/-! ## Code that computes an outcome -/

/-- On top of any stack, and in front of any code, `code` turns the operands `before` into
`after` and the locals into `locals'`. -/
def Leads (locals before : List Value) (code : List Instruction)
    (locals' after : List Value) : Prop :=
  ∀ stack rest floor labels, floor ≤ stack.length →
    Machine.run ⟨locals, before ++ stack, code ++ rest, floor, labels⟩ =
      Machine.run ⟨locals', after ++ stack, rest, floor, labels⟩

/-- On top of any stack, and in front of any code, `code` traps on the operands. -/
def Traps (locals operands : List Value) (code : List Instruction) : Prop :=
  ∀ stack rest floor labels, floor ≤ stack.length →
    Machine.run ⟨locals, operands ++ stack, code ++ rest, floor, labels⟩ = .error .trap

section

variable {locals locals' locals'' before after final : List Value}
  {code code' : List Instruction}

theorem Leads.trans (h : Leads locals before code locals' after)
    (h' : Leads locals' after code' locals'' final) :
    Leads locals before (code ++ code') locals'' final := by
  intro stack rest floor labels hfloor
  rw [List.append_assoc, h _ _ _ _ hfloor, h' _ _ _ _ hfloor]

theorem Leads.traps (h : Leads locals before code locals' after) (h' : Traps locals' after code') :
    Traps locals before (code ++ code') := by
  intro stack rest floor labels hfloor
  rw [List.append_assoc, h _ _ _ _ hfloor, h' _ _ _ _ hfloor]

/-- Operands below do not matter. -/
theorem Leads.above (below : List Value) (h : Leads locals before code locals' after) :
    Leads locals (before ++ below) code locals' (after ++ below) := by
  intro stack rest floor labels hfloor
  have hfloor' : floor ≤ (below ++ stack).length := by
    rw [List.length_append]
    omega
  rw [List.append_assoc, h _ _ _ _ hfloor', List.append_assoc]

/-- Operands below do not matter, nor does code that is never reached. -/
theorem Traps.above (below : List Value) (h : Traps locals before code) :
    Traps locals (before ++ below) (code ++ code') := by
  intro stack rest floor labels hfloor
  have hfloor' : floor ≤ (below ++ stack).length := by
    rw [List.length_append]
    omega
  rw [List.append_assoc, List.append_assoc, h _ _ _ _ hfloor']

end

/-- `Computes lo hi locals operands code result outcome`: `code` uses up the operands and does what
the outcome says.  It changes locals from `lo` on and below `hi` only, and a value that it leaves
has the type `result`. -/
inductive Computes (lo hi : Nat) (locals operands : List Value) (code : List Instruction)
    (result : Option ValueType) : Except Stop (Option Value) → Prop
  | value {locals' : List Value} {v : Option Value} (htype : v.map Value.type = result)
      (hchange : ChangesWithin lo hi locals locals')
      (hleads : Leads locals operands code locals' v.toList) :
      Computes lo hi locals operands code result (.ok v)
  | trap (htraps : Traps locals operands code) :
      Computes lo hi locals operands code result (.error .trap)

namespace Computes

variable {lo mid hi : Nat} {locals operands : List Value} {code code' : List Instruction}
  {result result' : Option ValueType} {outcome : Except Stop (Option Value)}

/-- Code in front that leads to the operands. -/
theorem cons {locals' operands' : List Value} (hlo : lo ≤ mid) (hhi : mid ≤ hi)
    (hchange : ChangesWithin lo mid locals locals')
    (hleads : Leads locals operands code locals' operands')
    (h : Computes mid hi locals' operands' code' result outcome) :
    Computes lo hi locals operands (code ++ code') result outcome := by
  cases h with
  | value htype hchange' hleads' =>
    exact .value htype (hchange.trans hlo hhi hchange') (hleads.trans hleads')
  | trap htraps => exact .trap (hleads.traps htraps)

/-- Two pieces of code in a row.  The first runs above `below`, and the second uses its value and
`below` up. -/
theorem append {next : Option Value → Except Stop (Option Value)} (below : List Value)
    (hlo : lo ≤ mid) (hhi : mid ≤ hi) (h : Computes lo mid locals operands code result outcome)
    (hnext : ∀ v locals', v.map Value.type = result → ChangesWithin lo mid locals locals' →
      Computes mid hi locals' (v.toList ++ below) code' result' (next v)) :
    Computes lo hi locals (operands ++ below) (code ++ code') result' (outcome >>= next) := by
  cases h with
  | value htype hchange hleads =>
    exact (hnext _ _ htype hchange).cons hlo hhi hchange (hleads.above below)
  | trap htraps => exact .trap (htraps.above below)

/-- An instruction that pushes a value. -/
theorem push {i : Instruction} {v : Value} (hleads : Leads locals [] [i] locals [v]) :
    Computes lo hi locals [] [i] (some v.type) (.ok (some v)) :=
  .value rfl (.refl lo hi locals) hleads

/-- The instruction of an operator. -/
theorem arith {op : BinaryOp} {i : ArithOp} (hop : op.arith? = some i) (a b : Int32) :
    Computes lo hi locals [.i32 b, .i32 a] [.arith i] (some .numeric) (do
      return some (.i32 (← op.meaning a b))) := by
  have hrun : ∀ stack rest floor labels, floor ≤ stack.length →
      Machine.run ⟨locals, [.i32 b, .i32 a] ++ stack, [.arith i] ++ rest, floor, labels⟩ =
        (do Machine.run ⟨locals, .i32 (← op.meaning a b) :: stack, rest, floor, labels⟩) := by
    intro stack rest floor labels hfloor
    rw [← BinaryOp.apply_eq_meaning hop]
    exact Machine.run_arith hfloor
  -- a trap is the only way in which arithmetic stops
  obtain ⟨c, hc⟩ | htrap := op.meaning_ok_or_trap hop a b
  · rw [hc] at hrun ⊢
    exact .value rfl (.refl lo hi locals) hrun
  · rw [htrap] at hrun ⊢
    exact .trap hrun

/-- A block does what the code inside it does. -/
theorem block (h : Computes lo hi locals [] code result outcome) :
    Computes lo hi locals [] [.block result (code ++ [.endSeq])] result outcome := by
  cases h with
  | @value locals' v htype hchange hleads =>
    have hown : v.toList.map Value.type = result.toList := by
      rw [← htype]
      cases v <;> rfl
    refine .value htype hchange fun stack rest floor labels _ => ?_
    have hinner := hleads stack [.endSeq] stack.length (⟨result, floor, rest⟩ :: labels)
      (Nat.le_refl _)
    exact Machine.run_block.trans (hinner.trans (Machine.run_endSeq hown))
  | trap htraps =>
    refine .trap fun stack rest floor labels _ => ?_
    exact Machine.run_block.trans (htraps stack _ _ _ (Nat.le_refl _))

/-- A value that is dropped. -/
theorem drop (hle : lo ≤ hi) (v : Value) (h : Computes lo hi locals [] code result outcome) :
    Computes lo hi locals [v] (.drop :: code) result outcome := by
  have hleads : Leads locals [v] [.drop] locals [] :=
    fun _ _ _ _ hfloor => Machine.run_drop hfloor
  exact h.cons (Nat.le_refl lo) hle (.refl lo lo locals) hleads

/-- A value that is stored. -/
theorem localSet {slot : Nat} {v old : Value} (hle : slot + 1 ≤ hi)
    (hslot : locals[slot]? = some old) (htype : v.type = old.type)
    (h : Computes (slot + 1) hi (locals.set slot v) [] code result outcome) :
    Computes slot hi locals [v] (.localSet slot :: code) result outcome := by
  have hleads : Leads locals [v] [.localSet slot] (locals.set slot v) [] :=
    fun _ _ _ _ hfloor => Machine.run_localSet hfloor hslot htype
  exact h.cons (Nat.le_succ slot) hle (.set hslot htype) hleads

/-- A slot that is declared and keeps its value. -/
theorem skipSlot {slot : Nat} (hle : slot + 1 ≤ hi)
    (h : Computes (slot + 1) hi locals [] code result outcome) :
    Computes slot hi locals [] code result outcome := by
  have hleads : Leads locals [] [] locals [] := fun _ _ _ _ _ => rfl
  exact h.cons (Nat.le_succ slot) hle (.refl slot (slot + 1) locals) hleads

end Computes

/-! ## Expressions and statements -/

theorem Value.exists_of_map_type_eq {v : Option Value}
    (h : v.map Value.type = some .numeric) : ∃ n, v = some (.i32 n) := by
  obtain ⟨v, rfl, htype⟩ := Option.map_eq_some_iff.1 h
  obtain ⟨n, rfl⟩ := v.exists_eq_i32 htype
  exact ⟨n, rfl⟩

theorem Expr.eval_literal {value : Int} {word : Int32} (h : Lowering.word? value = some word)
    (resolver : Resolver) (env : Environment) (span : Span) :
    (Expr.literal (.int value) span).eval resolver env = .ok (some (.i32 word)) := by
  unfold Lowering.word? at h
  split at h
  · rename_i hrange
    cases h
    rw [Expr.eval, if_pos hrange]
  · cases h

theorem evalStmts_expr_cons (resolver : Resolver) (env : Environment) (e : Expr) (span : Span)
    {rest : List Stmt} (hrest : rest ≠ []) :
    evalStmts resolver env (.expr e span :: rest) =
      e.eval resolver env >>= fun _ => evalStmts resolver env rest := by
  cases rest with
  | nil => exact absurd rfl hrest
  | cons s rest => rw [evalStmts]; simp

theorem LowersExpr.slotCount_le {ctx : Context} {table table' : ScopeTable} {e : Expr}
    {code : List Instruction} {result : Option ValueType}
    (h : LowersExpr ctx table e code result table') : table.slotCount ≤ table'.slotCount :=
  h.slots_grow.length_le

theorem LowersStmts.slotCount_le {ctx : Context} {table table' : ScopeTable} {stmts : List Stmt}
    {code : List Instruction} {result : Option ValueType}
    (h : LowersStmts ctx table stmts code result table') : table.slotCount ≤ table'.slotCount :=
  h.slots_grow.length_le

section

variable {ctx : Context} {slots : List ValueType}

mutual

/-- The code of an expression computes the value of the expression. -/
theorem LowersExpr.computes {table table' : ScopeTable} {e : Expr} {code : List Instruction}
    {result : Option ValueType} {env : Environment} {locals : List Value}
    (hslots : table'.slots.toList <+: slots) (h : Realizes slots table env locals) :
    LowersExpr ctx table e code result table' →
      Computes table.slotCount table'.slotCount locals [] code result (e.eval ctx.resolver env)
  | .literal hword => by
    rw [Expr.eval_literal hword]
    exact .push fun _ _ _ _ _ => Machine.run_const _
  | .path hlookup => by
    obtain ⟨v, henv, hlocal, htype⟩ := h.lookup hlookup
    rw [Expr.eval, henv, ← htype]
    exact .push fun _ _ _ _ _ => Machine.run_localGet hlocal
  | .binary harith hleft hright => by
    have hmid := hright.slots_grow.trans hslots
    rw [Expr.eval]
    refine .append [] hleft.slotCount_le hright.slotCount_le (hleft.computes hmid h) ?_
    intro v locals₁ htype hchange
    obtain ⟨a, rfl⟩ := Value.exists_of_map_type_eq htype
    have h₁ := h.after hleft.levels_eq hleft.slots_grow hmid hchange
    -- the right operand is computed above the left one
    refine .append [.i32 a] hright.slotCount_le (Nat.le_refl _) (hright.computes hslots h₁) ?_
    intro w locals₂ htype _
    obtain ⟨b, rfl⟩ := Value.exists_of_map_type_eq htype
    exact .arith harith a b
  | .block hstmts hleave => by
    rw [ScopeTable.slots_leave hleave] at hslots
    rw [Expr.eval, ScopeTable.slotCount_leave hleave]
    exact (hstmts.computes hslots h.enter).block

/-- The code of a statement, followed by code that computes the rest where its declaration is in
sight. -/
theorem LowersStmt.computes {table tableNext : ScopeTable} {s : Stmt}
    {code codeRest : List Instruction} {rest : List Stmt} {result : Option ValueType} {count : Nat}
    {env : Environment} {locals : List Value} (hslots : tableNext.slots.toList <+: slots)
    (h : Realizes slots table env locals) (hlast : ∀ e span, s = .expr e span → rest ≠ [])
    (hcount : tableNext.slotCount ≤ count)
    (hrest : ∀ {env : Environment} {locals : List Value}, Realizes slots tableNext env locals →
      Computes tableNext.slotCount count locals [] codeRest result
        (evalStmts ctx.resolver env rest)) :
    LowersStmt ctx table s code tableNext →
      Computes table.slotCount count locals [] (code ++ codeRest) result
        (evalStmts ctx.resolver env (s :: rest))
  | .drop he => by
    rw [evalStmts_expr_cons _ _ _ _ (hlast _ _ rfl), List.append_assoc]
    refine .append [] he.slotCount_le hcount (he.computes hslots h) ?_
    intro v locals₁ htype hchange
    obtain ⟨v, rfl, -⟩ := Option.map_eq_some_iff.1 htype
    exact (hrest (h.after he.levels_eq he.slots_grow hslots hchange)).drop hcount v
  | .skip he => by
    rw [evalStmts_expr_cons _ _ _ _ (hlast _ _ rfl)]
    refine .append [] he.slotCount_le hcount (he.computes hslots h) ?_
    intro v locals₁ htype hchange
    obtain rfl := Option.map_eq_none_iff.1 htype
    exact hrest (h.after he.levels_eq he.slots_grow hslots hchange)
  | .init hvalue htype haccepts => by
    have hmid := (ScopeTable.slots_prefix_bind _ _ _ _).trans hslots
    rw [ScopeTable.slotCount_bind] at hcount
    rw [evalStmts, List.append_assoc]
    refine .append [] hvalue.slotCount_le (by omega) (hvalue.computes hmid h) ?_
    intro v locals₁ htype hchange
    obtain ⟨v, rfl, hv⟩ := Option.map_eq_some_iff.1 htype
    have h₁ := h.after hvalue.levels_eq hvalue.slots_grow hmid hchange
    obtain ⟨old, hold, hsame, h₂⟩ := h₁.store hslots hv
    have hstored := hrest h₂
    rw [ScopeTable.slotCount_bind] at hstored
    exact hstored.localSet hcount hold hsame
  | .bare htype haccepts => by
    rw [ScopeTable.slotCount_bind] at hcount
    have hdeclared := hrest (h.declare hslots)
    rw [ScopeTable.slotCount_bind] at hdeclared
    rw [evalStmts, Resolver.zeroOf, htype]
    exact hdeclared.skipSlot hcount

/-- The code of statements computes the value of the last one. -/
theorem LowersStmts.computes {table table' : ScopeTable} {stmts : List Stmt}
    {code : List Instruction} {result : Option ValueType} {env : Environment} {locals : List Value}
    (hslots : table'.slots.toList <+: slots) (h : Realizes slots table env locals) :
    LowersStmts ctx table stmts code result table' →
      Computes table.slotCount table'.slotCount locals [] code result
        (evalStmts ctx.resolver env stmts)
  | .nil => .value rfl (.refl _ _ locals) fun _ _ _ _ _ => rfl
  | .last he => by
    rw [evalStmts]
    exact he.computes hslots h
  | .cons hlast hs hstmts =>
    hs.computes (hstmts.slots_grow.trans hslots) h hlast hstmts.slotCount_le fun h₁ =>
      hstmts.computes hslots h₁

end

end

/-! ## Functions -/

/-- Runs a function on arguments and gives what it leaves on the stack. -/
def LoweredFunction.run (f : LoweredFunction) (args : List Value) : Except Stop (List Value) :=
  (Machine.start (f.locals.toList.drop f.paramCount) f.body args).run

/-- The arguments are in the slots of the parameters. -/
theorem LowersParams.held {ctx : Context} {table table' : ScopeTable} {params : List Param}
    {types : List ValueType} (h : LowersParams ctx table params types table') {env : Environment}
    {args locals : List Value} (hlength : args.length = types.length)
    (hargs : args <+: locals.drop table.slotCount) (henv : env.HeldBy table locals) :
    (env.bindParams params args).HeldBy table' locals := by
  induction h generalizing env args with
  | nil =>
    rw [Environment.bindParams]
    · exact henv
    · simp
  | @cons table table' p rest type types _ _ _ _ ih =>
    cases args with
    | nil => cases hlength
    | cons arg args =>
      obtain ⟨after, hafter⟩ := hargs
      have harg : locals[table.slotCount]? = some arg := by
        have hfirst := congrArg (·[0]?) hafter
        simpa using hfirst.symm
      have hrest : args <+: locals.drop (table.slotCount + 1) := by
        rw [← List.tail_drop, ← hafter]
        exact List.prefix_append args after
      rw [← ScopeTable.slotCount_bind] at hrest
      exact ih (Nat.succ.inj hlength) hrest (henv.bind harg _ _ _)

/-- Before the body runs, the locals realize the environment of the parameters. -/
theorem LowersParams.realizes {ctx : Context} {tableParams : ScopeTable} {params : List Param}
    {types : List ValueType} {args : List Value}
    (hparams : LowersParams ctx .empty params types tableParams)
    (hargs : args.map Value.type = types) (declared : List ValueType) :
    Realizes (types ++ declared) tableParams (Environment.empty.bindParams params args)
      (args ++ declared.map Value.zero) := by
  have hslots : tableParams.slots.toList = types := hparams.slots_eq
  have hcount : tableParams.slotCount = args.length := by
    rw [ScopeTable.slotCount, ← Array.length_toList, hslots, ← hargs, List.length_map]
  refine ⟨hparams.wellTyped ScopeTable.wellTyped_empty, ?_, ?_, ?_, ?_⟩
  · rw [hslots]
    exact List.prefix_append types declared
  · rw [List.map_append, hargs, List.map_map, Function.comp_def]
    simp
  · have hlength : args.length = types.length := by
      rw [← hargs, List.length_map]
    refine hparams.held hlength (List.prefix_append _ _) fun name => ?_
    rw [ScopeTable.lookup_empty]
    rfl
  · intro i hi
    rw [hcount] at hi
    have hlength : types.length = args.length := by
      rw [← hargs, List.length_map]
    rw [List.getElem?_append_right hi, List.getElem?_append_right (by omega), List.getElem?_map,
      hlength]

/-- A body whose code computes an outcome ends with it. -/
theorem Computes.run_start {lo hi : Nat} {declared : List ValueType} {args : List Value}
    {code : List Instruction} {result : Option ValueType} {outcome : Except Stop (Option Value)}
    (h : Computes lo hi (args ++ declared.map Value.zero) [] code result outcome) :
    (Machine.start declared (code ++ [.endSeq]) args).run = Option.toList <$> outcome ∧
      ∀ cause, outcome ≠ .error (.wrong cause) := by
  cases h with
  | value _ _ hleads =>
    have hend := hleads [] [.endSeq] 0 [] (Nat.le_refl 0)
    rw [List.append_nil, List.append_nil, Machine.run_endSeq_nil] at hend
    refine ⟨hend, ?_⟩
    intro cause hcause
    cases hcause
  | trap htraps =>
    refine ⟨htraps [] [.endSeq] 0 [] (Nat.le_refl 0), ?_⟩
    intro cause hcause
    cases hcause

/-- Lowering a function keeps its meaning.  On arguments of the parameters' types, the function
leaves the value of the call, or nothing for a call without a value, and it traps exactly when the
call does; there is no other way for the call to end. -/
theorem FunctionDecl.run_lower_eq_eval {resolver : Resolver} {maxLocals : Nat} {decl : FunctionDecl}
    {f : LoweredFunction} {args : List Value} (h : decl.lower resolver maxLocals = .ok f)
    (hargs : args.map Value.type = f.signature.params) :
    f.run args = Option.toList <$> decl.eval resolver args ∧
      ∀ cause, decl.eval resolver args ≠ .error (.wrong cause) := by
  obtain ⟨result, -, hlowers⟩ := lowers_of_lower h
  obtain ⟨hparams, hbody, -⟩ := hlowers
  rename_i signature tableParams table code
  obtain ⟨declared, hdeclared⟩ := hbody.slots_grow
  have hslots : table.slots.toList = signature.params ++ declared := by
    rw [← hdeclared, hparams.slots_eq]
    rfl
  have hdrop : table.slots.toList.drop decl.prototype.params.length = declared := by
    rw [hslots, hparams.length_eq, List.drop_left]
  have hstart := hparams.realizes hargs declared
  rw [← hslots] at hstart
  have hcode := hbody.computes (List.prefix_refl _) hstart
  have hrun := hcode.run_start
  rw [← hdrop] at hrun
  exact hrun

/-- `f(a, b) { let x; let y = a / b; { let x = y; x } + x }`, where the block hides the zero. -/
def FunctionDecl.quotient : FunctionDecl where
  name := ⟨"f", .unknown⟩
  prototype := ⟨[⟨⟨"a", .unknown⟩, none, .unknown⟩, ⟨⟨"b", .unknown⟩, none, .unknown⟩], none,
    .unknown⟩
  body := ⟨[
    .varDecl ⟨⟨"x", .unknown⟩, none, none, false, .unknown⟩,
    .varDecl ⟨⟨"y", .unknown⟩, none, some (.binary (.path ⟨"a", .unknown⟩ .unknown) .div
      (.path ⟨"b", .unknown⟩ .unknown) .unknown), false, .unknown⟩,
    .expr (.binary
      (.block ⟨[
        .varDecl ⟨⟨"x", .unknown⟩, none, some (.path ⟨"y", .unknown⟩ .unknown), false, .unknown⟩,
        .expr (.path ⟨"x", .unknown⟩ .unknown) .unknown], .unknown⟩)
      .add (.path ⟨"x", .unknown⟩ .unknown) .unknown) .unknown], .unknown⟩
  span := .unknown

/-- The code of `FunctionDecl.quotient`, whose two variables `x` have slots of their own. -/
def LoweredFunction.quotient : LoweredFunction where
  name := "f"
  signature := ⟨[.i32, .i32], [.i32]⟩
  paramCount := 2
  locals := #[.i32, .i32, .i32, .i32, .i32]
  body := [.localGet 0, .localGet 1, .arith .divS, .localSet 3,
    .block (some .i32) [.localGet 3, .localSet 4, .localGet 4, .endSeq], .localGet 2, .arith .add,
    .endSeq]
  span := .unknown

theorem FunctionDecl.run_lower_eq_eval_quotient :
    FunctionDecl.quotient.lower .numeric 5 = .ok .quotient ∧
      LoweredFunction.quotient.run [.i32 (-7), .i32 2] = .ok [.i32 (-3)] ∧
      LoweredFunction.quotient.run [.i32 Int32.minValue, .i32 (-1)] = .error .trap := by
  have hlower : FunctionDecl.quotient.lower .numeric 5 = .ok .quotient := by
    with_unfolding_all rfl
  refine ⟨hlower, ?_, ?_⟩
  · rw [(run_lower_eq_eval hlower rfl).1]
    with_unfolding_all rfl
  · rw [(run_lower_eq_eval hlower rfl).1]
    with_unfolding_all rfl

end WasmCodegen
