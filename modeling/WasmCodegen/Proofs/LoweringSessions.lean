import Mathlib.Logic.Relation
import WasmCodegen.Proofs.LoweringFailures
import WasmCodegen.Proofs.ScopeSessions
import WasmCodegen.Proofs.TypedLowering

/-!
# Sessions with a frame

A frame can be worked on piece by piece: declare a parameter or a variable, enter or leave a block,
lower an expression or some statements, in any order (`LoweringOp`).  A step may fail in the middle
of an expression.  It then leaves behind what it has declared and emitted so far, with the scopes of
unfinished blocks still open, and the session goes on from there.

`Frame.session_consistent` says what is true of the frame after every session.

## The argument

However a step ends, it has changed the scope table in three ways only: a block was entered, a block
was left, or a variable was declared that the table accepts (`ScopeTable.Step`).  This is read off
the rules for runs that succeed and for runs that fail.  Properties of tables then need a look at
these three steps and at nothing else.

The property that they keep (`ScopeTable.Orderly`) is more than what the theorem says.  The table
has to stand for lexical scopes, and hidden bindings have to have the types of their slots as well,
because leaving a block makes them visible again.

Emitted code is made of pieces that were typed when they were emitted, and a typed piece refers to
slots that exist.  A run that fails has emitted complete pieces only: the sequence of a block is
added to the frame as a whole or not at all.
-/

namespace WasmCodegen

/-! ## The slots that code refers to -/

namespace Instruction

mutual

/-- The slots that an instruction reads or writes, those inside it included. -/
def slots : Instruction → List Nat
  | .localGet slot => [slot]
  | .localSet slot => [slot]
  | .block _ body => slotsSeq body
  | _ => []

/-- The slots that the instructions of a sequence read or write. -/
def slotsSeq : List Instruction → List Nat
  | [] => []
  | i :: rest => i.slots ++ slotsSeq rest

end

@[simp] theorem slotsSeq_nil : slotsSeq [] = [] := by rw [slotsSeq]

@[simp] theorem slotsSeq_append (first second : List Instruction) :
    slotsSeq (first ++ second) = slotsSeq first ++ slotsSeq second := by
  induction first with
  | nil => simp
  | cons i rest ih => simp [slotsSeq, ih]

/-- All slots of the code are below `count`. -/
def Within (count : Nat) (code : List Instruction) : Prop :=
  ∀ slot ∈ slotsSeq code, slot < count

variable {count count' : Nat} {code first second : List Instruction}

theorem Within.nil : Within count [] := by simp [Within]

theorem Within.append (h : Within count first) (h' : Within count second) :
    Within count (first ++ second) := by
  intro slot hslot
  rw [slotsSeq_append, List.mem_append] at hslot
  exact hslot.elim (h slot) (h' slot)

theorem Within.mono (h : Within count code) (hle : count ≤ count') : Within count' code :=
  fun slot hslot => Nat.lt_of_lt_of_le (h slot hslot) hle

end Instruction

namespace StackTyping

variable {locals : List ValueType}

mutual

theorem Instr.slots_lt {i : Instruction} {before after : List ValueType} :
    Instr locals i before after → ∀ slot ∈ i.slots, slot < locals.length
  | .localGet h, slot, hslot | .localSet h, slot, hslot => by
    rw [Instruction.slots, List.mem_singleton] at hslot
    rw [hslot]
    exact (List.getElem?_eq_some_iff.1 h).1
  | .block h, slot, hslot => by
    rw [Instruction.slots] at hslot
    exact h.within slot hslot
  | .const _, slot, hslot | .arith _, slot, hslot | .drop _, slot, hslot => by
    simp [Instruction.slots] at hslot

/-- Typed code refers to locals that exist. -/
theorem Code.within {code : List Instruction} {before after : List ValueType} :
    Code locals code before after → Instruction.Within locals.length code
  | .nil => .nil
  | .single h => by
    intro slot hslot
    rw [Instruction.slotsSeq, Instruction.slotsSeq_nil, List.append_nil] at hslot
    exact h.slots_lt slot hslot
  | .append h h' => h.within.append h'.within
  | .frame _ h => h.within

theorem Body.within {body : List Instruction} {result : Option ValueType} :
    Body locals body result → Instruction.Within locals.length body
  | .intro h => h.within.append (by simp [Instruction.Within, Instruction.slotsSeq,
      Instruction.slots])

end

end StackTyping

/-! ## Steps of the scope table -/

namespace ScopeTable

/-- The ways in which lowering changes a scope table. -/
inductive Step (maxLocals : Nat) (table : ScopeTable) : ScopeTable → Prop
  | enter : Step maxLocals table table.enter
  | leave {outer : ScopeTable} (hleave : table.leave? = some outer) : Step maxLocals table outer
  | bind {name : String} {type : ValueType} {span : Span}
      (haccepts : table.Accepts maxLocals name) : Step maxLocals table (table.bind name type span)

/-- The second table comes from the first by such changes. -/
abbrev Evolves (maxLocals : Nat) : ScopeTable → ScopeTable → Prop :=
  Relation.ReflTransGen (Step maxLocals)

/-- What lowering never breaks: the table stands for lexical scopes, every binding has the type of
its slot, and there are no more slots than allowed. -/
structure Orderly (maxLocals : Nat) (table : ScopeTable) : Prop where
  lexical : ∃ t, table.Matches t
  wellTyped : table.WellTyped
  limit : table.slotCount ≤ maxLocals

variable {maxLocals : Nat} {table table' : ScopeTable}

theorem orderly_empty : empty.Orderly maxLocals :=
  ⟨⟨{}, .empty⟩, wellTyped_empty, Nat.zero_le _⟩

theorem Step.slots_grow (h : Step maxLocals table table') :
    table.slots.toList <+: table'.slots.toList := by
  cases h with
  | enter => exact List.prefix_refl _
  | leave hleave => exact ⟨[], by rw [slots_leave hleave, List.append_nil]⟩
  | bind _ => exact slots_prefix_bind table _ _ _

theorem Step.wellTyped (h : Step maxLocals table table') (htable : table.WellTyped) :
    table'.WellTyped := by
  cases h with
  | enter => exact htable.enter
  | leave hleave => exact htable.leave hleave
  | bind _ => exact htable.bind _ _ _

/-- The changes are operations that a table of lexical scopes follows. -/
theorem Step.exists_matches (h : Step maxLocals table table') {t : LexicalTable}
    (hmatches : table.Matches t) : ∃ t', table'.Matches t' := by
  cases h with
  | enter => exact ⟨_, (hmatches.perform .enter).2⟩
  | leave hleave =>
    have hperform := (hmatches.perform .leave).2
    rw [perform, leave_apply, hleave] at hperform
    exact ⟨_, hperform⟩
  | @bind name type span haccepts =>
    have hperform := (hmatches.perform (.declare name type span)).2
    rw [perform, declare_apply, haccepts.fresh] at hperform
    exact ⟨_, hperform⟩

theorem Step.orderly (h : Step maxLocals table table') (htable : table.Orderly maxLocals) :
    table'.Orderly maxLocals := by
  obtain ⟨t, hmatches⟩ := htable.lexical
  refine ⟨h.exists_matches hmatches, h.wellTyped htable.wellTyped, ?_⟩
  have hlimit := htable.limit
  cases h with
  | enter => exact hlimit
  | leave hleave => rwa [slotCount_leave hleave]
  | bind haccepts =>
    rw [slotCount_bind]
    exact haccepts.slotCount_lt

namespace Evolves

theorem slots_grow (h : Evolves maxLocals table table') :
    table.slots.toList <+: table'.slots.toList := by
  induction h with
  | refl => exact List.prefix_refl _
  | tail _ hstep ih => exact ih.trans hstep.slots_grow

theorem slotCount_le (h : Evolves maxLocals table table') : table.slotCount ≤ table'.slotCount :=
  h.slots_grow.length_le

theorem wellTyped (h : Evolves maxLocals table table') (htable : table.WellTyped) :
    table'.WellTyped := by
  induction h with
  | refl => exact htable
  | tail _ hstep ih => exact hstep.wellTyped ih

theorem orderly (h : Evolves maxLocals table table') (htable : table.Orderly maxLocals) :
    table'.Orderly maxLocals := by
  induction h with
  | refl => exact htable
  | tail _ hstep ih => exact hstep.orderly ih

end Evolves

end ScopeTable

/-! ## Runs of lowering, successful or not -/

section

open ScopeTable

variable {ctx : Context} {table table' : ScopeTable} {code : List Instruction}

mutual

theorem LowersExpr.evolves {table table' : ScopeTable} {e : Expr} {code : List Instruction}
    {result : Option ValueType} :
    LowersExpr ctx table e code result table' → Evolves ctx.maxLocals table table'
  | .literal _ => .refl
  | .path _ => .refl
  | .binary _ hleft hright => hleft.evolves.trans hright.evolves
  | .block hstmts hleave => (hstmts.evolves.head .enter).tail (.leave hleave)

theorem LowersStmt.evolves {table table' : ScopeTable} {s : Stmt} {code : List Instruction} :
    LowersStmt ctx table s code table' → Evolves ctx.maxLocals table table'
  | .drop he | .skip he => he.evolves
  | .init hvalue _ haccepts => hvalue.evolves.tail (.bind haccepts)
  | .bare _ haccepts => .single (.bind haccepts)

theorem LowersStmts.evolves {table table' : ScopeTable} {stmts : List Stmt}
    {code : List Instruction} {result : Option ValueType} :
    LowersStmts ctx table stmts code result table' → Evolves ctx.maxLocals table table'
  | .nil => .refl
  | .last he => he.evolves
  | .cons _ hs hstmts => hs.evolves.trans hstmts.evolves

end

mutual

theorem FailsExpr.evolves {table table' : ScopeTable} {e : Expr} {error : CompileError}
    {code : List Instruction} {blocks : Nat} :
    FailsExpr ctx table e error code blocks table' → Evolves ctx.maxLocals table table'
  | .literal _ => .refl
  | .path _ => .refl
  | .operator _ => .refl
  | .left _ hleft | .leftValue _ hleft => hleft.evolves
  | .right _ hleft hright | .rightValue _ hleft hright | .leftType _ hleft hright _
  | .rightType _ hleft hright _ => hleft.evolves.trans hright.evolves
  | .block hstmts => hstmts.evolves.head .enter
  | .unsupported _ => .refl

theorem FailsStmt.evolves {table table' : ScopeTable} {s : Stmt} {error : CompileError}
    {code : List Instruction} {blocks : Nat} :
    FailsStmt ctx table s error code blocks table' → Evolves ctx.maxLocals table table'
  | .expr he => he.evolves
  | .typeRef _ => .refl
  | .value _ hvalue => hvalue.evolves
  | .noValue _ hvalue => hvalue.evolves
  | .wrongValue _ hvalue _ => hvalue.evolves
  | .init hvalue _ _ => hvalue.evolves
  | .bare _ _ => .refl
  | .unsupported _ => .refl

theorem FailsStmts.evolves {table table' : ScopeTable} {stmts : List Stmt} {error : CompileError}
    {code : List Instruction} {blocks : Nat} :
    FailsStmts ctx table stmts error code blocks table' → Evolves ctx.maxLocals table table'
  | .here hs => hs.evolves
  | .later hs hrest => hs.evolves.trans hrest.evolves

end

/-- The code of an expression refers to slots that exist when it is complete. -/
theorem LowersExpr.within {e : Expr} {result : Option ValueType}
    (h : LowersExpr ctx table e code result table') (htable : table.WellTyped) :
    Instruction.Within table'.slotCount code :=
  (h.code_typed htable).within

theorem LowersStmt.within {s : Stmt} (h : LowersStmt ctx table s code table')
    (htable : table.WellTyped) : Instruction.Within table'.slotCount code :=
  (h.code_typed htable).within

theorem LowersStmts.within {stmts : List Stmt} {result : Option ValueType}
    (h : LowersStmts ctx table stmts code result table') (htable : table.WellTyped) :
    Instruction.Within table'.slotCount code :=
  (h.code_typed htable).within

/-- Two pieces of code, one after the other: slots are only added in between. -/
theorem Instruction.Within.append_of_evolves {maxLocals : Nat} {between : ScopeTable}
    {first second : List Instruction} (h : Within between.slotCount first)
    (hevolves : Evolves maxLocals between table') (h' : Within table'.slotCount second) :
    Within table'.slotCount (first ++ second) :=
  (h.mono hevolves.slotCount_le).append h'

mutual

/-- What an expression that fails has emitted refers to slots that exist. -/
theorem FailsExpr.within {table table' : ScopeTable} {e : Expr} {error : CompileError}
    {code : List Instruction} {blocks : Nat} (htable : table.WellTyped) :
    FailsExpr ctx table e error code blocks table' → Instruction.Within table'.slotCount code
  | .literal _ => .nil
  | .path _ => .nil
  | .operator _ => .nil
  | .left _ hleft | .leftValue _ hleft => hleft.within htable
  | .right _ hleft hright | .rightValue _ hleft hright | .leftType _ hleft hright _
  | .rightType _ hleft hright _ =>
    (hleft.within htable).append_of_evolves hright.evolves (hright.within (hleft.wellTyped htable))
  | .block _ => .nil
  | .unsupported _ => .nil

theorem FailsStmt.within {table table' : ScopeTable} {s : Stmt} {error : CompileError}
    {code : List Instruction} {blocks : Nat} (htable : table.WellTyped) :
    FailsStmt ctx table s error code blocks table' → Instruction.Within table'.slotCount code
  | .expr he => he.within htable
  | .typeRef _ => .nil
  | .value _ hvalue => hvalue.within htable
  | .noValue _ hvalue => hvalue.within htable
  | .wrongValue _ hvalue _ => hvalue.within htable
  | .init hvalue _ _ => hvalue.within htable
  | .bare _ _ => .nil
  | .unsupported _ => .nil

theorem FailsStmts.within {table table' : ScopeTable} {stmts : List Stmt} {error : CompileError}
    {code : List Instruction} {blocks : Nat} (htable : table.WellTyped) :
    FailsStmts ctx table stmts error code blocks table' → Instruction.Within table'.slotCount code
  | .here hs => hs.within htable
  | .later hs hrest =>
    (hs.within htable).append_of_evolves hrest.evolves (hrest.within (hs.evolves.wellTyped htable))

end

end

/-! ## Sessions -/

/-- What may be done to a frame. -/
inductive LoweringOp where
  | declareParam (name : String) (type : ValueType) (span : Span)
  | declareLocal (name : String) (type : ValueType) (span : Span)
  | enter
  | leave
  | expr (e : Expr)
  | value (role : String) (e : Expr)
  | stmt (last : Bool) (s : Stmt)
  | body (block : Block)

/-- The frame after a step, which may have failed. -/
def Lowering.after {α : Type} (step : Lowering α) (frame : Frame) : Frame :=
  match step frame with
  | .ok _ frame' => frame'
  | .error _ frame' => frame'

/-- Does one thing to a frame. -/
def LoweringOp.perform (ctx : Context) (frame : Frame) : LoweringOp → Frame
  | .declareParam name type span => (Lowering.declareParam ctx name type span).after frame
  | .declareLocal name type span => (Lowering.declareLocal ctx name type span).after frame
  | .enter => Lowering.enterScope.after frame
  | .leave => Lowering.leaveScope.after frame
  | .expr e => (Lowering.lowerExpr ctx e).after frame
  | .value role e => (Lowering.lowerValue ctx role e).after frame
  | .stmt last s => (Lowering.lowerStmt ctx last s).after frame
  | .body block => (Lowering.lowerStmts ctx block.stmts).after frame

namespace Frame

/-- The frame after a session that starts with nothing declared and nothing emitted. -/
def session (ctx : Context) (ops : List LoweringOp) : Frame :=
  ops.foldl (LoweringOp.perform ctx) {}

/-- What is true of a frame that is worked on in a session. -/
structure Consistent (ctx : Context) (frame : Frame) : Prop where
  name_eq : ∀ {name b}, frame.scopes.lookup name = some b → b.name = name
  slot_lt : ∀ {name b}, frame.scopes.lookup name = some b → b.slot < frame.scopes.slotCount
  type_eq : ∀ {name b}, frame.scopes.lookup name = some b →
    frame.scopes.slots[b.slot]? = some b.type
  depth_le : ∀ {name b}, frame.scopes.lookup name = some b → b.depth ≤ frame.scopes.depth
  /-- Different names in sight have different slots. -/
  slot_inj : ∀ {name name' b b'}, frame.scopes.lookup name = some b →
    frame.scopes.lookup name' = some b' → b.slot = b'.slot → name = name'
  limit : frame.scopes.slotCount ≤ ctx.maxLocals
  /-- Code refers to slots that have been given out, also inside blocks. -/
  code : ∀ slot ∈ Instruction.slotsSeq frame.code.toList, slot < frame.scopes.slotCount

/-- A frame whose table is orderly and whose code refers to slots that exist. -/
structure Sound (ctx : Context) (frame : Frame) : Prop where
  scopes : frame.scopes.Orderly ctx.maxLocals
  code : Instruction.Within frame.scopes.slotCount frame.code.toList

/-- `frame.Extends ctx frame'`: code is added to the frame, and its table changes by steps. -/
structure Extends (ctx : Context) (frame frame' : Frame) : Prop where
  evolves : ScopeTable.Evolves ctx.maxLocals frame.scopes frame'.scopes
  emits : frame.scopes.WellTyped →
    ∃ code, Lowering.Emits frame frame' code ∧ Instruction.Within frame'.scopes.slotCount code

variable {ctx : Context} {frame frame' : Frame}

theorem sound_empty (ctx : Context) : ({} : Frame).Sound ctx := ⟨ScopeTable.orderly_empty, .nil⟩

theorem Extends.of_step (hstep : ScopeTable.Evolves ctx.maxLocals frame.scopes frame'.scopes)
    (hcode : frame'.code = frame.code) : frame.Extends ctx frame' :=
  ⟨hstep, fun _ => ⟨[], .nothing hcode, .nil⟩⟩

theorem Extends.refl (frame : Frame) : frame.Extends ctx frame := .of_step .refl rfl

theorem Extends.sound (h : frame.Extends ctx frame') (hframe : frame.Sound ctx) :
    frame'.Sound ctx := by
  obtain ⟨code, hemits, hwithin⟩ := h.emits hframe.scopes.wellTyped
  refine ⟨h.evolves.orderly hframe.scopes, ?_⟩
  rw [hemits]
  exact hframe.code.append_of_evolves h.evolves hwithin

/-- A name in sight means what the lexical scopes behind the table say. -/
theorem Sound.consistent (h : frame.Sound ctx) : frame.Consistent ctx := by
  obtain ⟨t, hmatches⟩ := h.scopes.lexical
  have hlookup : ∀ {name b}, frame.scopes.lookup name = some b →
      t.scopes.lookup name = some b := by
    intro name b hb
    rwa [← hmatches.shows.lookup_eq]
  have hfound : ∀ {name b}, frame.scopes.lookup name = some b →
      b.name = name ∧ b.depth ≤ frame.scopes.depth := by
    intro name b hb
    obtain ⟨⟨level, v⟩, hsearch, rfl⟩ := Option.map_eq_some_iff.1 (hlookup hb)
    rw [hmatches.shows.depth_eq]
    exact ⟨rfl, Nat.le_of_lt_succ (Scopes.level_lt_of_search hsearch)⟩
  exact {
    name_eq := fun hb => (hfound hb).1
    slot_lt := by
      intro name b hb
      rw [hmatches.slotCount_eq]
      exact hmatches.apart.slot_lt (hlookup hb)
    type_eq := by
      intro name b hb
      rw [← Array.getElem?_toList]
      exact h.scopes.wellTyped.lookup hb
    depth_le := fun hb => (hfound hb).2
    slot_inj := fun hb hb' hslot => hmatches.apart.name_eq (hlookup hb) (hlookup hb') hslot
    limit := h.scopes.limit
    code := h.code }

end Frame

/-! ### One operation -/

namespace Lowering

variable {ctx : Context} {frame : Frame}

/-- What holds of the frame of a success and of the frame of a failure holds after the step. -/
theorem after_of {α : Type} {step : Lowering α} {P : Frame → Prop}
    (hok : ∀ a frame', step frame = .ok a frame' → P frame')
    (herror : ∀ error frame', step frame = .error error frame' → P frame') :
    P (step.after frame) := by
  unfold after
  split
  · rename_i a frame' h
    exact hok a frame' h
  · rename_i error frame' h
    exact herror error frame' h

theorem extends_of_lowersExpr {frame' : Frame} {e : Expr} {result : Option ValueType}
    (h : lowerExpr ctx e frame = .ok result frame') : frame.Extends ctx frame' := by
  obtain ⟨code, hlowers, hemits⟩ := lowersExpr_of_lowerExpr e h
  exact ⟨hlowers.evolves, fun htable => ⟨code, hemits, hlowers.within htable⟩⟩

theorem extends_of_failsExpr {frame' : Frame} {e : Expr} {error : CompileError}
    (h : lowerExpr ctx e frame = .error error frame') : frame.Extends ctx frame' := by
  obtain ⟨code, blocks, hfails, hemits⟩ := failsExpr_of_lowerExpr e h
  exact ⟨hfails.evolves, fun htable => ⟨code, hemits, hfails.within htable⟩⟩

theorem extends_of_lowersStmts {frame' : Frame} {stmts : List Stmt} {result : Option ValueType}
    (h : lowerStmts ctx stmts frame = .ok result frame') : frame.Extends ctx frame' := by
  obtain ⟨code, hlowers, hemits⟩ := lowersStmts_of_lowerStmts stmts h
  exact ⟨hlowers.evolves, fun htable => ⟨code, hemits, hlowers.within htable⟩⟩

/-- A statement that is the last of its block is a block of one statement. -/
theorem extends_of_lowersStmt {frame' : Frame} {last : Bool} {s : Stmt} {result : Option ValueType}
    (h : lowerStmt ctx last s frame = .ok result frame') : frame.Extends ctx frame' := by
  cases last with
  | true =>
    have hstmts : lowerStmts ctx [s] frame = .ok result frame' := by
      rw [lowerStmts]
      exact h
    exact extends_of_lowersStmts hstmts
  | false =>
    obtain ⟨code, hlowers, hemits⟩ := lowersStmt_of_lowerStmt _ h
    exact ⟨hlowers.evolves, fun htable => ⟨code, hemits, hlowers.within htable⟩⟩

/-- Whatever is done to a frame extends it. -/
theorem extends_perform (ctx : Context) (frame : Frame) (op : LoweringOp) :
    frame.Extends ctx (op.perform ctx frame) := by
  cases op with
  | declareParam name type span =>
    apply after_of
    · intro slot frame' h
      obtain ⟨haccepts, -, rfl⟩ := declareParam_eq_ok h
      exact .of_step (.single (.bind haccepts)) rfl
    · intro error frame' h
      obtain ⟨-, rfl⟩ := declareParam_eq_error ⟨name, span⟩ h
      exact .refl _
  | declareLocal name type span =>
    apply after_of
    · intro slot frame' h
      obtain ⟨haccepts, -, rfl⟩ := declareLocal_eq_ok h
      exact .of_step (.single (.bind haccepts)) rfl
    · intro error frame' h
      obtain ⟨-, rfl⟩ := declareLocal_eq_error ⟨name, span⟩ h
      exact .refl _
  | enter => exact .of_step (.single .enter) rfl
  | leave =>
    apply after_of
    · intro _ frame' h
      obtain ⟨outer, hleave, rfl⟩ := leaveScope_eq_ok h
      exact .of_step (.single (.leave hleave)) rfl
    · intro error frame' h
      obtain ⟨-, rfl⟩ := leaveScope_eq_error h
      exact .refl _
  | expr e =>
    apply after_of
    · exact fun _ _ => extends_of_lowersExpr
    · exact fun _ _ => extends_of_failsExpr
  | value role e =>
    apply after_of
    · intro type frame' h
      obtain ⟨found, _, he, h₁⟩ := bind_eq_ok h
      obtain ⟨-, rfl⟩ := requireValue_eq_ok h₁
      exact extends_of_lowersExpr he
    · intro error frame' h
      obtain he | ⟨found, _, he, h₁⟩ := bind_eq_error h
      · exact extends_of_failsExpr he
      · obtain ⟨-, -, rfl⟩ := requireValue_eq_error h₁
        exact extends_of_lowersExpr he
  | stmt last s =>
    apply after_of
    · exact fun _ _ => extends_of_lowersStmt
    · intro error frame' h
      obtain ⟨code, blocks, hfails, hemits⟩ := failsStmt_of_lowerStmt s h
      exact ⟨hfails.evolves, fun htable => ⟨code, hemits, hfails.within htable⟩⟩
  | body block =>
    apply after_of
    · exact fun _ _ => extends_of_lowersStmts
    · intro error frame' h
      obtain ⟨code, blocks, hfails, hemits⟩ := failsStmts_of_lowerStmts block.stmts h
      exact ⟨hfails.evolves, fun htable => ⟨code, hemits, hfails.within htable⟩⟩

end Lowering

/-! ### Whole sessions -/

namespace Frame

variable {ctx : Context}

theorem sound_foldl_perform {frame : Frame} (h : frame.Sound ctx) (ops : List LoweringOp) :
    (ops.foldl (LoweringOp.perform ctx) frame).Sound ctx ∧
      frame.scopes.slots.toList <+:
        (ops.foldl (LoweringOp.perform ctx) frame).scopes.slots.toList := by
  induction ops generalizing frame with
  | nil => exact ⟨h, List.prefix_refl _⟩
  | cons op ops ih =>
    have hextends := Lowering.extends_perform ctx frame op
    obtain ⟨hsound, hgrow⟩ := ih (hextends.sound h)
    exact ⟨hsound, hextends.evolves.slots_grow.trans hgrow⟩

/-- **Sessions keep a frame consistent.**  After every session, whichever of its steps have failed,
each name in sight has a binding of its own name, with a slot that was given out to a variable of
its type and a depth that is open; no two names share a slot; the limit is kept; and the code refers
to slots that were given out.  However the session goes on, these slots stay, with their types. -/
theorem session_consistent (ctx : Context) (before after : List LoweringOp) :
    (session ctx before).Consistent ctx ∧
      (session ctx before).scopes.slots.toList <+:
        (session ctx (before ++ after)).scopes.slots.toList := by
  obtain ⟨hsound, -⟩ := sound_foldl_perform (sound_empty ctx) before
  refine ⟨hsound.consistent, ?_⟩
  rw [session, session, List.foldl_append]
  exact (sound_foldl_perform hsound after).2

end Frame

end WasmCodegen
