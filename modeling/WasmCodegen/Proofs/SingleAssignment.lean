import WasmCodegen.Proofs.LoweringSessions

/-!
# Locals are written once, before they are read

A variable of the source gets a slot of its own, and its initial value is stored there by the one
instruction that follows the value.  `FunctionDecl.lower_singleAssignment` says what this comes to
in the code of a function, read in program order through all of its blocks: the slots that are
written go up, they are the slots of the variables that have an initial value, and a slot that is
written anywhere is not read before.

## The argument

Slots are not given out in the order of the text, because the variables inside an initial value
get theirs before the variable that is initialized.  `Stmt.declarations` lists the variables in the
order of their slots, so that the slots of a piece of source are an interval, and the writes in the
code of the piece can be read off the interval (`LowersExpr.writes_eq`).

The rest is one property of the code (`Instruction.Fresh`): when a slot is written, everything
before it refers to lower slots only.  Code that has been emitted refers to slots that exist, and
what is written later has a slot that does not exist yet, so the property survives when code is put
after other code (`Instruction.Fresh.append`).  A slot that is written twice, or read before it is
written, would have to be lower than itself.
-/

namespace WasmCodegen

/-! ## Code in program order -/

namespace Instruction

mutual

/-- An instruction in program order.  A block gives way to the instructions inside it. -/
def flat : Instruction → List Instruction
  | .block _ body => flatSeq body
  | i => [i]

/-- The instructions of a sequence in program order, through all blocks. -/
def flatSeq : List Instruction → List Instruction
  | [] => []
  | i :: rest => i.flat ++ flatSeq rest

end

/-- The slot that an instruction writes. -/
def written? : Instruction → Option Nat
  | .localSet slot => some slot
  | _ => none

/-- The slots that code writes, in program order. -/
def writes (code : List Instruction) : List Nat := (flatSeq code).filterMap written?

/-- Every slot is fresh when it is written: what comes before in program order refers to lower
slots. -/
def Fresh (code : List Instruction) : Prop :=
  (flatSeq code).Pairwise fun earlier i =>
    ∀ slot ∈ i.written?, ∀ other ∈ earlier.slots, other < slot

@[simp] theorem flatSeq_nil : flatSeq [] = [] := by rw [flatSeq]

@[simp] theorem flatSeq_append (first second : List Instruction) :
    flatSeq (first ++ second) = flatSeq first ++ flatSeq second := by
  induction first with
  | nil => simp
  | cons i rest ih => simp [flatSeq, ih]

@[simp] theorem writes_append (first second : List Instruction) :
    writes (first ++ second) = writes first ++ writes second := by
  simp [writes]

/-- A block writes what its body writes. -/
@[simp] theorem writes_block (result : Option ValueType) (body : List Instruction) :
    writes [.block result body] = writes body := by
  simp [writes, flatSeq, flat]

theorem mem_writes_iff {code : List Instruction} {slot : Nat} :
    slot ∈ writes code ↔ .localSet slot ∈ flatSeq code := by
  rw [writes, List.mem_filterMap]
  constructor
  · rintro ⟨i, hi, hslot⟩
    cases i <;> cases hslot
    exact hi
  · exact fun h => ⟨_, h, rfl⟩

mutual

theorem slots_eq_flatMap : (i : Instruction) → i.slots = i.flat.flatMap slots
  | .block _ body => by rw [slots, flat, slotsSeq_eq_flatMap body]
  | .const _ | .localGet _ | .localSet _ | .arith _ | .drop | .endSeq => by simp [flat]

/-- Nothing is lost in program order: the slots of a sequence are those of its instructions. -/
theorem slotsSeq_eq_flatMap :
    (code : List Instruction) → slotsSeq code = (flatSeq code).flatMap slots
  | [] => by simp
  | i :: rest => by
    rw [slotsSeq, flatSeq, List.flatMap_append, slots_eq_flatMap i, slotsSeq_eq_flatMap rest]

end

namespace Fresh

variable {code first second : List Instruction}

/-- Code may follow other code that refers to lower slots than it writes. -/
theorem append (h : Fresh first) (h' : Fresh second)
    (hwrites : ∀ slot ∈ writes second, Within slot first) : Fresh (first ++ second) := by
  rw [Fresh, flatSeq_append, List.pairwise_append]
  refine ⟨h, h', ?_⟩
  intro earlier hearlier i hi slot hslot other hother
  have hwritten : slot ∈ writes second := List.mem_filterMap.2 ⟨i, hi, hslot⟩
  refine hwrites slot hwritten other ?_
  rw [slotsSeq_eq_flatMap]
  exact List.mem_flatMap.2 ⟨earlier, hearlier, hother⟩

theorem nil : Fresh [] := by simp [Fresh]

/-- There is nothing before a single instruction. -/
theorem single {i : Instruction} (h : i.flat = [i]) : Fresh [i] := by
  simp [Fresh, flatSeq, h]

/-- A block is as fresh as its body. -/
theorem block {result : Option ValueType} {body : List Instruction} (h : Fresh body) :
    Fresh [.block result body] := by
  simpa [Fresh, flatSeq, flat] using h

/-- Instructions that write nothing may follow. -/
theorem append_of_writes_eq_nil (h : Fresh first) (h' : Fresh second) (hnil : writes second = []) :
    Fresh (first ++ second) := by
  refine h.append h' ?_
  rw [hnil]
  exact fun slot hslot => absurd hslot List.not_mem_nil

/-- The slots that fresh code writes go up. -/
theorem pairwise_writes (h : Fresh code) : (writes code).Pairwise (· < ·) := by
  rw [writes, List.pairwise_filterMap]
  refine h.imp ?_
  intro earlier i hfresh other hother slot hslot
  refine hfresh slot hslot other ?_
  cases earlier <;> cases hother
  exact List.mem_singleton.2 rfl

/-- In fresh code a slot that is both read and written is written first. -/
theorem write_lt_read (h : Fresh code) {read write slot : Nat}
    (hread : (flatSeq code)[read]? = some (.localGet slot))
    (hwrite : (flatSeq code)[write]? = some (.localSet slot)) : write < read := by
  obtain ⟨hread_lt, hread⟩ := List.getElem?_eq_some_iff.1 hread
  obtain ⟨hwrite_lt, hwrite⟩ := List.getElem?_eq_some_iff.1 hwrite
  by_contra hle
  have hne : read ≠ write := by
    rintro rfl
    rw [hread] at hwrite
    cases hwrite
  have hlt : read < write := by omega
  -- the read would come before the write, with a slot that is not lower
  have hpair := List.pairwise_iff_getElem.1 h read write hread_lt hwrite_lt hlt
  rw [hread, hwrite] at hpair
  have hself : slot < slot := hpair slot rfl slot (List.mem_singleton.2 rfl)
  exact absurd hself (Nat.lt_irrefl slot)

end Fresh

end Instruction

/-! ## Variables that have an initial value -/

namespace VarDecl

/-- The slots of the variables that have an initial value, if the first variable has the slot
`first` and the others follow. -/
def initializedSlots (first : Nat) : List VarDecl → List Nat
  | [] => []
  | v :: rest =>
    if v.init.isSome then first :: initializedSlots (first + 1) rest
    else initializedSlots (first + 1) rest

@[simp] theorem initializedSlots_nil (first : Nat) : initializedSlots first [] = [] := rfl

theorem initializedSlots_append (first : Nat) (vars more : List VarDecl) :
    initializedSlots first (vars ++ more) =
      initializedSlots first vars ++ initializedSlots (first + vars.length) more := by
  induction vars generalizing first with
  | nil => simp
  | cons v rest ih =>
    have hshift : first + 1 + rest.length = first + (rest.length + 1) := by omega
    by_cases hinit : v.init.isSome <;> simp [initializedSlots, hinit, ih, hshift]

theorem mem_initializedSlots_iff {first slot : Nat} {vars : List VarDecl} :
    slot ∈ initializedSlots first vars ↔
      ∃ k v, vars[k]? = some v ∧ v.init.isSome ∧ slot = first + k := by
  induction vars generalizing first with
  | nil => simp
  | cons v rest ih =>
    have hhere : (∃ k w, (v :: rest)[k]? = some w ∧ w.init.isSome ∧ slot = first + k) ↔
        v.init.isSome ∧ slot = first ∨ slot ∈ initializedSlots (first + 1) rest := by
      rw [ih]
      constructor
      · rintro ⟨_ | k, w, hw, hinit, rfl⟩
        · cases hw
          exact .inl ⟨hinit, rfl⟩
        · exact .inr ⟨k, w, hw, hinit, by omega⟩
      · rintro (⟨hinit, rfl⟩ | ⟨k, w, hw, hinit, rfl⟩)
        · exact ⟨0, v, rfl, hinit, rfl⟩
        · exact ⟨k + 1, w, hw, hinit, by omega⟩
    rw [hhere, initializedSlots]
    by_cases hinit : v.init.isSome <;> simp [hinit]

/-- These slots are within the slots of all the variables. -/
theorem bounds_of_mem_initializedSlots {first slot : Nat} {vars : List VarDecl}
    (h : slot ∈ initializedSlots first vars) : first ≤ slot ∧ slot < first + vars.length := by
  obtain ⟨k, v, hv, -, rfl⟩ := mem_initializedSlots_iff.1 h
  obtain ⟨hlt, -⟩ := List.getElem?_eq_some_iff.1 hv
  omega

end VarDecl

/-! ## The writes of lowered code -/

section

open Instruction VarDecl

variable {ctx : Context}

mutual

/-- The code of an expression writes the slots of its variables that have an initial value, in the
order of the slots. -/
theorem LowersExpr.writes_eq {table table' : ScopeTable} {e : Expr} {code : List Instruction}
    {result : Option ValueType} : LowersExpr ctx table e code result table' →
      writes code = initializedSlots table.slotCount e.declarations
  | .literal _ => rfl
  | .path _ => rfl
  | @LowersExpr.binary _ _ _ _ _ _ _ _ op _ _ _ hleft hright => by
    have hop : writes [.arith op] = [] := rfl
    rw [Expr.declarations, initializedSlots_append, ← hleft.slotCount_eq, writes_append,
      writes_append, hleft.writes_eq, hright.writes_eq, hop, List.append_nil]
  | .block hstmts _ => by
    have hend : writes [.endSeq] = [] := rfl
    rw [Expr.declarations, writes_block, writes_append, hend, List.append_nil, hstmts.writes_eq,
      ScopeTable.slotCount_enter]

/-- The same for the code of a statement. -/
theorem LowersStmt.writes_eq {table table' : ScopeTable} {s : Stmt} {code : List Instruction} :
    LowersStmt ctx table s code table' →
      writes code = initializedSlots table.slotCount (Stmt.declarations [s])
  | .drop he => by
    have hdrop : writes [.drop] = [] := rfl
    rw [Stmt.declarations_expr, writes_append, hdrop, List.append_nil, he.writes_eq]
  | .skip he => by rw [Stmt.declarations_expr, he.writes_eq]
  | @LowersStmt.init _ _ tableInit _ _ _ _ _ _ _ hvalue _ _ => by
    have hset : writes [.localSet tableInit.slotCount] = [tableInit.slotCount] := rfl
    rw [Stmt.declarations_init, initializedSlots_append, ← hvalue.slotCount_eq, writes_append, hset,
      hvalue.writes_eq]
    rfl
  | .bare _ _ => rfl

/-- The same for the code of statements. -/
theorem LowersStmts.writes_eq {table table' : ScopeTable} {stmts : List Stmt}
    {code : List Instruction} {result : Option ValueType} :
    LowersStmts ctx table stmts code result table' →
      writes code = initializedSlots table.slotCount (Stmt.declarations stmts)
  | .nil => rfl
  | .last he => by rw [Stmt.declarations_expr, he.writes_eq]
  | .cons _ hs hstmts => by
    rw [Stmt.declarations_cons, initializedSlots_append, ← hs.slotCount_eq, writes_append,
      hs.writes_eq, hstmts.writes_eq]

end

/-- Code that was emitted while there were `count` slots may be followed by code that writes the
slots of variables from there on. -/
theorem Instruction.Fresh.append_of_writes_eq {first second : List Instruction} {count : Nat}
    {vars : List VarDecl} (h : Fresh first) (h' : Fresh second) (hfirst : Within count first)
    (hwrites : writes second = initializedSlots count vars) : Fresh (first ++ second) := by
  refine h.append h' ?_
  intro slot hslot
  rw [hwrites] at hslot
  exact hfirst.mono (bounds_of_mem_initializedSlots hslot).1

mutual

/-- The code of an expression writes fresh slots only. -/
theorem LowersExpr.fresh {table table' : ScopeTable} {e : Expr} {code : List Instruction}
    {result : Option ValueType} (htable : table.WellTyped) :
    LowersExpr ctx table e code result table' → Fresh code
  | .literal _ => .single rfl
  | .path _ => .single rfl
  | .binary _ hleft hright => by
    have htableLeft := hleft.wellTyped htable
    have hoperands := (hleft.fresh htable).append_of_writes_eq (hright.fresh htableLeft)
      (hleft.within htable) hright.writes_eq
    rw [← List.append_assoc]
    exact hoperands.append_of_writes_eq_nil (.single rfl) rfl
  | .block hstmts _ =>
    .block ((hstmts.fresh htable.enter).append_of_writes_eq_nil (.single rfl) rfl)

/-- The code of a statement writes fresh slots only. -/
theorem LowersStmt.fresh {table table' : ScopeTable} {s : Stmt} {code : List Instruction}
    (htable : table.WellTyped) : LowersStmt ctx table s code table' → Fresh code
  | .drop he => (he.fresh htable).append_of_writes_eq_nil (.single rfl) rfl
  | .skip he => he.fresh htable
  | .init hvalue _ _ => by
    -- the slot of the variable is the first that did not exist while its value was lowered
    refine (hvalue.fresh htable).append (.single rfl) ?_
    intro slot hslot
    obtain rfl := List.mem_singleton.1 hslot
    exact hvalue.within htable
  | .bare _ _ => .nil

/-- The code of statements writes fresh slots only. -/
theorem LowersStmts.fresh {table table' : ScopeTable} {stmts : List Stmt}
    {code : List Instruction} {result : Option ValueType} (htable : table.WellTyped) :
    LowersStmts ctx table stmts code result table' → Fresh code
  | .nil => .nil
  | .last he => he.fresh htable
  | .cons _ hs hstmts => by
    have hrest := hstmts.fresh (hs.wellTyped htable)
    exact (hs.fresh htable).append_of_writes_eq hrest (hs.within htable) hstmts.writes_eq

end

end

/-! ## Functions -/

namespace FunctionDecl

variable {resolver : Resolver} {maxLocals : Nat} {decl : FunctionDecl} {f : LoweredFunction}

/-- **Locals are written once, before they are read.**  A lowered function has a local for each
parameter and for each variable of its body, at any depth.  In program order through all blocks, the
slots that its code writes go up; they are slots of variables, never of parameters, and precisely of
those variables that have an initial value; and where a slot is both written and read, the write
comes first. -/
theorem lower_singleAssignment (h : decl.lower resolver maxLocals = .ok f) :
    let code := Instruction.flatSeq f.body
    let declared := Stmt.declarations decl.body.stmts
    f.paramCount = decl.prototype.params.length ∧
    f.locals.size = f.paramCount + declared.length ∧
    (Instruction.writes f.body).Pairwise (· < ·) ∧
    (∀ slot, .localSet slot ∈ code → f.paramCount ≤ slot ∧ slot < f.locals.size) ∧
    (∀ slot, .localSet slot ∈ code ↔
      ∃ k v, declared[k]? = some v ∧ v.init.isSome ∧ slot = f.paramCount + k) ∧
    ∀ read write slot : Nat, code[read]? = some (Instruction.localGet slot) →
      code[write]? = some (Instruction.localSet slot) → write < read := by
  intro code declared
  obtain ⟨result, -, ⟨hparams, hbody, -⟩⟩ := lowers_of_lower h
  rename_i signature tableParams table body
  have hcount : tableParams.slotCount = decl.prototype.params.length :=
    hparams.slotCount_eq.trans (Nat.zero_add _)
  have hsize : table.slots.size = decl.prototype.params.length + declared.length := by
    rw [← hcount]
    exact hbody.slotCount_eq
  have hwritten : ∀ slot, .localSet slot ∈ code ↔
      slot ∈ VarDecl.initializedSlots decl.prototype.params.length declared := by
    intro slot
    have hend : Instruction.writes [.endSeq] = [] := rfl
    rw [← hcount, ← hbody.writes_eq, ← Instruction.mem_writes_iff, Instruction.writes_append, hend,
      List.append_nil]
  have htable := hparams.wellTyped ScopeTable.wellTyped_empty
  have hfresh : Instruction.Fresh (body ++ [.endSeq]) :=
    (hbody.fresh htable).append_of_writes_eq_nil (.single rfl) rfl
  refine ⟨rfl, hsize, hfresh.pairwise_writes, ?_, ?_, ?_⟩
  · intro slot hslot
    rw [hsize]
    exact VarDecl.bounds_of_mem_initializedSlots ((hwritten slot).1 hslot)
  · intro slot
    rw [hwritten, VarDecl.mem_initializedSlots_iff]
  · exact fun read write slot => hfresh.write_lt_read

/-- `f(a) { let u; let x = { let y = a; let x = y + u; x }; { let y; y }; x }`: the slots are those
of `a`, `u`, the first `y`, the inner `x`, the outer `x` and the second `y`. -/
def innerFirst : FunctionDecl where
  name := ⟨"f", ⟨1, 1, 1⟩⟩
  prototype := ⟨[⟨⟨"a", ⟨1, 3, 1⟩⟩, none, ⟨1, 3, 1⟩⟩], none, ⟨1, 2, 3⟩⟩
  body := ⟨[
    .varDecl ⟨⟨"u", ⟨2, 5, 1⟩⟩, none, none, false, ⟨2, 1, 6⟩⟩,
    .varDecl ⟨⟨"x", ⟨3, 5, 1⟩⟩, none,
      some (.block ⟨[
        .varDecl ⟨⟨"y", ⟨4, 9, 1⟩⟩, none, some (.path ⟨"a", ⟨4, 13, 1⟩⟩ ⟨4, 13, 1⟩), false,
          ⟨4, 5, 10⟩⟩,
        .varDecl ⟨⟨"x", ⟨5, 9, 1⟩⟩, none,
          some (.binary (.path ⟨"y", ⟨5, 13, 1⟩⟩ ⟨5, 13, 1⟩) .add
            (.path ⟨"u", ⟨5, 17, 1⟩⟩ ⟨5, 17, 1⟩) ⟨5, 13, 5⟩), false, ⟨5, 5, 14⟩⟩,
        .expr (.path ⟨"x", ⟨6, 5, 1⟩⟩ ⟨6, 5, 1⟩) ⟨6, 5, 1⟩], ⟨3, 9, 1⟩⟩),
      false, ⟨3, 1, 9⟩⟩,
    .expr (.block ⟨[
      .varDecl ⟨⟨"y", ⟨8, 9, 1⟩⟩, none, none, false, ⟨8, 5, 6⟩⟩,
      .expr (.path ⟨"y", ⟨9, 5, 1⟩⟩ ⟨9, 5, 1⟩) ⟨9, 5, 1⟩], ⟨7, 1, 1⟩⟩) ⟨7, 1, 1⟩,
    .expr (.path ⟨"x", ⟨11, 1, 1⟩⟩ ⟨11, 1, 1⟩) ⟨11, 1, 1⟩], ⟨1, 6, 1⟩⟩
  span := ⟨1, 1, 6⟩

/-- There are six locals.  The variables without initial value have the slots `1` and `5`, which are
read and never written, and the others have theirs from `2` to `4`. -/
theorem lower_singleAssignment_innerFirst :
    ∃ f, innerFirst.lower .numeric 6 = .ok f ∧ f.locals.size = 6 ∧
      Instruction.writes f.body = [2, 3, 4] ∧
      .localSet 1 ∉ Instruction.flatSeq f.body ∧
      ∀ read write slot : Nat,
        (Instruction.flatSeq f.body)[read]? = some (Instruction.localGet slot) →
        (Instruction.flatSeq f.body)[write]? = some (Instruction.localSet slot) → write < read := by
  obtain ⟨f, hf, hwrites⟩ : ∃ f, innerFirst.lower .numeric 6 = .ok f ∧
      Instruction.writes f.body = [2, 3, 4] := by
    constructor
    constructor
    · with_unfolding_all rfl
    · rfl
  obtain ⟨hparams, hsize, -, -, hwritten, horder⟩ := lower_singleAssignment hf
  rw [hparams] at hsize hwritten
  refine ⟨f, hf, hsize, hwrites, ?_, horder⟩
  -- the slot `1` is that of `u`
  rw [hwritten]
  rintro ⟨k, v, hv, hinit, hk⟩
  obtain rfl : k = 0 := by
    rw [show innerFirst.prototype.params.length = 1 from rfl] at hk
    omega
  cases hv
  cases hinit

end FunctionDecl

end WasmCodegen
