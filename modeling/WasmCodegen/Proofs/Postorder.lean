import WasmCodegen.Proofs.LoweringSessions

/-!
# Arithmetic in postorder

An expression of integers, variables and the four operations is a tree, and its code is a list.
`Lowering.lowerExpr_postorder` says which list: the nodes of the tree in postorder, each as one
instruction.  It also says that nothing is lost on the way, so that there is only one tree that is
lowered to this code where the same variables are in sight.

## The argument

Two things could be lost: the shape of the tree, and what stands at its nodes.  They are dealt with
apart, over a list of `Symbol`s between the tree and the code.

The shape is read off the list of symbols with a pile of trees (`Formula.read`).  A number or a name
is put on the pile, and an operator takes the two trees on top.  What the symbols of a tree add to a
pile is the tree (`Formula.foldl_read_postorder`), so different trees have different lists.

A node can be told from its instruction: a literal has a word only if it is in the range where words
and integers correspond, and different names in sight have different slots, which is known of the
tables that are reached in a session (`Frame.Consistent`).
-/

namespace WasmCodegen

/-! ## Trees as lists of symbols -/

/-- An expression of arithmetic, without the places in the text. -/
inductive Formula where
  | int (value : Int)
  | path (name : String)
  | binary (left : Formula) (op : BinaryOp) (right : Formula)
deriving DecidableEq

/-- What stands at a node of a formula. -/
inductive Symbol where
  | int (value : Int)
  | path (name : String)
  | op (op : BinaryOp)
deriving DecidableEq

namespace Formula

/-- The symbols of a formula: those of the left operand, those of the right operand, and the
operator. -/
def postorder : Formula → List Symbol
  | .int value => [.int value]
  | .path name => [.path name]
  | .binary left op right => left.postorder ++ (right.postorder ++ [.op op])

/-- The pile of formulas after one more symbol.  An operator takes its operands off the pile; where
they are missing, it is ignored. -/
def read : List Formula → Symbol → List Formula
  | pile, .int value => .int value :: pile
  | pile, .path name => .path name :: pile
  | right :: left :: pile, .op op => .binary left op right :: pile
  | pile, .op _ => pile

/-- To read the symbols of a formula is to put the formula on the pile. -/
theorem foldl_read_postorder (t : Formula) (pile : List Formula) :
    t.postorder.foldl read pile = t :: pile := by
  induction t generalizing pile with
  | int value => rfl
  | path name => rfl
  | binary left op right ihleft ihright =>
    rw [postorder, List.foldl_append, List.foldl_append, ihleft, ihright]
    rfl

theorem postorder_injective : Function.Injective postorder := by
  intro t t' h
  have hread : [t] = [t'] :=
    calc [t] = t.postorder.foldl read [] := (foldl_read_postorder t []).symm
      _ = t'.postorder.foldl read [] := by rw [h]
      _ = [t'] := foldl_read_postorder t' []
  exact List.singleton_inj.1 hread

end Formula

/-! ## Expressions of arithmetic -/

/-- The formula that an expression is, if it is built from integers, names and the four operations
only.  Expressions with the same formula are equal except for their spans. -/
def Expr.formula? : Expr → Option Formula
  | .literal (.int value) _ => some (.int value)
  | .path ident _ => some (.path ident.name)
  | .binary left op right _ =>
    if op.isArithmetic then
      return .binary (← left.formula?) op (← right.formula?)
    else
      none
  | _ => none

theorem Expr.formula?_binary_eq_some {left right : Expr} {op : BinaryOp} {span : Span}
    {t : Formula} (h : (Expr.binary left op right span).formula? = some t) :
    ∃ tLeft tRight, left.formula? = some tLeft ∧ right.formula? = some tRight ∧
      t = .binary tLeft op tRight := by
  by_cases hop : op.isArithmetic
  · simp only [formula?, hop, if_true, Option.bind_eq_bind, Option.bind_eq_some_iff] at h
    obtain ⟨tLeft, hleft, tRight, hright, h⟩ := h
    exact ⟨tLeft, tRight, hleft, hright, (Option.some.inj h).symm⟩
  · simp [formula?, hop] at h

/-! ## Symbols as instructions -/

/-- `s.LowersTo table i`: with the variables of the table in sight, the instruction for the symbol
is `i`. -/
inductive Symbol.LowersTo (table : ScopeTable) : Symbol → Instruction → Prop
  | int {value : Int} (hlow : -2147483648 ≤ value) (hhigh : value ≤ 2147483647) :
      LowersTo table (.int value) (.const (Int32.ofInt value))
  | path {name : String} {binding : Binding} (h : table.lookup name = some binding) :
      LowersTo table (.path name) (.localGet binding.slot)
  | add : LowersTo table (.op .add) (.arith .add)
  | sub : LowersTo table (.op .sub) (.arith .sub)
  | mul : LowersTo table (.op .mul) (.arith .mul)
  | div : LowersTo table (.op .div) (.arith .divS)

namespace Symbol

variable {table : ScopeTable}

theorem LowersTo.of_word {value : Int} {word : Int32} (h : Lowering.word? value = some word) :
    LowersTo table (.int value) (.const word) := by
  obtain ⟨hlow, hhigh⟩ := Lowering.exists_word_iff.1 ⟨word, h⟩
  obtain ⟨-, hword⟩ := Option.ite_none_right_eq_some.1 h
  cases hword
  exact .int hlow hhigh

theorem LowersTo.of_arith {op : BinaryOp} {arith : ArithOp} (h : op.arith? = some arith) :
    LowersTo table (.op op) (.arith arith) := by
  cases op <;> cases h <;> constructor

/-- Only the integer of a word is loaded with it. -/
theorem LowersTo.eq_int {s : Symbol} {word : Int32} (h : LowersTo table s (.const word)) :
    s = .int word.toInt := by
  cases h with
  | @int value hlow hhigh => rw [Int32.toInt_ofInt_of_le hlow (by omega)]

theorem LowersTo.exists_binding {s : Symbol} {slot : Nat} (h : LowersTo table s (.localGet slot)) :
    ∃ name b, s = .path name ∧ table.lookup name = some b ∧ b.slot = slot := by
  cases h with
  | path hlookup => exact ⟨_, _, rfl, hlookup, rfl⟩

/-- Where different names have different slots, the instruction tells the symbol. -/
theorem leftUnique_lowersTo
    (hslots : ∀ {name name' b b'}, table.lookup name = some b → table.lookup name' = some b' →
      b.slot = b'.slot → name = name') :
    Relator.LeftUnique (LowersTo table) := by
  intro s s' i h h'
  cases i with
  | const word => rw [h.eq_int, h'.eq_int]
  | localGet slot =>
    obtain ⟨name, b, rfl, hname, hb⟩ := h.exists_binding
    obtain ⟨name', b', rfl, hname', hb'⟩ := h'.exists_binding
    rw [hslots hname hname' (hb.trans hb'.symm)]
  | arith op => cases op <;> cases h <;> cases h' <;> rfl
  | localSet _ | drop | block _ _ | endSeq => cases h

end Symbol

/-! ## The code of an expression -/

/-- Arithmetic declares nothing, and its code is its symbols in postorder. -/
theorem LowersExpr.postorder {ctx : Context} {table table' : ScopeTable} {e : Expr}
    {code : List Instruction} {result : Option ValueType} {t : Formula} :
    LowersExpr ctx table e code result table' → e.formula? = some t →
      table' = table ∧ List.Forall₂ (Symbol.LowersTo table) t.postorder code
  | .literal hword, ht => by
    cases ht
    exact ⟨rfl, .cons (.of_word hword) .nil⟩
  | .path hlookup, ht => by
    cases ht
    exact ⟨rfl, .cons (.path hlookup) .nil⟩
  | .binary harith hleft hright, ht => by
    obtain ⟨tLeft, tRight, htLeft, htRight, rfl⟩ := Expr.formula?_binary_eq_some ht
    obtain ⟨rfl, hcodeLeft⟩ := hleft.postorder htLeft
    obtain ⟨rfl, hcodeRight⟩ := hright.postorder htRight
    have hcode := List.rel_append hcodeRight (.cons (Symbol.LowersTo.of_arith harith) .nil)
    exact ⟨rfl, List.rel_append hcodeLeft hcode⟩
  | .block _ _, ht => by cases ht

namespace Lowering

/-- **Arithmetic is lowered to postorder.**  Take a table of variables that can be reached in a
session, and an expression of arithmetic that is lowered there.  The code that is added is the
expression's symbols in postorder, each as one instruction; and every expression of arithmetic that
is lowered there to the same code is the same, up to spans. -/
theorem lowerExpr_postorder {ctx : Context} {ops : List LoweringOp} {frame frame' : Frame}
    {e : Expr} {t : Formula} {result : Option ValueType}
    (hscopes : frame.scopes = (Frame.session ctx ops).scopes) (ht : e.formula? = some t)
    (h : lowerExpr ctx e frame = .ok result frame') :
    ∃ code, Emits frame frame' code ∧
      List.Forall₂ (Symbol.LowersTo frame.scopes) t.postorder code ∧
      ∀ {e₁ : Expr} {t₁ : Formula} {result₁ : Option ValueType} {frame₁ : Frame},
        e₁.formula? = some t₁ → lowerExpr ctx e₁ frame = .ok result₁ frame₁ →
          Emits frame frame₁ code → t₁ = t := by
  obtain ⟨code, hlowers, hemits⟩ := lowersExpr_of_lowerExpr e h
  obtain ⟨-, hcode⟩ := hlowers.postorder ht
  refine ⟨code, hemits, hcode, ?_⟩
  intro e₁ t₁ result₁ frame₁ ht₁ h₁ hsame
  obtain ⟨code₁, hlowers₁, hemits₁⟩ := lowersExpr_of_lowerExpr e₁ h₁
  obtain rfl : code₁ = code := List.append_cancel_left (hemits₁.symm.trans hsame)
  obtain ⟨-, hcode₁⟩ := hlowers₁.postorder ht₁
  have hsound := (Frame.sound_foldl_perform (Frame.sound_empty ctx) ops).1
  have hunique : Relator.LeftUnique (Symbol.LowersTo frame.scopes) := by
    rw [hscopes]
    exact Symbol.leftUnique_lowersTo hsound.consistent.slot_inj
  exact Formula.postorder_injective (List.left_unique_forall₂' hunique hcode₁ hcode)

/-- A function with room for three locals. -/
def threeLocals : Context := ⟨"f", 3, .numeric⟩

/-- Two variables are declared, and in a scope inside one that hides the first. -/
def hidden : Frame :=
  .session threeLocals
    [.declareLocal "a" .i32 ⟨1, 5, 1⟩, .declareLocal "b" .i32 ⟨2, 5, 1⟩, .enter,
      .declareLocal "a" .i32 ⟨3, 9, 1⟩]

/-- The expression `a - b * 2`. -/
def excess : Expr :=
  .binary (.path ⟨"a", ⟨4, 5, 1⟩⟩ ⟨4, 5, 1⟩) .sub
    (.binary (.path ⟨"b", ⟨4, 9, 1⟩⟩ ⟨4, 9, 1⟩) .mul (.literal (.int 2) ⟨4, 13, 1⟩) ⟨4, 9, 5⟩)
    ⟨4, 5, 9⟩

/-- The inner `a` is loaded, and no expression with another formula, such as `(a - b) * 2`, has the
same code. -/
theorem lowerExpr_postorder_excess :
    ∃ frame, lowerExpr threeLocals excess hidden = .ok (some .i32) frame ∧
      frame.code.toList = [.localGet 2, .localGet 1, .const 2, .arith .mul, .arith .sub] ∧
      ∀ (e : Expr) (t : Formula) (result : Option ValueType) (frame₁ : Frame),
        e.formula? = some t → lowerExpr threeLocals e hidden = .ok result frame₁ →
          frame₁.code = frame.code →
          t = .binary (.path "a") .sub (.binary (.path "b") .mul (.int 2)) := by
  obtain ⟨frame, h, hcode⟩ : ∃ frame,
      lowerExpr threeLocals excess hidden = .ok (some .i32) frame ∧
      frame.code.toList = [.localGet 2, .localGet 1, .const 2, .arith .mul, .arith .sub] := by
    constructor
    constructor
    · with_unfolding_all rfl
    · rfl
  obtain ⟨code, hemits, -, hunique⟩ := lowerExpr_postorder rfl rfl h
  refine ⟨frame, h, hcode, ?_⟩
  intro e t result frame₁ ht h₁ hsame
  refine hunique ht h₁ ?_
  rw [Emits, hsame, hemits]

end Lowering

end WasmCodegen
