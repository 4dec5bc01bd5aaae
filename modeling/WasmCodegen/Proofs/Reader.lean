import WasmCodegen.Binary.Leb128
import Mathlib.Algebra.Group.Int.Defs
import Mathlib.Algebra.Group.Nat.Defs
import Mathlib.Data.List.Forall2

/-!
# Reading bytes

A reader takes a value off the front of a sequence of bytes and hands on the rest, or refuses the
bytes.  `Reads p bytes a` says that `p` takes exactly `bytes` off whatever follows them, and makes
`a` of them.  Because it holds for every rest, what is read piece by piece can be read in a row
(`Reads.bind`), and the lemmas below say this for repeated pieces, counted ones and pieces that
come with their size.

Numbers have a limit of bytes: five are enough for 32 bits.
-/

namespace WasmCodegen

/-- A reader of values. -/
abbrev Reader := StateT Bytes Option

namespace Reader

variable {α β : Type}

/-- Reads a byte. -/
def byte : Reader UInt8
  | [] => none
  | b :: rest => some (b, rest)

/-- Reads so many bytes. -/
def take (n : Nat) : Reader Bytes := fun bytes =>
  if n ≤ bytes.length then some (bytes.take n, bytes.drop n) else none

/-- Takes no byte; a decision about what has been read. -/
def lift (answer : Option α) : Reader α := fun bytes => answer.map (·, bytes)

/-- Reads so many values in a row. -/
def times (p : Reader α) : Nat → Reader (List α)
  | 0 => pure []
  | n + 1 => do return (← p) :: (← times p n)

/-- The value that all of the bytes make. -/
def all (p : Reader α) (bytes : Bytes) : Option α :=
  match p bytes with
  | some (a, []) => some a
  | _ => none

/-- Reads values until no byte is left, at most `limit` of them. -/
def many (p : Reader α) : (limit : Nat) → Bytes → Option (List α)
  | _, [] => some []
  | 0, _ :: _ => none
  | limit + 1, b :: bytes => do
    let (a, rest) ← p (b :: bytes)
    return a :: (← many p limit rest)

/-! ## Numbers -/

/-- Reads an unsigned number of at most `limit` bytes. -/
def unsigned : (limit : Nat) → Reader Nat
  | 0 => failure
  | limit + 1 => do
    let b ← byte
    if b.toNat < 128 then
      return b.toNat
    else
      return b.toNat - 128 + 128 * (← unsigned limit)

/-- Reads a signed number of at most `limit` bytes.  The last byte shows the sign. -/
def signed : (limit : Nat) → Reader Int
  | 0 => failure
  | limit + 1 => do
    let b ← byte
    if b.toNat < 64 then
      return b.toNat
    else if b.toNat < 128 then
      return b.toNat - 128
    else
      return b.toNat - 128 + 128 * (← signed limit)

/-- Reads an unsigned number of 32 bits. -/
def word : Reader Nat := do
  let n ← unsigned 5
  if n < UInt32.size then return n else failure

/-- Reads a signed number of 32 bits. -/
def signedWord : Reader Int32 := do
  let n ← signed 5
  if Int32.minValue.toInt ≤ n ∧ n ≤ Int32.maxValue.toInt then
    return Int32.ofInt n
  else
    failure

/-! ## Counted and sized pieces -/

/-- Reads a count and that many values. -/
def vector (p : Reader α) : Reader (List α) := do
  times p (← word)

/-- Reads a size and a value that takes exactly so many bytes. -/
def sized (p : Reader α) : Reader α := do
  let content ← take (← word)
  lift (p.all content)

end Reader

/-! ## What readers read -/

/-- The reader takes these bytes, whatever follows them, and makes `a` of them. -/
def Reads {α : Type} (p : Reader α) (bytes : Bytes) (a : α) : Prop :=
  ∀ rest, p (bytes ++ rest) = some (a, rest)

namespace Reads

variable {α β : Type} {p : Reader α} {g : α → Reader β} {bytes bytes' : Bytes} {a : α} {b : β}

theorem pure (a : α) : Reads (Pure.pure a) [] a := fun _ => rfl

/-- Two pieces in a row. -/
theorem bind (h : Reads p bytes a) (h' : Reads (g a) bytes' b) :
    Reads (p >>= g) (bytes ++ bytes') b := by
  intro rest
  rw [List.append_assoc]
  change (p (bytes ++ (bytes' ++ rest))).bind (fun next => g next.1 next.2) = some (b, rest)
  rw [h, Option.bind_some, h']

/-- What follows a piece takes no byte. -/
theorem bind_nil (h : Reads p bytes a) (h' : Reads (g a) [] b) : Reads (p >>= g) bytes b := by
  have hbind := h.bind h'
  rwa [List.append_nil] at hbind

theorem map (h : Reads p bytes a) (f : α → β) : Reads (do return f (← p)) bytes (f a) :=
  h.bind_nil (pure (f a))

theorem lift {answer : Option α} (h : answer = some a) : Reads (Reader.lift answer) [] a := by
  subst h
  exact fun _ => rfl

theorem all (h : Reads p bytes a) : p.all bytes = some a := by
  have hbytes := h []
  rw [List.append_nil] at hbytes
  rw [Reader.all, hbytes]

theorem byte (b : UInt8) : Reads Reader.byte [b] b := fun _ => rfl

theorem take (bytes : Bytes) : Reads (Reader.take bytes.length) bytes bytes := by
  intro rest
  rw [Reader.take, if_pos (by simp), List.take_left, List.drop_left]

/-- Pieces of one kind in a row. -/
theorem times {pieces : List Bytes} {items : List α} (h : List.Forall₂ (Reads p) pieces items) :
    Reads (Reader.times p items.length) pieces.flatten items := by
  induction h with
  | nil => exact pure []
  | cons hpiece _ ih =>
    rw [List.flatten_cons]
    exact hpiece.bind (ih.bind_nil (pure _))

/-- Pieces of one kind up to the end.  None of them is empty, so there are no more pieces than
bytes. -/
theorem many {pieces : List Bytes} {items : List α} (h : List.Forall₂ (Reads p) pieces items)
    (hne : ∀ piece ∈ pieces, piece ≠ []) {limit : Nat} (hlimit : pieces.flatten.length ≤ limit) :
    p.many limit pieces.flatten = some items := by
  induction h generalizing limit with
  | nil => rw [List.flatten_nil, Reader.many]
  | @cons piece item pieces items hpiece _ ih =>
    obtain ⟨b, piece, rfl⟩ := List.exists_cons_of_ne_nil (hne piece List.mem_cons_self)
    rw [List.flatten_cons, List.cons_append, List.length_cons] at hlimit
    cases limit with
    | zero => omega
    | succ limit =>
      have hlength : pieces.flatten.length ≤ limit := by
        rw [List.length_append] at hlimit
        omega
      have hrest := ih (fun piece hmem => hne piece (List.mem_cons_of_mem _ hmem)) hlength
      have hfirst := hpiece pieces.flatten
      rw [List.flatten_cons, List.cons_append, Reader.many]
      rw [List.cons_append] at hfirst
      rw [hfirst]
      simp [hrest]

/-! ### Numbers -/

theorem toNat_ofNat {n : Nat} (h : n < 256) : (UInt8.ofNat n).toNat = n :=
  UInt8.toNat_ofNat_of_lt h

/-- An unsigned number that the limit has room for. -/
theorem unsigned {limit n : Nat} (h : n < 128 ^ (limit + 1)) :
    Reads (Reader.unsigned (limit + 1)) (Leb128.unsigned n) n := by
  induction limit generalizing n with
  | zero =>
    rw [Leb128.unsigned, if_pos (by omega)]
    refine (byte _).bind_nil ?_
    rw [toNat_ofNat (by omega), if_pos (by omega)]
    exact pure n
  | succ limit ih =>
    rw [Nat.pow_succ] at h
    rw [Leb128.unsigned]
    split
    · refine (byte _).bind_nil ?_
      rw [toNat_ofNat (by omega), if_pos (by omega)]
      exact pure n
    · refine (byte _).bind ?_
      rw [toNat_ofNat (by omega), if_neg (by omega)]
      have hhigh : n / 128 < 128 ^ (limit + 1) := by omega
      have hvalue : n % 128 + 128 - 128 + 128 * (n / 128) = n := by omega
      have hread := (ih hhigh).map fun high => n % 128 + 128 - 128 + 128 * high
      rwa [hvalue] at hread

/-- A last byte, which shows the sign. -/
theorem signed_last {limit : Nat} {n : Int} (h : -64 ≤ n ∧ n < 64) :
    Reads (Reader.signed (limit + 1)) [UInt8.ofNat (n % 128).toNat] n := by
  refine (byte _).bind_nil ?_
  rw [toNat_ofNat (by omega)]
  by_cases hsign : 0 ≤ n
  · have hvalue : ((n % 128).toNat : Int) = n := by omega
    rw [if_pos (by omega), hvalue]
    exact pure n
  · have hvalue : ((n % 128).toNat : Int) - 128 = n := by omega
    rw [if_neg (by omega), if_pos (by omega), hvalue]
    exact pure n

/-- A signed number that the limit has room for. -/
theorem signed {limit : Nat} {n : Int} (h : -(64 * 128 ^ limit) ≤ n ∧ n < 64 * 128 ^ limit) :
    Reads (Reader.signed (limit + 1)) (Leb128.signed n) n := by
  induction limit generalizing n with
  | zero =>
    rw [Leb128.signed, if_pos (by omega)]
    exact signed_last (by omega)
  | succ limit ih =>
    rw [Int.pow_succ] at h
    rw [Leb128.signed]
    split
    · rename_i hlast
      exact signed_last hlast
    · refine (byte _).bind ?_
      rw [toNat_ofNat (by omega), if_neg (by omega), if_neg (by omega)]
      have hhigh : -(64 * 128 ^ limit) ≤ n / 128 ∧ n / 128 < 64 * 128 ^ limit := by omega
      have hvalue : (((n % 128).toNat + 128 : Nat) : Int) - 128 + 128 * (n / 128) = n := by omega
      have hread := (ih hhigh).map fun high =>
        (((n % 128).toNat + 128 : Nat) : Int) - 128 + 128 * high
      rwa [hvalue] at hread

/-- The limits are those of 32 bits. -/
theorem word {n : Nat} (h : n < UInt32.size) : Reads Reader.word (Leb128.unsigned n) n := by
  have hlimit : n < 128 ^ 5 := Nat.lt_trans h (by decide)
  refine (unsigned hlimit).bind_nil ?_
  rw [if_pos h]
  exact pure n

theorem signedWord (n : Int32) : Reads Reader.signedWord (Leb128.signed n.toInt) n := by
  have hlow := n.minValue_le_toInt
  have hhigh := n.toInt_le
  have hlimit : -(64 * 128 ^ 4) ≤ n.toInt ∧ n.toInt < 64 * 128 ^ 4 :=
    ⟨Int.le_trans (by decide) hlow, Int.lt_of_le_of_lt hhigh (by decide)⟩
  refine (signed hlimit).bind_nil ?_
  rw [if_pos ⟨hlow, hhigh⟩, Int32.ofInt_toInt]
  exact pure n

/-! ### Counted and sized pieces -/

theorem vector {pieces : List Bytes} {items : List α} (h : List.Forall₂ (Reads p) pieces items)
    (hlength : items.length < UInt32.size) :
    Reads (Reader.vector p) (Leb128.unsigned items.length ++ pieces.flatten) items :=
  (word hlength).bind (times h)

theorem sized (h : p.all bytes = some a) (hlength : bytes.length < UInt32.size) :
    Reads (Reader.sized p) (Leb128.unsigned bytes.length ++ bytes) a :=
  (word hlength).bind ((take bytes).bind_nil (lift h))

end Reads

end WasmCodegen
