import WasmCodegen.Proofs.Reader

/-!
# Numbers take as few bytes as they can

A number can be written in more groups of seven bits than it needs: an unsigned one with groups of
zeros at the end, a signed one with groups that repeat its sign.  Readers accept such bytes.  Here
it is shown that the encoders never write them: what they write is read back, whatever follows it,
and no fewer bytes are read as the same number (`Leb128.words_shortest`).

The argument is about room.  The encoders use `k + 1` bytes or less exactly for the unsigned numbers
below `128 ^ (k + 1)` and for the signed ones from `-(64 * 128 ^ k)` to below `64 * 128 ^ k`
(`Leb128.length_unsigned_le_iff`, `Leb128.length_signed_le_iff`).  A reader that has taken `k + 1`
bytes, whichever they are, has a number within the same bounds (`Reader.unsigned_bound`,
`Reader.signed_bound`).  Five bytes have room for 32 bits.
-/

namespace WasmCodegen

/-! ## Lengths -/

namespace Leb128

theorem unsigned_ne_nil (n : Nat) : unsigned n ≠ [] := by
  rw [unsigned]
  split <;> exact List.cons_ne_nil _ _

theorem signed_ne_nil (n : Int) : signed n ≠ [] := by
  rw [signed]
  split <;> exact List.cons_ne_nil _ _

/-- Unsigned numbers of at most `k + 1` bytes. -/
theorem length_unsigned_le_iff {n k : Nat} :
    (unsigned n).length ≤ k + 1 ↔ n < 128 ^ (k + 1) := by
  induction k generalizing n with
  | zero =>
    rw [unsigned]
    split
    · simpa
    · -- A byte says that more follow, so there are two at least.
      have hpos := List.length_pos_iff.2 (unsigned_ne_nil (n / 128))
      simp only [List.length_cons]
      omega
  | succ k ih =>
    rw [unsigned, Nat.pow_succ]
    split
    · have hpos : 0 < 128 ^ (k + 1) := Nat.pow_pos (by decide)
      simp only [List.length_singleton]
      omega
    · rw [List.length_cons, Nat.add_le_add_iff_right, ih]
      omega

/-- Signed numbers of at most `k + 1` bytes. -/
theorem length_signed_le_iff {n : Int} {k : Nat} :
    (signed n).length ≤ k + 1 ↔ -(64 * 128 ^ k) ≤ n ∧ n < 64 * 128 ^ k := by
  induction k generalizing n with
  | zero =>
    rw [signed]
    split
    · simpa
    · have hpos := List.length_pos_iff.2 (signed_ne_nil (n / 128))
      simp only [List.length_cons]
      omega
  | succ k ih =>
    rw [signed, Int.pow_succ]
    split
    · have hpos : (0 : Int) < 128 ^ k := Int.pow_pos (by decide)
      simp only [List.length_singleton]
      omega
    · rw [List.length_cons, Nat.add_le_add_iff_right, ih]
      omega

end Leb128

/-! ## What readers have taken -/

namespace Reader

variable {α β : Type} {bytes rest : Bytes}

theorem bind_eq_some_iff {p : Reader α} {g : α → Reader β} {b : β} :
    (p >>= g) bytes = some (b, rest) ↔
      ∃ a left, p bytes = some (a, left) ∧ g a left = some (b, rest) := by
  change (p bytes).bind (fun next => g next.1 next.2) = some (b, rest) ↔ _
  rw [Option.bind_eq_some_iff, Prod.exists]

theorem pure_eq_some_iff {a b : α} :
    (pure a : Reader α) bytes = some (b, rest) ↔ a = b ∧ bytes = rest := by
  change some (a, bytes) = some (b, rest) ↔ _
  simp

theorem byte_eq_some_iff {b : UInt8} : byte bytes = some (b, rest) ↔ bytes = b :: rest := by
  cases bytes with
  | nil => simp [byte]
  | cons first tail => simp [byte]

/-- An unsigned number is read from one byte, or from one byte more than its higher bits. -/
theorem unsigned_cases {limit n : Nat} (h : unsigned (limit + 1) bytes = some (n, rest)) :
    (∃ b, bytes = b :: rest ∧ n < 128) ∨
      ∃ b tail, bytes = b :: tail ∧ unsigned limit tail = some (n / 128, rest) := by
  obtain ⟨b, tail, hb, hread⟩ := bind_eq_some_iff.1 h
  obtain rfl := byte_eq_some_iff.1 hb
  split at hread
  · rename_i hlast
    obtain ⟨rfl, rfl⟩ := pure_eq_some_iff.1 hread
    exact .inl ⟨b, rfl, hlast⟩
  · obtain ⟨high, left, hhigh, hread⟩ := bind_eq_some_iff.1 hread
    obtain ⟨rfl, rfl⟩ := pure_eq_some_iff.1 hread
    have hlow : (b.toNat - 128 + 128 * high) / 128 = high := by
      have hb := b.toNat_lt
      omega
    exact .inr ⟨b, tail, rfl, by rwa [hlow]⟩

/-- A signed number is read from one byte, or from one byte more than its higher bits. -/
theorem signed_cases {limit : Nat} {n : Int} (h : signed (limit + 1) bytes = some (n, rest)) :
    (∃ b, bytes = b :: rest ∧ -64 ≤ n ∧ n < 64) ∨
      ∃ b tail, bytes = b :: tail ∧ signed limit tail = some (n / 128, rest) := by
  obtain ⟨b, tail, hb, hread⟩ := bind_eq_some_iff.1 h
  obtain rfl := byte_eq_some_iff.1 hb
  split at hread
  · obtain ⟨rfl, rfl⟩ := pure_eq_some_iff.1 hread
    exact .inl ⟨b, rfl, by omega, by omega⟩
  · split at hread
    · obtain ⟨rfl, rfl⟩ := pure_eq_some_iff.1 hread
      exact .inl ⟨b, rfl, by omega, by omega⟩
    · obtain ⟨high, left, hhigh, hread⟩ := bind_eq_some_iff.1 hread
      obtain ⟨rfl, rfl⟩ := pure_eq_some_iff.1 hread
      have hlow : ((b.toNat : Int) - 128 + 128 * high) / 128 = high := by
        have hb := b.toNat_lt
        omega
      exact .inr ⟨b, tail, rfl, by rwa [hlow]⟩

/-- Whichever bytes an unsigned number was read from, they have room for it. -/
theorem unsigned_bound {limit n : Nat} (h : unsigned limit bytes = some (n, rest)) :
    ∃ k, bytes.length = rest.length + (k + 1) ∧ n < 128 ^ (k + 1) := by
  induction limit generalizing n bytes with
  | zero => cases h
  | succ limit ih =>
    obtain ⟨b, rfl, hlast⟩ | ⟨b, tail, rfl, hhigh⟩ := unsigned_cases h
    · exact ⟨0, rfl, hlast⟩
    · obtain ⟨k, hlength, hroom⟩ := ih hhigh
      refine ⟨k + 1, congrArg Nat.succ hlength, ?_⟩
      rw [Nat.pow_succ]
      omega

/-- Whichever bytes a signed number was read from, they have room for it. -/
theorem signed_bound {limit : Nat} {n : Int} (h : signed limit bytes = some (n, rest)) :
    ∃ k, bytes.length = rest.length + (k + 1) ∧ -(64 * 128 ^ k) ≤ n ∧ n < 64 * 128 ^ k := by
  induction limit generalizing n bytes with
  | zero => cases h
  | succ limit ih =>
    obtain ⟨b, rfl, hlast⟩ | ⟨b, tail, rfl, hhigh⟩ := signed_cases h
    · exact ⟨0, rfl, hlast⟩
    · obtain ⟨k, hlength, hroom⟩ := ih hhigh
      refine ⟨k + 1, congrArg Nat.succ hlength, ?_⟩
      rw [Int.pow_succ]
      omega

/-- What is read as a number of 32 bits can be read as any number of at most five bytes. -/
theorem unsigned_of_word {n : Nat} (h : word bytes = some (n, rest)) :
    unsigned 5 bytes = some (n, rest) := by
  obtain ⟨m, left, hread, h⟩ := bind_eq_some_iff.1 h
  split at h
  · obtain ⟨rfl, rfl⟩ := pure_eq_some_iff.1 h
    exact hread
  · cases h

theorem signed_of_signedWord {n : Int32} (h : signedWord bytes = some (n, rest)) :
    signed 5 bytes = some (n.toInt, rest) := by
  obtain ⟨m, left, hread, h⟩ := bind_eq_some_iff.1 h
  split at h
  · rename_i hm
    obtain ⟨rfl, rfl⟩ := pure_eq_some_iff.1 h
    rw [Int32.toInt_ofInt_of_le hm.1 (Int.lt_of_le_of_lt hm.2 (by decide))]
    exact hread
  · cases h

end Reader

/-! ## Shortest bytes -/

/-- The reader makes `a` of these bytes, whatever follows them, and it never makes `a` of fewer. -/
structure ReadsShortest {α : Type} (p : Reader α) (bytes : Bytes) (a : α) : Prop where
  reads : Reads p bytes a
  length_le : ∀ other rest, p other = some (a, rest) → bytes.length + rest.length ≤ other.length

namespace ReadsShortest

/-- An unsigned number is written in the fewest bytes, and read by every reader that goes so far. -/
theorem unsigned {limit n : Nat} (h : (Leb128.unsigned n).length ≤ limit) :
    ReadsShortest (Reader.unsigned limit) (Leb128.unsigned n) n where
  reads := by
    cases limit with
    | zero => exact absurd (List.length_eq_zero_iff.1 (Nat.le_zero.1 h)) (Leb128.unsigned_ne_nil n)
    | succ limit => exact .unsigned (Leb128.length_unsigned_le_iff.1 h)
  length_le := by
    intro other rest hread
    -- The bytes taken have room for the number, so the encoder needs no more of them.
    obtain ⟨k, hlength, hroom⟩ := Reader.unsigned_bound hread
    have hle := Leb128.length_unsigned_le_iff.2 hroom
    omega

/-- A signed number is written in the fewest bytes, and read by every reader that goes so far. -/
theorem signed {limit : Nat} {n : Int} (h : (Leb128.signed n).length ≤ limit) :
    ReadsShortest (Reader.signed limit) (Leb128.signed n) n where
  reads := by
    cases limit with
    | zero => exact absurd (List.length_eq_zero_iff.1 (Nat.le_zero.1 h)) (Leb128.signed_ne_nil n)
    | succ limit => exact .signed (Leb128.length_signed_le_iff.1 h)
  length_le := by
    intro other rest hread
    obtain ⟨k, hlength, hroom⟩ := Reader.signed_bound hread
    have hle := Leb128.length_signed_le_iff.2 hroom
    omega

end ReadsShortest

namespace Leb128

theorem length_unsigned_le_five (n : UInt32) : (unsigned n.toNat).length ≤ 5 :=
  length_unsigned_le_iff.2 (Nat.lt_trans n.toNat_lt (by decide))

theorem length_signed_le_five (n : Int32) : (signed n.toInt).length ≤ 5 :=
  length_signed_le_iff.2
    ⟨Int.le_trans (by decide) n.minValue_le_toInt, Int.lt_of_le_of_lt n.toInt_le (by decide)⟩

/-- **Numbers of 32 bits are written in as few bytes as they can be.**  An unsigned one takes at
most five bytes; they are read back as the number, whatever follows them, and no fewer bytes are.
The same holds of a signed one.  It does not matter whether the reader is that of the format or one
that goes on for any number of bytes. -/
theorem words_shortest :
    (∀ n : UInt32, (unsigned n.toNat).length ≤ 5 ∧
      ReadsShortest Reader.word (unsigned n.toNat) n.toNat ∧
      ∀ limit, 5 ≤ limit →
        ReadsShortest (Reader.unsigned limit) (unsigned n.toNat) n.toNat) ∧
    ∀ n : Int32, (signed n.toInt).length ≤ 5 ∧
      ReadsShortest Reader.signedWord (signed n.toInt) n ∧
      ∀ limit, 5 ≤ limit →
        ReadsShortest (Reader.signed limit) (signed n.toInt) n.toInt := by
  refine ⟨fun n => ?_, fun n => ?_⟩
  · have hfive := length_unsigned_le_five n
    refine ⟨hfive, ⟨.word n.toNat_lt, ?_⟩, ?_⟩
    · intro other rest hread
      exact (ReadsShortest.unsigned hfive).length_le other rest (Reader.unsigned_of_word hread)
    · intro limit hlimit
      exact .unsigned (Nat.le_trans hfive hlimit)
  · have hfive := length_signed_le_five n
    refine ⟨hfive, ⟨.signedWord n, ?_⟩, ?_⟩
    · intro other rest hread
      exact (ReadsShortest.signed hfive).length_le other rest (Reader.signed_of_signedWord hread)
    · intro limit hlimit
      exact .signed (Nat.le_trans hfive hlimit)

/-- One byte has no room for 64, as its seventh bit is the sign.  Readers take padding, such as the
third byte here, which the encoder would not write. -/
example :
    Reader.signed 5 [0x40] = some (-64, []) ∧ Reader.signed 5 [0xc0, 0x00] = some (64, []) ∧
      Reader.signed 5 [0xc0, 0x80, 0x00] = some (64, []) := by
  decide

end Leb128

end WasmCodegen
