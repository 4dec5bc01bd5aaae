import Mathlib.Data.List.Induction
import WasmCodegen.Proofs.Generation

/-!
# Interning

A signature table is a list of signatures beside an index.  `SignatureTable.Indexed` says that the
two agree: the index has the listed signatures and no others, each with its position.  Interning
keeps them in agreement, so the list never has a signature twice, and interning a list of signatures
keeps the first occurrence of each in place (`SignatureTable.types_ofList`).  A signature that is
listed is found at one position alone, `SignatureTable.position`.

A position that was given once stays right: what is interned later goes to the end of the list.  So
the positions of all signatures can be read off the list as it is in the end
(`SignatureTable.ofList_interns`).
-/

namespace WasmCodegen

namespace SignatureTable

/-- The index has the listed signatures and no others, each with its position. -/
def Indexed (table : SignatureTable) : Prop :=
  ∀ s position, table.index[s]? = some position ↔ table.get? position = some s

/-- Where a listed signature stands. -/
def position (table : SignatureTable) (s : Signature) : Nat := table.types.toList.idxOf s

theorem get?_eq_getElem? (table : SignatureTable) (i : Nat) :
    table.get? i = table.types.toList[i]? :=
  Array.getElem?_toList.symm

theorem get?_position {table : SignatureTable} {s : Signature} (h : s ∈ table.types.toList) :
    table.get? (table.position s) = some s := by
  rw [get?_eq_getElem?]
  exact List.getElem?_idxOf h

theorem mem_types_of_get? {table : SignatureTable} {s : Signature} {i : Nat}
    (h : table.get? i = some s) : s ∈ table.types.toList := by
  rw [get?_eq_getElem?] at h
  exact List.mem_of_getElem? h

theorem indexed_empty : empty.Indexed := by
  intro s position
  simp [empty, get?]

namespace Indexed

variable {table : SignatureTable}

theorem sound (h : table.Indexed) : table.Sound :=
  fun s position => (h s position).1

theorem position_eq (h : table.Indexed) {s : Signature} {i : Nat} (hi : table.get? i = some s) :
    table.position s = i := by
  have hposition := get?_position (mem_types_of_get? hi)
  have hindex := (h s _).2 hposition
  rw [(h s i).2 hi] at hindex
  exact (Option.some.inj hindex).symm

/-- No signature is listed twice. -/
theorem nodup (h : table.Indexed) : table.types.toList.Nodup := by
  refine List.pairwise_iff_getElem.2 ?_
  intro i j hi hj hlt heq
  have hfirst := h.position_eq ((table.get?_eq_getElem? i).trans (List.getElem?_eq_getElem hi))
  have hsecond := h.position_eq ((table.get?_eq_getElem? j).trans (List.getElem?_eq_getElem hj))
  rw [heq, hsecond] at hfirst
  exact absurd hfirst (Nat.ne_of_gt hlt)

theorem index_eq_none_iff (h : table.Indexed) (s : Signature) :
    table.index[s]? = none ↔ s ∉ table.types.toList := by
  constructor
  · intro hnone hmem
    have hindex := (h s _).2 (get?_position hmem)
    rw [hnone] at hindex
    cases hindex
  · intro hnew
    cases hindex : table.index[s]? with
    | none => rfl
    | some i => exact absurd (mem_types_of_get? (h.sound s i hindex)) hnew

/-- A new signature is appended; the others stay where they are. -/
theorem types_intern (h : table.Indexed) (s : Signature) :
    (table.intern s).2.types.toList =
      if s ∈ table.types.toList then table.types.toList else table.types.toList ++ [s] := by
  unfold SignatureTable.intern
  cases hindex : table.index[s]? with
  | none =>
    rw [if_neg ((h.index_eq_none_iff s).1 hindex)]
    exact Array.toList_push
  | some i => rw [if_pos (mem_types_of_get? (h.sound s i hindex))]

/-- Interning keeps list and index in agreement. -/
theorem intern (h : table.Indexed) (s : Signature) : (table.intern s).2.Indexed := by
  intro other position
  refine ⟨h.sound.intern s other position, ?_⟩
  intro hother
  unfold SignatureTable.intern at hother ⊢
  cases hindex : table.index[s]? with
  | some i =>
    rw [hindex] at hother
    exact (h other position).2 hother
  | none =>
    have hnew := (h.index_eq_none_iff s).1 hindex
    simp only [hindex, get?_eq_getElem?, Array.toList_push] at hother ⊢
    rw [Std.TreeMap.getElem?_insert]
    by_cases hposition : position < table.types.toList.length
    · rw [List.getElem?_append_left hposition, ← get?_eq_getElem?] at hother
      have hne : s ≠ other := fun heq => hnew (heq ▸ mem_types_of_get? hother)
      simp [hne, (h other position).2 hother]
    · rw [List.getElem?_append_right (Nat.not_lt.1 hposition), List.getElem?_singleton] at hother
      split at hother
      · rename_i hzero
        cases hother
        rw [Array.length_toList] at hposition hzero
        have hlast : position = table.types.size := by omega
        simp [hlast]
      · cases hother

end Indexed

/-- A table of interned signatures. -/
theorem indexed_ofList (signatures : List Signature) : (ofList signatures).Indexed := by
  suffices h : ∀ table : SignatureTable, table.Indexed →
      (signatures.foldl (fun table s => (table.intern s).2) table).Indexed from
    h empty indexed_empty
  induction signatures with
  | nil => exact fun table h => h
  | cons s rest ih => exact fun table h => ih _ (h.intern s)

/-- **Interning a list.**  The table lists each signature once, in the order of first use. -/
theorem types_ofList (signatures : List Signature) :
    (ofList signatures).types.toList = signatures.eraseDups := by
  induction signatures using List.reverseRecOn with
  | nil => rfl
  | append_singleton rest s ih =>
    have hlast : ofList (rest ++ [s]) = ((ofList rest).intern s).2 := by
      rw [ofList, List.foldl_append]
      rfl
    rw [hlast, (indexed_ofList rest).types_intern, ih, List.eraseDups_append]
    by_cases hs : s ∈ rest
    · simp [hs, List.removeAll]
    · simp [hs, List.removeAll, List.eraseDups_cons]

/-! ## Positions in the final list -/

theorem ofList_append_cons (before : List Signature) (s : Signature) (after : List Signature) :
    ofList (before ++ s :: after) =
      after.foldl (fun table s => (table.intern s).2) ((ofList before).intern s).2 := by
  rw [ofList, List.foldl_append, List.foldl_cons]
  rfl

theorem types_grow_foldl (table : SignatureTable) (signatures : List Signature) :
    table.types.toList <+:
      (signatures.foldl (fun table s => (table.intern s).2) table).types.toList := by
  induction signatures generalizing table with
  | nil => exact List.prefix_refl _
  | cons s rest ih => exact (table.types_grow_intern s).trans (ih (table.intern s).2)

/-- A position that was given belongs to its signature, whatever is interned after it. -/
theorem get?_ofList_append_cons (before : List Signature) (s : Signature)
    (after : List Signature) :
    (ofList (before ++ s :: after)).get? ((ofList before).intern s).1 = some s := by
  have hgiven := (indexed_ofList before).sound.get?_intern s
  rw [ofList_append_cons]
  exact get?_mono (types_grow_foldl _ after) hgiven

/-- **Interning is deduplication that keeps the order.**  However many signatures are interned into
a new table, it lists them in the order of first use, without the repetitions.  Each of them was
given its position in that list, which led to it at once and still does in the end; and the index
has the listed signatures and no others, each with its position. -/
theorem ofList_interns (signatures : List Signature) :
    (ofList signatures).types.toList = signatures.eraseDups ∧
    (∀ (before : List Signature) (s : Signature) (after : List Signature),
      signatures = before ++ s :: after →
        ((ofList before).intern s).1 = signatures.eraseDups.idxOf s ∧
        ((ofList before).intern s).2.get? ((ofList before).intern s).1 = some s ∧
        (ofList signatures).get? ((ofList before).intern s).1 = some s) ∧
    ∀ (s : Signature) (position : Nat),
      (ofList signatures).index[s]? = some position ↔
        signatures.eraseDups[position]? = some s := by
  refine ⟨types_ofList signatures, ?_, ?_⟩
  · rintro before s after rfl
    have hlater := get?_ofList_append_cons before s after
    have hposition := (indexed_ofList (before ++ s :: after)).position_eq hlater
    rw [position, types_ofList] at hposition
    exact ⟨hposition.symm, (indexed_ofList before).sound.get?_intern s, hlater⟩
  · intro s position
    rw [indexed_ofList signatures s position, get?_eq_getElem?, types_ofList]

end SignatureTable

end WasmCodegen
