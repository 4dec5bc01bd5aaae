import WasmCodegen.Proofs.CanonicalGroups
import WasmCodegen.Proofs.Fallible
import WasmCodegen.Proofs.StackTyping

/-!
# Pieces of the format come back

Every piece of the format is shown to come back: the encoder writes it, and the decoder takes
exactly what was written off whatever follows (`ComesBack`).  Pieces are put together as the
format puts them together.

The bodies are where validity matters.  Code that is typed closes every sequence with one `end`
and has no other, so the decoder finds the blocks where the encoder opened them; and its slots are
in range, so they are numbers of 32 bits.
-/

namespace WasmCodegen

/-- The bytes are written, and read back as `a`. -/
def ComesBack {α : Type} (written : Except EncodingError Bytes) (p : Reader α) (a : α) : Prop :=
  ∃ bytes, written = .ok bytes ∧ Reads p bytes a

/-! ## Entries -/

namespace Encoder

theorem count_eq_ok (what : String) {n : Nat} (h : n < UInt32.size) :
    count what n = .ok (Leb128.unsigned n) :=
  if_pos h

section

variable {α β : Type} {entry : α → Except EncodingError Bytes} {p : Reader β} {f : α → β}
  {items : List α}

/-- Entries that come back one by one come back in a row. -/
theorem mapM_comesBack (h : ∀ item ∈ items, ComesBack (entry item) p (f item)) :
    ∃ pieces, items.mapM entry = .ok pieces ∧ List.Forall₂ (Reads p) pieces (items.map f) := by
  induction items with
  | nil => exact ⟨[], rfl, .nil⟩
  | cons item items ih =>
    obtain ⟨piece, hpiece, hreadPiece⟩ := h item List.mem_cons_self
    obtain ⟨pieces, hpieces, hread⟩ := ih fun i hi => h i (List.mem_cons_of_mem _ hi)
    refine ⟨piece :: pieces, ?_, .cons hreadPiece hread⟩
    rw [Fallible.mapM_eq_ok_iff] at hpieces ⊢
    exact .cons hpiece hpieces

/-- A count and entries come back if each entry does. -/
theorem vector_comesBack (what : String) (hlength : items.length < UInt32.size)
    (h : ∀ item ∈ items, ComesBack (entry item) p (f item)) :
    ComesBack (vector what entry items) (Reader.vector p) (items.map f) := by
  obtain ⟨pieces, hpieces, hread⟩ := mapM_comesBack h
  refine ⟨Leb128.unsigned items.length ++ pieces.flatten, ?_, ?_⟩
  · rw [vector, count_eq_ok what hlength, hpieces]
    rfl
  · rw [← List.length_map (f := f)] at hlength ⊢
    exact .vector hread hlength

end

theorem typeOf?_typeByte (type : ValueType) : Decoder.typeOf? (typeByte type) = some type := by
  cases type <;> rfl

theorem reads_valueType (type : ValueType) : Reads Decoder.valueType [typeByte type] type :=
  (Reads.byte _).bind_nil (.lift (typeOf?_typeByte type))

theorem reads_expect (b : UInt8) : Reads (Decoder.expect b) [b] () := by
  refine (Reads.byte b).bind_nil ?_
  rw [if_pos rfl]
  exact .pure ()

theorem name_comesBack {s : String} (h : s.utf8ByteSize < UInt32.size) :
    ComesBack (name s) Decoder.name s := by
  refine ⟨Leb128.unsigned s.utf8ByteSize ++ s.toUTF8.data.toList, ?_, ?_⟩
  · rw [name, count_eq_ok _ h]
    rfl
  · have hread : Reads (Reader.take s.utf8ByteSize) s.toUTF8.data.toList s.toUTF8.data.toList := by
      have htake := Reads.take s.toUTF8.data.toList
      rwa [Array.length_toList] at htake
    have hstring : String.fromUTF8? ⟨s.toUTF8.data.toList.toArray⟩ = some s := by
      rw [Array.toArray_toList]
      exact dif_pos s.isValidUTF8
    exact (Reads.word h).bind (hread.bind_nil (.lift hstring))

theorem types_comesBack (what : String) {types : List ValueType}
    (h : types.length < UInt32.size) :
    ComesBack (vector what (fun type => .ok [typeByte type]) types)
      (Reader.vector Decoder.valueType) types := by
  have hback := vector_comesBack (f := id) what h fun type _ => ⟨_, rfl, reads_valueType type⟩
  rwa [List.map_id] at hback

theorem signature_comesBack {s : Signature} (hparams : s.params.length < UInt32.size)
    (hresults : s.results.length < UInt32.size) :
    ComesBack (signature s) Decoder.signature s := by
  obtain ⟨params, hparams, hreadParams⟩ := types_comesBack "parameter count" hparams
  obtain ⟨results, hresults, hreadResults⟩ := types_comesBack "result count" hresults
  refine ⟨0x60 :: params ++ results, ?_, ?_⟩
  · rw [signature, hparams, hresults]
    rfl
  · exact (reads_expect 0x60).bind (hreadParams.bind (hreadResults.bind_nil (.pure s)))

/-! ### Names by position -/

/-- The names of functions, each after its position. -/
def namesOf (functions : List Func) : List (Nat × String) :=
  functions.zipIdx.map fun entry => (entry.2, entry.1.name)

section

variable {functions : List Func} (hlength : functions.length < UInt32.size)

include hlength

theorem position_lt {f : Func} {position : Nat} (hmem : (f, position) ∈ functions.zipIdx) :
    position < UInt32.size := by
  have hposition := List.snd_lt_of_mem_zipIdx hmem
  omega

variable (hnames : ∀ f ∈ functions, f.name.utf8ByteSize < UInt32.size)

include hnames

theorem exportContent_comesBack :
    ComesBack (exportContent functions) (Reader.vector Decoder.exportEntry)
      (namesOf functions) := by
  refine vector_comesBack _ (by rwa [List.length_zipIdx]) fun (f, position) hmem => ?_
  have hposition := position_lt hlength hmem
  obtain ⟨bytes, hname, hread⟩ := name_comesBack (hnames f (List.fst_mem_of_mem_zipIdx hmem))
  refine ⟨bytes ++ 0x00 :: Leb128.unsigned position, ?_, ?_⟩
  · rw [exportEntry, hname, count_eq_ok _ hposition]
    rfl
  · exact hread.bind ((reads_expect 0x00).bind ((Reads.word hposition).bind_nil (.pure _)))

theorem names_comesBack :
    ComesBack (vector "function count" nameEntry functions.zipIdx)
      (Reader.vector Decoder.nameEntry) (namesOf functions) := by
  refine vector_comesBack _ (by rwa [List.length_zipIdx]) fun (f, position) hmem => ?_
  have hposition := position_lt hlength hmem
  obtain ⟨bytes, hname, hread⟩ := name_comesBack (hnames f (List.fst_mem_of_mem_zipIdx hmem))
  refine ⟨Leb128.unsigned position ++ bytes, ?_, ?_⟩
  · rw [nameEntry, hname, count_eq_ok _ hposition]
    rfl
  · exact (Reads.word hposition).bind (hread.bind_nil (.pure _))

end

end Encoder

/-! ## Bodies -/

namespace Decoder

/-- Sequences of at least `n` instructions are within the limit. -/
def ReadsSequence (n : Nat) (bytes : Bytes) (body : List Instruction) : Prop :=
  ∀ limit, n ≤ limit → Reads (sequence limit) bytes body

theorem readsSequence_endSeq : ReadsSequence 1 [0x0b] [.endSeq] := by
  intro limit hlimit
  obtain ⟨limit, rfl⟩ := Nat.exists_eq_add_of_le' hlimit
  refine (Reads.byte _).bind_nil ?_
  rw [if_pos rfl]
  exact .pure _

/-- An instruction with nothing inside it. -/
theorem ReadsSequence.plain {opcode : UInt8} {operand bytes : Bytes} {i : Instruction}
    {rest : List Instruction} {n : Nat} (hend : opcode ≠ 0x0b) (hblock : opcode ≠ 0x02)
    (hi : Reads (Decoder.plain opcode) operand i) (h : ReadsSequence n bytes rest) :
    ReadsSequence (n + 1) (opcode :: operand ++ bytes) (i :: rest) := by
  intro limit hlimit
  obtain ⟨limit, rfl⟩ : ∃ l, limit = l + 1 := ⟨limit - 1, by omega⟩
  refine (Reads.byte opcode).bind ?_
  rw [if_neg hend, if_neg hblock]
  exact hi.bind ((h limit (by omega)).map (i :: ·))

/-- A block, whose sequence comes first. -/
theorem ReadsSequence.block {result : Option ValueType} {inner bytes : Bytes}
    {body rest : List Instruction} {k n : Nat} (hbody : ReadsSequence k inner body)
    (h : ReadsSequence n bytes rest) :
    ReadsSequence (n + (1 + k)) (0x02 :: Encoder.blockType result :: inner ++ bytes)
      (.block result body :: rest) := by
  intro limit hlimit
  obtain ⟨limit, rfl⟩ : ∃ l, limit = l + 1 := ⟨limit - 1, by omega⟩
  have hresult : Reads blockResult [Encoder.blockType result] result := by
    refine (Reads.byte _).bind_nil ?_
    cases result with
    | none =>
      rw [Encoder.blockType, if_pos rfl]
      exact .pure _
    | some type =>
      have hne : Encoder.typeByte type ≠ 0x40 := by cases type <;> decide
      rw [Encoder.blockType, if_neg hne]
      exact (Reads.lift (Encoder.typeOf?_typeByte type)).map some
  refine (Reads.byte _).bind ?_
  rw [if_neg (by decide), if_pos rfl]
  have hinner := hbody limit (by omega)
  have hrest := h limit (by omega)
  exact hresult.bind (hinner.bind (hrest.map (.block result body :: ·)))

theorem reads_const (value : Int32) :
    Reads (plain 0x41) (Leb128.signed value.toInt) (.const value) :=
  (Reads.signedWord value).map Instruction.const

theorem reads_localGet {slot : Nat} (h : slot < UInt32.size) :
    Reads (plain 0x20) (Leb128.unsigned slot) (.localGet slot) :=
  (Reads.word h).map Instruction.localGet

theorem reads_localSet {slot : Nat} (h : slot < UInt32.size) :
    Reads (plain 0x21) (Leb128.unsigned slot) (.localSet slot) :=
  (Reads.word h).map Instruction.localSet

theorem reads_arith (op : ArithOp) : Reads (plain (Encoder.arithByte op)) [] (.arith op) := by
  cases op <;> exact .pure _

theorem reads_drop : Reads (plain 0x1a) [] .drop :=
  .pure Instruction.drop

end Decoder

theorem Instruction.sizeSeq_append (first second : List Instruction) :
    sizeSeq (first ++ second) = sizeSeq first + sizeSeq second := by
  induction first with
  | nil => rw [List.nil_append, sizeSeq, Nat.zero_add]
  | cons i first ih => rw [List.cons_append, sizeSeq, sizeSeq, ih, Nat.add_assoc]

theorem Encoder.sequence_append (first second : List Instruction) :
    sequence (first ++ second) = sequence first ++ sequence second := by
  induction first with
  | nil => rw [List.nil_append, sequence, List.nil_append]
  | cons i first ih => rw [List.cons_append, sequence, sequence, ih, List.append_assoc]

mutual

/-- An instruction takes a byte for each instruction in it, or more. -/
theorem Encoder.size_le_length : (i : Instruction) → i.size ≤ (instruction i).length
  | .block result body => by
    have := sizeSeq_le_length body
    rw [Instruction.size, instruction, List.length_cons, List.length_cons]
    omega
  | .const _ => by simp [Instruction.size, instruction]
  | .localGet _ => by simp [Instruction.size, instruction]
  | .localSet _ => by simp [Instruction.size, instruction]
  | .arith _ => by simp [Instruction.size, instruction]
  | .drop => by simp [Instruction.size, instruction]
  | .endSeq => by simp [Instruction.size, instruction]

theorem Encoder.sizeSeq_le_length :
    (body : List Instruction) → Instruction.sizeSeq body ≤ (sequence body).length
  | [] => Nat.le_refl 0
  | i :: rest => by
    have := size_le_length i
    have := sizeSeq_le_length rest
    rw [Instruction.sizeSeq, sequence, List.length_append]
    omega

end

namespace StackTyping

open Decoder

variable {locals : List ValueType}

theorem slot_lt {slot : Nat} {type : ValueType} (hlocals : locals.length < UInt32.size)
    (h : locals[slot]? = some type) : slot < UInt32.size := by
  obtain ⟨hlt, -⟩ := List.getElem?_eq_some_iff.1 h
  omega

mutual

/-- Typed instructions come back, in front of a sequence that does. -/
theorem Instr.readsSequence (hlocals : locals.length < UInt32.size) {i : Instruction}
    {before after : List ValueType} {n : Nat} {bytes : Bytes} {rest : List Instruction}
    (hrest : ReadsSequence n bytes rest) : Instr locals i before after →
      ReadsSequence (n + i.size) (Encoder.instruction i ++ bytes) (i :: rest)
  | .const value => hrest.plain (by decide) (by decide) (reads_const value)
  | .localGet h => hrest.plain (by decide) (by decide) (reads_localGet (slot_lt hlocals h))
  | .localSet h => hrest.plain (by decide) (by decide) (reads_localSet (slot_lt hlocals h))
  | .arith op => by
    have hend : Encoder.arithByte op ≠ 0x0b := by cases op <;> decide
    have hblock : Encoder.arithByte op ≠ 0x02 := by cases op <;> decide
    exact hrest.plain hend hblock (reads_arith op)
  | .drop _ => hrest.plain (by decide) (by decide) reads_drop
  | .block h => (h.readsSequence hlocals).block hrest

/-- Typed code comes back, in front of a sequence that does. -/
theorem Code.readsSequence (hlocals : locals.length < UInt32.size) {code : List Instruction}
    {before after : List ValueType} {n : Nat} {bytes : Bytes} {rest : List Instruction}
    (hrest : ReadsSequence n bytes rest) : Code locals code before after →
      ReadsSequence (n + Instruction.sizeSeq code) (Encoder.sequence code ++ bytes) (code ++ rest)
  | .nil => hrest
  | .single h => by
    rw [Encoder.sequence, Encoder.sequence, List.append_nil]
    exact h.readsSequence hlocals hrest
  | .append h h' => by
    have hfirst := h.readsSequence hlocals (h'.readsSequence hlocals hrest)
    rw [Instruction.sizeSeq_append, Encoder.sequence_append, List.append_assoc, List.append_assoc,
      Nat.add_comm (Instruction.sizeSeq _), ← Nat.add_assoc]
    exact hfirst
  | .frame _ h => h.readsSequence hlocals hrest

/-- A typed body comes back: the only `endSeq` of its own is the last instruction. -/
theorem Body.readsSequence (hlocals : locals.length < UInt32.size) {body : List Instruction}
    {result : Option ValueType} : Body locals body result →
      ReadsSequence (Instruction.sizeSeq body) (Encoder.sequence body) body
  | .intro h => by
    have hcode := h.readsSequence hlocals readsSequence_endSeq
    rw [Instruction.sizeSeq_append, Encoder.sequence_append, Nat.add_comm]
    exact hcode

end

end StackTyping

/-- A typed body comes back. -/
theorem Decoder.reads_body {locals : List ValueType} {body : List Instruction}
    {result : Option ValueType} (hlocals : locals.length < UInt32.size)
    (h : StackTyping.Body locals body result) :
    Reads Decoder.body (Encoder.sequence body) body := by
  intro rest
  have hsize := Encoder.sizeSeq_le_length body
  have hlimit : Instruction.sizeSeq body ≤ (Encoder.sequence body ++ rest).length := by
    rw [List.length_append]
    omega
  exact h.readsSequence hlocals _ hlimit rest

/-! ## Code -/

namespace Encoder

theorem localGroup_comesBack {group : LocalGroup} (h : group.count < UInt32.size) :
    ComesBack (localGroup group) Decoder.localGroup group := by
  refine ⟨Leb128.unsigned group.count ++ [typeByte group.type], ?_, ?_⟩
  · rw [localGroup, count_eq_ok _ h]
    rfl
  · exact (Reads.word h).bind ((reads_valueType group.type).bind_nil (.pure group))

/-- The code of a function with a typed body comes back, if its size fits. -/
theorem code_comesBack {f : Func} {result : Option ValueType}
    (hlocals : f.locals.size < UInt32.size)
    (hbody : StackTyping.Body f.locals.toList f.body result)
    (hsize : ∀ content, codeContent f = .ok content → content.length < UInt32.size) :
    ComesBack (code f) (Reader.sized Decoder.code)
      (LocalGroup.compress f.declaredLocals, f.body) := by
  have hdeclared : f.declaredLocals.length < UInt32.size := by
    rw [Func.declaredLocals, List.length_drop, Array.length_toList]
    omega
  let groups := LocalGroup.compress f.declaredLocals
  have hcount : ∀ group ∈ groups, ComesBack (localGroup group) Decoder.localGroup (id group) := by
    intro group hmem
    exact localGroup_comesBack (Nat.lt_of_le_of_lt (LocalGroup.count_le_length hmem) hdeclared)
  obtain ⟨pieces, hpieces, hread⟩ := mapM_comesBack hcount
  rw [List.map_id] at hread
  have hgroups : groups.length < UInt32.size :=
    Nat.lt_of_le_of_lt (LocalGroup.length_compress_le f.declaredLocals) hdeclared
  let content := Leb128.unsigned groups.length ++ pieces.flatten ++ sequence f.body
  have hcontent : codeContent f = .ok content := by
    rw [codeContent, hpieces, count_eq_ok _ hgroups]
    rfl
  have hreadCode : Reads Decoder.code content (groups, f.body) :=
    (Reads.vector hread hgroups).bind ((Decoder.reads_body hlocals hbody).bind_nil (.pure _))
  refine ⟨Leb128.unsigned content.length ++ content, ?_, ?_⟩
  · rw [code, hcontent]
    rfl
  · exact .sized hreadCode.all (hsize content hcontent)

end Encoder

end WasmCodegen
