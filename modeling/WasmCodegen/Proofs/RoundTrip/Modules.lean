import WasmCodegen.Proofs.RoundTrip.Entries

/-!
# Decoding undoes encoding

A binary holds what a module lists: its signatures, and of each function all but the span; the
names are there if the exports or the section of names are (`Encoder.visible`).  For a valid module
whose sizes fit 32 bits, `Encoder.decode_encode` proves that it can be encoded, that the decoder
gives just this back, and that nothing else of the module is in the bytes.
-/

namespace WasmCodegen

/-- A section that is missing has no entries; one that is there has these. -/
inductive Carries {α : Type} (number : UInt8) (p : Reader (List α)) :
    List Encoder.Section → List α → Prop
  | absent : Carries number p [] []
  | present {content : Bytes} {items : List α} (h : p.all content = some items) :
      Carries number p [⟨number, content⟩] items

namespace Carries

variable {α : Type} {number : UInt8} {p : Reader (List α)} {sections : List Encoder.Section}
  {items : List α}

theorem sublist (h : Carries number p sections items) :
    (sections.map (·.number)).Sublist [number] := by
  cases h with
  | absent => exact List.nil_sublist _
  | present _ => exact List.Sublist.refl _

theorem numbered_eq (h : Carries number p sections items) (other : UInt8) :
    Decoder.numbered sections other = if number = other then sections else [] := by
  cases h with
  | absent => split <;> rfl
  | present _ =>
    rw [Decoder.numbered]
    split
    · rename_i hnumber
      rw [List.filter_cons_of_pos (by simpa using hnumber), List.filter_nil]
    · rename_i hnumber
      rw [List.filter_cons_of_neg (by simpa using hnumber), List.filter_nil]

theorem entries_eq (h : Carries number p sections items) :
    Decoder.entries p sections = some items := by
  cases h with
  | absent => rfl
  | present h => exact h

end Carries

/-! ## Sections -/

/-- The content is written, and if its size fits, it is read back as these entries. -/
def Fills {α : Type} (written : Except EncodingError Bytes) (p : Reader (List α))
    (items : List α) : Prop :=
  ∃ content, written = .ok content ∧ (content.length < UInt32.size → p.all content = some items)

theorem ComesBack.fills {α : Type} {written : Except EncodingError Bytes} {p : Reader (List α)}
    {items : List α} (h : ComesBack written p items) : Fills written p items := by
  obtain ⟨content, hwritten, hread⟩ := h
  exact ⟨content, hwritten, fun _ => hread.all⟩

namespace Encoder

/-- The sizes of a module fit 32 bits: the numbers of things it lists, the lengths of names if they
are written, and the sizes of bodies and sections. -/
structure Fits (encoder : Encoder) (m : Module) : Prop where
  types : m.types.types.toList.length < UInt32.size
  signatures : ∀ s ∈ m.types.types.toList,
    s.params.length < UInt32.size ∧ s.results.length < UInt32.size
  functions : m.functions.toList.length < UInt32.size
  names : (encoder.exportFunctions || encoder.nameSection) = true →
    ∀ f ∈ m.functions.toList, f.name.utf8ByteSize < UInt32.size
  locals : ∀ f ∈ m.functions.toList, f.locals.size < UInt32.size
  codes : ∀ f ∈ m.functions.toList, ∀ content, codeContent f = .ok content →
    content.length < UInt32.size
  sections : ∀ sections, encoder.sections m = .ok sections →
    ∀ s ∈ sections, s.content.length < UInt32.size

theorem optional_carries {α : Type} {written : Except EncodingError Bytes}
    {p : Reader (List α)} {items : List α} (condition : Bool) (number : UInt8)
    (hskip : condition = false → items = [])
    (h : condition = true → Fills written p items) :
    ∃ sections, optional condition number written = .ok sections ∧
      ((∀ s ∈ sections, s.content.length < UInt32.size) → Carries number p sections items) := by
  cases condition with
  | false =>
    rw [hskip rfl]
    exact ⟨[], rfl, fun _ => .absent⟩
  | true =>
    obtain ⟨content, hwritten, hread⟩ := h rfl
    refine ⟨[⟨number, content⟩], ?_, fun hsize => ?_⟩
    · rw [hwritten]
      rfl
    · exact .present (hread (hsize _ (List.mem_singleton.2 rfl)))

theorem nameContent_fills {functions : List Func} (hlength : functions.length < UInt32.size)
    (hnames : ∀ f ∈ functions, f.name.utf8ByteSize < UInt32.size) :
    Fills (nameContent functions) Decoder.nameContent (namesOf functions) := by
  obtain ⟨title, htitle, hreadTitle⟩ := name_comesBack (s := "name") (by decide)
  obtain ⟨names, hvector, hread⟩ := names_comesBack hlength hnames
  refine ⟨title ++ sized 1 names, ?_, fun hsize => ?_⟩
  · rw [nameContent, htitle, hvector]
    rfl
  · have hsizeNames : names.length < UInt32.size := by
      rw [sized, List.length_append, List.length_append] at hsize
      omega
    have hpart : Reads (do Decoder.expect 1; Reader.sized (Reader.vector Decoder.nameEntry))
        (sized 1 names) (namesOf functions) :=
      (reads_expect 1).bind (.sized hread.all hsizeNames)
    have hcontent : Reads Decoder.nameContent (title ++ sized 1 names) (namesOf functions) := by
      refine hreadTitle.bind ?_
      rw [if_pos rfl]
      exact hpart
    exact hcontent.all

/-- What the exports say, if there are exports. -/
def exportsOf (encoder : Encoder) (m : Module) : List (Nat × String) :=
  if encoder.exportFunctions then namesOf m.functions.toList else []

/-- What the section of names says, if there is one. -/
def sectionNamesOf (encoder : Encoder) (m : Module) : List (Nat × String) :=
  if encoder.nameSection then namesOf m.functions.toList else []

/-- The locals and the body of a function, as the code section has them. -/
def codeOf (f : Func) : List LocalGroup × List Instruction :=
  (LocalGroup.compress f.declaredLocals, f.body)

/-- A table of names is there if there are names to write and the encoder writes them. -/
theorem names_optional {written : Except EncodingError Bytes}
    {p : Reader (List (Nat × String))} (functions : List Func) (on : Bool) (number : UInt8)
    (h : on = true → Fills written p (namesOf functions)) :
    ∃ sections, optional (!functions.isEmpty && on) number written = .ok sections ∧
      ((∀ s ∈ sections, s.content.length < UInt32.size) →
        Carries number p sections (if on then namesOf functions else [])) := by
  refine optional_carries _ number (fun hskip => ?_) (fun hwrite => ?_)
  · cases on with
    | false => rfl
    | true =>
      have hempty : functions = [] := by simpa using hskip
      subst hempty
      rfl
  · have hon : on = true := by
      rw [Bool.and_eq_true] at hwrite
      exact hwrite.2
    rw [if_pos hon]
    exact h hon

namespace Fits

variable {encoder : Encoder} {m : Module}

theorem typeContent_comesBack (h : encoder.Fits m) :
    ComesBack (typeContent m.types.types.toList) (Reader.vector Decoder.signature)
      m.types.types.toList := by
  have hback := vector_comesBack (f := id) "type count" h.types fun s hs =>
    signature_comesBack (h.signatures s hs).1 (h.signatures s hs).2
  rwa [List.map_id] at hback

/-- The type indices of a valid module are positions of its signatures. -/
theorem functionContent_comesBack (h : encoder.Fits m)
    (hvalid : ∀ f ∈ m.functions, f.WellTyped m.types) :
    ComesBack (functionContent m.functions.toList) (Reader.vector Reader.word)
      (m.functions.toList.map Func.typeIndex) := by
  refine vector_comesBack "function count" h.functions fun f hf => ?_
  obtain ⟨signature, hsignature, -⟩ := hvalid f (Array.mem_toList_iff.1 hf)
  obtain ⟨hlt, -⟩ := Array.getElem?_eq_some_iff.1 hsignature
  have hindex : f.typeIndex < UInt32.size := Nat.lt_trans hlt h.types
  exact ⟨_, rfl, .word hindex⟩

/-- The bodies of a valid module are typed. -/
theorem bodyContent_comesBack (h : encoder.Fits m)
    (hvalid : ∀ f ∈ m.functions, f.WellTyped m.types) :
    ComesBack (bodyContent m.functions.toList) (Reader.vector (Reader.sized Decoder.code))
      (m.functions.toList.map codeOf) := by
  refine vector_comesBack "function count" h.functions fun f hf => ?_
  obtain ⟨signature, -, hfits⟩ := hvalid f (Array.mem_toList_iff.1 hf)
  obtain ⟨result, -, hbody⟩ := hfits.body
  exact code_comesBack (h.locals f hf) hbody (h.codes f hf)

/-- A valid module that fits has these sections. -/
theorem sections_carries (h : encoder.Fits m) (hvalid : ∀ f ∈ m.functions, f.WellTyped m.types) :
    ∃ s₁ s₂ s₃ s₄ s₅, encoder.sections m = .ok (s₁ ++ s₂ ++ s₃ ++ s₄ ++ s₅) ∧
      Carries 1 (Reader.vector Decoder.signature) s₁ m.types.types.toList ∧
      Carries 3 (Reader.vector Reader.word) s₂ (m.functions.toList.map Func.typeIndex) ∧
      Carries 7 (Reader.vector Decoder.exportEntry) s₃ (encoder.exportsOf m) ∧
      Carries 10 (Reader.vector (Reader.sized Decoder.code)) s₄ (m.functions.toList.map codeOf) ∧
      Carries 0 Decoder.nameContent s₅ (encoder.sectionNamesOf m) := by
  have hexports : encoder.exportFunctions = true →
      Fills (exportContent m.functions.toList) (Reader.vector Decoder.exportEntry)
        (namesOf m.functions.toList) := by
    intro hon
    have hwritten := h.names (by rw [hon, Bool.true_or])
    exact (exportContent_comesBack h.functions hwritten).fills
  have hnames : encoder.nameSection = true →
      Fills (nameContent m.functions.toList) Decoder.nameContent
        (namesOf m.functions.toList) := by
    intro hon
    have hwritten := h.names (by rw [hon, Bool.or_true])
    exact nameContent_fills h.functions hwritten
  obtain ⟨s₁, hs₁, hcarries₁⟩ :=
    optional_carries (!m.types.types.toList.isEmpty) 1 (by simp)
      fun _ => h.typeContent_comesBack.fills
  obtain ⟨s₂, hs₂, hcarries₂⟩ :=
    optional_carries (!m.functions.toList.isEmpty) 3 (by simp)
      fun _ => (h.functionContent_comesBack hvalid).fills
  obtain ⟨s₃, hs₃, hcarries₃⟩ :=
    names_optional m.functions.toList encoder.exportFunctions 7 hexports
  obtain ⟨s₄, hs₄, hcarries₄⟩ :=
    optional_carries (!m.functions.toList.isEmpty) 10 (by simp)
      fun _ => (h.bodyContent_comesBack hvalid).fills
  obtain ⟨s₅, hs₅, hcarries₅⟩ :=
    names_optional m.functions.toList encoder.nameSection 0 hnames
  have hsections : encoder.sections m = .ok (s₁ ++ s₂ ++ s₃ ++ s₄ ++ s₅) := by
    simp only [Encoder.sections, hs₁, hs₂, hs₃, hs₄, hs₅]
    rfl
  have hsize := h.sections _ hsections
  exact ⟨s₁, s₂, s₃, s₄, s₅, hsections, hcarries₁ fun s hs => hsize s (by simp [hs]),
    hcarries₂ fun s hs => hsize s (by simp [hs]), hcarries₃ fun s hs => hsize s (by simp [hs]),
    hcarries₄ fun s hs => hsize s (by simp [hs]), hcarries₅ fun s hs => hsize s (by simp [hs])⟩

/-- The sections of a valid module that fits are in order, and each is read as the entries that the
module has for it. -/
theorem sections_eq_ok (h : encoder.Fits m) (hvalid : ∀ f ∈ m.functions, f.WellTyped m.types) :
    ∃ secs, encoder.sections m = .ok secs ∧
      (secs.map (·.number)).Sublist [1, 3, 7, 10, 0] ∧
      Decoder.entries (Reader.vector Decoder.signature) (Decoder.numbered secs 1) =
        some m.types.types.toList ∧
      Decoder.entries (Reader.vector Reader.word) (Decoder.numbered secs 3) =
        some (m.functions.toList.map Func.typeIndex) ∧
      Decoder.entries (Reader.vector Decoder.exportEntry) (Decoder.numbered secs 7) =
        some (encoder.exportsOf m) ∧
      Decoder.entries (Reader.vector (Reader.sized Decoder.code)) (Decoder.numbered secs 10) =
        some (m.functions.toList.map codeOf) ∧
      Decoder.entries Decoder.nameContent (Decoder.numbered secs 0) =
        some (encoder.sectionNamesOf m) := by
  obtain ⟨s₁, s₂, s₃, s₄, s₅, hsections, h₁, h₂, h₃, h₄, h₅⟩ := h.sections_carries hvalid
  have hsorted : ((s₁ ++ s₂ ++ s₃ ++ s₄ ++ s₅).map (·.number)).Sublist [1, 3, 7, 10, 0] := by
    simp only [List.map_append]
    exact (((h₁.sublist.append h₂.sublist).append h₃.sublist).append h₄.sublist).append h₅.sublist
  have hnumbered : ∀ number, Decoder.numbered (s₁ ++ s₂ ++ s₃ ++ s₄ ++ s₅) number =
      (if 1 = number then s₁ else []) ++ (if 3 = number then s₂ else []) ++
        (if 7 = number then s₃ else []) ++ (if 10 = number then s₄ else []) ++
          (if 0 = number then s₅ else []) := by
    intro number
    rw [← h₁.numbered_eq, ← h₂.numbered_eq, ← h₃.numbered_eq, ← h₄.numbered_eq, ← h₅.numbered_eq]
    simp only [Decoder.numbered, List.filter_append]
  refine ⟨_, hsections, hsorted, ?_, ?_, ?_, ?_, ?_⟩
  · rw [hnumbered]
    simpa using h₁.entries_eq
  · rw [hnumbered]
    simpa using h₂.entries_eq
  · rw [hnumbered]
    simpa using h₃.entries_eq
  · rw [hnumbered]
    simpa using h₄.entries_eq
  · rw [hnumbered]
    simpa using h₅.entries_eq

end Fits

end Encoder

namespace Decoder

theorem reads_rawSection {s : Encoder.Section} (h : s.content.length < UInt32.size) :
    Reads rawSection s.bytes s :=
  (Reads.byte s.number).bind ((Reads.word h).bind ((Reads.take s.content).bind_nil (.pure s)))

/-- Sections in order come back. -/
theorem sections_eq_some {secs : List Encoder.Section}
    (hsize : ∀ s ∈ secs, s.content.length < UInt32.size)
    (hnumbers : (secs.map (·.number)).Sublist [1, 3, 7, 10, 0]) :
    sections (Encoder.header ++ secs.flatMap Encoder.Section.bytes) = some secs := by
  have hread : List.Forall₂ (Reads rawSection) (secs.map Encoder.Section.bytes) secs := by
    rw [List.forall₂_map_left_iff, List.forall₂_same]
    exact fun s hs => reads_rawSection (hsize s hs)
  have hne : ∀ piece ∈ secs.map Encoder.Section.bytes, piece ≠ [] := by
    intro piece hpiece
    obtain ⟨s, -, rfl⟩ := List.mem_map.1 hpiece
    exact List.cons_ne_nil _ _
  have hmany := Reads.many hread hne (Nat.le_refl _)
  rw [← List.flatMap_def] at hmany
  have hheader := Reads.take Encoder.header (secs.flatMap Encoder.Section.bytes)
  rw [sections, hheader]
  simp only [Option.bind_eq_bind, Option.bind_some, guard, if_true, hmany, hnumbers,
    Option.pure_def]

end Decoder

/-! ## Functions -/

/-- What the bytes say about a function: all but its span, and its name only if it is written. -/
def Encoder.visible (encoder : Encoder) (f : Func) : Func :=
  { f with
    name := if encoder.exportFunctions || encoder.nameSection then f.name else ""
    span := .unknown }

/-- A name is found at its position. -/
theorem Encoder.lookup_namesOf {functions : List Func} {f : Func} {position : Nat}
    (h : (f, position) ∈ functions.zipIdx) :
    (namesOf functions).lookup position = some f.name := by
  suffices hfrom : ∀ n, (f, position) ∈ functions.zipIdx n →
      ((functions.zipIdx n).map fun entry => (entry.2, entry.1.name)).lookup position =
        some f.name from
    hfrom 0 h
  clear h
  induction functions with
  | nil => simp
  | cons g functions ih =>
    intro n hmem
    rw [List.zipIdx_cons] at hmem ⊢
    rw [List.map_cons, List.lookup_cons]
    rcases List.mem_cons.1 hmem with heq | hmem
    · cases heq
      simp
    · have hlt : n + 1 ≤ position := List.le_snd_of_mem_zipIdx hmem
      have hne : (position == n) = false := beq_false_of_ne (by omega)
      rw [hne]
      exact ih (n + 1) hmem

theorem Encoder.getD_lookup_names (encoder : Encoder) {m : Module} {f : Func} {position : Nat}
    (h : (f, position) ∈ m.functions.toList.zipIdx) :
    ((encoder.exportsOf m ++ encoder.sectionNamesOf m).lookup position).getD "" =
      (encoder.visible f).name := by
  have hlookup := lookup_namesOf h
  rw [List.lookup_append, exportsOf, sectionNamesOf, visible]
  cases encoder.exportFunctions <;> cases encoder.nameSection <;> simp [hlookup]

/-- The parameters of a function and its declared locals are all of its locals. -/
theorem Func.Fits.locals_eq {f : Func} {signature : Signature} (h : f.Fits signature) :
    (signature.params ++ LocalGroup.expand (LocalGroup.compress f.declaredLocals)).toArray =
      f.locals := by
  rw [LocalGroup.expand_compress, ← h.params_eq, Func.declaredLocals, List.take_append_drop,
    Array.toArray_toList]

theorem Func.Fits.length_params {f : Func} {signature : Signature} (h : f.Fits signature) :
    signature.params.length = f.paramCount := by
  have hle := h.paramCount_le
  rw [← h.params_eq, List.length_take, Array.length_toList]
  omega

namespace Decoder

theorem function_eq_some (encoder : Encoder) {m : Module} {f : Func} {position : Nat}
    (hmem : (f, position) ∈ m.functions.toList.zipIdx) (h : f.WellTyped m.types) :
    function m.types.types.toList (encoder.exportsOf m ++ encoder.sectionNamesOf m)
      ((f.typeIndex, Encoder.codeOf f), position) = some (encoder.visible f) := by
  obtain ⟨signature, hsignature, hfits⟩ := h
  have hindex : m.types.types.toList[f.typeIndex]? = some signature := by
    rw [Array.getElem?_toList]
    exact hsignature
  simp only [function, Encoder.codeOf, hindex, Option.bind_eq_bind, Option.bind_some,
    hfits.locals_eq, hfits.length_params, encoder.getD_lookup_names hmem]
  rfl

theorem mapM_eq_some {α β : Type} {g : α → Option β} {f : α → β} {xs : List α}
    (h : ∀ x ∈ xs, g x = some (f x)) : xs.mapM g = some (xs.map f) := by
  induction xs with
  | nil => rfl
  | cons x xs ih =>
    rw [List.mapM_cons, h x List.mem_cons_self, ih fun y hy => h y (List.mem_cons_of_mem _ hy)]
    rfl

/-- The functions come back from their type indices and their code. -/
theorem functions_eq_some (encoder : Encoder) {m : Module}
    (h : ∀ f ∈ m.functions, f.WellTyped m.types) :
    ((m.functions.toList.map Func.typeIndex).zip
        (m.functions.toList.map Encoder.codeOf)).zipIdx.mapM
      (function m.types.types.toList (encoder.exportsOf m ++ encoder.sectionNamesOf m)) =
        some (m.functions.toList.map encoder.visible) := by
  rw [List.zip_map', List.zipIdx_map, List.mapM_map]
  have hfunction : ∀ entry ∈ m.functions.toList.zipIdx,
      (function m.types.types.toList (encoder.exportsOf m ++ encoder.sectionNamesOf m) ∘
        Prod.map (fun f => (f.typeIndex, Encoder.codeOf f)) id) entry =
          some ((encoder.visible ∘ Prod.fst) entry) := by
    intro (f, position) hmem
    have hf := List.fst_mem_of_mem_zipIdx hmem
    exact function_eq_some encoder hmem (h f (Array.mem_toList_iff.1 hf))
  rw [mapM_eq_some hfunction, ← List.map_map, List.zipIdx_map_fst]

end Decoder

/-! ## Modules -/

/-- What the bytes say about a module. -/
def Encoder.image (encoder : Encoder) (m : Module) : Decoder.Image where
  types := m.types.types.toList
  functions := m.functions.toList.map encoder.visible
  exports := encoder.exportsOf m
  names := encoder.sectionNamesOf m

/-- The decoder puts the module together from the entries of the sections. -/
theorem Decoder.decode_eq_some (encoder : Encoder) {m : Module}
    (hvalid : ∀ f ∈ m.functions, f.WellTyped m.types) {bytes : Bytes}
    {secs : List Encoder.Section} (hsections : sections bytes = some secs)
    (htypes : entries (Reader.vector signature) (numbered secs 1) = some m.types.types.toList)
    (hindices : entries (Reader.vector Reader.word) (numbered secs 3) =
      some (m.functions.toList.map Func.typeIndex))
    (hexports : entries (Reader.vector exportEntry) (numbered secs 7) =
      some (encoder.exportsOf m))
    (hcodes : entries (Reader.vector (Reader.sized code)) (numbered secs 10) =
      some (m.functions.toList.map Encoder.codeOf))
    (hnames : entries nameContent (numbered secs 0) = some (encoder.sectionNamesOf m)) :
    decode bytes = some (encoder.image m) := by
  have hlength : (m.functions.toList.map Func.typeIndex).length =
      (m.functions.toList.map Encoder.codeOf).length := by
    rw [List.length_map, List.length_map]
  simp only [decode, hsections, htypes, hindices, hexports, hcodes, hnames, hlength,
    functions_eq_some encoder hvalid, guard, if_true, Option.bind_eq_bind, Option.bind_some]
  rfl

/-- A valid module that fits can be encoded, and the bytes say what they should. -/
theorem Encoder.Fits.encode_eq_ok {encoder : Encoder} {m : Module} (h : encoder.Fits m)
    (hvalid : ∀ f ∈ m.functions, f.WellTyped m.types) :
    ∃ bytes, encoder.encode m = .ok bytes ∧ Decoder.decode bytes = some (encoder.image m) := by
  obtain ⟨secs, hsections, hsorted, h₁, h₂, h₃, h₄, h₅⟩ := h.sections_eq_ok hvalid
  refine ⟨header ++ secs.flatMap Section.bytes, ?_, ?_⟩
  · rw [encode, hsections]
    rfl
  · have hread := Decoder.sections_eq_some (h.sections _ hsections) hsorted
    exact Decoder.decode_eq_some encoder hvalid hread h₁ h₂ h₃ h₄ h₅

/-! ## Encoding again -/

namespace Encoder

theorem vector_map {α β : Type} (what : String) (entry : β → Except EncodingError Bytes)
    (g : α → β) (items : List α) :
    vector what entry (items.map g) = vector what (entry ∘ g) items := by
  rw [vector, vector, List.length_map, List.mapM_map]

/-- Content that is left out does not matter. -/
theorem optional_congr {condition on : Bool} (number : UInt8)
    {written written' : Except EncodingError Bytes} (h : on = true → written = written') :
    optional (condition && on) number written = optional (condition && on) number written' := by
  cases on with
  | false => rw [Bool.and_false]; rfl
  | true => rw [h rfl]

theorem name_visible {encoder : Encoder}
    (h : (encoder.exportFunctions || encoder.nameSection) = true) (f : Func) :
    (encoder.visible f).name = f.name :=
  if_pos h

/-- The sections depend on nothing but what the bytes say. -/
theorem sections_eq_of_visible {encoder : Encoder} {m m' : Module}
    (htypes : m'.types.types.toList = m.types.types.toList)
    (hfunctions : m'.functions.toList = m.functions.toList.map encoder.visible) :
    encoder.sections m' = encoder.sections m := by
  have hindices : functionContent m'.functions.toList = functionContent m.functions.toList := by
    rw [hfunctions]
    exact vector_map _ _ _ _
  have hcodes : bodyContent m'.functions.toList = bodyContent m.functions.toList := by
    rw [hfunctions]
    exact vector_map _ _ _ _
  have hexports : encoder.exportFunctions = true →
      exportContent m'.functions.toList = exportContent m.functions.toList := by
    intro hon
    have hentry : exportEntry ∘ Prod.map encoder.visible id = exportEntry := by
      funext (f, position)
      rw [Function.comp_apply, Prod.map_apply, exportEntry,
        name_visible (by rw [hon, Bool.true_or])]
      rfl
    rw [hfunctions, exportContent, List.zipIdx_map, vector_map, hentry]
    rfl
  have hnames : encoder.nameSection = true →
      nameContent m'.functions.toList = nameContent m.functions.toList := by
    intro hon
    have hentry : nameEntry ∘ Prod.map encoder.visible id = nameEntry := by
      funext (f, position)
      rw [Function.comp_apply, Prod.map_apply, nameEntry,
        name_visible (by rw [hon, Bool.or_true])]
      rfl
    rw [hfunctions, nameContent, List.zipIdx_map, vector_map, hentry]
    rfl
  have hempty : m'.functions.toList.isEmpty = m.functions.toList.isEmpty := by
    rw [hfunctions, List.isEmpty_map]
  simp only [sections, htypes, hempty, hindices, hcodes, optional_congr _ hexports,
    optional_congr _ hnames]

end Encoder

/-- Decoding undoes encoding.  A valid module that fits has an encoding, and decoding it uses up
all of its bytes and gives the signatures in order and every function: its type index, all of its
locals and its body, and its name at its position in each table of names that is written.  The
decoded module has the same encoding.  So valid modules with the same encoding differ at most in
spans, and in names if no table of names is written. -/
theorem Encoder.decode_encode {encoder : Encoder} {m : Module}
    (hvalid : ∃ report, m.validate = .ok report) (hfits : encoder.Fits m) :
    ∃ bytes, encoder.encode m = .ok bytes ∧
      Decoder.decode bytes = some (encoder.image m) ∧
      encoder.encode (encoder.image m).toModule = .ok bytes ∧
      ∀ m', (∃ report, m'.validate = .ok report) → encoder.Fits m' →
        encoder.encode m' = .ok bytes →
          m'.types.types = m.types.types ∧
            m'.functions.map encoder.visible = m.functions.map encoder.visible := by
  have htyped : ∀ {m : Module}, (∃ report, m.validate = .ok report) →
      ∀ f ∈ m.functions, f.WellTyped m.types := fun h f hf =>
    Func.check_eq_ok_iff.1 (Module.exists_report_iff.1 h f hf)
  obtain ⟨bytes, hencode, hdecode⟩ := hfits.encode_eq_ok (htyped hvalid)
  refine ⟨bytes, hencode, hdecode, ?_, ?_⟩
  · rw [← hencode, encode, encode, sections_eq_of_visible]
    · exact List.toList_toArray
    · exact List.toList_toArray
  · intro m' hvalid' hfits' hencode'
    obtain ⟨bytes', hbytes', hdecode'⟩ := hfits'.encode_eq_ok (htyped hvalid')
    -- the two encodings are the same bytes, so the decoder gives one image
    obtain rfl : bytes' = bytes := Except.ok.inj (hbytes'.symm.trans hencode')
    have himage : encoder.image m' = encoder.image m :=
      Option.some.inj (hdecode'.symm.trans hdecode)
    constructor
    · exact Array.toList_inj.1 (congrArg Decoder.Image.types himage)
    · have hfunctions := congrArg Decoder.Image.functions himage
      rw [← Array.toList_inj, Array.toList_map, Array.toList_map]
      exact hfunctions

/-- A function with a block in it, locals of two types and a constant of two bytes. -/
def Func.sample : Func where
  name := "é"
  typeIndex := 0
  paramCount := 1
  locals := #[.i32, .i64, .i64, .i32]
  body := [.localGet 0, .block (some .i32) [.const (-70), .endSeq], .arith .mul, .endSeq]

/-- A module of that function. -/
def Module.sample : Module where
  types := ⟨#[⟨[.i32], [.i32]⟩], {}⟩
  functions := #[.sample]

theorem Encoder.decode_encode_sample :
    ∃ bytes, Encoder.encode ⟨true, true⟩ .sample = .ok bytes ∧
      Decoder.decode bytes =
        some ⟨[⟨[.i32], [.i32]⟩], [.sample], [(0, "é")], [(0, "é")]⟩ := by
  have hcode : codeContent .sample = .ok [2, 2, 0x7e, 1, 0x7f,
      0x20, 0, 0x02, 0x7f, 0x41, 0xba, 0x7f, 0x0b, 0x6c, 0x0b] := by
    with_unfolding_all rfl
  have hsections : Encoder.sections ⟨true, true⟩ .sample = .ok [
      ⟨1, [1, 0x60, 1, 0x7f, 1, 0x7f]⟩,
      ⟨3, [1, 0]⟩,
      ⟨7, [1, 2, 0xc3, 0xa9, 0, 0]⟩,
      ⟨10, [1, 15, 2, 2, 0x7e, 1, 0x7f,
        0x20, 0, 0x02, 0x7f, 0x41, 0xba, 0x7f, 0x0b, 0x6c, 0x0b]⟩,
      ⟨0, [4, 0x6e, 0x61, 0x6d, 0x65, 1, 5, 1, 0, 2, 0xc3, 0xa9]⟩] := by
    with_unfolding_all rfl
  have hfits : Fits ⟨true, true⟩ .sample := by
    have hfunction : ∀ f ∈ Module.sample.functions.toList, f = .sample := fun f hf =>
      List.mem_singleton.1 hf
    refine ⟨by decide, ?_, by decide, ?_, ?_, ?_, ?_⟩
    · intro s hs
      rw [List.mem_singleton.1 hs]
      decide
    · intro _ f hf
      rw [hfunction f hf]
      decide
    · intro f hf
      rw [hfunction f hf]
      decide
    · intro f hf content hcontent
      rw [hfunction f hf, hcode] at hcontent
      cases hcontent
      decide
    · intro sections hok s hs
      rw [hsections] at hok
      cases hok
      simp only [List.mem_cons, List.not_mem_nil, or_false] at hs
      rcases hs with rfl | rfl | rfl | rfl | rfl
      all_goals decide
  have hvalid : ∃ report, Module.validate .sample = .ok report := ⟨_, rfl⟩
  obtain ⟨bytes, hencode, hdecode, -⟩ := decode_encode hvalid hfits
  exact ⟨bytes, hencode, hdecode⟩

end WasmCodegen
