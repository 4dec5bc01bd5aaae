import WasmCodegen.Assembly
import WasmCodegen.Proofs.Generation
import WasmCodegen.Proofs.RoundTrip.Modules

/-!
# Assemblies are valid binaries

The three steps of an assembly leave different things to each other.  The generator makes sure that
no name is defined twice and that the table has no signature but those of functions; the validator
looks at one function at a time, and never at the names or at the table as a whole; the encoder
looks at nothing but sizes.  What comes out at the end is a valid binary module for all of these
reasons together.

The rules of the format are stated about bytes: `Binary.Layout` says how a binary is cut into
sections, `Binary.Tables.Listed` which tables the sections list, and `Binary.Tables.Valid` which
rules hold between the tables.  A binary has no parameters among its locals: the locals of a body
are the parameters of its type, and then the ones that are declared.  So a slot means in the binary
what it meant in the module only because `Func.Fits` asks for the same order there.

The main result is `SourceModule.assemble_valid`.
-/

namespace WasmCodegen

/-! ## The rules of the format -/

namespace Binary

/-- The format's mark and version, and then sections in their order, any of which may be missing:
type, function, export, code and custom.  Each is a number, the size of its content in bytes and the
content. -/
structure Layout (bytes : Bytes) (sections : List Encoder.Section) : Prop where
  bytes_eq : bytes = [0x00, 0x61, 0x73, 0x6d, 0x01, 0x00, 0x00, 0x00] ++
    sections.flatMap fun s => s.number :: (Leb128.unsigned s.content.length ++ s.content)
  ordered : (sections.map (·.number)).Sublist [1, 3, 7, 10, 0]
  sizes : ∀ s ∈ sections, s.content.length < UInt32.size
  /-- A reader of the format finds these sections. -/
  read : Decoder.sections bytes = some sections

/-- What the sections of a binary list. -/
structure Tables where
  types : List Signature
  /-- The type index of each function. -/
  functions : List Nat
  /-- Positions of functions, and the names that they are exported under. -/
  exports : List (Nat × String)
  /-- The declared locals and the body of each function. -/
  codes : List (List LocalGroup × List Instruction)
  /-- Positions of functions, and their names for tools. -/
  names : List (Nat × String)

namespace Tables

/-- The entries of the sections are those of the tables. -/
structure Listed (t : Tables) (sections : List Encoder.Section) : Prop where
  types : Decoder.entries (Reader.vector Decoder.signature) (Decoder.numbered sections 1) =
    some t.types
  functions : Decoder.entries (Reader.vector Reader.word) (Decoder.numbered sections 3) =
    some t.functions
  exports : Decoder.entries (Reader.vector Decoder.exportEntry) (Decoder.numbered sections 7) =
    some t.exports
  codes : Decoder.entries (Reader.vector (Reader.sized Decoder.code))
    (Decoder.numbered sections 10) = some t.codes
  names : Decoder.entries Decoder.nameContent (Decoder.numbered sections 0) = some t.names

/-- The code of a function with a type index is typed, with the parameters of its type and the
declared locals, and leaves the result of its type. -/
def Typed (t : Tables) (index : Nat) (code : List LocalGroup × List Instruction) : Prop :=
  ∃ s result, t.types[index]? = some s ∧ s.results = result.toList ∧
    StackTyping.Body (s.params ++ LocalGroup.expand code.1) code.2 result

/-- The rules of the format. -/
structure Valid (t : Tables) : Prop where
  codes : t.codes.length = t.functions.length
  functions : ∀ index ∈ t.functions, index < t.types.length
  exports : ∀ entry ∈ t.exports, entry.1 < t.functions.length
  exportNames : (t.exports.map (·.2)).Nodup
  results : ∀ s ∈ t.types, s.results.length ≤ 1
  bodies : List.Forall₂ t.Typed t.functions t.codes

end Tables

end Binary

/-! ## The tables of a module -/

namespace Encoder

/-- The tables that an encoder writes for a module. -/
def tables (encoder : Encoder) (m : Module) : Binary.Tables where
  types := m.types.types.toList
  functions := m.functions.toList.map Func.typeIndex
  exports := encoder.exportsOf m
  codes := m.functions.toList.map codeOf
  names := encoder.sectionNamesOf m

/-- The bytes of a valid module that fits are laid out as they should be, and list its tables. -/
theorem Fits.layout {encoder : Encoder} {m : Module} (h : encoder.Fits m)
    (hvalid : ∀ f ∈ m.functions, f.WellTyped m.types) {bytes : Bytes}
    (hencode : encoder.encode m = .ok bytes) :
    ∃ sections, Binary.Layout bytes sections ∧ (encoder.tables m).Listed sections := by
  obtain ⟨secs, hsections, hsorted, htypes, hindices, hexports, hcodes, hnames⟩ :=
    h.sections_eq_ok hvalid
  have hsizes := h.sections secs hsections
  rw [encode, hsections] at hencode
  cases hencode
  exact ⟨secs, ⟨rfl, hsorted, hsizes, Decoder.sections_eq_some hsizes hsorted⟩,
    ⟨htypes, hindices, hexports, hcodes, hnames⟩⟩

theorem map_snd_namesOf (functions : List Func) :
    (namesOf functions).map (·.2) = functions.map Func.name := by
  calc (namesOf functions).map (·.2)
      = (functions.zipIdx.map Prod.fst).map Func.name := by
        rw [namesOf, List.map_map, List.map_map]
        rfl
    _ = functions.map Func.name := by rw [List.zipIdx_map_fst]

theorem lt_length_of_mem_exportsOf {encoder : Encoder} {m : Module} {entry : Nat × String}
    (h : entry ∈ encoder.exportsOf m) : entry.1 < m.functions.toList.length := by
  unfold exportsOf at h
  split at h
  · obtain ⟨⟨f, position⟩, hmem, rfl⟩ := List.mem_map.1 h
    simpa using List.snd_lt_of_mem_zipIdx hmem
  · cases h

theorem nodup_exportsOf {encoder : Encoder} {m : Module}
    (h : (m.functions.toList.map Func.name).Nodup) :
    ((encoder.exportsOf m).map (·.2)).Nodup := by
  unfold exportsOf
  split
  · rwa [map_snd_namesOf]
  · exact List.nodup_nil

/-- The code of a well-typed function is typed in the binary: what the encoder leaves out of the
locals is what the type of the function has. -/
theorem typed_codeOf (encoder : Encoder) {m : Module} {f : Func} (h : f.WellTyped m.types) :
    (encoder.tables m).Typed f.typeIndex (codeOf f) := by
  obtain ⟨signature, hget, hfits⟩ := h
  obtain ⟨result, hresults, hbody⟩ := hfits.body
  refine ⟨signature, result, ?_, hresults, ?_⟩
  · exact (Array.getElem?_toList).trans hget
  · rw [← hfits.locals_eq] at hbody
    exact hbody

/-- The tables of a valid module follow the rules, if no name is used twice and every signature is
that of a function. -/
theorem tables_valid (encoder : Encoder) {m : Module}
    (hvalid : ∀ f ∈ m.functions, f.WellTyped m.types)
    (hnames : (m.functions.toList.map Func.name).Nodup)
    (htypes : ∀ s ∈ m.types.types.toList, ∃ f ∈ m.functions, m.types.get? f.typeIndex = some s) :
    (encoder.tables m).Valid where
  codes := by simp [tables]
  functions := by
    intro index hindex
    obtain ⟨f, hf, rfl⟩ := List.mem_map.1 hindex
    obtain ⟨signature, -, hget, -⟩ := typed_codeOf encoder (hvalid f (Array.mem_toList_iff.1 hf))
    exact (List.getElem?_eq_some_iff.1 hget).1
  exports := by
    intro entry hentry
    have hlt := lt_length_of_mem_exportsOf hentry
    rwa [tables, List.length_map]
  exportNames := nodup_exportsOf hnames
  results := by
    intro s hs
    obtain ⟨f, hf, hget⟩ := htypes s hs
    obtain ⟨signature, hsignature, hfits⟩ := hvalid f hf
    obtain ⟨result, hresults, -⟩ := hfits.body
    obtain rfl : signature = s := Option.some.inj (hsignature.symm.trans hget)
    rw [hresults]
    cases result <;> simp
  bodies := by
    rw [tables, List.forall₂_map_left_iff, List.forall₂_map_right_iff, List.forall₂_same]
    exact fun f hf => typed_codeOf encoder (hvalid f (Array.mem_toList_iff.1 hf))

end Encoder

/-! ## The tables of an assembly -/

namespace SourceModule

variable {resolver : Resolver} {options : Options} {source : SourceModule}

/-- An assembly comes from three successful steps. -/
theorem assemble_eq_ok {assembly : Assembly} (h : source.assemble resolver options = .ok assembly) :
    source.generate resolver options = .ok assembly.output ∧
      assembly.output.validate = .ok assembly.report ∧
      (Encoder.ofOptions options).encode assembly.output = .ok assembly.bytes := by
  obtain ⟨output, hgenerate, h₁⟩ := Fallible.bind_eq_ok_iff.1 h
  obtain ⟨report, hvalidate, h₂⟩ := Fallible.bind_eq_ok_iff.1 h₁
  obtain ⟨bytes, hencode, h₃⟩ := Fallible.bind_eq_ok_iff.1 h₂
  cases h₃
  exact ⟨hgenerate, Fallible.mapError_eq_ok_iff.1 hvalidate, Fallible.mapError_eq_ok_iff.1 hencode⟩

/-- The exports of a generated module are its declarations, each at its position. -/
theorem exportsOf_generate {m : Module} (h : source.generate resolver options = .ok m)
    (encoder : Encoder) :
    encoder.exportsOf m = if encoder.exportFunctions then
      source.functions.zipIdx.map fun entry => (entry.2, entry.1.name.name) else [] := by
  have hnumbered : ∀ {α : Type} (g : α → String) (xs : List α),
      xs.zipIdx.map (fun entry => (entry.2, g entry.1)) = (xs.map g).zipIdx.map Prod.swap := by
    intro α g xs
    rw [List.zipIdx_map, List.map_map]
    rfl
  rw [Encoder.exportsOf, Encoder.namesOf, hnumbered Func.name, names_generate h, ← hnumbered]

end SourceModule

/-- **Whatever is assembled is a valid binary.**  The bytes are laid out as the format asks, and the
tables that they list follow its rules.  They list as many functions as the source declares, and
export each under its name if the options say so. -/
theorem SourceModule.assemble_valid {resolver : Resolver} {options : Options}
    {source : SourceModule} {assembly : Assembly}
    (h : source.assemble resolver options = .ok assembly)
    (hfits : (Encoder.ofOptions options).Fits assembly.output) :
    ∃ sections tables, Binary.Layout assembly.bytes sections ∧
      Binary.Tables.Listed tables sections ∧ tables.Valid ∧
      tables.functions.length = source.functions.length ∧
      tables.exports = if options.exportFunctions then
        source.functions.zipIdx.map fun entry => (entry.2, entry.1.name.name) else [] := by
  obtain ⟨hgenerate, hvalidate, hencode⟩ := assemble_eq_ok h
  have hvalid : ∀ f ∈ assembly.output.functions, f.WellTyped assembly.output.types :=
    fun f hf => Module.wellTyped_of_validate hvalidate hf
  obtain ⟨sections, hlayout, hlisted⟩ := hfits.layout hvalid hencode
  have hnames : (assembly.output.functions.toList.map Func.name).Nodup := by
    rw [names_generate hgenerate]
    exact (nodup_names_of_screen (exists_lowered hgenerate).1 source.span).1
  have htypes : ∀ s ∈ assembly.output.types.types.toList, ∃ f ∈ assembly.output.functions,
      assembly.output.types.get? f.typeIndex = some s := by
    intro s hs
    obtain ⟨-, fs, -, houtput⟩ := exists_lowered hgenerate
    rw [houtput] at hs ⊢
    exact Module.exists_function_of_mem_types hs
  refine ⟨sections, (Encoder.ofOptions options).tables assembly.output, hlayout, hlisted,
    Encoder.tables_valid _ hvalid hnames htypes, ?_, exportsOf_generate hgenerate _⟩
  rw [Encoder.tables, List.length_map]
  exact (generate_eq_ok hgenerate).length_eq.symm

/-- The assembly of `SourceModule.halving`.  The function has a group of two locals after its
parameter. -/
def Assembly.halving : Assembly where
  output := .ofLowered [.halving [.i32]]
  report := ⟨[⟨"f", 10, 2⟩]⟩
  bytes := Encoder.header ++ [
    1, 6, 1, 0x60, 1, 0x7f, 1, 0x7f,
    3, 2, 1, 0,
    7, 5, 1, 1, 0x66, 0, 0,
    10, 22, 1, 20, 1, 2, 0x7f, 0x20, 0, 0x41, 2, 0x6d, 0x21, 1,
      0x02, 0x7f, 0x20, 1, 0x21, 2, 0x20, 2, 0x0b, 0x0b]

theorem SourceModule.assemble_valid_halving :
    halving.assemble .numeric .default = .ok .halving ∧
      (Encoder.ofOptions .default).Fits Assembly.halving.output ∧
      ∃ sections tables, Binary.Layout Assembly.halving.bytes sections ∧
        Binary.Tables.Listed tables sections ∧ tables.Valid ∧
        tables.functions.length = 1 ∧ tables.exports = [(0, "f")] := by
  have hassemble : halving.assemble .numeric .default = .ok .halving := by
    with_unfolding_all rfl
  have hcode : Encoder.codeContent ((LoweredFunction.halving [.i32]).commit .empty).1 =
      .ok [1, 2, 0x7f, 0x20, 0, 0x41, 2, 0x6d, 0x21, 1,
        0x02, 0x7f, 0x20, 1, 0x21, 2, 0x20, 2, 0x0b, 0x0b] := by
    with_unfolding_all rfl
  have hsections : (Encoder.ofOptions .default).sections Assembly.halving.output = .ok [
      ⟨1, [1, 0x60, 1, 0x7f, 1, 0x7f]⟩,
      ⟨3, [1, 0]⟩,
      ⟨7, [1, 1, 0x66, 0, 0]⟩,
      ⟨10, [1, 20, 1, 2, 0x7f, 0x20, 0, 0x41, 2, 0x6d, 0x21, 1,
        0x02, 0x7f, 0x20, 1, 0x21, 2, 0x20, 2, 0x0b, 0x0b]⟩] := by
    with_unfolding_all rfl
  have hfits : (Encoder.ofOptions .default).Fits Assembly.halving.output := by
    have hfunction : ∀ f ∈ Assembly.halving.output.functions.toList,
        f = ((LoweredFunction.halving [.i32]).commit .empty).1 := fun f hf =>
      List.mem_singleton.1 hf
    refine ⟨by decide, ?_, by decide, ?_, ?_, ?_, ?_⟩
    · intro s hs
      rw [List.mem_singleton.1 hs]
      decide
    · intro _ f hf
      rw [hfunction f hf]
      decide
    · intro f hf
      rw [hfunction f hf]
      decide
    · intro f hf content hcontent
      rw [hfunction f hf, hcode] at hcontent
      cases hcontent
      decide
    · intro sections hok s hs
      rw [hsections] at hok
      cases hok
      simp only [List.mem_cons, List.not_mem_nil, or_false] at hs
      rcases hs with rfl | rfl | rfl | rfl
      all_goals decide
  exact ⟨hassemble, hfits, assemble_valid hassemble hfits⟩

end WasmCodegen
