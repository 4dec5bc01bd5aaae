import Std.Data.String.ToInt
import Std.Data.String.ToNat
import Mathlib.Data.List.Forall2
import Mathlib.Logic.Function.Basic
import WasmCodegen.Module.Basic

/-!
# Listings

The text of a module is meant for reading, and not for a reader that takes it apart again.  Blocks
are marked by indentation alone, names are written as they are between quotes, and a body need not
be closed.  Still the text says everything about a module but the number of parameters and the span
of each function: `Module.text_identifies`.

## The argument

Text is cut into lines at the line breaks, so no line may have one in it (`Unbroken`).  Names of
functions are the only part of a line that could.

The first character of a line tells what it belongs to: the signatures come with `t`, the first
line of a function with `f`, and lines of a body with a space.  Inside a body the number of spaces
in front of a line, its `margin`, tells how many blocks it stands in, and a block ends where a line
with a smaller margin begins (`Instruction.eq_of_linesSeq_append_eq`).  An empty block is followed
by such a line at once.

A single line is cut at a place that can be found without knowing what it says.  The first word of
an instruction ends at the first space, and from the two parts the instruction can be read back
(`Instruction.ofLine?`).  The name of a function ends at the last quote of the line, whatever the
name is (`Func.eq_of_header_eq`).  Value types are three characters each, with commas between them.
-/

namespace WasmCodegen

/-! ## Separators -/

section

variable {c : Char} {xs ys us vs : List Char}

/-- Text is cut in one way at the first place where a character stands. -/
theorem eq_of_append_cons_first (hx : c ∉ xs) (hy : c ∉ ys) (h : xs ++ c :: us = ys ++ c :: vs) :
    xs = ys ∧ us = vs := by
  have hsplit := congrArg (List.splitOn c) h
  rw [List.splitOn_append_cons_self_of_not_mem hx, List.splitOn_append_cons_self_of_not_mem hy]
    at hsplit
  obtain rfl := (List.cons.inj hsplit).1
  exact ⟨rfl, (List.cons.inj (List.append_cancel_left h)).2⟩

/-- Text is cut in one way at the last place where a character stands. -/
theorem eq_of_append_cons_last (hu : c ∉ us) (hv : c ∉ vs) (h : xs ++ c :: us = ys ++ c :: vs) :
    xs = ys ∧ us = vs := by
  have hreverse := congrArg List.reverse h
  simp only [List.reverse_append, List.reverse_cons, List.append_assoc, List.singleton_append]
    at hreverse
  obtain ⟨hus, hxs⟩ := eq_of_append_cons_first (mt List.mem_reverse.1 hu)
    (mt List.mem_reverse.1 hv) hreverse
  exact ⟨List.reverse_inj.1 hxs, List.reverse_inj.1 hus⟩

end

/-! ## Lines of text -/

/-- The lines of a text: what stands before each line break, and what is left after the last one
unless it is nothing. -/
def textLines (text : String) : List String :=
  let pieces := text.toList.splitOn '\n'
  (if pieces.getLast? = some [] then pieces.dropLast else pieces).map String.ofList

/-- No line has a line break in it. -/
def Unbroken (lines : List String) : Prop := ∀ line ∈ lines, '\n' ∉ line.toList

namespace Instruction

theorem toList_joinLines_cons (line : String) (lines : List String) :
    (joinLines (line :: lines)).toList = line.toList ++ '\n' :: (joinLines lines).toList := by
  simp [joinLines, String.join_cons]

theorem splitOn_joinLines {lines : List String} (h : Unbroken lines) :
    (joinLines lines).toList.splitOn '\n' = lines.map String.toList ++ [[]] := by
  induction lines with
  | nil => simp [joinLines]
  | cons line lines ih =>
    obtain ⟨hline, hlines⟩ := List.forall_mem_cons.1 h
    rw [toList_joinLines_cons, List.splitOn_append_cons_self_of_not_mem hline, ih hlines]
    rfl

/-- Joined lines come apart again. -/
theorem textLines_joinLines {lines : List String} (h : Unbroken lines) :
    textLines (joinLines lines) = lines := by
  rw [textLines, splitOn_joinLines h]
  simp

end Instruction

/-! ## Numbers -/

theorem notMem_toString_nat {c : Char} (hc : c.isDigit = false) (n : Nat) :
    c ∉ (toString n).toList := by
  rw [Nat.toString_eq_repr, Nat.toList_repr]
  intro hmem
  have hdigit := Nat.isDigit_of_mem_toDigits (by decide) (by decide) hmem
  rw [hc] at hdigit
  cases hdigit

theorem notMem_toString_int {c : Char} (hc : c.isDigit = false) (hminus : c ≠ '-') (n : Int) :
    c ∉ (toString n).toList := by
  rw [Int.toString_eq_repr, Int.repr_eq_if]
  split
  · exact notMem_toString_nat hc _
  · rw [String.toList_append, List.mem_append]
    rintro (hmem | hmem)
    · simp [hminus] at hmem
    · exact notMem_toString_nat hc _ hmem

/-! ## Lines of instructions -/

namespace Instruction

/-- What is inside an instruction. -/
def inner : Instruction → List Instruction
  | .block _ body => body
  | _ => []

theorem lines_eq (depth : Nat) (i : Instruction) :
    i.lines depth = (indent depth ++ i.headline) :: linesSeq (depth + 1) i.inner := by
  cases i <;> simp [lines, inner, linesSeq]

theorem size_eq (i : Instruction) : i.size = 1 + sizeSeq i.inner := by
  cases i <;> simp [size, inner, sizeSeq]

/-- The first word of an instruction's line. -/
def keyword : Instruction → String
  | .const _ => "i32.const"
  | .localGet _ => "local.get"
  | .localSet _ => "local.set"
  | .arith op => op.mnemonic
  | .drop => "drop"
  | .block _ _ => "block"
  | .endSeq => "end"

/-- What stands in an instruction's line after the first word and a space, if there is more. -/
def operand : Instruction → Option String
  | .const value => some (toString value.toInt)
  | .localGet slot => some (toString slot)
  | .localSet slot => some (toString slot)
  | .block (some type) _ => some ("(result " ++ type.name ++ ")")
  | _ => none

/-- The instruction of a line, given the two parts of the line and what is inside. -/
def ofLine? : String → Option String → List Instruction → Option Instruction
  | "i32.const", some text, _ => text.toInt?.map fun value => .const (Int32.ofInt value)
  | "local.get", some text, _ => text.toNat?.map .localGet
  | "local.set", some text, _ => text.toNat?.map .localSet
  | "i32.add", none, _ => some (.arith .add)
  | "i32.sub", none, _ => some (.arith .sub)
  | "i32.mul", none, _ => some (.arith .mul)
  | "i32.div_s", none, _ => some (.arith .divS)
  | "drop", none, _ => some .drop
  | "block", none, body => some (.block none body)
  | "block", some "(result i32)", body => some (.block (some .i32) body)
  | "block", some "(result i64)", body => some (.block (some .i64) body)
  | "block", some "(result f32)", body => some (.block (some .f32) body)
  | "block", some "(result f64)", body => some (.block (some .f64) body)
  | "end", none, _ => some .endSeq
  | _, _, _ => none

/-- An instruction can be read back from its line and what is inside it. -/
theorem ofLine?_eq_some (i : Instruction) : ofLine? i.keyword i.operand i.inner = some i := by
  rcases i with value | slot | slot | op | _ | ⟨_ | type, body⟩ | _
  · show (toString value.toInt).toInt?.map (fun value => Instruction.const (Int32.ofInt value)) = _
    rw [Int.toString_eq_repr, Int.toInt?_repr, Option.map_some, Int32.ofInt_toInt]
  · show (toString slot).toNat?.map Instruction.localGet = _
    rw [Nat.toString_eq_repr, Nat.toNat?_repr, Option.map_some]
  · show (toString slot).toNat?.map Instruction.localSet = _
    rw [Nat.toString_eq_repr, Nat.toNat?_repr, Option.map_some]
  · cases op <;> rfl
  · rfl
  · rfl
  · cases type <;> rfl
  · rfl

/-- The part of a line after its first word. -/
def spaced : Option String → String
  | none => ""
  | some text => " " ++ text

theorem toList_spaced_none : (spaced none).toList = [] := rfl

theorem toList_spaced_some (text : String) : (spaced (some text)).toList = ' ' :: text.toList :=
  String.toList_append

theorem headline_eq (i : Instruction) : i.headline = i.keyword ++ spaced i.operand := by
  rcases i with value | slot | slot | op | _ | ⟨_ | type, body⟩ | _
  · exact @String.append_assoc "i32.const" " " _
  · exact @String.append_assoc "local.get" " " _
  · exact @String.append_assoc "local.set" " " _
  · exact String.append_empty.symm
  · rfl
  · rfl
  · cases type <;> rfl
  · rfl

/-- A first word is not empty, and it is one word. -/
theorem keyword_word (i : Instruction) :
    i.keyword ≠ "" ∧ i.keyword.toList.all (fun c => !c.isWhitespace) = true := by
  rcases i with value | slot | slot | op | _ | ⟨result, body⟩ | _
  case arith => cases op <;> decide
  all_goals
    rw [keyword]
    decide

theorem whitespace_notMem_keyword {c : Char} (hc : c.isWhitespace = true) (i : Instruction) :
    c ∉ i.keyword.toList := by
  intro hmem
  have hfalse := List.all_eq_true.1 i.keyword_word.2 c hmem
  rw [hc] at hfalse
  cases hfalse

/-- The first word of a line ends at the first space, so the two parts can be told apart. -/
theorem words_eq_of_headline_eq {i j : Instruction} (h : i.headline = j.headline) :
    i.keyword = j.keyword ∧ i.operand = j.operand := by
  have hi : ' ' ∉ i.keyword.toList := whitespace_notMem_keyword (by decide) i
  have hj : ' ' ∉ j.keyword.toList := whitespace_notMem_keyword (by decide) j
  have hchars := congrArg String.toList h
  rw [headline_eq, headline_eq, String.toList_append, String.toList_append] at hchars
  cases hoperand : i.operand with
  | none =>
    cases hoperand' : j.operand with
    | none =>
      rw [hoperand, hoperand'] at hchars
      exact ⟨String.toList_inj.1 (List.append_cancel_right hchars), rfl⟩
    | some text =>
      rw [hoperand, hoperand', toList_spaced_none, toList_spaced_some, List.append_nil] at hchars
      exact absurd (hchars ▸ List.mem_append_right _ List.mem_cons_self) hi
  | some text =>
    cases hoperand' : j.operand with
    | none =>
      rw [hoperand, hoperand', toList_spaced_none, toList_spaced_some, List.append_nil] at hchars
      exact absurd (hchars ▸ List.mem_append_right _ List.mem_cons_self) hj
    | some text' =>
      rw [hoperand, hoperand', toList_spaced_some, toList_spaced_some] at hchars
      obtain ⟨hkeyword, htext⟩ := eq_of_append_cons_first hi hj hchars
      exact ⟨String.toList_inj.1 hkeyword, congrArg some (String.toList_inj.1 htext)⟩

/-- An instruction is known by its line and by what is inside it. -/
theorem eq_of_headline_eq {i j : Instruction} (hheadline : i.headline = j.headline)
    (hinner : i.inner = j.inner) : i = j := by
  obtain ⟨hkeyword, hoperand⟩ := words_eq_of_headline_eq hheadline
  have hread := i.ofLine?_eq_some
  rw [hkeyword, hoperand, hinner, j.ofLine?_eq_some] at hread
  exact (Option.some.inj hread).symm

theorem newline_notMem_operand {i : Instruction} {text : String} (h : i.operand = some text) :
    '\n' ∉ text.toList := by
  rcases i with value | slot | slot | op | _ | ⟨_ | type, body⟩ | _ <;> cases h
  · exact notMem_toString_int (by decide) (by decide) _
  · exact notMem_toString_nat (by decide) slot
  · exact notMem_toString_nat (by decide) slot
  · cases type <;> decide

theorem newline_notMem_headline (i : Instruction) : '\n' ∉ i.headline.toList := by
  rw [headline_eq, String.toList_append, List.mem_append, not_or]
  refine ⟨whitespace_notMem_keyword (by decide) i, ?_⟩
  cases hoperand : i.operand with
  | none => exact List.not_mem_nil
  | some text =>
    rw [toList_spaced_some, List.mem_cons, not_or]
    exact ⟨by decide, newline_notMem_operand hoperand⟩

theorem exists_toList_headline (i : Instruction) :
    ∃ c chars, i.headline.toList = c :: chars ∧ c ≠ ' ' := by
  have hspace : ' ' ∉ i.keyword.toList := whitespace_notMem_keyword (by decide) i
  rw [headline_eq, String.toList_append]
  cases hkeyword : i.keyword.toList with
  | nil => exact absurd (String.toList_eq_nil_iff.1 hkeyword) i.keyword_word.1
  | cons c chars =>
    rw [hkeyword] at hspace
    exact ⟨c, chars ++ _, List.cons_append, fun hc => hspace (hc ▸ List.mem_cons_self)⟩

end Instruction

/-- The number of spaces in front of a line. -/
def margin (line : String) : Nat := (line.toList.takeWhile (· == ' ')).length

namespace Instruction

/-- The margin of a line tells in how many blocks it stands. -/
theorem margin_line (depth : Nat) (i : Instruction) :
    margin (indent depth ++ i.headline) = 2 * depth := by
  obtain ⟨c, chars, hheadline, hc⟩ := i.exists_toList_headline
  have hindent : (indent depth).toList = List.replicate (2 * depth) ' ' := String.toList_ofList
  rw [margin, String.toList_append, hindent, hheadline, List.takeWhile_append_of_pos]
  · simp [hc]
  · intro a ha
    simp [List.eq_of_mem_replicate ha]

/-- The first of the lines, if there is one, stands in fewer than `depth` blocks. -/
def Outdented (depth : Nat) (lines : List String) : Prop :=
  ∀ line ∈ lines.head?, margin line < 2 * depth

theorem not_outdented_linesSeq (depth : Nat) (i : Instruction) (body : List Instruction)
    (rest : List String) : ¬ Outdented depth (linesSeq depth (i :: body) ++ rest) := by
  intro h
  rw [linesSeq, lines_eq] at h
  have hmargin := h _ rfl
  rw [margin_line] at hmargin
  exact Nat.lt_irrefl _ hmargin

/-- What follows the inside of an instruction stands farther out than the inside. -/
theorem outdented_linesSeq {depth : Nat} {rest : List String} (h : Outdented depth rest)
    (body : List Instruction) : Outdented (depth + 1) (linesSeq depth body ++ rest) := by
  intro line hline
  cases body with
  | nil =>
    rw [linesSeq, List.nil_append] at hline
    exact Nat.lt_of_lt_of_le (h line hline) (by omega)
  | cons i body =>
    rw [linesSeq, lines_eq] at hline
    cases hline
    rw [margin_line]
    omega

/-- **Layout.**  A sequence is known by its lines, and so is the place where they end, if what
follows stands farther out. -/
theorem eq_of_linesSeq_append_eq {depth : Nat} {body body' : List Instruction}
    {rest rest' : List String} (hrest : Outdented depth rest) (hrest' : Outdented depth rest')
    (h : linesSeq depth body ++ rest = linesSeq depth body' ++ rest') :
    body = body' ∧ rest = rest' := by
  match body, body' with
  | [], [] => exact ⟨rfl, h⟩
  | [], i :: body' =>
    rw [linesSeq, List.nil_append] at h
    exact absurd (h ▸ hrest) (not_outdented_linesSeq depth i body' rest')
  | i :: body, [] =>
    have h : linesSeq depth (i :: body) ++ rest = rest' := h.trans (by simp [linesSeq])
    exact absurd (h ▸ hrest') (not_outdented_linesSeq depth i body rest)
  | i :: body, j :: body' =>
    simp only [linesSeq, lines_eq, List.cons_append, List.append_assoc, List.cons.injEq] at h
    obtain ⟨hline, hinside⟩ := h
    obtain ⟨hinner, hafter⟩ := eq_of_linesSeq_append_eq (outdented_linesSeq hrest body)
      (outdented_linesSeq hrest' body') hinside
    obtain ⟨rfl, hend⟩ := eq_of_linesSeq_append_eq hrest hrest' hafter
    have hheadline := (String.append_right_inj _).1 hline
    exact ⟨congrArg (· :: body) (eq_of_headline_eq hheadline hinner), hend⟩
termination_by sizeSeq body
decreasing_by
  all_goals
    simp only [sizeSeq, size_eq]
    omega

theorem newline_notMem_line (depth : Nat) (i : Instruction) :
    '\n' ∉ (indent depth ++ i.headline).toList := by
  rw [String.toList_append, List.mem_append, not_or]
  refine ⟨?_, i.newline_notMem_headline⟩
  simp [indent]

theorem unbroken_linesSeq (depth : Nat) (body : List Instruction) :
    Unbroken (linesSeq depth body) := by
  cases body with
  | nil => simp [linesSeq, Unbroken]
  | cons i body =>
    rw [linesSeq, lines_eq]
    refine List.forall_mem_append.2 ⟨List.forall_mem_cons.2 ⟨?_, ?_⟩, unbroken_linesSeq depth body⟩
    · exact newline_notMem_line depth i
    · exact unbroken_linesSeq (depth + 1) i.inner
termination_by sizeSeq body
decreasing_by
  all_goals
    simp only [sizeSeq, size_eq]
    omega

theorem outdented_nil (depth : Nat) : Outdented depth [] :=
  fun _ hline => by cases hline

theorem textLines_listing (body : List Instruction) :
    textLines (listing body) = linesSeq 0 body :=
  textLines_joinLines (unbroken_linesSeq 0 body)

/-- A sequence is known by its listing. -/
theorem eq_of_listing_eq {body body' : List Instruction} (h : listing body = listing body') :
    body = body' := by
  have hlines := congrArg textLines h
  rw [textLines_listing, textLines_listing] at hlines
  refine (eq_of_linesSeq_append_eq (outdented_nil 0) (outdented_nil 0) ?_).1
  rw [List.append_nil, List.append_nil, hlines]

end Instruction

/-! ## Lists of types -/

namespace ValueType

variable {word : ValueType → String}

theorem toList_intercalate_cons (type : ValueType) (types : List ValueType) :
    (", ".intercalate ((type :: types).map word)).toList =
      (word type).toList ++
        if types = [] then [] else ',' :: ' ' :: (", ".intercalate (types.map word)).toList := by
  cases types with
  | nil => simp
  | cons other types => simp [String.intercalate_cons_cons]

/-- Words of one length, with commas between them, can be told apart. -/
theorem eq_of_intercalate_eq (hword : Function.Injective word)
    (hlength : ∀ type, (word type).toList.length = 3) {types types' : List ValueType}
    (h : ", ".intercalate (types.map word) = ", ".intercalate (types'.map word)) :
    types = types' := by
  have hempty : ∀ type types, "" ≠ ", ".intercalate ((type :: types).map word) := by
    intro type types heq
    have hchars := congrArg (fun text => text.toList.length) heq
    rw [toList_intercalate_cons, List.length_append, hlength] at hchars
    simp at hchars
    omega
  induction types generalizing types' with
  | nil =>
    cases types' with
    | nil => rfl
    | cons type' types' => exact absurd h (hempty type' types')
  | cons type types ih =>
    cases types' with
    | nil => exact absurd h.symm (hempty type types)
    | cons type' types' =>
      have hchars := congrArg String.toList h
      rw [toList_intercalate_cons, toList_intercalate_cons] at hchars
      obtain ⟨hfirst, hrest⟩ := List.append_inj hchars (by rw [hlength, hlength])
      obtain rfl := hword (String.toList_inj.1 hfirst)
      congr 1
      by_cases htypes : types = [] <;> by_cases htypes' : types' = [] <;>
        simp only [htypes, htypes', if_true, if_false, List.cons.injEq, true_and] at hrest
      · rw [htypes, htypes']
      · cases hrest
      · cases hrest
      · exact ih (String.toList_inj.1 hrest)

theorem notMem_intercalate {c : Char} (hcomma : c ≠ ',') (hspace : c ≠ ' ')
    (hword : ∀ type, c ∉ (word type).toList) (types : List ValueType) :
    c ∉ (", ".intercalate (types.map word)).toList := by
  induction types with
  | nil => simp
  | cons type types ih =>
    rw [toList_intercalate_cons, List.mem_append, not_or]
    refine ⟨hword type, ?_⟩
    split
    · exact List.not_mem_nil
    · simp only [List.mem_cons, hcomma, hspace, ih, or_self, not_false_eq_true]

theorem name_injective : Function.Injective name := by
  intro a b h
  cases a <;> cases b <;> simp [name] at h <;> rfl

theorem label_injective : Function.Injective label := by
  intro a b h
  cases a <;> cases b <;> simp [label] at h <;> rfl

theorem eq_of_labels_eq {types types' : List ValueType} (h : labels types = labels types') :
    types = types' := by
  refine eq_of_intercalate_eq label_injective (by intro type; cases type <;> rfl) ?_
  exact (String.append_right_inj _).1 ((String.append_left_inj _).1 h)

theorem notMem_labels {c : Char} (hchars : c ∉ [',', ' ', '[', ']'])
    (hlabel : ∀ type, c ∉ (label type).toList) (types : List ValueType) :
    c ∉ (labels types).toList := by
  simp only [List.mem_cons, List.not_mem_nil, or_false, not_or] at hchars
  obtain ⟨hcomma, hspace, hopen, hclose⟩ := hchars
  have hlist := notMem_intercalate hcomma hspace hlabel types
  rw [labels, String.toList_append, String.toList_append, List.mem_append, List.mem_append]
  simp only [not_or]
  exact ⟨⟨by simpa using hopen, hlist⟩, by simpa using hclose⟩

end ValueType

/-! ## Signatures -/

namespace Signature

theorem toList_text (s : Signature) :
    s.text.toList =
      '(' :: ((", ".intercalate (s.params.map ValueType.name)).toList ++
        ')' :: (" -> (".toList ++
          ((", ".intercalate (s.results.map ValueType.name)).toList ++ [')']))) := by
  simp only [text, String.toList_append, List.append_assoc]
  rfl

theorem eq_of_text_eq {s s' : Signature} (h : s.text = s'.text) : s = s' := by
  have hname : ∀ types : List ValueType,
      ')' ∉ (", ".intercalate (types.map ValueType.name)).toList :=
    ValueType.notMem_intercalate (by decide) (by decide) (by intro type; cases type <;> decide)
  have hlength : ∀ type : ValueType, type.name.toList.length = 3 := by
    intro type
    cases type <;> rfl
  have hchars := congrArg String.toList h
  rw [toList_text, toList_text, List.cons.injEq] at hchars
  obtain ⟨hparams, hresults⟩ := eq_of_append_cons_first (hname _) (hname _) hchars.2
  have hresults := List.append_cancel_right (List.append_cancel_left hresults)
  cases s
  cases s'
  congr
  · exact ValueType.eq_of_intercalate_eq ValueType.name_injective hlength
      (String.toList_inj.1 hparams)
  · exact ValueType.eq_of_intercalate_eq ValueType.name_injective hlength
      (String.toList_inj.1 hresults)

theorem newline_notMem_text (s : Signature) : '\n' ∉ s.text.toList := by
  have hname : ∀ types : List ValueType,
      '\n' ∉ (", ".intercalate (types.map ValueType.name)).toList :=
    ValueType.notMem_intercalate (by decide) (by decide) (by intro type; cases type <;> decide)
  rw [toList_text]
  exact List.not_mem_cons_of_ne_of_not_mem (by decide) (List.not_mem_append (hname _)
    (List.not_mem_cons_of_ne_of_not_mem (by decide) (List.not_mem_append (by decide)
      (List.not_mem_append (hname _) (by decide)))))

end Signature

/-! ## Functions -/

namespace Func

/-- The first line of a function. -/
def header (f : Func) (position : Nat) : String :=
  "func " ++ toString position ++ " \"" ++ f.name ++ "\" type " ++ toString f.typeIndex ++
    " locals " ++ ValueType.labels f.locals.toList

theorem lines_eq (f : Func) (position : Nat) :
    f.lines position = f.header position :: Instruction.linesSeq 1 f.body := rfl

/-- The functions differ in nothing that a listing shows. -/
structure ListedAlike (f g : Func) : Prop where
  name : f.name = g.name
  typeIndex : f.typeIndex = g.typeIndex
  locals : f.locals = g.locals
  body : f.body = g.body

/-- What stands after the name of a function. -/
def afterName (f : Func) : List Char :=
  " type ".toList ++ ((toString f.typeIndex).toList ++
    ' ' :: ("locals ".toList ++ (ValueType.labels f.locals.toList).toList))

theorem toList_header (f : Func) (position : Nat) :
    (f.header position).toList =
      "func ".toList ++ ((toString position).toList ++ (" \"".toList ++
        (f.name.toList ++ '"' :: f.afterName))) := by
  show ("func " ++ toString position ++ " \"" ++ f.name ++ "\" type " ++ toString f.typeIndex ++
    " locals " ++ ValueType.labels f.locals.toList).toList = _
  simp only [String.toList_append, List.append_assoc]
  rfl

theorem notMem_afterName {c : Char} {f : Func} (htype : c ∉ " type ".toList) (hspace : c ≠ ' ')
    (hlocals : c ∉ "locals ".toList) (hdigit : c.isDigit = false)
    (hlabels : c ∉ (ValueType.labels f.locals.toList).toList) : c ∉ f.afterName :=
  List.not_mem_append htype (List.not_mem_append (notMem_toString_nat hdigit _)
    (List.not_mem_cons_of_ne_of_not_mem hspace (List.not_mem_append hlocals hlabels)))

theorem quote_notMem_afterName (f : Func) : '"' ∉ f.afterName := by
  refine notMem_afterName (by decide) (by decide) (by decide) (by decide) ?_
  exact ValueType.notMem_labels (by decide) (by intro type; cases type <;> decide) _

theorem newline_notMem_afterName (f : Func) : '\n' ∉ f.afterName := by
  refine notMem_afterName (by decide) (by decide) (by decide) (by decide) ?_
  exact ValueType.notMem_labels (by decide) (by intro type; cases type <;> decide) _

theorem eq_of_afterName_eq {f g : Func} (h : f.afterName = g.afterName) :
    f.typeIndex = g.typeIndex ∧ f.locals = g.locals := by
  have hnumber : ∀ n : Nat, ' ' ∉ (toString n).toList := notMem_toString_nat (by decide)
  obtain ⟨hindex, hlocals⟩ :=
    eq_of_append_cons_first (hnumber _) (hnumber _) (List.append_cancel_left h)
  have hlocals := String.toList_inj.1 (List.append_cancel_left hlocals)
  rw [String.toList_inj, Nat.toString_eq_repr, Nat.toString_eq_repr] at hindex
  exact ⟨Nat.repr_injective hindex, Array.toList_inj.1 (ValueType.eq_of_labels_eq hlocals)⟩

/-- A first line tells name, signature and locals apart.  The name may have quotes in it, but what
comes after it has none, so the name ends at the last one. -/
theorem eq_of_header_eq {f g : Func} {position : Nat} (h : f.header position = g.header position) :
    f.name = g.name ∧ f.typeIndex = g.typeIndex ∧ f.locals = g.locals := by
  have hchars := congrArg String.toList h
  rw [toList_header, toList_header] at hchars
  have hchars := List.append_cancel_left (List.append_cancel_left (List.append_cancel_left hchars))
  obtain ⟨hname, hafter⟩ :=
    eq_of_append_cons_last f.quote_notMem_afterName g.quote_notMem_afterName hchars
  exact ⟨String.toList_inj.1 hname, eq_of_afterName_eq hafter⟩

theorem head_header (f : Func) (position : Nat) : (f.header position).toList.head? = some 'f' := by
  rw [toList_header]
  rfl

theorem margin_header (f : Func) (position : Nat) : margin (f.header position) = 0 := by
  rw [margin, toList_header]
  rfl

theorem newline_notMem_header {f : Func} (h : '\n' ∉ f.name.toList) (position : Nat) :
    '\n' ∉ (f.header position).toList := by
  have hnumber : '\n' ∉ (toString position).toList := notMem_toString_nat (by decide) position
  rw [toList_header]
  exact List.not_mem_append (by decide) (List.not_mem_append hnumber
    (List.not_mem_append (by decide) (List.not_mem_append h
      (List.not_mem_cons_of_ne_of_not_mem (by decide) f.newline_notMem_afterName))))

/-- The lines of functions, numbered from a position on. -/
def linesFrom (position : Nat) : List Func → List String
  | [] => []
  | f :: rest => f.lines position ++ linesFrom (position + 1) rest

theorem linesFrom_eq (position : Nat) (functions : List Func) :
    linesFrom position functions =
      (functions.zipIdx position).flatMap fun entry => entry.1.lines entry.2 := by
  induction functions generalizing position with
  | nil => rfl
  | cons f rest ih => rw [linesFrom, ih, List.zipIdx_cons, List.flatMap_cons]

theorem outdented_linesFrom (position : Nat) (functions : List Func) :
    Instruction.Outdented 1 (linesFrom position functions) := by
  intro line hline
  cases functions with
  | nil => cases hline
  | cons f rest =>
    rw [linesFrom, lines_eq] at hline
    cases hline
    rw [margin_header]
    decide

/-- Functions are known by their lines. -/
theorem listedAlike_of_linesFrom_eq {position : Nat} {functions functions' : List Func}
    (h : linesFrom position functions = linesFrom position functions') :
    List.Forall₂ ListedAlike functions functions' := by
  induction functions generalizing position functions' with
  | nil =>
    cases functions' with
    | nil => exact .nil
    | cons g rest' => cases h
  | cons f rest ih =>
    cases functions' with
    | nil => cases h
    | cons g rest' =>
      simp only [linesFrom, lines_eq, List.cons_append, List.cons.injEq] at h
      obtain ⟨hheader, hlines⟩ := h
      obtain ⟨hname, hindex, hlocals⟩ := eq_of_header_eq hheader
      obtain ⟨hbody, hrest⟩ := Instruction.eq_of_linesSeq_append_eq (outdented_linesFrom _ rest)
        (outdented_linesFrom _ rest') hlines
      exact .cons ⟨hname, hindex, hlocals, hbody⟩ (ih hrest)

theorem unbroken_linesFrom (position : Nat) {functions : List Func}
    (h : ∀ f ∈ functions, '\n' ∉ f.name.toList) : Unbroken (linesFrom position functions) := by
  induction functions generalizing position with
  | nil => exact fun line hline => absurd hline List.not_mem_nil
  | cons f rest ih =>
    obtain ⟨hf, hrest⟩ := List.forall_mem_cons.1 h
    rw [linesFrom, lines_eq]
    refine List.forall_mem_append.2 ⟨List.forall_mem_cons.2 ⟨?_, ?_⟩, ih _ hrest⟩
    · exact newline_notMem_header hf position
    · exact Instruction.unbroken_linesSeq 1 f.body

end Func

/-! ## Modules -/

namespace Module

theorem eq_of_typeLine_eq {s s' : Signature} {position : Nat}
    (h : typeLine s position = typeLine s' position) : s = s' :=
  Signature.eq_of_text_eq ((String.append_right_inj _).1 h)

theorem head_typeLine (s : Signature) (position : Nat) :
    (typeLine s position).toList.head? = some 't' := by
  simp only [typeLine, String.toList_append]
  rfl

theorem newline_notMem_typeLine (s : Signature) (position : Nat) :
    '\n' ∉ (typeLine s position).toList := by
  have hnumber := notMem_toString_nat (c := '\n') (by decide) position
  simp only [typeLine, String.toList_append, List.mem_append, hnumber, s.newline_notMem_text]
  decide

/-- The lines of signatures, numbered from a position on. -/
def typeLinesFrom (position : Nat) : List Signature → List String
  | [] => []
  | s :: rest => typeLine s position :: typeLinesFrom (position + 1) rest

theorem lines_eq (m : Module) :
    m.lines = typeLinesFrom 0 m.types.types.toList ++ Func.linesFrom 0 m.functions.toList := by
  have htypes : ∀ position (signatures : List Signature),
      typeLinesFrom position signatures =
        (signatures.zipIdx position).map fun entry => typeLine entry.1 entry.2 := by
    intro position signatures
    induction signatures generalizing position with
    | nil => rfl
    | cons s rest ih => rw [typeLinesFrom, ih, List.zipIdx_cons, List.map_cons]
  rw [htypes, Func.linesFrom_eq]
  rfl

theorem linesFrom_ne_typeLine_cons (position : Nat) (functions : List Func) (s : Signature)
    (position' : Nat) (rest : List String) :
    Func.linesFrom position functions ≠ typeLine s position' :: rest := by
  cases functions with
  | nil =>
    intro h
    cases h
  | cons f others =>
    intro h
    rw [Func.linesFrom, Func.lines_eq, List.cons_append, List.cons.injEq] at h
    have hhead := f.head_header position
    rw [h.1, head_typeLine] at hhead
    exact absurd hhead (by decide)

/-- Signatures are known by their lines, and so is the place where the functions begin. -/
theorem eq_of_typeLinesFrom_append_eq {position : Nat} {signatures signatures' : List Signature}
    {functions functions' : List Func}
    (h : typeLinesFrom position signatures ++ Func.linesFrom 0 functions =
      typeLinesFrom position signatures' ++ Func.linesFrom 0 functions') :
    signatures = signatures' ∧ Func.linesFrom 0 functions = Func.linesFrom 0 functions' := by
  induction signatures generalizing position signatures' with
  | nil =>
    cases signatures' with
    | nil => exact ⟨rfl, h⟩
    | cons s' rest' => exact absurd h (linesFrom_ne_typeLine_cons 0 functions s' position _)
  | cons s rest ih =>
    cases signatures' with
    | nil => exact absurd h.symm (linesFrom_ne_typeLine_cons 0 functions' s position _)
    | cons s' rest' =>
      simp only [typeLinesFrom, List.cons_append, List.cons.injEq] at h
      obtain ⟨hrest, hfunctions⟩ := ih h.2
      rw [eq_of_typeLine_eq h.1, hrest]
      exact ⟨rfl, hfunctions⟩

theorem unbroken_typeLinesFrom (position : Nat) (signatures : List Signature) :
    Unbroken (typeLinesFrom position signatures) := by
  induction signatures generalizing position with
  | nil => exact fun line hline => absurd hline List.not_mem_nil
  | cons s rest ih =>
    exact List.forall_mem_cons.2 ⟨newline_notMem_typeLine s position, ih (position + 1)⟩

theorem textLines_text {m : Module} (h : ∀ f ∈ m.functions.toList, '\n' ∉ f.name.toList) :
    textLines m.text = m.lines := by
  refine Instruction.textLines_joinLines ?_
  rw [lines_eq]
  exact List.forall_mem_append.2
    ⟨unbroken_typeLinesFrom 0 m.types.types.toList, Func.unbroken_linesFrom 0 h⟩

/-- **A listing identifies the module.**  If no function has a line break in its name, modules with
the same text have the same signatures, and functions with the same names, signatures, locals and
bodies in the same order.  A listing of instructions has as many lines as there are instructions,
those inside blocks included, and identifies the sequence, whether or not the sequence and the
blocks in it are closed as they should be. -/
theorem text_identifies :
    (∀ m m' : Module,
      (∀ f ∈ m.functions.toList, '\n' ∉ f.name.toList) →
      (∀ f ∈ m'.functions.toList, '\n' ∉ f.name.toList) →
      m.text = m'.text →
        m.types.types = m'.types.types ∧
        List.Forall₂ Func.ListedAlike m.functions.toList m'.functions.toList) ∧
    Function.Injective Instruction.listing ∧
    ∀ body, (textLines (Instruction.listing body)).length = Instruction.sizeSeq body := by
  refine ⟨?_, fun _ _ => Instruction.eq_of_listing_eq, ?_⟩
  · intro m m' hnames hnames' htext
    have hlines := congrArg textLines htext
    rw [textLines_text hnames, textLines_text hnames', lines_eq, lines_eq] at hlines
    obtain ⟨htypes, hfunctions⟩ := eq_of_typeLinesFrom_append_eq hlines
    exact ⟨Array.toList_inj.1 htypes, Func.listedAlike_of_linesFrom_eq hfunctions⟩
  · intro body
    rw [Instruction.textLines_listing, Instruction.length_linesSeq]

/-- A module with one function, whose name looks like the rest of its line.  The number of
parameters and the span are not listed. -/
def quoting (paramCount : Nat) (span : Span) : Module where
  types := .ofList [⟨[.i32], []⟩]
  functions := #[
    { name := "f\" type 1 locals [F64]", typeIndex := 0, paramCount, locals := #[.i32],
      body := [.block none [], .endSeq, .drop], span }]

theorem text_identifies_quoting :
    (quoting 1 ⟨1, 1, 9⟩).text = (quoting 0 ⟨2, 4, 9⟩).text ∧
    List.Forall₂ Func.ListedAlike (quoting 1 ⟨1, 1, 9⟩).functions.toList
      (quoting 0 ⟨2, 4, 9⟩).functions.toList := by
  have htext : (quoting 1 ⟨1, 1, 9⟩).text = (quoting 0 ⟨2, 4, 9⟩).text := rfl
  have hsame := text_identifies.1 (quoting 1 ⟨1, 1, 9⟩) (quoting 0 ⟨2, 4, 9⟩)
    (List.forall_mem_singleton.2 (by decide)) (List.forall_mem_singleton.2 (by decide)) htext
  exact ⟨htext, hsame.2⟩

/-- With a line break in it, a name can pass for a whole function. -/
example :
    let f : Func :=
      { name := "f", typeIndex := 0, paramCount := 0, locals := #[], body := [.endSeq] }
    let both := "f\" type 0 locals []\n  end\nfunc 1 \"g"
    text { functions := #[f, { f with name := "g" }] } =
      text { functions := #[{ f with name := both }] } := by
  decide

end Module

end WasmCodegen
