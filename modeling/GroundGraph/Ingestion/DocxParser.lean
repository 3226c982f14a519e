import GroundGraph.Ingestion.PdfParser
import GroundGraph.Library.NumberedGroups
import Mathlib.Algebra.GroupWithZero.Nat
import Mathlib.Data.List.Infix

/-! `DocxParser` in `application/ingestion/parsers.py`. What it counts are paragraphs, and a
paragraph may have several lines in the body.
-/

set_option autoImplicit false

namespace GroundGraph.Ingestion

open PyText

structure Paragraph where
  text : List Char
  styleName : Option (List Char) := none

/-- `para.style and para.style.name and "Code" in para.style.name`. -/
def Paragraph.isCode (para : Paragraph) : Bool :=
  para.styleName.any fun name => decide ("Code".toList <:+: name)

/-- What `docx.Document` makes of a file; of a table the number of its rows. -/
structure DocxDocument where
  paragraphs : List Paragraph
  tables : List Nat := []
  title : List Char := []

def FenceScan.addParagraph (st : FenceScan) (para : Paragraph) : FenceScan :=
  if blank para.text then st.append []
  else if startsFence para.text then st.fence.append para.text
  else if st.inCode then st.append para.text
  else if para.isCode then st.append ("```\n".toList ++ para.text ++ "\n```".toList)
  else st.append para.text

/-- `DocxParser.parse`. -/
def parseDocx (read : List UInt8 → Except String DocxDocument) (content : List UInt8) :
    Except IngestError (ParsedContent × JsonObject) :=
  match read content with
  | .error detail => .error (.unsupportedFormat .docxParseError detail)
  | .ok document =>
    let st := document.paragraphs.foldl FenceScan.addParagraph {}
    let body := joinLines st.lines
    let rowCount := document.tables.sum
    let first := firstLine body
    let title :=
      if document.title = [] then if first = [] then "untitled".toList else first.take 120
      else document.title
    if blank body then .error (.unsupportedFormat .emptyContent "")
    else
      .ok ({ title := title
             body := body
             mediaType := "application/vnd.openxmlformats-officedocument.wordprocessingml.document"
             codeBlocks := st.codeBlocks
             tables := if 0 < rowCount then [(0, (rowCount : Int))] else [] },
           [("paragraph_count", .int document.paragraphs.length),
             ("table_count", .int document.tables.length)])

def openAfter (inCode : Bool) (paras : List Paragraph) : Bool :=
  paras.foldl (fun isOpen para => xor isOpen (startsFence para.text)) inCode

/-- What is put into the body for a paragraph, without the last newline. -/
def paragraphText (inCode : Bool) (para : Paragraph) : List Char :=
  if blank para.text then []
  else if startsFence para.text || inCode || !para.isCode then para.text
  else "```\n".toList ++ para.text ++ "\n```".toList

def paragraphTexts : Bool → List Paragraph → List (List Char)
  | _, [] => []
  | inCode, para :: rest =>
    paragraphText inCode para :: paragraphTexts (xor inCode (startsFence para.text)) rest

/-- The numbers of the paragraphs that open and close a block, from number `n` on. -/
def fencePairs : Option Int → Int → List Paragraph → List (Int × Int)
  | _, _, [] => []
  | opened, n, para :: rest =>
    if startsFence para.text then
      match opened with
      | none => fencePairs (some n) (n + 1) rest
      | some a => (a, n) :: fencePairs none (n + 1) rest
    else fencePairs opened (n + 1) rest

section
variable {para : Paragraph}

theorem not_blank_of_startsFence {line : List Char} (h : startsFence line = true) :
    blank line = false := by
  by_contra hblank
  rw [startsFence, strip_eq_nil_iff.mpr (Bool.not_eq_false _ |>.mp hblank)] at h
  cases h

theorem paragraphText_of_fence {inCode : Bool} (h : startsFence para.text = true) :
    paragraphText inCode para = para.text := by
  simp [paragraphText, h, not_blank_of_startsFence h]

theorem addParagraph_of_fence (st : FenceScan) (h : startsFence para.text = true) :
    st.addParagraph para = st.fence.append (paragraphText st.inCode para) := by
  have hblank : ¬ blank para.text = true := by simp [not_blank_of_startsFence h]
  rw [paragraphText_of_fence h, FenceScan.addParagraph, if_neg hblank, if_pos h]

theorem addParagraph_of_not_fence (st : FenceScan) (h : startsFence para.text = false) :
    st.addParagraph para = st.append (paragraphText st.inCode para) := by
  unfold FenceScan.addParagraph paragraphText
  cases hblank : blank para.text <;> cases hcode : st.inCode <;> cases hstyle : para.isCode <;>
    simp [h]

end

def FenceScan.opened (st : FenceScan) : Option Int := if st.inCode then some st.codeStart else none

@[simp] theorem FenceScan.append_opened (st : FenceScan) (line : List Char) :
    (st.append line).opened = st.opened := rfl

theorem foldl_addParagraph (paras : List Paragraph) (st : FenceScan) :
    (paras.foldl FenceScan.addParagraph st).lines = st.lines ++ paragraphTexts st.inCode paras ∧
      (paras.foldl FenceScan.addParagraph st).codeBlocks =
        st.codeBlocks ++ fencePairs st.opened (st.lines.length + 1) paras := by
  induction paras generalizing st with
  | nil => simp [paragraphTexts, fencePairs]
  | cons para rest ih =>
    obtain ⟨hlines, hblocks⟩ := ih (st.addParagraph para)
    rw [List.foldl_cons, hlines, hblocks]
    cases hfence : startsFence para.text with
    | false =>
      rw [addParagraph_of_not_fence st hfence, FenceScan.append_opened]
      simp [paragraphTexts, fencePairs, hfence, FenceScan.append]
    | true =>
      rw [addParagraph_of_fence st hfence]
      cases hcode : st.inCode <;>
        simp [paragraphTexts, fencePairs, hfence, hcode, FenceScan.append, FenceScan.opened,
          FenceScan.fence]

/-- The lines of the body, each with the number of the paragraph that it comes from. -/
def bodyLines (paras : List Paragraph) : List (List Char × Nat) :=
  NumberedGroups.numbered 1
    ((paragraphTexts false paras).map fun text => splitlines (text ++ ['\n']))

def oneLine (inCode : Bool) (para : Paragraph) : Bool :=
  blank para.text ||
    decide ((splitlines (para.text ++ ['\n'])).length = 1) &&
      (startsFence para.text || inCode || !para.isCode)

def fenceFirst (para : Paragraph) : Bool :=
  (splitlines (para.text ++ ['\n'])).head?.any startsFence

theorem splitlines_newline_ne_nil (text : List Char) : splitlines (text ++ ['\n']) ≠ [] := by
  rw [splitlines, Ne, List.map_eq_nil_iff]
  exact lines_ne_nil (by simp)

theorem oneLine_iff (inCode : Bool) (para : Paragraph) :
    (splitlines (paragraphText inCode para ++ ['\n'])).length = 1 ↔ oneLine inCode para = true := by
  unfold paragraphText oneLine
  split
  · rename_i hblank
    simp [hblank, splitlines, lines, isLineBreak]
  · rename_i hblank
    split
    · rename_i hplain
      simp [hblank, hplain]
    · rename_i hstyled
      -- the two fences that are put around the text are lines of their own
      have hsplit : "```\n".toList ++ para.text ++ "\n```".toList ++ ['\n'] =
          "```".toList ++ '\n' :: (para.text ++ "\n```".toList ++ ['\n']) := by
        simp
      have hfirst := List.length_pos_of_ne_nil (splitlines_newline_ne_nil "```".toList)
      have hrest := List.length_pos_of_ne_nil
        (splitlines_newline_ne_nil (para.text ++ "\n```".toList))
      constructor
      · intro hone
        rw [hsplit, splitlines_append_newline, List.length_append] at hone
        omega
      · intro hone
        simp [hblank, hstyled] at hone

theorem getElem?_paragraphTexts (inCode : Bool) (paras : List Paragraph) (k : Nat) :
    (paragraphTexts inCode paras)[k]? =
      paras[k]?.map (paragraphText (openAfter inCode (paras.take k))) := by
  induction paras generalizing inCode k with
  | nil => rfl
  | cons para rest ih =>
    cases k with
    | zero => rfl
    | succ k => simpa [paragraphTexts, openAfter] using ih (xor inCode (startsFence para.text)) k

/-- In front of paragraph `k` each paragraph is a single line. -/
def LinesBefore (paras : List Paragraph) (k : Nat) : Prop :=
  ∀ j < k, ∀ para, paras[j]? = some para → oneLine (openAfter false (paras.take j)) para = true

theorem linesBefore_iff (paras : List Paragraph) (k : Nat) :
    (∀ g ∈ ((paragraphTexts false paras).map fun text => splitlines (text ++ ['\n'])).take k,
        g.length = 1) ↔ LinesBefore paras k := by
  have hgroup : ∀ j, ((paragraphTexts false paras).map fun text => splitlines (text ++ ['\n']))[j]? =
      paras[j]?.map fun para =>
        splitlines (paragraphText (openAfter false (paras.take j)) para ++ ['\n']) := by
    intro j
    rw [List.getElem?_map, getElem?_paragraphTexts, Option.map_map]
    rfl
  constructor
  · intro h j hj para hpara
    rw [← oneLine_iff]
    refine h _ (List.mem_iff_getElem?.mpr ⟨j, ?_⟩)
    rw [List.getElem?_take_of_lt hj, hgroup, hpara]
    rfl
  · intro h g hg
    obtain ⟨j, hj⟩ := List.mem_iff_getElem?.mp hg
    rw [List.getElem?_take] at hj
    split at hj
    · rename_i hjk
      rw [hgroup] at hj
      obtain ⟨para, hpara, rfl⟩ := Option.map_eq_some_iff.mp hj
      exact (oneLine_iff _ para).mpr (h j hjk para hpara)
    · cases hj

theorem bodyLines_at_iff {paras : List Paragraph} {k : Nat} {para : Paragraph}
    (hpara : paras[k]? = some para) (hfence : startsFence para.text = true) :
    (∃ line, (bodyLines paras)[k]? = some (line, k + 1) ∧ startsFence line = true) ↔
      LinesBefore paras k ∧ fenceFirst para = true := by
  have hne : ∀ g ∈ (paragraphTexts false paras).map fun text => splitlines (text ++ ['\n']),
      g ≠ [] := by
    intro g hg
    obtain ⟨text, _, rfl⟩ := List.mem_map.mp hg
    exact splitlines_newline_ne_nil text
  have hgroup : ((paragraphTexts false paras).map fun text => splitlines (text ++ ['\n']))[k]? =
      some (splitlines (para.text ++ ['\n'])) := by
    rw [List.getElem?_map, getElem?_paragraphTexts, hpara, Option.map_some, Option.map_some,
      paragraphText_of_fence hfence]
  rw [Nat.add_comm k 1]
  unfold bodyLines fenceFirst
  simp only [NumberedGroups.numbered_at_iff hne, linesBefore_iff, hgroup, Option.bind_some,
    Option.any_eq_true]
  constructor
  · rintro ⟨line, ⟨hlines, hhead⟩, hline⟩
    exact ⟨hlines, line, hhead, hline⟩
  · rintro ⟨hlines, line, hhead, hline⟩
    exact ⟨line, ⟨hlines, hhead⟩, hline⟩

/-- A fence that is a single line is on this line. -/
theorem fenceFirst_of_oneLine {inCode : Bool} {para : Paragraph}
    (hone : oneLine inCode para = true) (hfence : startsFence para.text = true) :
    fenceFirst para = true := by
  have hlength : (lines (para.text ++ ['\n'])).length = 1 := by
    have hblank := not_blank_of_startsFence hfence
    simp only [oneLine, hblank, hfence, Bool.false_or, Bool.true_or, Bool.and_true,
      decide_eq_true_eq, splitlines, List.length_map] at hone
    exact hone
  obtain ⟨l, hl⟩ := List.length_eq_one_iff.mp hlength
  have hstop : blank l.2 = true := blank_of_mem_lines l (by rw [hl]; exact List.mem_singleton_self l)
  have hflat : para.text ++ ['\n'] = l.1 ++ l.2 := by
    rw [← flatten_splitlinesKeepends (para.text ++ ['\n']), splitlinesKeepends, hl]
    simp
  have hstrip : strip l.1 = strip para.text := by
    rw [← strip_append_of_blank (s := l.1) hstop, ← hflat, strip_append_of_blank (by decide)]
  rw [fenceFirst, splitlines, hl]
  simpa [startsFence, hstrip] using hfence

/-- Paragraph `k` is a fence that closes a block. -/
def IsClosing (paras : List Paragraph) (inCode : Bool) (k : Nat) : Prop :=
  ∃ para, paras[k]? = some para ∧ startsFence para.text = true ∧
    openAfter inCode (paras.take k) = true

def IsFence (paras : List Paragraph) (j : Nat) : Prop :=
  ∃ para, paras[j]? = some para ∧ startsFence para.text = true

theorem isClosing_succ {para : Paragraph} {rest : List Paragraph} {inCode : Bool} {k : Nat} :
    IsClosing (para :: rest) inCode (k + 1) ↔
      IsClosing rest (xor inCode (startsFence para.text)) k := Iff.rfl

theorem mem_fencePairs {opened : Option Int} {n : Int} {paras : List Paragraph} {pair : Int × Int}
    (h : pair ∈ fencePairs opened n paras) :
    ∃ k : Nat, pair.2 = n + k ∧ IsClosing paras opened.isSome k ∧
      (opened = some pair.1 ∨ ∃ j : Nat, j < k ∧ pair.1 = n + j ∧ IsFence paras j) := by
  induction paras generalizing opened n with
  | nil => cases h
  | cons para rest ih =>
    cases hfence : startsFence para.text with
    | false =>
      simp only [fencePairs, hfence, Bool.false_eq_true, if_false] at h
      obtain ⟨k, hk, hclosing, hopens⟩ := ih h
      refine ⟨k + 1, by omega, isClosing_succ.mpr (by rwa [hfence, Bool.xor_false]), ?_⟩
      rcases hopens with hopened | ⟨j, hjk, hj, hfirst⟩
      · exact .inl hopened
      · exact .inr ⟨j + 1, by omega, by omega, hfirst⟩
    | true =>
      have hhere : IsFence (para :: rest) 0 := ⟨para, rfl, hfence⟩
      cases opened with
      | none =>
        simp only [fencePairs, hfence, if_true] at h
        obtain ⟨k, hk, hclosing, hopens⟩ := ih h
        refine ⟨k + 1, by omega, isClosing_succ.mpr (by rw [hfence]; exact hclosing), .inr ?_⟩
        rcases hopens with hopened | ⟨j, hjk, hj, hfirst⟩
        · exact ⟨0, by omega, by simpa using (Option.some.inj hopened).symm, hhere⟩
        · exact ⟨j + 1, by omega, by omega, hfirst⟩
      | some a =>
        simp only [fencePairs, hfence, if_true] at h
        rcases List.mem_cons.mp h with rfl | h
        · exact ⟨0, by simp, ⟨para, rfl, hfence, rfl⟩, .inl rfl⟩
        · obtain ⟨k, hk, hclosing, hopens⟩ := ih h
          refine ⟨k + 1, by omega, isClosing_succ.mpr (by rw [hfence]; exact hclosing), .inr ?_⟩
          rcases hopens with hopened | ⟨j, hjk, hj, hfirst⟩
          · cases hopened
          · exact ⟨j + 1, by omega, by omega, hfirst⟩

theorem exists_fencePairs (opened : Option Int) (n : Int) {paras : List Paragraph} {k : Nat}
    (h : IsClosing paras opened.isSome k) : ∃ a, (a, n + k) ∈ fencePairs opened n paras := by
  induction paras generalizing opened n k with
  | nil =>
    obtain ⟨para, hpara, _⟩ := h
    cases hpara
  | cons para rest ih =>
    cases k with
    | zero =>
      obtain ⟨first, hfirst, hfence, hopen⟩ := h
      obtain rfl := Option.some.inj hfirst
      obtain ⟨a, rfl⟩ := Option.isSome_iff_exists.mp hopen
      exact ⟨a, by simp [fencePairs, hfence]⟩
    | succ k =>
      have hnumber : n + ((k + 1 : Nat) : Int) = n + 1 + k := by omega
      have hrest := isClosing_succ.mp h
      rw [hnumber]
      cases hfence : startsFence para.text with
      | false =>
        rw [hfence, Bool.xor_false] at hrest
        obtain ⟨a, ha⟩ := ih opened (n + 1) hrest
        exact ⟨a, by simpa [fencePairs, hfence] using ha⟩
      | true =>
        rw [hfence] at hrest
        cases opened with
        | none =>
          obtain ⟨a, ha⟩ := ih (some n) (n + 1) hrest
          exact ⟨a, by simpa [fencePairs, hfence] using ha⟩
        | some start =>
          obtain ⟨a, ha⟩ := ih none (n + 1) hrest
          exact ⟨a, by simpa [fencePairs, hfence] using Or.inr ha⟩

/-- The range lies in the body, begins with the line of one of the two paragraphs and ends with
that of the other, and these lines are fences. -/
structure DelimitedBy (ls : List (List Char × Nat)) (pair block : Int × Int) : Prop where
  first : 1 ≤ block.1
  lt : block.1 < block.2
  last : block.2 ≤ ls.length
  opens : ∃ line, ls[(block.1 - 1).toNat]? = some (line, pair.1.toNat) ∧ startsFence line = true
  closes : ∃ line, ls[(block.2 - 1).toNat]? = some (line, pair.2.toNat) ∧ startsFence line = true

def RangesRefer (content : List UInt8) (document : DocxDocument) : Prop :=
  ∀ parsed metadata, parseDocx (fun _ => .ok document) content = .ok (parsed, metadata) →
    (bodyLines document.paragraphs).map Prod.fst = splitlines parsed.body ∧
      List.Forall₂ (DelimitedBy (bodyLines document.paragraphs))
        (fencePairs none 1 document.paragraphs) parsed.codeBlocks ∧
      ∀ table ∈ parsed.tables, InLines (splitlines parsed.body).length table

/-- The pairs are ranges where a closing fence is on the line of its number. -/
theorem delimitedBy_iff {paras : List Paragraph} :
    (∀ pair ∈ fencePairs none 1 paras, DelimitedBy (bodyLines paras) pair pair) ↔
      ∀ k para, paras[k]? = some para → IsClosing paras false k →
        LinesBefore paras k ∧ fenceFirst para = true := by
  constructor
  · rintro h k para hpara hclosing
    obtain ⟨a, ha⟩ := exists_fencePairs none 1 hclosing
    obtain ⟨other, hother, hfence, _⟩ := hclosing
    obtain rfl : para = other := Option.some.inj (hpara.symm.trans hother)
    have hcloses := (h _ ha).closes
    rw [show ((1 : Int) + k - 1).toNat = k by omega, show ((1 : Int) + k).toNat = k + 1 by omega]
      at hcloses
    exact (bodyLines_at_iff hpara hfence).mp hcloses
  · rintro h ⟨a, b⟩ hpair
    obtain ⟨k, hk, hclosing, hopens⟩ := mem_fencePairs hpair
    obtain ⟨j, hjk, hj, para', hpara', hfence'⟩ := hopens.resolve_left (by simp)
    have hclosing' := hclosing
    obtain ⟨para, hpara, hfence, _⟩ := hclosing
    obtain ⟨hlines, hfirst⟩ := h k para hpara hclosing'
    have hcloses := (bodyLines_at_iff hpara hfence).mpr ⟨hlines, hfirst⟩
    have hfirst' := fenceFirst_of_oneLine (hlines j hjk para' hpara') hfence'
    have hopens := (bodyLines_at_iff hpara' hfence').mpr
      ⟨fun i hi => hlines i (Nat.lt_trans hi hjk), hfirst'⟩
    simp only at hk hj
    obtain ⟨line, hline, _⟩ := id hcloses
    obtain ⟨hlength, _⟩ := List.getElem?_eq_some_iff.mp hline
    refine ⟨by simp only; omega, by simp only; omega, by simp only; omega, ?_, ?_⟩
    · rwa [hj, show ((1 : Int) + j - 1).toNat = j by omega,
        show ((1 : Int) + j).toNat = j + 1 by omega]
    · rwa [hk, show ((1 : Int) + k - 1).toNat = k by omega,
        show ((1 : Int) + k).toNat = k + 1 by omega]

theorem lines_foldl_addParagraph (paras : List Paragraph) :
    (paras.foldl FenceScan.addParagraph {}).lines = paragraphTexts false paras := by
  simpa using (foldl_addParagraph paras {}).1

theorem codeBlocks_foldl_addParagraph (paras : List Paragraph) :
    (paras.foldl FenceScan.addParagraph {}).codeBlocks = fencePairs none 1 paras := by
  simpa [FenceScan.opened] using (foldl_addParagraph paras {}).2

theorem bodyLines_eq (paras : List Paragraph) :
    (bodyLines paras).map Prod.fst = splitlines (joinLines (paragraphTexts false paras)) := by
  rw [bodyLines, NumberedGroups.map_fst_numbered, joinLines, splitlines_flatten, List.flatMap_def]

theorem blank_paragraphTexts_iff (inCode : Bool) (paras : List Paragraph) :
    blank (joinLines (paragraphTexts inCode paras)) = true ↔
      ∀ para ∈ paras, blank para.text = true := by
  rw [blank_joinLines_iff]
  induction paras generalizing inCode with
  | nil => simp [paragraphTexts]
  | cons para rest ih =>
    rw [paragraphTexts, List.forall_mem_cons, List.forall_mem_cons, ih]
    refine and_congr_left' ?_
    unfold paragraphText
    split
    · rename_i hblank
      exact iff_of_true rfl hblank
    · rename_i hblank
      split
      · rfl
      · have hfence : "```\n".toList.all isSpace = false := by decide
        refine iff_of_false ?_ hblank
        rw [blank, List.all_append, List.all_append, hfence]
        simp

/-- For every document: the ranges are right as long as nothing is parsed, or there is no row of a
table and in front of each closing fence every paragraph is one line. -/
theorem parseDocx_rangesRefer_iff (content : List UInt8) (document : DocxDocument) :
    RangesRefer content document ↔
      (∀ para ∈ document.paragraphs, blank para.text = true) ∨
        document.tables.sum = 0 ∧
          ∀ k para, document.paragraphs[k]? = some para → IsClosing document.paragraphs false k →
            LinesBefore document.paragraphs k ∧ fenceFirst para = true := by
  unfold RangesRefer parseDocx
  rw [← blank_paragraphTexts_iff false, ← delimitedBy_iff]
  simp only [lines_foldl_addParagraph, codeBlocks_foldl_addParagraph]
  cases hblank : blank (joinLines (paragraphTexts false document.paragraphs)) with
  | true => simp
  | false =>
    simp only [Bool.false_eq_true, if_false, false_or]
    constructor
    · intro h
      obtain ⟨_, hblocks, htables⟩ := h _ _ rfl
      refine ⟨?_, List.forall₂_same.mp hblocks⟩
      by_contra hrows
      have htable := htables (0, (document.tables.sum : Int))
        (by rw [if_pos (Nat.pos_of_ne_zero hrows)]; exact List.mem_singleton_self _)
      have hfirst : (1 : Int) ≤ 0 := htable.1
      omega
    · rintro ⟨hrows, hpairs⟩ parsed metadata hparse
      obtain rfl := (Prod.mk.inj (Except.ok.inj hparse)).1
      refine ⟨bodyLines_eq document.paragraphs, List.forall₂_same.mpr hpairs, ?_⟩
      simp [hrows]

def lateBlock : DocxDocument where
  paragraphs :=
    [⟨"a\nb".toList, none⟩, ⟨"```".toList, none⟩, ⟨"c".toList, none⟩, ⟨"```".toList, none⟩]

theorem not_parseDocx_rangesRefer :
    ¬ ∀ (content : List UInt8) (document : DocxDocument), RangesRefer content document := by
  intro h
  obtain ⟨parsed, metadata, hparse, hblocks⟩ : ∃ parsed metadata,
      parseDocx (fun _ => .ok lateBlock) [] = .ok (parsed, metadata) ∧
        parsed.codeBlocks = [(2, 4)] := ⟨_, _, rfl, by decide⟩
  obtain ⟨_, hpairs, _⟩ := h [] lateBlock parsed metadata hparse
  rw [hblocks, show fencePairs none 1 lateBlock.paragraphs = [(2, 4)] by decide] at hpairs
  obtain ⟨hdelimited, _⟩ := List.forall₂_cons.mp hpairs
  obtain ⟨line, hline, _⟩ := hdelimited.opens
  have hsecond : (bodyLines lateBlock.paragraphs)[((2 : Int) - 1).toNat]? = some (['b'], 1) := by
    decide
  rw [hsecond] at hline
  simp at hline

end GroundGraph.Ingestion
