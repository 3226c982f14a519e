import GroundGraph.Ingestion.CodeParsers
import GroundGraph.Ingestion.DocumentStore
import GroundGraph.Library.LineStarts

/-! `PdfParser` in `application/ingestion/parsers.py`. Fenced code is left out of the body, with
its fences, while its range is reported in lines of the body.
-/

set_option autoImplicit false

namespace GroundGraph.Ingestion

open PyText

/-- `line.strip().startswith("```")`. -/
def startsFence (line : List Char) : Bool := decide ((strip line).take 3 = "```".toList)

def titleFromFirstLine (body : List Char) : List Char := (firstLine body).take 120

/-- What `PdfReader` makes of a file: whether it is encrypted, and the texts that its pages
extract to. -/
structure PdfReader where
  isEncrypted : Bool
  pages : List (List Char)

/-- The variables of the loop, with the `lines` less the newline that ends each of them. -/
structure FenceScan where
  lines : List (List Char) := []
  codeBlocks : List (Int × Int) := []
  inCode : Bool := false
  codeStart : Int := 0

def FenceScan.fence (st : FenceScan) : FenceScan :=
  let lineNo : Int := st.lines.length + 1
  if st.inCode then
    { st with inCode := false, codeBlocks := st.codeBlocks ++ [(st.codeStart, lineNo)] }
  else { st with inCode := true, codeStart := lineNo }

def FenceScan.append (st : FenceScan) (line : List Char) : FenceScan :=
  { st with lines := st.lines ++ [line] }

@[simp] theorem FenceScan.fence_lines (st : FenceScan) : st.fence.lines = st.lines := by
  unfold FenceScan.fence
  split <;> rfl

def FenceScan.addLine (st : FenceScan) (line : List Char) : FenceScan :=
  if startsFence line then st.fence
  else if st.inCode then st
  else st.append line

def FenceScan.addPage (st : FenceScan) (text : List Char) : FenceScan :=
  if blank text then st else (splitlines text).foldl FenceScan.addLine st

/-- `"".join(lines)`. -/
def joinLines (ls : List (List Char)) : List Char := (ls.map fun line => line ++ ['\n']).flatten

/-- `PdfParser.parse`. -/
def parsePdf (read : List UInt8 → Except String PdfReader) (content : List UInt8) :
    Except IngestError (ParsedContent × JsonObject) :=
  match read content with
  | .error detail => .error (.unsupportedFormat .parseError detail)
  | .ok reader =>
    if reader.isEncrypted then .error (.unsupportedFormat .pdfEncrypted "")
    else
      let st := reader.pages.foldl FenceScan.addPage {}
      let body := joinLines st.lines
      if blank body then .error (.unsupportedFormat .pdfNoTextLayer "")
      else
        let title := titleFromFirstLine body
        .ok ({ title := if title = [] then "PDF page 1".toList else title
               body := body
               mediaType := "application/pdf"
               codeBlocks := st.codeBlocks },
             [("page_count", .int reader.pages.length)])

def pageLines (pages : List (List Char)) : List (List Char) :=
  (pages.filter fun text => !blank text).flatMap splitlines

theorem foldl_addPage (pages : List (List Char)) (st : FenceScan) :
    pages.foldl FenceScan.addPage st = (pageLines pages).foldl FenceScan.addLine st := by
  induction pages generalizing st with
  | nil => rfl
  | cons text rest ih =>
    rw [List.foldl_cons, ih, FenceScan.addPage, pageLines, pageLines]
    cases htext : blank text with
    | true =>
      rw [if_pos rfl, List.filter_cons_of_neg (by simp [htext])]
    | false =>
      rw [if_neg (by simp), List.filter_cons_of_pos (by simp [htext]), List.flatMap_cons,
        List.foldl_append]

theorem foldl_addLine_keeps (ls : List (List Char)) (st : FenceScan) :
    ∃ kept, kept.Sublist ls ∧ (∀ line ∈ kept, startsFence line = false) ∧
      (ls.foldl FenceScan.addLine st).lines = st.lines ++ kept := by
  induction ls generalizing st with
  | nil => exact ⟨[], List.Sublist.refl [], by simp, by simp⟩
  | cons line rest ih =>
    obtain ⟨kept, hkept, hfences, heq⟩ := ih (st.addLine line)
    rw [List.foldl_cons, heq]
    unfold FenceScan.addLine
    cases hfence : startsFence line with
    | true =>
      refine ⟨kept, hkept.cons line, hfences, ?_⟩
      rw [if_pos rfl, FenceScan.fence_lines]
    | false =>
      rw [if_neg (by simp)]
      split
      · exact ⟨kept, hkept.cons line, hfences, rfl⟩
      · exact ⟨line :: kept, hkept.cons_cons line, List.forall_mem_cons.mpr ⟨hfence, hfences⟩,
          List.append_assoc _ _ _⟩

theorem foldl_addLine_of_no_fence {ls : List (List Char)}
    (h : ∀ line ∈ ls, startsFence line = false) {st : FenceScan} (hst : st.inCode = false) :
    ls.foldl FenceScan.addLine st = { st with lines := st.lines ++ ls } := by
  induction ls generalizing st with
  | nil => simp
  | cons line rest ih =>
    obtain ⟨hfence, hrest⟩ := List.forall_mem_cons.mp h
    have hstep : st.addLine line = st.append line := by
      rw [FenceScan.addLine, if_neg (by simp [hfence]), if_neg (by simp [hst])]
    rw [List.foldl_cons, hstep]
    refine (ih hrest ?_).trans ?_
    · exact hst
    · simp [FenceScan.append]

theorem no_break_of_mem_pageLines {pages : List (List Char)} :
    ∀ line ∈ pageLines pages, ∀ c ∈ line, isLineBreak c = false := by
  intro line hline
  obtain ⟨text, _, hmem⟩ := List.mem_flatMap.mp hline
  obtain ⟨l, hl, rfl⟩ := List.mem_map.mp hmem
  exact (breaks_of_mem_lines l hl).1

theorem splitlines_joinLines {ls : List (List Char)}
    (h : ∀ line ∈ ls, ∀ c ∈ line, isLineBreak c = false) : splitlines (joinLines ls) = ls := by
  rw [joinLines, splitlines_flatten]
  induction ls with
  | nil => rfl
  | cons line rest ih =>
    obtain ⟨hline, hrest⟩ := List.forall_mem_cons.mp h
    rw [List.flatMap_cons, splitlines_of_no_break hline, ih hrest]
    rfl

/-- The ends of lines are white space, so text that is not blank is in one of the lines. -/
theorem blank_of_blank_lines {text : List Char}
    (h : ∀ line ∈ splitlines text, blank line = true) : blank text = true := by
  rw [← flatten_splitlinesKeepends text, blank, List.all_flatten, List.all_eq_true]
  intro line hline
  obtain ⟨l, hl, rfl⟩ := List.mem_map.mp hline
  rw [List.all_append, Bool.and_eq_true]
  exact ⟨h l.1 (List.mem_map.mpr ⟨l, hl, rfl⟩), blank_of_mem_lines l hl⟩

theorem blank_joinLines_iff {ls : List (List Char)} :
    blank (joinLines ls) = true ↔ ∀ line ∈ ls, blank line = true := by
  have hnewline : isSpace '\n' = true := by decide
  simp [joinLines, blank, hnewline]

/-- Lines `block.1` to `block.2` lie in the body, and the first and the last are fences. -/
structure FencedBlock (ls : List (List Char)) (block : Int × Int) : Prop where
  inLines : InLines ls.length block
  opens : startsFence (lineAt ls (block.1 - 1).toNat) = true
  closes : startsFence (lineAt ls (block.2 - 1).toNat) = true

/-- If there is text then it is parsed, the lines of the pages are lines of the body, in their
order, and every code block goes from fence to fence. -/
def KeepsPages (content : List UInt8) (pages : List (List Char)) : Prop :=
  (∃ text ∈ pages, blank text = false) →
    ∃ parsed metadata, parsePdf (fun _ => .ok ⟨false, pages⟩) content = .ok (parsed, metadata) ∧
      (pageLines pages).Sublist (splitlines parsed.body) ∧
      ∀ block ∈ parsed.codeBlocks, FencedBlock (splitlines parsed.body) block

theorem parsePdf_eq_ok {content : List UInt8} {pages : List (List Char)} {parsed : ParsedContent}
    {metadata : JsonObject}
    (h : parsePdf (fun _ => .ok ⟨false, pages⟩) content = .ok (parsed, metadata)) :
    parsed.body = joinLines ((pageLines pages).foldl FenceScan.addLine {}).lines ∧
      parsed.codeBlocks = ((pageLines pages).foldl FenceScan.addLine {}).codeBlocks := by
  simp only [parsePdf, Bool.false_eq_true, if_false, foldl_addPage] at h
  split at h
  · cases h
  · obtain rfl := (Prod.mk.inj (Except.ok.inj h)).1
    exact ⟨rfl, rfl⟩

theorem exists_parsePdf (content : List UInt8) (pages : List (List Char))
    (h : blank (joinLines ((pageLines pages).foldl FenceScan.addLine {}).lines) = false) :
    ∃ parsed metadata, parsePdf (fun _ => .ok ⟨false, pages⟩) content = .ok (parsed, metadata) := by
  simp only [parsePdf, Bool.false_eq_true, if_false, foldl_addPage, h]
  exact ⟨_, _, rfl⟩

theorem fence_not_in_body {content : List UInt8} {pages : List (List Char)} {parsed : ParsedContent}
    {metadata : JsonObject}
    (h : parsePdf (fun _ => .ok ⟨false, pages⟩) content = .ok (parsed, metadata)) :
    ∀ line ∈ splitlines parsed.body, startsFence line = false := by
  obtain ⟨kept, hkept, hfences, heq⟩ := foldl_addLine_keeps (pageLines pages) {}
  rw [(parsePdf_eq_ok h).1, heq, List.nil_append,
    splitlines_joinLines fun line hline => no_break_of_mem_pageLines line (hkept.subset hline)]
  exact hfences

/-- For all texts of pages: the text is kept as it is without a fence in it. -/
theorem parsePdf_keepsPages_iff (content : List UInt8) (pages : List (List Char)) :
    KeepsPages content pages ↔ ∀ line ∈ pageLines pages, startsFence line = false := by
  constructor
  · intro h line hline
    obtain ⟨text, htext, _⟩ := List.mem_flatMap.mp hline
    obtain ⟨hpage, hnotBlank⟩ := List.mem_filter.mp htext
    obtain ⟨parsed, metadata, hparse, hkept, _⟩ := h ⟨text, hpage, by simpa using hnotBlank⟩
    exact fence_not_in_body hparse line (hkept.subset hline)
  · rintro hfences ⟨text, hpage, htext⟩
    have hscan := foldl_addLine_of_no_fence hfences (rfl : ({} : FenceScan).inCode = false)
    have hbody : blank (joinLines (pageLines pages)) = false := by
      by_contra hblank
      rw [Bool.not_eq_false, blank_joinLines_iff] at hblank
      have hall := blank_of_blank_lines fun line hline =>
        hblank line (List.mem_flatMap.mpr ⟨text, List.mem_filter.mpr ⟨hpage, by simp [htext]⟩, hline⟩)
      rw [htext] at hall
      cases hall
    obtain ⟨parsed, metadata, hparse⟩ := exists_parsePdf content pages
      (by rw [hscan]; exact hbody)
    obtain ⟨hparsed, hblocks⟩ := parsePdf_eq_ok hparse
    rw [hscan] at hparsed hblocks
    refine ⟨parsed, metadata, hparse, ?_, ?_⟩
    · rw [hparsed, List.nil_append, splitlines_joinLines no_break_of_mem_pageLines]
    · intro block hblock
      rw [hblocks] at hblock
      cases hblock

def fencedPage : List Char := "a\n```\nb\n```\nc".toList

theorem not_parsePdf_keepsPages :
    ¬ ∀ (content : List UInt8) (pages : List (List Char)), KeepsPages content pages := by
  intro h
  obtain ⟨parsed, metadata, hparse, hkept, _⟩ := h [] [fencedPage] ⟨fencedPage, by simp, by decide⟩
  have hbody : (parsePdf (fun _ => .ok ⟨false, [fencedPage]⟩) []).map (fun p => p.1.body) =
      .ok "a\nc\n".toList := by
    decide
  rw [hparse] at hbody
  have hlines : splitlines parsed.body = [['a'], ['c']] := by
    rw [show parsed.body = "a\nc\n".toList from Except.ok.inj hbody]
    decide
  have hmem : ['b'] ∈ splitlines parsed.body := hkept.subset (by decide)
  rw [hlines] at hmem
  simp at hmem

end GroundGraph.Ingestion
