import GroundGraph.Ingestion.CodeParsers
import GroundGraph.Ingestion.HeadingSections
import GroundGraph.Ingestion.HtmlParser
import GroundGraph.Library.LineStarts

/-! Which documents get their sections where their parser found headings, for the parsers of
markdown, HTML, Python and TypeScript. The parsers keep the headings without their lines; here
the lines are kept along.
-/

set_option autoImplicit false

namespace GroundGraph.Ingestion

open PyText

/-- `headingsFrom`, with the offset at which each match begins. -/
def headingStartsFrom : Nat → Bool → Nat → List Char → List (Nat × Int × List Char)
  | 0, _, _, _ => []
  | _, _, _, [] => []
  | fuel + 1, lineStart, pos, c :: s =>
    match (if lineStart then matchHeading (c :: s) else none) with
    | some (level, text, rest) =>
      (pos, level, text) ::
        headingStartsFrom fuel false (pos + ((c :: s).length - rest.length)) rest
    | none => headingStartsFrom fuel (c = '\n') (pos + 1) s

/-- The line that begins at an offset, as `splitlines` numbers the lines. -/
def lineAtOffset (body : List Char) (pos : Nat) : Nat := 1 + (lines (body.take pos)).length

def headingLines (body : List Char) : List (Int × Int × List Char) :=
  (headingStartsFrom body.length true 0 body).map fun h => ((lineAtOffset body h.1 : Int), h.2)

theorem headingStartsFrom_headings (fuel : Nat) (lineStart : Bool) (pos : Nat) (s : List Char) :
    (headingStartsFrom fuel lineStart pos s).map Prod.snd = headingsFrom fuel lineStart s := by
  induction fuel generalizing lineStart pos s with
  | zero => rfl
  | succ fuel ih =>
    cases s with
    | nil => rfl
    | cons c s =>
      cases hmatch : (if lineStart then matchHeading (c :: s) else none) with
      | none =>
        simp only [headingStartsFrom, headingsFrom, hmatch]
        exact ih _ _ _
      | some m =>
        obtain ⟨level, text, rest⟩ := m
        simp only [headingStartsFrom, headingsFrom, hmatch, List.map_cons, ih]

theorem headingLines_headings (body : List Char) :
    (headingLines body).map Prod.snd = extractHeadings body := by
  unfold headingLines extractHeadings
  rw [List.map_map, ← headingStartsFrom_headings body.length true 0 body]
  rfl

theorem matchSpaceText_suffix {s group rest : List Char}
    (h : matchSpaceText s = some (group, rest)) : rest <:+ s := by
  unfold matchSpaceText at h
  simp only at h
  split at h
  · cases h
  · split at h
    · rename_i hafter
      split at h
      · obtain ⟨_, rfl⟩ := Prod.mk.inj (Option.some.inj h)
        have hall : s.takeWhile isSpace = s := by
          have happend := List.takeWhile_append_dropWhile (p := isSpace) (l := s)
          rwa [hafter, List.append_nil] at happend
        rw [hall]
        exact List.rtakeWhile_suffix _ _
      · cases h
    · obtain ⟨_, rfl⟩ := Prod.mk.inj (Option.some.inj h)
      exact (List.dropWhile_suffix _).trans (List.dropWhile_suffix _)

theorem matchHeading_some {s text rest : List Char} {level : Int}
    (h : matchHeading s = some (level, text, rest)) :
    1 ≤ level ∧ rest <:+ s ∧ rest.length < s.length := by
  unfold matchHeading at h
  simp only at h
  split at h
  · rename_i hlevel
    obtain ⟨⟨group, behind⟩, hspace, hmatch⟩ := Option.map_eq_some_iff.mp h
    obtain ⟨hcount, hrest⟩ := Prod.mk.inj hmatch
    obtain ⟨_, rfl⟩ := Prod.mk.inj hrest
    subst hcount
    have hsuffix := matchSpaceText_suffix hspace
    have hlength := hsuffix.length_le
    have hhashes := (List.takeWhile_prefix (fun c => decide (c = '#')) (l := s)).length_le
    rw [List.length_drop] at hlength
    have hshorter : behind.length < s.length := by omega
    exact ⟨by omega, hsuffix.trans (List.drop_suffix _ _), hshorter⟩
  · cases h

def LineStart (body : List Char) (pos : Nat) : Prop :=
  pos = 0 ∨ ∃ before, body.take pos = before ++ ['\n']

theorem LineStart.lines_take {body : List Char} {pos stop : Nat} (h : LineStart body pos)
    (hle : pos ≤ stop) :
    lines (body.take stop) = lines (body.take pos) ++ lines ((body.take stop).drop pos) := by
  have hsplit : body.take stop = body.take pos ++ (body.take stop).drop pos := by
    conv_lhs => rw [← List.take_append_drop pos (body.take stop)]
    rw [List.take_take, Nat.min_eq_left hle]
  rcases h with rfl | ⟨before, hbefore⟩
  · simp [lines]
  · rw [hbefore] at hsplit ⊢
    conv_lhs => rw [hsplit]
    rw [List.append_assoc]
    exact lines_append_newline before _

theorem LineStart.lineAtOffset_lt {body : List Char} {pos stop : Nat} (h : LineStart body pos)
    (hlt : pos < stop) (hstop : stop ≤ body.length) :
    lineAtOffset body pos < lineAtOffset body stop := by
  have hsome : (body.take stop).drop pos ≠ [] := by
    rw [Ne, ← List.length_eq_zero_iff, List.length_drop, List.length_take]
    omega
  have hpos := List.length_pos_of_ne_nil (lines_ne_nil hsome)
  unfold lineAtOffset
  rw [h.lines_take (Nat.le_of_lt hlt), List.length_append]
  omega

theorem LineStart.flatten_take {body : List Char} {pos : Nat} (h : LineStart body pos) :
    ((splitlinesKeepends body).take (lineAtOffset body pos - 1)).flatten = body.take pos := by
  have hall := h.lines_take (Nat.le_max_left pos body.length)
  rw [List.take_of_length_le (Nat.le_max_right pos body.length)] at hall
  have hcount : lineAtOffset body pos - 1 = (splitlinesKeepends (body.take pos)).length := by
    simp [lineAtOffset, splitlinesKeepends]
  have hsplit : splitlinesKeepends body =
      splitlinesKeepends (body.take pos) ++ splitlinesKeepends (body.drop pos) := by
    unfold splitlinesKeepends
    rw [hall, List.map_append]
  rw [hcount, hsplit, List.take_left, flatten_splitlinesKeepends]

theorem LineStart.lineStart_eq {body : List Char} {pos : Nat} (h : LineStart body pos)
    (hle : pos ≤ body.length) : lineStart body (lineAtOffset body pos - 1) = pos := by
  have hlength := congrArg List.length h.flatten_take
  rw [List.length_take, Nat.min_eq_left hle] at hlength
  exact hlength

theorem LineStart.of_newline {body s : List Char} {pos : Nat} (hs : body.drop pos = '\n' :: s) :
    LineStart body (pos + 1) := by
  refine Or.inr ⟨body.take pos, ?_⟩
  rw [List.take_add, hs]
  rfl

theorem drop_of_suffix {body s rest : List Char} {pos : Nat} (hs : body.drop pos = s)
    (hsuffix : rest <:+ s) : body.drop (pos + (s.length - rest.length)) = rest := by
  rw [← List.drop_drop, hs]
  exact (List.suffix_iff_eq_drop.mp hsuffix).symm

/-- A heading only matches where a line starts. -/
theorem matchHeading_of_start {lineStart : Bool} {s text rest : List Char} {level : Int}
    (h : (if lineStart then matchHeading s else none) = some (level, text, rest)) :
    lineStart = true ∧ 1 ≤ level ∧ rest <:+ s ∧ rest.length < s.length := by
  cases lineStart with
  | false => cases h
  | true => exact ⟨rfl, matchHeading_some h⟩

theorem headingStartsFrom_spec {body : List Char} (fuel : Nat) (lineStart : Bool) (pos : Nat)
    (s : List Char) (hs : body.drop pos = s)
    (hline : lineStart = true → LineStart body pos) :
    (∀ h ∈ headingStartsFrom fuel lineStart pos s,
      pos ≤ h.1 ∧ h.1 < body.length ∧ LineStart body h.1 ∧ 1 ≤ h.2.1) ∧
    (headingStartsFrom fuel lineStart pos s).Pairwise fun a b => a.1 < b.1 := by
  induction fuel generalizing lineStart pos s with
  | zero => exact ⟨List.forall_mem_nil _, .nil⟩
  | succ fuel ih =>
    cases s with
    | nil => exact ⟨List.forall_mem_nil _, .nil⟩
    | cons c s =>
      have hlt : pos < body.length := by
        have hlength := congrArg List.length hs
        rw [List.length_drop, List.length_cons] at hlength
        omega
      simp only [headingStartsFrom]
      split
      · rename_i level text rest hmatch
        obtain ⟨hstart, hlevel, hsuffix, hshorter⟩ := matchHeading_of_start hmatch
        obtain ⟨hbounds, hsorted⟩ := ih false _ rest (drop_of_suffix hs hsuffix) fun h => by cases h
        refine ⟨?_, List.pairwise_cons.mpr ⟨?_, hsorted⟩⟩
        · intro h hh
          rcases List.mem_cons.mp hh with rfl | hh
          · exact ⟨Nat.le_refl _, hlt, hline hstart, hlevel⟩
          · have hb := hbounds h hh
            exact ⟨by omega, hb.2⟩
        · intro h hh
          have hb := hbounds h hh
          simp only
          omega
      · have hnext : body.drop (pos + 1) = s := by
          rw [← List.drop_drop, hs]
          rfl
        obtain ⟨hbounds, hsorted⟩ := ih (decide (c = '\n')) (pos + 1) s hnext fun hc =>
          LineStart.of_newline (of_decide_eq_true hc ▸ hs)
        refine ⟨fun h hh => ?_, hsorted⟩
        have hb := hbounds h hh
        exact ⟨by omega, hb.2⟩

theorem headingLines_located {content : ParsedContent}
    (hheadings : content.headings = extractHeadings content.body) :
    Located content (headingLines content.body) := by
  obtain ⟨hbounds, hsorted⟩ := @headingStartsFrom_spec content.body
    content.body.length true 0 content.body rfl fun _ => Or.inl rfl
  refine ⟨(headingLines_headings _).trans hheadings.symm, ?_, ?_, ?_⟩
  · unfold headingLines
    rw [List.pairwise_map]
    refine hsorted.imp_of_mem fun {a b} ha hb hlt => ?_
    have hlines := (hbounds a ha).2.2.1.lineAtOffset_lt hlt (Nat.le_of_lt (hbounds b hb).2.1)
    exact Int.ofNat_lt.mpr hlines
  · intro h hh
    obtain ⟨g, hg, rfl⟩ := List.mem_map.mp hh
    obtain ⟨-, hlt, hstart, -⟩ := hbounds g hg
    have hlines := hstart.lineAtOffset_lt hlt (Nat.le_refl _)
    have hin : (lines (content.body.take g.1)).length <
        (splitlinesKeepends content.body).length := by
      simpa [lineAtOffset, splitlinesKeepends] using hlines
    exact ⟨_, _, List.getElem?_eq_getElem hin, rfl⟩
  · intro h hh
    obtain ⟨g, hg, rfl⟩ := List.mem_map.mp hh
    exact (hbounds g hg).2.2.2

/-- A definition is given its line for its level. -/
def definitionLines (rules : List DefinitionRule) (body : List Char) :
    List (Int × Int × List Char) :=
  (numbered (definitionOf rules) 1 (splitlines body)).map fun h => (h.1, h.1, h.2)

theorem mem_definitionLines_iff {rules : List DefinitionRule} {body : List Char}
    {h : Int × Int × List Char} :
    h ∈ definitionLines rules body ↔ ∃ m line text, (splitlines body)[m]? = some line ∧
      definitionOf rules line = some text ∧
        h = (((1 + m : Nat) : Int), ((1 + m : Nat) : Int), text) := by
  unfold definitionLines
  rw [List.mem_map]
  constructor
  · rintro ⟨⟨i, text⟩, hin, rfl⟩
    obtain ⟨m, line, hline, hdef, rfl⟩ := mem_numbered_iff.mp hin
    exact ⟨m, line, text, hline, hdef, rfl⟩
  · rintro ⟨m, line, text, hline, hdef, rfl⟩
    exact ⟨_, mem_numbered_iff.mpr ⟨m, line, hline, hdef, rfl⟩, rfl⟩

theorem definitionLines_eq_nil_iff {rules : List DefinitionRule} {body : List Char} :
    definitionLines rules body = [] ↔ ∀ line ∈ splitlines body, definitionOf rules line = none := by
  constructor
  · intro hnil line hmem
    cases hdef : definitionOf rules line with
    | none => rfl
    | some text =>
      obtain ⟨m, hline⟩ := List.mem_iff_getElem?.mp hmem
      have hin := mem_definitionLines_iff.mpr ⟨m, line, text, hline, hdef, rfl⟩
      rw [hnil] at hin
      cases hin
  · intro hall
    refine List.eq_nil_iff_forall_not_mem.mpr fun h hh => ?_
    obtain ⟨m, line, text, hline, hdef, _⟩ := mem_definitionLines_iff.mp hh
    rw [hall line (List.mem_of_getElem? hline)] at hdef
    cases hdef

/-- A line without its end is the line with it, stripped. -/
theorem exists_line_of_splitlines {body line : List Char} {m : Nat}
    (h : (splitlines body)[m]? = some line) :
    ∃ kept, (splitlinesKeepends body)[m]? = some kept ∧ strip kept = strip line := by
  unfold splitlines at h
  rw [List.getElem?_map] at h
  obtain ⟨l, hl, rfl⟩ := Option.map_eq_some_iff.mp h
  refine ⟨l.1 ++ l.2, ?_, strip_append_of_blank (blank_of_mem_lines l (List.mem_of_getElem? hl))⟩
  unfold splitlinesKeepends
  rw [List.getElem?_map, hl]
  rfl

theorem definitionLines_located {rules : List DefinitionRule} {content : ParsedContent}
    (hheadings : content.headings = extractHeadingsFromCode rules (splitlines content.body)) :
    Located content (definitionLines rules content.body) := by
  refine ⟨?_, ?_, ?_, ?_⟩
  · unfold definitionLines
    rw [hheadings, List.map_map]
    exact List.map_id' _
  · unfold definitionLines
    rw [List.pairwise_map]
    exact numbered_sorted _ _ _
  · intro h hh
    obtain ⟨m, line, text, hline, _, rfl⟩ := mem_definitionLines_iff.mp hh
    obtain ⟨kept, hkept, _⟩ := exists_line_of_splitlines hline
    exact ⟨m, kept, hkept, rfl⟩
  · intro h hh
    obtain ⟨m, line, text, _, _, rfl⟩ := mem_definitionLines_iff.mp hh
    simp only
    omega

/-- A definition does not begin with a hash. -/
theorem definitionOf_head {rules : List DefinitionRule}
    (hrules : ∀ rule ∈ rules, rule.keyword.toList.head?.any (· ≠ '#') = true)
    {line text : List Char} (h : definitionOf rules line = some text) :
    ∃ c, (strip line).head? = some c ∧ c ≠ '#' := by
  obtain ⟨rule, hrule, hheading⟩ := List.exists_of_findSome?_eq_some h
  unfold DefinitionRule.heading at hheading
  split at hheading
  · rename_i hcond
    obtain ⟨rest, hrest⟩ := List.isPrefixOf_iff_prefix.mp (Bool.and_eq_true_iff.mp hcond).1
    obtain ⟨c, hc, hne⟩ := (Option.any_eq_true _ _).mp (hrules rule hrule)
    refine ⟨c, ?_, of_decide_eq_true hne⟩
    rw [← hrest, List.head?_append, hc]
    rfl
  · cases hheading

/-- The chunker looks for a definition behind hashes, and a definition has none. -/
theorem wellHeaded_definitionLines_iff {rules : List DefinitionRule}
    (hrules : ∀ rule ∈ rules, rule.keyword.toList.head?.any (· ≠ '#') = true)
    {content : ParsedContent}
    (hheadings : content.headings = extractHeadingsFromCode rules (splitlines content.body)) :
    WellHeaded content (definitionLines rules content.body) ↔
      ∀ line ∈ splitlines content.body, definitionOf rules line = none := by
  rw [← definitionLines_eq_nil_iff]
  constructor
  · intro hwell
    refine List.eq_nil_iff_forall_not_mem.mpr fun h hh => ?_
    obtain ⟨m, line, text, hline, hdef, rfl⟩ := mem_definitionLines_iff.mp hh
    obtain ⟨kept, hkept, hstrip⟩ := exists_line_of_splitlines hline
    obtain ⟨rest, hrest⟩ := hwell.own _ hh m kept hkept rfl
    obtain ⟨c, hc, hne⟩ := definitionOf_head hrules hdef
    rw [hstrip] at hrest
    rw [← hrest, headingPrefix, Nat.add_comm] at hc
    exact hne (Option.some.inj hc).symm
  · intro hnil
    have hnone : content.headings = [] := by
      rw [← (definitionLines_located hheadings).headings, hnil]
      rfl
    rw [hnil]
    exact ⟨fun h hh => absurd hh List.not_mem_nil, fun h hh => absurd hh List.not_mem_nil,
      fun m line _ _ h hh => absurd (hnone ▸ hh) List.not_mem_nil⟩

theorem headingsAgree_definitionLines_iff {rules : List DefinitionRule}
    (hrules : ∀ rule ∈ rules, rule.keyword.toList.head?.any (· ≠ '#') = true)
    {content : ParsedContent}
    (hheadings : content.headings = extractHeadingsFromCode rules (splitlines content.body)) :
    HeadingsAgree content (definitionLines rules content.body) ↔
      ∀ line ∈ splitlines content.body, definitionOf rules line = none :=
  (headingsAgree_iff (definitionLines_located hheadings)).trans
    (wellHeaded_definitionLines_iff hrules hheadings)

theorem pyRules_head : ∀ rule ∈ pyRules, rule.keyword.toList.head?.any (· ≠ '#') = true := by
  decide

theorem tsRules_head : ∀ rule ∈ tsRules, rule.keyword.toList.head?.any (· ≠ '#') = true := by
  decide

inductive HeadingParser where
  | markdown
  | html
  | python
  | typescript
  deriving DecidableEq, Repr

def HeadingParser.parse : HeadingParser → List UInt8 → ParsedContent
  | .markdown => parseMarkdown
  | .html => parseHtml
  | .python => parsePython
  | .typescript => parseTypescript

def HeadingParser.found (parser : HeadingParser) (content : List UInt8) :
    List (Int × Int × List Char) :=
  match parser with
  | .markdown => headingLines (parseMarkdown content).body
  | .html => headingLines (parseHtml content).body
  | .python => definitionLines pyRules (decodeUtf8 content)
  | .typescript => definitionLines tsRules (decodeUtf8 content)

/-- Markdown headings have to be written as the chunker writes them; code must not have any. -/
def HeadingParser.Fits (parser : HeadingParser) (content : List UInt8) : Prop :=
  match parser with
  | .markdown => WellHeaded (parseMarkdown content) (headingLines (parseMarkdown content).body)
  | .html => WellHeaded (parseHtml content) (headingLines (parseHtml content).body)
  | .python => ∀ line ∈ splitlines (decodeUtf8 content), definitionOf pyRules line = none
  | .typescript => ∀ line ∈ splitlines (decodeUtf8 content), definitionOf tsRules line = none

theorem parseMarkdown_headings (content : List UInt8) :
    (parseMarkdown content).headings = extractHeadings (parseMarkdown content).body := by
  simp only [parseMarkdown]

theorem parseHtml_headings (content : List UInt8) :
    (parseHtml content).headings = extractHeadings (parseHtml content).body := by
  simp only [parseHtml]

theorem HeadingParser.headingsAgree_iff_fits (parser : HeadingParser) (content : List UInt8) :
    HeadingsAgree (parser.parse content) (parser.found content) ↔ parser.Fits content := by
  cases parser with
  | markdown => exact headingsAgree_iff (headingLines_located (parseMarkdown_headings content))
  | html => exact headingsAgree_iff (headingLines_located (parseHtml_headings content))
  | python => exact headingsAgree_definitionLines_iff pyRules_head rfl
  | typescript => exact headingsAgree_definitionLines_iff tsRules_head rfl

/-- `def f():` is the one line of a Python file. -/
theorem HeadingParser.not_headingsAgree : ¬ ∀ (parser : HeadingParser) (content : List UInt8),
    HeadingsAgree (parser.parse content) (parser.found content) := by
  intro hall
  have hagree := hall .python [100, 101, 102, 32, 102, 40, 41, 58]
  have hnone := (headingsAgree_definitionLines_iff pyRules_head rfl).mp hagree
  have hline := hnone ['d', 'e', 'f', ' ', 'f', '(', ')', ':'] (by decide)
  revert hline
  decide

end GroundGraph.Ingestion
