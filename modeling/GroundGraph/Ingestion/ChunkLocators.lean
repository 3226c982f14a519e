import GroundGraph.Ingestion.ChunkBoundaries
import Mathlib.Data.List.Infix

/-! When the line numbers in the locators of the chunks are right. Lines are those of the
document, counted by its newlines; `splitlines`, which numbers the sections, knows more
line ends, and what `strip` drops may hold newlines that were counted.
-/

set_option autoImplicit false

namespace GroundGraph.Ingestion

open PyText

/-- The number in `"L12 some text"`. -/
def lineNumber : List Char → Option Nat
  | 'L' :: rest =>
    let digits := rest.takeWhile Char.isDigit
    if digits = [] then none else some (Nat.ofDigitChars 10 digits 0)
  | _ => none

/-- The line, counted from 1, that the character at this offset is on. -/
def lineOfOffset (body : List Char) (offset : Nat) : Nat := (body.take offset).count '\n' + 1

namespace Cut

variable (cut : Cut)

def raw : List Char := (cut.sec.body.drop cut.piece.start).take (cut.piece.stop - cut.piece.start)

/-- Where in the document the first character of the stripped text stands. -/
def firstOffset : Nat :=
  cut.sec.offset + (cut.piece.start + (cut.raw.takeWhile isSpace).length)

def lastOffset : Nat := cut.sec.offset + (cut.piece.start + (rstrip cut.raw).length) - 1

end Cut

/-- The numbers in the locators are the lines of the first and of the last character. -/
def ExactLocators (body : List Char) (cut : Cut) (chunk : Chunk) : Prop :=
  chunk.startLocator.bind lineNumber = some (lineOfOffset body cut.firstOffset) ∧
    chunk.endLocator.bind lineNumber = some (lineOfOffset body cut.lastOffset)

def LocatorsExact (sha256 : List Char → List Char) (config : ChunkerConfig)
    (content : ParsedContent) (lineage : ChunkLineage) (chunkId : UuidSource) : Prop :=
  ∀ (i : Nat) (cut : Cut) (k : Chunk), (cuts config content)[i]? = some cut →
    (chunk sha256 config content lineage chunkId)[i]? = some k →
      ExactLocators content.body cut k

/-- Of a section that is one chunk, what is stripped at either end holds no newline; no pass
over a section that is cut up begins a chunk with white space that holds one. -/
def Section.StripsNoLine (config : ChunkerConfig) (content : ParsedContent) (sec : Section) : Prop :=
  if blank sec.body then True
  else if sec.Short config then
    '\n' ∉ sec.body.takeWhile isSpace ∧ '\n' ∉ sec.body.rtakeWhile isSpace
  else
    ∀ s, (sectionSlicing config content sec).Reached s →
      (sectionSlicing config content sec).Emits s →
        '\n' ∉ ((sectionSlicing config content sec).slice s.start
          ((sectionSlicing config content sec).chunkEnd s)).takeWhile isSpace

/-- Every line before a heading ends with a newline, and no section strips one. -/
def NumbersLines (config : ChunkerConfig) (content : ParsedContent) : Prop :=
  (∀ m line, (splitlinesKeepends content.body)[m]? = some line →
      (matchedHeading content.headings line).isSome →
        ∀ l ∈ (splitlinesKeepends content.body).take m, l.getLast? = some '\n') ∧
    ∀ sec ∈ splitByHeading content, sec.StripsNoLine config content

theorem takeWhile_isDigit_toDigits (n : Nat) (rest : List Char) :
    (Nat.toDigits 10 n ++ ' ' :: rest).takeWhile Char.isDigit = Nat.toDigits 10 n := by
  rw [List.takeWhile_append_of_pos]
  · simp
  · intro c hc
    exact Nat.isDigit_of_mem_toDigits (by decide) (by decide) hc

theorem lineNumber_nat (n : Nat) (rest : List Char) :
    lineNumber ('L' :: (strInt n ++ ' ' :: rest)) = some n := by
  simp only [lineNumber, strInt, takeWhile_isDigit_toDigits]
  rw [if_neg Nat.toDigits_ne_nil, Nat.ofDigitChars_toDigits (by decide) (by decide)]

theorem lineNumber_locate_iff {line : Int} (hline : 0 ≤ line) (text : List Char) (n : Nat) :
    lineNumber (locate line text) = some n ↔ line = n := by
  obtain ⟨m, rfl⟩ := Int.eq_ofNat_of_zero_le hline
  rw [locate, lineNumber_nat, Option.some.injEq, Int.natCast_inj]

theorem lineNumber_locateEnd_iff {line : Int} (hline : 0 ≤ line) (text : List Char) (n : Nat) :
    lineNumber (locateEnd line text) = some n ↔ line = n := by
  obtain ⟨m, rfl⟩ := Int.eq_ofNat_of_zero_le hline
  rw [locateEnd, lineNumber_nat, Option.some.injEq, Int.natCast_inj]

theorem lineOfOffset_add {body text : List Char} {offset x : Nat} (h : text <+: body.drop offset)
    (hx : x ≤ text.length) :
    lineOfOffset body (offset + x) = lineOfOffset body offset + (text.take x).count '\n' := by
  have htake : text.take x <+: body.drop offset := (List.take_prefix x text).trans h
  have hadd := take_add_of_isPrefix htake
  rw [List.length_take, Nat.min_eq_left hx] at hadd
  rw [lineOfOffset, lineOfOffset, hadd, List.count_append]
  omega

theorem count_newline_dropLast_rstrip (s : List Char) :
    (rstrip s).dropLast.count '\n' = (rstrip s).count '\n' := by
  by_cases hnil : rstrip s = []
  · simp [hnil]
  · have hlast : ¬ isSpace ((rstrip s).getLast hnil) = true :=
      List.rdropWhile_last_not isSpace s hnil
    have hne : (rstrip s).getLast hnil ≠ '\n' := by
      intro heq
      rw [heq] at hlast
      exact hlast (by decide)
    conv_rhs => rw [← List.dropLast_append_getLast hnil, List.count_append]
    simp [hne]

namespace Cut

variable {body : List Char} {cut : Cut}

/-- The raw text lies in its section, and the section in the document. -/
structure Placed (body : List Char) (cut : Cut) : Prop where
  sec : cut.sec.body <+: body.drop cut.sec.offset
  start : cut.piece.start ≤ cut.sec.body.length
  text : blank cut.raw = false
  content : cut.piece.content = strip cut.raw

theorem raw_prefix : cut.raw <+: cut.sec.body.drop cut.piece.start := List.take_prefix _ _

theorem raw_eq : cut.raw = cut.raw.takeWhile isSpace ++ lstrip cut.raw :=
  List.takeWhile_append_dropWhile.symm

theorem Placed.content_at (h : cut.Placed body) :
    cut.piece.content <+: body.drop cut.firstOffset ∧
      cut.firstOffset + cut.piece.content.length = cut.lastOffset + 1 := by
  have htext : blank (lstrip cut.raw) = false := by
    rw [← Bool.not_eq_true]
    intro hblank
    have hraw := blank_of_blank_lstrip hblank
    rw [h.text] at hraw
    cases hraw
  have hrstrip : rstrip cut.raw = cut.raw.takeWhile isSpace ++ cut.piece.content := by
    rw [h.content, strip, ← rstrip_append htext, ← raw_eq]
  have hwhole : cut.raw.takeWhile isSpace ++ cut.piece.content <+:
      (body.drop cut.sec.offset).drop cut.piece.start := by
    have hstrip : rstrip cut.raw <+: cut.raw := List.rdropWhile_prefix isSpace _
    rw [← hrstrip]
    exact (hstrip.trans raw_prefix).trans (List.IsPrefix.drop h.sec _)
  constructor
  · have hdrop := List.IsPrefix.drop hwhole (cut.raw.takeWhile isSpace).length
    rwa [List.drop_left, List.drop_drop, List.drop_drop] at hdrop
  · have hne : 0 < (rstrip cut.raw).length := by
      rw [List.length_pos_iff, Ne, rstrip_eq_nil_iff, h.text]
      decide
    rw [firstOffset, lastOffset]
    rw [hrstrip, List.length_append] at hne ⊢
    omega

theorem Placed.lineOfOffset_prefix (h : cut.Placed body) {p : List Char} (hp : p <+: cut.raw) :
    lineOfOffset body (cut.sec.offset + (cut.piece.start + p.length)) =
      lineOfOffset body cut.sec.offset + (cut.sec.body.take cut.piece.start).count '\n' +
        p.count '\n' := by
  have hsec : p <+: cut.sec.body.drop cut.piece.start := hp.trans raw_prefix
  have hlen := hsec.length_le
  rw [List.length_drop] at hlen
  have hstart := h.start
  rw [lineOfOffset_add h.sec (by omega), take_add_of_isPrefix hsec, List.count_append]
  omega

theorem Placed.line_firstOffset (h : cut.Placed body) :
    lineOfOffset body cut.firstOffset = lineOfOffset body cut.sec.offset +
      (cut.sec.body.take cut.piece.start).count '\n' + (cut.raw.takeWhile isSpace).count '\n' :=
  h.lineOfOffset_prefix (List.takeWhile_prefix _)

theorem Placed.rstrip_ne_nil (h : cut.Placed body) : rstrip cut.raw ≠ [] := by
  rw [Ne, rstrip_eq_nil_iff, h.text]
  decide

theorem Placed.line_lastOffset (h : cut.Placed body) :
    lineOfOffset body cut.lastOffset = lineOfOffset body cut.sec.offset +
      (cut.sec.body.take (cut.piece.start + (rstrip cut.raw).length)).count '\n' := by
  have hpos : 0 < (rstrip cut.raw).length := List.length_pos_iff.mpr h.rstrip_ne_nil
  have hstrip : rstrip cut.raw <+: cut.raw := List.rdropWhile_prefix isSpace _
  have hlast : cut.lastOffset =
      cut.sec.offset + (cut.piece.start + (rstrip cut.raw).dropLast.length) := by
    rw [lastOffset, List.length_dropLast]
    omega
  rw [hlast, h.lineOfOffset_prefix ((List.dropLast_prefix _).trans hstrip),
    count_newline_dropLast_rstrip, take_add_of_isPrefix (hstrip.trans raw_prefix), List.count_append]
  omega

end Cut

theorem Slicing.reached_blank {w : Slicing} {s : SliceState} (hs : w.Reached s)
    (hnone : s.chunks = []) : s.broke = false ∧ blank (w.text.take s.start) = true := by
  induction hs with
  | refl => exact ⟨rfl, rfl⟩
  | @tail s s' _ hstep ih =>
    obtain ⟨_, hstart, ⟨hblank, rfl⟩ | ⟨_, _, rfl⟩ | ⟨_, _, p, _, rfl⟩ | ⟨_, _, _, rfl⟩⟩ :=
      step_cases hstep
    · obtain ⟨hbroke, hpassed⟩ := ih hnone
      refine ⟨hbroke, ?_⟩
      have hnext : w.text[s.start] ∈ w.slice s.start (w.chunkEnd s) := by
        have hend := lt_chunkEnd w hstart
        refine List.mem_iff_getElem?.mpr ⟨0, ?_⟩
        rw [slice, List.getElem?_take_of_lt (by omega), List.getElem?_drop, Nat.add_zero,
          List.getElem?_eq_getElem hstart]
      have hspace : isSpace w.text[s.start] = true := List.all_eq_true.mp hblank _ hnext
      simp only [blank] at hpassed ⊢
      rw [List.take_add_one, List.getElem?_eq_getElem hstart, List.all_append, hpassed]
      simpa using hspace
    · simp at hnone
    · simp at hnone
    · simp at hnone

theorem Slicing.exists_emits {w : Slicing} (h : blank w.text = false) :
    ∃ s, w.Reached s ∧ w.Emits s := by
  have hne : w.chunks ≠ [] := by
    intro hnil
    obtain ⟨hbroke, hpassed⟩ := reached_blank w.reached_end hnil
    rcases stopped_of_step_none w.step_chunks with hstop | hstop
    · rw [hbroke] at hstop
      cases hstop
    · rw [List.take_of_length_le hstop, h] at hpassed
      cases hpassed
  obtain ⟨k, hk⟩ := List.exists_mem_of_ne_nil _ hne
  obtain ⟨s, hs, he, _⟩ := mem_chunks_iff.mp hk
  exact ⟨s, hs, he⟩

/-- The line numbers of a cut are those of its first and of its last character. -/
def Cut.LinesExact (body : List Char) (cut : Cut) : Prop :=
  cut.piece.startLine = lineOfOffset body cut.firstOffset ∧
    cut.piece.endLine = lineOfOffset body cut.lastOffset

section Sections

variable {config : ChunkerConfig} {content : ParsedContent} {sec : Section}

def Section.whole (sec : Section) : Cut :=
  ⟨sec, strip sec.body, sec.startLine, sec.startLine + sec.body.count '\n', 0, sec.body.length⟩

theorem Section.raw_whole (sec : Section) : sec.whole.raw = sec.body := by
  simp [whole, Cut.raw]

theorem Section.placed_whole (hplace : sec.body <+: content.body.drop sec.offset)
    (htext : blank sec.body = false) : sec.whole.Placed content.body :=
  ⟨hplace, Nat.zero_le _, by rw [sec.raw_whole, htext], by rw [sec.raw_whole]; rfl⟩

theorem Section.placed_chunk (hplace : sec.body <+: content.body.drop sec.offset) {s : SliceState}
    (h : (sectionSlicing config content sec).Emits s) :
    (Cut.mk sec ((sectionSlicing config content sec).chunk s)).Placed content.body :=
  ⟨hplace, h.2.1.le, h.2.2, rfl⟩

theorem Section.linesExact_whole (hplace : sec.body <+: content.body.drop sec.offset)
    (htext : blank sec.body = false) (hge : lineOfOffset content.body sec.offset ≤ sec.startLine) :
    sec.whole.LinesExact content.body ↔ sec.startLine = lineOfOffset content.body sec.offset ∧
      '\n' ∉ sec.body.takeWhile isSpace ∧ '\n' ∉ sec.body.rtakeWhile isSpace := by
  have hplaced := placed_whole hplace htext
  have hfirst := hplaced.line_firstOffset
  have hlast := hplaced.line_lastOffset
  have hsplit : sec.body.count '\n' =
      (rstrip sec.body).count '\n' + (sec.body.rtakeWhile isSpace).count '\n' := by
    rw [← List.count_append, rstrip, List.rdropWhile_append_rtakeWhile]
  have htake : sec.body.take (rstrip sec.body).length = rstrip sec.body :=
    (List.prefix_iff_eq_take.mp (List.rdropWhile_prefix isSpace _)).symm
  rw [raw_whole] at hfirst hlast
  simp only [whole, List.take_zero, List.count_nil, Nat.zero_add, htake] at hfirst hlast
  rw [Cut.LinesExact, whole, hfirst, hlast, ← List.count_eq_zero, ← List.count_eq_zero]
  obtain ⟨extra, hextra⟩ := Int.le.dest hge
  simp only
  push_cast
  omega

theorem Section.linesExact_chunk (hplace : sec.body <+: content.body.drop sec.offset)
    {s : SliceState} (h : (sectionSlicing config content sec).Emits s) :
    (Cut.mk sec ((sectionSlicing config content sec).chunk s)).LinesExact content.body ↔
      sec.startLine = lineOfOffset content.body sec.offset ∧
        '\n' ∉ ((sectionSlicing config content sec).slice s.start
          ((sectionSlicing config content sec).chunkEnd s)).takeWhile isSpace := by
  have hplaced := placed_chunk hplace h
  have hfirst := hplaced.line_firstOffset
  have hlast := hplaced.line_lastOffset
  rw [Cut.LinesExact, hfirst, hlast, ← List.count_eq_zero]
  simp only [Slicing.chunk, sectionSlicing, Cut.raw, Slicing.slice]
  push_cast
  omega

theorem Section.linesExact_iff (hplace : sec.body <+: content.body.drop sec.offset)
    (htext : blank sec.body = false) (hge : lineOfOffset content.body sec.offset ≤ sec.startLine) :
    (∀ k ∈ chunkText config content sec, (Cut.mk sec k).LinesExact content.body) ↔
      sec.startLine = lineOfOffset content.body sec.offset ∧ sec.StripsNoLine config content := by
  unfold chunkText Section.StripsNoLine
  rw [htext]
  simp only [Bool.false_eq_true, if_false]
  split
  · rw [List.forall_mem_singleton]
    exact linesExact_whole hplace htext hge
  · have hchunks : (∀ k ∈ (sectionSlicing config content sec).chunks,
        (Cut.mk sec k).LinesExact content.body) ↔
        ∀ s, (sectionSlicing config content sec).Reached s →
          (sectionSlicing config content sec).Emits s →
            (Cut.mk sec ((sectionSlicing config content sec).chunk s)).LinesExact content.body := by
      constructor
      · intro h s hs he
        exact h _ (Slicing.mem_chunks_iff.mpr ⟨s, hs, he, rfl⟩)
      · intro h k hk
        obtain ⟨s, hs, he, rfl⟩ := Slicing.mem_chunks_iff.mp hk
        exact h s hs he
    rw [hchunks]
    constructor
    · intro h
      obtain ⟨s, hs, he⟩ := Slicing.exists_emits (w := sectionSlicing config content sec) htext
      exact ⟨((linesExact_chunk hplace he).mp (h s hs he)).1,
        fun s hs he => ((linesExact_chunk hplace he).mp (h s hs he)).2⟩
    · rintro ⟨hstart, hstrip⟩ s hs he
      exact (linesExact_chunk hplace he).mpr ⟨hstart, hstrip s hs he⟩

end Sections

theorem lineOfOffset_lines (body : List Char) (m : Nat) :
    lineOfOffset body ((splitlinesKeepends body).take m).flatten.length =
      (((splitlinesKeepends body).take m).countP fun l => decide (l.getLast? = some '\n')) + 1 := by
  have hlines : ((splitlinesKeepends body).take m).flatten <+: body := by
    conv_rhs => rw [← flatten_splitlinesKeepends body]
    exact (List.take_prefix m _).flatten
  rw [lineOfOffset, ← List.prefix_iff_eq_take.mp hlines,
    count_newline_flatten fun l hl => List.mem_of_mem_take hl]

theorem lineOfOffset_lines_le (body : List Char) (m : Nat) :
    lineOfOffset body ((splitlinesKeepends body).take m).flatten.length ≤ 1 + m := by
  have hcount := List.countP_le_length (p := fun l : List Char => decide (l.getLast? = some '\n'))
    (l := (splitlinesKeepends body).take m)
  rw [List.length_take] at hcount
  rw [lineOfOffset_lines]
  omega

theorem lineOfOffset_lines_eq_iff {body line : List Char} {m : Nat}
    (hm : (splitlinesKeepends body)[m]? = some line) :
    1 + m = lineOfOffset body ((splitlinesKeepends body).take m).flatten.length ↔
      ∀ l ∈ (splitlinesKeepends body).take m, l.getLast? = some '\n' := by
  have hlen : ((splitlinesKeepends body).take m).length = m := by
    rw [List.length_take, Nat.min_eq_left (List.getElem?_eq_some_iff.mp hm).1.le]
  have hall := List.countP_eq_length (p := fun l : List Char => decide (l.getLast? = some '\n'))
    (l := (splitlinesKeepends body).take m)
  rw [hlen] at hall
  rw [lineOfOffset_lines]
  simp only [decide_eq_true_eq] at hall
  rw [← hall]
  omega

theorem splitByHeading_ge (content : ParsedContent) :
    ∀ sec ∈ splitByHeading content, (lineOfOffset content.body sec.offset : Int) ≤ sec.startLine := by
  rw [splitByHeading_starts content fun line o => (lineOfOffset content.body o : Int) ≤ line]
  · intro m line _ _
    exact Int.ofNat_le.mpr (lineOfOffset_lines_le content.body m)
  · simp [lineOfOffset]

theorem splitByHeading_exact_iff (content : ParsedContent) :
    (∀ sec ∈ splitByHeading content, sec.startLine = lineOfOffset content.body sec.offset) ↔
      ∀ m line, (splitlinesKeepends content.body)[m]? = some line →
        (matchedHeading content.headings line).isSome →
          ∀ l ∈ (splitlinesKeepends content.body).take m, l.getLast? = some '\n' := by
  rw [splitByHeading_starts content fun line o => line = lineOfOffset content.body o]
  · refine forall₂_congr fun m line => forall₂_congr fun hm _ => ?_
    rw [Int.natCast_inj]
    exact lineOfOffset_lines_eq_iff hm
  · simp [lineOfOffset]

theorem matchedHeading_not_blank {headings : List (Int × List Char)} {line : List Char}
    (h : (matchedHeading headings line).isSome) : blank line = false := by
  rw [← Bool.not_eq_true, ← strip_eq_nil_iff]
  intro hnil
  obtain ⟨m, hm⟩ := Option.isSome_iff_exists.mp h
  unfold matchedHeading at hm
  cases hfind : findHeading headings line with
  | none =>
    rw [hfind] at hm
    cases hm
  | some p =>
    have hfound := List.find?_some hfind
    simp only [hnil, Bool.and_eq_true] at hfound
    simp at hfound

theorem blank_rstrip (s : List Char) : blank (rstrip s) = blank s := by
  rw [Bool.eq_iff_iff, ← rstrip_eq_nil_iff, ← rstrip_eq_nil_iff, rstrip, rstrip,
    List.rdropWhile_idempotent]

/-- Only the text before the first heading may be blank. -/
structure Splitting.Headed (headings : List (Int × List Char)) (s : Splitting) : Prop where
  current : (s.currentStart = 1 ∧ s.currentOffset = 0) ∨
    ∃ line rest, s.currentLines = line :: rest ∧ (matchedHeading headings line).isSome
  sections : ∀ sec ∈ s.sections, (sec.startLine = 1 ∧ sec.offset = 0) ∨ blank sec.body = false

theorem Splitting.Headed.closeSection {headings : List (Int × List Char)} {s : Splitting}
    (h : s.Headed headings) :
    ∀ sec ∈ s.closeSection, (sec.startLine = 1 ∧ sec.offset = 0) ∨ blank sec.body = false := by
  intro sec hsec
  rcases List.mem_append.mp hsec with hsec | hsec
  · exact h.sections sec hsec
  · obtain rfl := List.mem_singleton.mp hsec
    rcases h.current with hstart | ⟨line, rest, hlines, hmatch⟩
    · exact Or.inl hstart
    · right
      have hline := matchedHeading_not_blank hmatch
      simp only [blank_rstrip, hlines]
      simp only [blank, List.flatten_cons, List.all_append, Bool.and_eq_false_iff] at hline ⊢
      exact Or.inl hline

theorem Splitting.Headed.addLine {headings : List (Int × List Char)} {s : Splitting}
    (h : s.Headed headings) (line : List Char) (n : Nat) :
    (s.addLine headings (line, n)).Headed headings := by
  unfold Splitting.addLine
  cases hmatch : matchedHeading headings line with
  | none =>
    refine ⟨?_, h.sections⟩
    rcases h.current with hstart | ⟨first, rest, hlines, hfirst⟩
    · exact Or.inl hstart
    · exact Or.inr ⟨first, rest ++ [line], by simp [hlines], hfirst⟩
  | some m =>
    refine ⟨Or.inr ⟨line, [], rfl, by simp [hmatch]⟩, ?_⟩
    simp only
    split
    · simp
    · exact h.closeSection

theorem foldl_addLine_headed {headings : List (Int × List Char)} (ls : List (List Char × Nat))
    (s : Splitting) (h : s.Headed headings) :
    (ls.foldl (Splitting.addLine headings) s).Headed headings := by
  induction ls generalizing s with
  | nil => exact h
  | cons l rest ih => exact ih _ (h.addLine l.1 l.2)

theorem splitByHeading_headed (content : ParsedContent) : ∀ sec ∈ splitByHeading content,
    (sec.startLine = 1 ∧ sec.offset = 0) ∨ blank sec.body = false := by
  by_cases h : content.headings = []
  · intro sec hsec
    rw [splitByHeading, if_pos h] at hsec
    obtain rfl := List.mem_singleton.mp hsec
    exact Or.inl ⟨rfl, rfl⟩
  · rw [splitByHeading_eq content h]
    have hempty : ({} : Splitting).Headed content.headings := ⟨Or.inl ⟨rfl, rfl⟩, by simp⟩
    have hheaded := foldl_addLine_headed ((splitlinesKeepends content.body).zipIdx 1) {} hempty
    unfold Splitting.finish
    split
    · exact hheaded.sections
    · exact hheaded.closeSection

theorem cuts_linesExact_iff (config : ChunkerConfig) (content : ParsedContent) :
    (∀ cut ∈ cuts config content, cut.LinesExact content.body) ↔ NumbersLines config content := by
  have hcuts : (∀ cut ∈ cuts config content, cut.LinesExact content.body) ↔
      ∀ sec ∈ splitByHeading content, ∀ k ∈ chunkText config content sec,
        (Cut.mk sec k).LinesExact content.body := by
    simp only [cuts, List.mem_flatMap, List.mem_map]
    exact ⟨fun h sec hsec k hk => h _ ⟨sec, hsec, k, hk, rfl⟩,
      fun h cut ⟨sec, hsec, k, hk, hcut⟩ => hcut ▸ h sec hsec k hk⟩
  have hsection : ∀ sec ∈ splitByHeading content,
      ((∀ k ∈ chunkText config content sec, (Cut.mk sec k).LinesExact content.body) ↔
        sec.startLine = lineOfOffset content.body sec.offset ∧ sec.StripsNoLine config content) := by
    intro sec hsec
    cases htext : blank sec.body with
    | true =>
      obtain ⟨hstart, hoffset⟩ := (splitByHeading_headed content sec hsec).resolve_right (by simp [htext])
      simp [chunkText, Section.StripsNoLine, htext, hstart, hoffset, lineOfOffset]
    | false =>
      exact Section.linesExact_iff (splitByHeading_located content sec hsec) htext
        (splitByHeading_ge content sec hsec)
  rw [hcuts, NumbersLines, ← splitByHeading_exact_iff, forall₂_congr hsection]
  exact ⟨fun h => ⟨fun sec hsec => (h sec hsec).1, fun sec hsec => (h sec hsec).2⟩,
    fun h sec hsec => ⟨h.1 sec hsec, h.2 sec hsec⟩⟩

theorem chunkText_placed {config : ChunkerConfig} {content : ParsedContent} {sec : Section}
    (hplace : sec.body <+: content.body.drop sec.offset) : ∀ k ∈ chunkText config content sec,
    (Cut.mk sec k).Placed content.body ∧ sec.startLine ≤ k.startLine ∧ sec.startLine ≤ k.endLine := by
  intro k hk
  unfold chunkText at hk
  split at hk
  · cases hk
  · rename_i htext
    split at hk
    · obtain rfl := List.mem_singleton.mp hk
      refine ⟨Section.placed_whole hplace (by simpa using htext), Int.le_refl _, ?_⟩
      simp only
      omega
    · obtain ⟨s, _, he, rfl⟩ := Slicing.mem_chunks_iff.mp hk
      refine ⟨Section.placed_chunk hplace he, ?_, ?_⟩
      · simp only [Slicing.chunk, sectionSlicing]
        omega
      · simp only [Slicing.chunk, sectionSlicing]
        omega

theorem cuts_placed (config : ChunkerConfig) (content : ParsedContent) :
    ∀ cut ∈ cuts config content, cut.Placed content.body ∧ 0 ≤ cut.piece.startLine ∧
      0 ≤ cut.piece.endLine := by
  intro cut hcut
  obtain ⟨sec, hsec, hcut⟩ := List.mem_flatMap.mp hcut
  obtain ⟨k, hk, rfl⟩ := List.mem_map.mp hcut
  have hge := splitByHeading_ge content sec hsec
  obtain ⟨hplaced, hstart, hend⟩ := chunkText_placed (splitByHeading_located content sec hsec) k hk
  exact ⟨hplaced, by simp only; omega, by simp only; omega⟩

theorem cuts_content_at (config : ChunkerConfig) (content : ParsedContent) :
    ∀ cut ∈ cuts config content, cut.piece.content <+: content.body.drop cut.firstOffset ∧
      cut.firstOffset + cut.piece.content.length = cut.lastOffset + 1 :=
  fun cut hcut => (cuts_placed config content cut hcut).1.content_at

/-- For every parsed document and whatever the chunks are made for. -/
theorem locatorsExact_iff (sha256 : List Char → List Char) (config : ChunkerConfig)
    (content : ParsedContent) (lineage : ChunkLineage) (chunkId : UuidSource) :
    LocatorsExact sha256 config content lineage chunkId ↔ NumbersLines config content := by
  have hexact : ∀ cut ∈ cuts config content, ∀ k : Chunk,
      k.startLocator = some (locate cut.piece.startLine cut.piece.content) →
      k.endLocator = some (locateEnd cut.piece.endLine cut.piece.content) →
      (ExactLocators content.body cut k ↔ cut.LinesExact content.body) := by
    intro cut hcut k hstart hend
    obtain ⟨_, hstartLine, hendLine⟩ := cuts_placed config content cut hcut
    rw [ExactLocators, hstart, hend, Option.bind_some, Option.bind_some,
      lineNumber_locate_iff hstartLine, lineNumber_locateEnd_iff hendLine, Cut.LinesExact]
  rw [← cuts_linesExact_iff]
  constructor
  · intro h cut hcut
    obtain ⟨i, hi⟩ := List.mem_iff_getElem?.mp hcut
    have hchunk := h i cut _ hi (by simp [chunk, hi]; rfl)
    exact (hexact cut hcut _ rfl rfl).mp hchunk
  · intro h i cut k hi hk
    have hcut := List.mem_of_getElem? hi
    rw [chunk, List.getElem?_mapIdx, hi, Option.map_some, Option.some.injEq] at hk
    subst hk
    exact (hexact cut hcut _ rfl rfl).mpr (h cut hcut)

def blankLinesFirst : ParsedContent where
  title := "untitled".toList
  body := "\n\nhello".toList
  mediaType := "text/plain"

/-- Its one chunk is said to begin on the first line; it is the third. -/
theorem not_locatorsExact : ¬ ∀ sha256 config content lineage chunkId,
    LocatorsExact sha256 config content lineage chunkId := by
  intro h
  have hexact := h id {} blankLinesFirst ⟨1, 2, [], []⟩ (fun _ => 3) 0
    ⟨⟨[], blankLinesFirst.body, 1, 0⟩, ⟨"hello".toList, 1, 3, 0, 7⟩⟩ _ rfl rfl
  exact absurd hexact.1 (by decide)

end GroundGraph.Ingestion
