import GroundGraph.Ingestion.Chunker

/-! Where the chunker cuts a document: where its sections begin, and which branch sets the end
and the start of a chunk. -/

set_option autoImplicit false

namespace GroundGraph.Ingestion

open PyText

def Splitting.finish (s : Splitting) : List Section :=
  if s.currentLines = [] then s.sections else s.closeSection

section AddLine

variable {headings : List (Int × List Char)} {line : List Char}

theorem Splitting.position_addLine (s : Splitting) (n : Nat) :
    (s.addLine headings (line, n)).position = s.position + line.length := by
  unfold Splitting.addLine
  cases matchedHeading headings line <;> rfl

theorem Splitting.currentLines_addLine (s : Splitting) (n : Nat) :
    (s.addLine headings (line, n)).currentLines ≠ [] := by
  unfold Splitting.addLine
  cases matchedHeading headings line <;> simp

theorem Splitting.finish_addLine_none (h : matchedHeading headings line = none) (s : Splitting)
    (n : Nat) : (s.addLine headings (line, n)).finish = s.sections ++
      [⟨s.headingPath, rstrip (s.currentLines ++ [line]).flatten, s.currentStart,
        s.currentOffset⟩] := by
  simp [Splitting.addLine, Splitting.finish, Splitting.closeSection, h]

theorem Splitting.finish_addLine_some {level : Int} {text : List Char}
    (h : matchedHeading headings line = some (level, text)) (s : Splitting) (n : Nat) :
    (s.addLine headings (line, n)).finish =
      (if s.currentLines = [] ∧ s.sections = [] then [] else s.closeSection) ++
        [⟨s.headingPath.take (level.toNat - 1) ++ [text], rstrip line, n, s.position⟩] := by
  simp [Splitting.addLine, Splitting.finish, Splitting.closeSection, h]

end AddLine

structure Splitting.Located (body : List Char) (s : Splitting) : Prop where
  empty : s.currentLines = [] → s.sections = [] ∧ s.currentOffset = 0
  current : s.currentLines.flatten <+: body.drop s.currentOffset
  position : s.currentOffset + s.currentLines.flatten.length = s.position
  sections : ∀ sec ∈ s.sections, sec.body <+: body.drop sec.offset

theorem Splitting.Located.closeSection {body : List Char} {s : Splitting} (h : s.Located body) :
    ∀ sec ∈ s.closeSection, sec.body <+: body.drop sec.offset := by
  intro sec hsec
  rcases List.mem_append.mp hsec with hsec | hsec
  · exact h.sections sec hsec
  · obtain rfl := List.mem_singleton.mp hsec
    exact (List.rdropWhile_prefix isSpace _).trans h.current

theorem Splitting.Located.finish {body : List Char} {s : Splitting} (h : s.Located body) :
    ∀ sec ∈ s.finish, sec.body <+: body.drop sec.offset := by
  unfold Splitting.finish
  split
  · exact h.sections
  · exact h.closeSection

theorem Splitting.Located.addLine {body : List Char} (headings : List (Int × List Char))
    {s : Splitting} (h : s.Located body) {line : List Char} (n : Nat)
    (hline : line <+: body.drop s.position) :
    (s.addLine headings (line, n)).Located body := by
  unfold Splitting.addLine
  cases matchedHeading headings line with
  | none =>
    refine ⟨by simp, ?_, ?_, h.sections⟩
    · obtain ⟨rest, hrest⟩ := h.current
      simp only [List.flatten_append, List.flatten_cons, List.flatten_nil, List.append_nil]
      rw [← hrest, List.prefix_append_right_inj]
      rw [← h.position, ← List.drop_drop, ← hrest, List.drop_left] at hline
      exact hline
    · simp only [List.flatten_append, List.flatten_cons, List.flatten_nil, List.append_nil,
        List.length_append]
      have hpos := h.position
      omega
  | some m =>
    refine ⟨by simp, by simpa using hline, by simp, ?_⟩
    simp only
    split
    · simp
    · exact h.closeSection

theorem foldl_addLine_located {body : List Char} {headings : List (Int × List Char)}
    (ls : List (List Char)) (n : Nat) (s : Splitting) (h : s.Located body)
    (hls : ls.flatten <+: body.drop s.position) :
    ((ls.zipIdx n).foldl (Splitting.addLine headings) s).Located body := by
  induction ls generalizing n s with
  | nil => exact h
  | cons line rest ih =>
    rw [List.zipIdx_cons, List.foldl_cons]
    have hline : line <+: body.drop s.position := (List.prefix_append _ _).trans hls
    have hnext := h.addLine headings n hline
    refine ih (n + 1) _ hnext ?_
    obtain ⟨tail, htail⟩ := hls
    rw [Splitting.position_addLine, ← List.drop_drop, ← htail, List.flatten_cons, List.append_assoc, List.drop_left]
    exact List.prefix_append _ _

theorem foldl_addLine_starts {headings : List (Int × List Char)} (P : Int → Nat → Prop)
    (hP : P 1 0) (ls : List (List Char)) (n : Nat) (s : Splitting)
    (hs : s.currentLines = [] → s.sections = [] ∧ s.currentStart = 1 ∧ s.currentOffset = 0) :
    (∀ sec ∈ ((ls.zipIdx n).foldl (Splitting.addLine headings) s).finish,
        P sec.startLine sec.offset) ↔
      (∀ sec ∈ s.finish, P sec.startLine sec.offset) ∧
        ∀ m line, ls[m]? = some line → (matchedHeading headings line).isSome →
          P ((n + m : Nat) : Int) (s.position + (ls.take m).flatten.length) := by
  induction ls generalizing n s with
  | nil => simp
  | cons line rest ih =>
    rw [List.zipIdx_cons, List.foldl_cons, ← Nat.and_forall_add_one]
    have hrest : ∀ p, (∀ m l, (line :: rest)[m + 1]? = some l → (matchedHeading headings l).isSome →
        P ((n + (m + 1) : Nat) : Int) (p + ((line :: rest).take (m + 1)).flatten.length)) ↔
        ∀ m l, rest[m]? = some l → (matchedHeading headings l).isSome →
          P ((n + 1 + m : Nat) : Int) (p + line.length + (rest.take m).flatten.length) := by
      intro p
      simp only [List.getElem?_cons_succ, List.take_succ_cons, List.flatten_cons, List.length_append,
        Nat.add_assoc, Nat.add_comm 1]
    have hnext := ih (n + 1) (s.addLine headings (line, n)) fun hnil =>
      absurd hnil (s.currentLines_addLine n)
    rw [hnext, s.position_addLine, hrest]
    cases hmatch : matchedHeading headings line with
    | none =>
      have hfinish : (∀ sec ∈ (s.addLine headings (line, n)).finish, P sec.startLine sec.offset) ↔
          ∀ sec ∈ s.finish, P sec.startLine sec.offset := by
        rw [s.finish_addLine_none hmatch]
        by_cases hnil : s.currentLines = []
        · obtain ⟨hsec, hstart, hoff⟩ := hs hnil
          simp [Splitting.finish, hnil, hsec, hstart, hoff, hP]
        · simp [Splitting.finish, Splitting.closeSection, hnil, or_imp, forall_and]
      rw [hfinish]
      simp [hmatch]
    | some h =>
      obtain ⟨level, text⟩ := h
      have hfinish : (∀ sec ∈ (s.addLine headings (line, n)).finish, P sec.startLine sec.offset) ↔
          (∀ sec ∈ s.finish, P sec.startLine sec.offset) ∧ P n s.position := by
        rw [s.finish_addLine_some hmatch]
        by_cases hnil : s.currentLines = []
        · obtain ⟨hsec, hstart, hoff⟩ := hs hnil
          simp [Splitting.finish, hnil, hsec]
        · simp [Splitting.finish, Splitting.closeSection, hnil, or_imp, forall_and, and_assoc]
      rw [hfinish]
      simp [hmatch, and_assoc]

theorem splitByHeading_eq (content : ParsedContent) (h : content.headings ≠ []) :
    splitByHeading content =
      (((splitlinesKeepends content.body).zipIdx 1).foldl
        (Splitting.addLine content.headings) {}).finish := by
  rw [splitByHeading, if_neg h]
  rfl

theorem splitByHeading_located (content : ParsedContent) :
    ∀ sec ∈ splitByHeading content, sec.body <+: content.body.drop sec.offset := by
  by_cases h : content.headings = []
  · intro sec hsec
    rw [splitByHeading, if_pos h] at hsec
    obtain rfl := List.mem_singleton.mp hsec
    exact List.prefix_refl _
  · rw [splitByHeading_eq content h]
    refine (foldl_addLine_located (splitlinesKeepends content.body) 1 {} ?_ ?_).finish
    · exact ⟨fun _ => ⟨rfl, rfl⟩, by simp, by simp, by simp⟩
    · rw [flatten_splitlinesKeepends]
      exact List.prefix_refl _

theorem matchedHeading_nil (line : List Char) : matchedHeading [] line = none := rfl

theorem splitByHeading_starts (content : ParsedContent) (P : Int → Nat → Prop) (hP : P 1 0) :
    (∀ sec ∈ splitByHeading content, P sec.startLine sec.offset) ↔
      ∀ m line, (splitlinesKeepends content.body)[m]? = some line →
        (matchedHeading content.headings line).isSome →
          P ((1 + m : Nat) : Int) ((splitlinesKeepends content.body).take m).flatten.length := by
  by_cases h : content.headings = []
  · rw [splitByHeading, if_pos h, h]
    simp [hP, matchedHeading_nil]
  · rw [splitByHeading_eq content h, foldl_addLine_starts P hP _ 1 {} fun _ => ⟨rfl, rfl, rfl⟩]
    simp [Splitting.finish]

inductive EndRule where
  | before (range : Nat × Nat)
  | past (range : Nat × Nat)
  | fits (range : Nat × Nat)
  | atTarget

def endRule (target chunkStart : Nat) (prevEnd : Option Nat) : List (Nat × Nat) → EndRule
  | [] => .atTarget
  | p :: rest =>
    if chunkStart < p.1 ∧ p.1 < target then if prevEnd = some p.1 then .past p else .before p
    else if p.1 ≤ chunkStart ∧ chunkStart ≤ p.2 ∧ target < p.2 then .past p
    else if p.1 < target ∧ target ≤ p.2 then .fits p
    else endRule target chunkStart prevEnd rest

/-- Where the chunk ends under each rule: a range that ends at the target and begins
at the chunk or before it leaves one character. -/
def EndRule.position (target chunkStart : Nat) : EndRule → Nat
  | .before p => p.1
  | .past p => p.2
  | .fits _ => chunkStart + 1
  | .atTarget => target

theorem findSafeEnd_position {target chunkStart : Nat} {prevEnd : Option Nat}
    {ranges : List (Nat × Nat)} (hproper : ∀ p ∈ ranges, p.1 < p.2) (htarget : chunkStart < target) :
    let stop := (findSafeEnd target chunkStart prevEnd ranges).getD target
    (if stop ≤ chunkStart then chunkStart + 1 else stop) =
      (endRule target chunkStart prevEnd ranges).position target chunkStart := by
  induction ranges with
  | nil => simp [findSafeEnd, endRule, EndRule.position, Nat.not_le.mpr htarget]
  | cons p rest ih =>
    have hp := hproper p List.mem_cons_self
    simp only [findSafeEnd, endRule]
    split
    · rename_i hin
      split
      · have hlt : chunkStart < p.2 := hin.1.trans hp
        simp [EndRule.position, hlt]
      · simp [EndRule.position, hin.1]
    · rename_i hout
      split
      · rename_i hin
        have hlt : chunkStart < p.2 := htarget.trans hin.2.2
        simp [EndRule.position, hlt]
      · split
        · rename_i hin
          have hle : p.1 ≤ chunkStart := by omega
          simp [EndRule.position, hle]
        · exact ih fun q hq => hproper q (List.mem_cons_of_mem _ hq)

theorem endRule_atTarget {target chunkStart : Nat} {prevEnd : Option Nat}
    {ranges : List (Nat × Nat)} (h : endRule target chunkStart prevEnd ranges = .atTarget) :
    ∀ p ∈ ranges, ¬ (p.1 < target ∧ target ≤ p.2) := by
  induction ranges with
  | nil => simp
  | cons p rest ih =>
    simp only [endRule] at h
    split at h
    · split at h <;> cases h
    · split at h
      · cases h
      · split at h
        · cases h
        · rename_i hout
          intro q hq hin
          rcases List.mem_cons.mp hq with rfl | hq
          · exact hout hin
          · exact ih h q hq hin

theorem endRule_before {target chunkStart : Nat} {prevEnd : Option Nat}
    {ranges : List (Nat × Nat)} {p : Nat × Nat}
    (h : endRule target chunkStart prevEnd ranges = .before p) :
    p ∈ ranges ∧ p.1 < target ∧ prevEnd ≠ some p.1 := by
  induction ranges with
  | nil => cases h
  | cons q rest ih =>
    simp only [endRule] at h
    split at h
    · rename_i hin
      split at h
      · cases h
      · rename_i hprev
        obtain rfl := EndRule.before.inj h
        exact ⟨List.mem_cons_self, hin.2, hprev⟩
    · split at h
      · cases h
      · split at h
        · cases h
        · exact ⟨List.mem_cons_of_mem _ (ih h).1, (ih h).2⟩

theorem endRule_past {target chunkStart : Nat} {prevEnd : Option Nat} {ranges : List (Nat × Nat)}
    (htarget : chunkStart < target) {p : Nat × Nat}
    (h : endRule target chunkStart prevEnd ranges = .past p) : p ∈ ranges ∧ p.1 < target := by
  induction ranges with
  | nil => cases h
  | cons q rest ih =>
    simp only [endRule] at h
    split at h
    · rename_i hin
      split at h
      · obtain rfl := EndRule.past.inj h
        exact ⟨List.mem_cons_self, hin.2⟩
      · cases h
    · split at h
      · rename_i hin
        obtain rfl := EndRule.past.inj h
        exact ⟨List.mem_cons_self, by omega⟩
      · split at h
        · cases h
        · exact ⟨List.mem_cons_of_mem _ (ih h).1, (ih h).2⟩

theorem endRule_fits {target chunkStart : Nat} {prevEnd : Option Nat}
    {ranges : List (Nat × Nat)} (htarget : chunkStart < target) {p : Nat × Nat}
    (h : endRule target chunkStart prevEnd ranges = .fits p) :
    p ∈ ranges ∧ p.1 ≤ chunkStart ∧ p.2 = target := by
  induction ranges with
  | nil => cases h
  | cons r rest ih =>
    simp only [endRule] at h
    split at h
    · split at h <;> cases h
    · rename_i hbegun
      split at h
      · cases h
      · rename_i hpast
        split at h
        · rename_i hfits
          obtain rfl := EndRule.fits.inj h
          exact ⟨List.mem_cons_self, by omega, by omega⟩
        · obtain ⟨hmem, hstart, hstop⟩ := ih h
          exact ⟨List.mem_cons_of_mem _ hmem, hstart, hstop⟩

theorem protectedRange_lt {lineToChar : List Nat} {sectionStart : Int} {newlines textLength : Nat}
    {item : Int × Int} {p : Nat × Nat}
    (h : protectedRange lineToChar sectionStart newlines textLength item = some p) :
    p.1 < p.2 := by
  unfold protectedRange at h
  simp only at h
  split at h
  · cases h
  · split at h
    · cases h
    · split at h
      · rename_i hlt
        obtain rfl := Option.some.inj h
        exact hlt
      · cases h

theorem buildProtectedRangesChar_lt {text : List Char} {content : ParsedContent}
    {sectionStart : Int} : ∀ p ∈ buildProtectedRangesChar text content sectionStart, p.1 < p.2 := by
  intro p hp
  unfold buildProtectedRangesChar at hp
  simp only [List.mem_insertionSort, List.mem_append, List.mem_filterMap] at hp
  rcases hp with (⟨item, _, h⟩ | ⟨item, _, h⟩) | ⟨item, _, h⟩
  · exact protectedRange_lt h
  · exact protectedRange_lt h
  · exact protectedRange_lt h

namespace Slicing

variable {w : Slicing}

structure Proper (w : Slicing) : Prop where
  ranges : ∀ p ∈ w.protectedRanges, p.1 < p.2
  chars : 0 < w.estimatedChars

def rule (w : Slicing) (s : SliceState) : EndRule :=
  endRule (w.target s) s.start s.prevEnd w.protectedRanges

theorem lt_target (hw : w.Proper) {s : SliceState} (h : s.start < w.text.length) :
    s.start < w.target s :=
  Nat.lt_min.mpr ⟨by have := hw.chars; omega, h⟩

theorem chunkEnd_eq_position (hw : w.Proper) {s : SliceState} (h : s.start < w.text.length) :
    w.chunkEnd s = (w.rule s).position (w.target s) s.start := by
  rw [rule, ← findSafeEnd_position hw.ranges (lt_target hw h), chunkEnd, Nat.min_eq_left h]

def Arrived (w : Slicing) (s : SliceState) : Prop :=
  match s.arrival with
  | .first => s.start = 0
  | .skipped => True
  | .overlapping => s.start < w.text.length →
      ∀ p ∈ w.protectedRanges, ¬ (p.1 < s.start ∧ s.start < p.2)
  | .jumped p => s.start < w.text.length → s.start = p.2

theorem reached_arrived {s : SliceState} (hs : w.Reached s) : w.Arrived s := by
  induction hs with
  | refl => rfl
  | @tail s s' _ hstep ih =>
    obtain ⟨_, _, ⟨_, rfl⟩ | ⟨_, _, rfl⟩ | ⟨_, _, p, _, rfl⟩ | ⟨_, _, hjump, rfl⟩⟩ :=
      step_cases hstep
    · trivial
    · exact ih
    · simp only [Arrived]
      omega
    · intro hlt
      simp only at hlt ⊢
      have hstart : min (w.overlapStart s) w.text.length = w.overlapStart s := by omega
      rw [hstart]
      intro p hp hin
      have hnone := List.find?_eq_none.mp hjump p hp
      exact hnone (decide_eq_true hin)

end Slicing

theorem sectionSlicing_proper (config : ChunkerConfig) (content : ParsedContent) (sec : Section) :
    (sectionSlicing config content sec).Proper := by
  refine ⟨buildProtectedRangesChar_lt, ?_⟩
  have hmin := config.maxTokens_min
  simp only [sectionSlicing, ChunkerConfig.estimatedChars]
  omega

end GroundGraph.Ingestion
