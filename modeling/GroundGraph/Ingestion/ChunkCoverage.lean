import GroundGraph.Ingestion.ChunkBoundaries
import GroundGraph.Ingestion.LineMap

/-! What the chunks of a section cover of its text. -/

set_option autoImplicit false

namespace GroundGraph.Ingestion

open PyText

/-! The line map: it counts more lines than there are newlines, and one character
for every line end, so it never runs ahead of the text. -/

/-- The line of the character before `c`, by the newlines before it. -/
theorem lookupLine_le (text : List Char) (c : Nat) :
    lookupLine (buildLineToCharMap text) ((text.take c).count '\n' + 1 : Nat) 0 ≤ c := by
  have hbegin := lineStart_le_of_count_newline (Nat.le_refl ((text.take c).count '\n'))
  rw [Int.natCast_add_one, lookupLine_add_one]
  by_cases hline : (text.take c).count '\n' < (lines text).length
  · obtain ⟨p, hget, hp⟩ := buildLineToCharMap_of_lt hline
    rw [hget, Option.getD_some]
    omega
  · rw [buildLineToCharMap_of_le (Nat.not_lt.mp hline), Option.getD_none]
    exact Nat.zero_le c

namespace Slicing

variable {w : Slicing}

/-- The line on which a chunk ends is that of its last character that is not white
space. -/
theorem Emits.endLine {s : SliceState} (h : w.Emits s) :
    ∃ c, s.start ≤ c ∧ c < w.chunkEnd s ∧
      (w.chunk s).endLine = w.sectionStart + (w.text.take c).count '\n' := by
  obtain ⟨_, hstart, hblank⟩ := h
  have hne : rstrip (w.slice s.start (w.chunkEnd s)) ≠ [] := by
    intro hnil
    rw [rstrip_eq_nil_iff, hblank] at hnil
    cases hnil
  have hlast : (rstrip (w.slice s.start (w.chunkEnd s))).getLast hne ≠ '\n' := by
    intro hnewline
    have hspace := List.rdropWhile_last_not isSpace _ hne
    exact hspace (hnewline ▸ by decide)
  have hstart : rstrip (w.slice s.start (w.chunkEnd s)) <+: w.text.drop s.start :=
    (List.rdropWhile_prefix isSpace _).trans (List.take_prefix _ _)
  have hlen : (rstrip (w.slice s.start (w.chunkEnd s))).length ≤ w.chunkEnd s - s.start :=
    (List.rdropWhile_prefix isSpace _).length_le.trans (List.length_take_le _ _)
  unfold chunk
  simp only
  generalize rstrip (w.slice s.start (w.chunkEnd s)) = r at hne hlast hstart hlen
  have hpos : 0 < r.length := List.length_pos_iff.mpr hne
  refine ⟨s.start + (r.length - 1), by omega, by omega, ?_⟩
  have hr := List.prefix_iff_eq_take.mp hstart
  have hinit : (w.text.drop s.start).take (r.length - 1) = r.dropLast := by
    have htake : (w.text.drop s.start).take (r.length - 1) =
        ((w.text.drop s.start).take r.length).take (r.length - 1) := by
      rw [List.take_take, Nat.min_eq_left (Nat.sub_le _ _)]
    rw [htake, ← hr, List.dropLast_eq_take]
  rw [List.take_add, List.take_add, ← hr, hinit, List.count_append, List.count_append]
  conv_lhs => rw [← List.dropLast_append_getLast hne]
  simp [List.count_append, hlast]

/-- The line start that a chunk is held back to lies inside the chunk before. -/
theorem Emits.lookupLine_lt {s : SliceState} (h : w.Emits s) :
    lookupLine (buildLineToCharMap w.text) ((w.chunk s).endLine - w.sectionStart + 1) 0 <
      (w.chunk s).stop := by
  obtain ⟨c, _, hc, hline⟩ := h.endLine
  have hle := lookupLine_le w.text c
  have heq : (w.chunk s).endLine - w.sectionStart + 1 =
      (((w.text.take c).count '\n' + 1 : Nat) : Int) := by
    rw [hline]
    push_cast
    omega
  rw [heq]
  exact Nat.lt_of_le_of_lt hle hc

theorem overlapStart_le {s : SliceState} (hs : w.Reached s) (he : w.Emits s) :
    w.overlapStart s ≤ w.chunkEnd s ∨ ∃ k ∈ s.chunks, w.overlapStart s ≤ k.stop := by
  have hend := lt_chunkEnd w he.2.1
  unfold overlapStart prevStartChar
  cases hlast : s.chunks.getLast? with
  | none =>
    simp only [Option.map_none]
    omega
  | some k =>
    have hmem := List.mem_of_getLast? hlast
    obtain ⟨t, _, ht, rfl⟩ := hs.cut_of_mem k hmem
    have hlt := ht.lookupLine_lt
    simp only [Option.map_some]
    by_cases hle : w.chunkEnd s ≤ (w.chunk t).stop
    · exact Or.inr ⟨_, hmem, by omega⟩
    · exact Or.inl (by omega)

def TextAt (w : Slicing) (i : Nat) : Prop := ∃ c, w.text[i]? = some c ∧ isSpace c = false

def Covered (chunks : List Piece) (i : Nat) : Prop := ∃ k ∈ chunks, k.start ≤ i ∧ i < k.stop

/-- The next start falls into a protected range and moves to its end, past text that
no chunk so far has reached. -/
def JumpsOverText (w : Slicing) (s : SliceState) : Prop :=
  w.Emits s ∧ w.chunkEnd s < w.text.length ∧ ∃ p, w.jump s = some p ∧
    ∃ i, w.TextAt i ∧ i < p.2 ∧ w.chunkEnd s ≤ i ∧ ∀ k ∈ s.chunks, k.stop ≤ i

theorem TextAt.lt {i : Nat} (h : w.TextAt i) : i < w.text.length := by
  obtain ⟨c, hc, _⟩ := h
  exact (List.getElem?_eq_some_iff.mp hc).1

theorem TextAt.not_blank {i start stop : Nat} (h : w.TextAt i) (hstart : start ≤ i)
    (hstop : i < stop) : blank (w.slice start stop) = false := by
  obtain ⟨c, hc, hspace⟩ := h
  have hmem : c ∈ w.slice start stop := by
    refine List.mem_iff_getElem?.mpr ⟨i - start, ?_⟩
    rw [slice, List.getElem?_take_of_lt (by omega), List.getElem?_drop,
      Nat.add_sub_cancel' hstart, hc]
  rw [Bool.eq_false_iff]
  intro hblank
  rw [List.all_eq_true.mp hblank c hmem] at hspace
  cases hspace

structure Covering (w : Slicing) (s : SliceState) : Prop where
  starts : ∀ k ∈ s.chunks, k.start ≤ s.start
  before : ∀ i, w.TextAt i → i < s.start → Covered s.chunks i
  atEnd : s.broke = true → ∀ i, w.TextAt i → Covered s.chunks i

theorem Covered.append {chunks : List Piece} {i : Nat} (h : Covered chunks i) (k : Piece) :
    Covered (chunks ++ [k]) i := by
  obtain ⟨k', hk', hin⟩ := h
  exact ⟨k', List.mem_append_left _ hk', hin⟩

theorem Covering.covered {s : SliceState} (hi : w.Covering s) {i : Nat} (ht : w.TextAt i)
    (hreach : i < s.start ∨ i < w.chunkEnd s ∨ ∃ k ∈ s.chunks, i < k.stop) :
    Covered (s.chunks ++ [w.chunk s]) i := by
  by_cases hbefore : i < s.start
  · exact (hi.before i ht hbefore).append _
  · rcases hreach with h | h | ⟨k, hk, h⟩
    · exact absurd h hbefore
    · exact ⟨w.chunk s, by simp, Nat.le_of_not_lt hbefore, h⟩
    · exact ⟨k, List.mem_append_left _ hk, (hi.starts k hk).trans (Nat.le_of_not_lt hbefore), h⟩

theorem Covering.step {s s' : SliceState} (hs : w.Reached s) (hi : w.Covering s)
    (hsafe : ¬ w.JumpsOverText s) (hstep : w.step s = some s') : w.Covering s' := by
  have hover := w.lt_overlapStart s
  have hstarts : ∀ n, s.start ≤ n → ∀ k ∈ s.chunks ++ [w.chunk s], k.start ≤ n := by
    intro n hn k hk
    rcases List.mem_append.mp hk with hk | hk
    · exact (hi.starts k hk).trans hn
    · obtain rfl := List.mem_singleton.mp hk
      exact hn
  obtain ⟨hbroke, hstart, ⟨hblank, rfl⟩ | ⟨he, hend, rfl⟩ | ⟨he, hend, p, hjump, rfl⟩ |
    ⟨he, hend, hjump, rfl⟩⟩ := step_cases hstep
  · refine ⟨fun k hk => (hi.starts k hk).trans (Nat.le_succ _), ?_, ?_⟩
    · intro i ht hlt
      rcases Nat.lt_succ_iff_lt_or_eq.mp hlt with h | rfl
      · exact hi.before i ht h
      · rw [ht.not_blank (Nat.le_refl _) (lt_chunkEnd w hstart)] at hblank
        cases hblank
    · intro h
      simp [hbroke] at h
  · refine ⟨hstarts s.start (Nat.le_refl _), ?_, ?_⟩
    · exact fun i ht hlt => (hi.before i ht hlt).append _
    · exact fun _ i ht => hi.covered ht (Or.inr (Or.inl (Nat.lt_of_lt_of_le ht.lt hend)))
  · have hin := (jump_some hjump).2
    refine ⟨hstarts _ (by simp only; omega), ?_, by simp⟩
    intro i ht hlt
    refine hi.covered ht ?_
    by_contra hnot
    simp only [not_or, not_exists, not_and, Nat.not_lt] at hnot
    exact hsafe ⟨he, hend, p, hjump, i, ht, (Nat.lt_min.mp hlt).1, hnot.2.1, hnot.2.2⟩
  · refine ⟨hstarts _ (by simp only; omega), ?_, by simp⟩
    intro i ht hlt
    have hlt' := (Nat.lt_min.mp hlt).1
    refine hi.covered ht (Or.inr ?_)
    rcases overlapStart_le hs he with h | ⟨k, hk, h⟩
    · exact Or.inl (Nat.lt_of_lt_of_le hlt' h)
    · exact Or.inr ⟨k, hk, Nat.lt_of_lt_of_le hlt' h⟩

theorem reached_covering (h : ∀ s, w.Reached s → ¬ w.JumpsOverText s) {s : SliceState}
    (hs : w.Reached s) : w.Covering s := by
  induction hs with
  | refl => exact ⟨by simp, by simp, by simp⟩
  | tail hs hstep ih => exact ih.step hs (h _ hs) hstep

/-- The protected ranges have nothing in common, each is shorter than a chunk may be, and none goes
on to the end of the section. -/
structure LaidApart (w : Slicing) : Prop where
  apart : ∀ p ∈ w.protectedRanges, ∀ q ∈ w.protectedRanges, p = q ∨ p.2 ≤ q.1 ∨ q.2 ≤ p.1
  shorter : ∀ p ∈ w.protectedRanges, p.2 < p.1 + w.estimatedChars
  inner : ∀ p ∈ w.protectedRanges, p.2 < w.text.length

theorem LaidApart.chunkEnd (h : w.LaidApart) (hw : w.Proper) {s : SliceState}
    (hs : s.start < w.text.length) {p : Nat × Nat} (hp : p ∈ w.protectedRanges) :
    ¬ (p.1 < w.chunkEnd s ∧ w.chunkEnd s < p.2) := by
  have hproper := hw.ranges
  rw [chunkEnd_eq_position hw hs]
  cases hrule : w.rule s with
  | before q =>
    have hq := (endRule_before hrule).1
    have hlt := hproper q hq
    simp only [EndRule.position]
    rcases h.apart p hp q hq with rfl | hapart | hapart <;> omega
  | past q =>
    have hq := (endRule_past (lt_target hw hs) hrule).1
    have hlt := hproper q hq
    simp only [EndRule.position]
    rcases h.apart p hp q hq with rfl | hapart | hapart <;> omega
  | fits q =>
    obtain ⟨hq, hbegun, hstop⟩ := endRule_fits (lt_target hw hs) hrule
    have hshort := h.shorter q hq
    have hinner := h.inner q hq
    unfold target at hstop
    omega
  | atTarget => exact fun hin => endRule_atTarget hrule p hp ⟨hin.1, hin.2.le⟩

/-- No chunk ends in a range then, and so no text is behind all of them and in front of the end of
the range that a start falls into. -/
theorem LaidApart.not_jumpsOverText (h : w.LaidApart) (hw : w.Proper) {s : SliceState}
    (hs : w.Reached s) : ¬ w.JumpsOverText s := by
  rintro ⟨he, _, p, hjump, i, _, hp, hchunk, hchunks⟩
  obtain ⟨hmem, hbegun, _⟩ := jump_some hjump
  rcases overlapStart_le hs he with hle | ⟨k, hk, hle⟩
  · exact h.chunkEnd hw he.2.1 hmem ⟨by omega, by omega⟩
  · obtain ⟨t, _, ht, rfl⟩ := hs.cut_of_mem k hk
    have hstop := hchunks _ hk
    exact h.chunkEnd hw ht.2.1 hmem
      ⟨Nat.lt_of_lt_of_le hbegun hle, Nat.lt_of_le_of_lt hstop hp⟩

/-- What a jump passes over is not cut off later either. -/
theorem JumpsOverText.not_covered {s : SliceState} (hs : w.Reached s) (h : w.JumpsOverText s) :
    ∃ i, w.TextAt i ∧ ¬ Covered w.chunks i := by
  obtain ⟨he, hend, p, hjump, i, ht, hp, hchunk, hchunks⟩ := h
  obtain ⟨s', hstep, _⟩ := he.step_isSome
  have hpassed : i < s'.start ∧ ∀ k ∈ s'.chunks, k.stop ≤ i ∨ i < k.start := by
    obtain ⟨_, _, ⟨hblank, rfl⟩ | ⟨_, hend', rfl⟩ | ⟨_, _, p', hjump', rfl⟩ |
      ⟨_, _, hjump', rfl⟩⟩ := step_cases hstep
    · rw [he.2.2] at hblank
      cases hblank
    · omega
    · obtain rfl := Option.some.inj (hjump.symm.trans hjump')
      refine ⟨Nat.lt_min.mpr ⟨hp, ht.lt⟩, ?_⟩
      intro k hk
      rcases List.mem_append.mp hk with hk | hk
      · exact Or.inl (hchunks k hk)
      · obtain rfl := List.mem_singleton.mp hk
        exact Or.inl hchunk
    · rw [hjump] at hjump'
      cases hjump'
  have hreach : w.Reached s' := .tail hs hstep
  have hfinal := hreach.reaches_end.preserves
    (fun t => i < t.start ∧ ∀ k ∈ t.chunks, k.stop ≤ i ∨ i < k.start) ?_ hpassed
  · refine ⟨i, ht, ?_⟩
    rintro ⟨k, hk, hin⟩
    have hout := hfinal.2 k hk
    omega
  · rintro t t' ⟨hlt, hout⟩ ht'
    have hover := w.lt_overlapStart t
    have hnew : ∀ k ∈ t.chunks ++ [w.chunk t], k.stop ≤ i ∨ i < k.start := by
      intro k hk
      rcases List.mem_append.mp hk with hk | hk
      · exact hout k hk
      · obtain rfl := List.mem_singleton.mp hk
        exact Or.inr hlt
    obtain ⟨_, hstart, ⟨_, rfl⟩ | ⟨_, _, rfl⟩ | ⟨_, _, q, hq, rfl⟩ | ⟨_, _, _, rfl⟩⟩ :=
      step_cases ht'
    · exact ⟨Nat.lt_succ_of_lt hlt, hout⟩
    · exact ⟨hlt, hnew⟩
    · have hin := (jump_some hq).2
      exact ⟨by simp only; omega, hnew⟩
    · exact ⟨by simp only; omega, hnew⟩

theorem covered_iff :
    (∀ i, w.TextAt i → Covered w.chunks i) ↔ ∀ s, w.Reached s → ¬ w.JumpsOverText s := by
  constructor
  · intro h s hs hjump
    obtain ⟨i, ht, hnot⟩ := hjump.not_covered hs
    exact hnot (h i ht)
  · intro h i ht
    have hcover := reached_covering h w.reached_end
    rcases stopped_of_step_none w.step_chunks with hbroke | hlen
    · exact hcover.atEnd hbroke i ht
    · exact hcover.before i ht (Nat.lt_of_lt_of_le ht.lt hlen)

end Slicing

/-- Every character of the section that is not white space is in a chunk. -/
def Section.Kept (config : ChunkerConfig) (content : ParsedContent) (sec : Section) : Prop :=
  ∀ (i : Nat) (c : Char), sec.body[i]? = some c → isSpace c = false →
    ∃ k ∈ chunkText config content sec, k.start ≤ i ∧ i < k.stop

theorem Section.kept_iff (config : ChunkerConfig) (content : ParsedContent) (sec : Section) :
    sec.Kept config content ↔ sec.Short config ∨
      ∀ s, (sectionSlicing config content sec).Reached s →
        ¬ (sectionSlicing config content sec).JumpsOverText s := by
  rw [← Slicing.covered_iff]
  unfold Section.Kept chunkText
  by_cases hblank : blank sec.body = true
  · have hnone : ∀ (i : Nat) (c : Char), sec.body[i]? = some c → isSpace c = false → False := by
      intro i c hc hspace
      rw [List.all_eq_true.mp hblank c (List.mem_of_getElem? hc)] at hspace
      cases hspace
    constructor
    · exact fun _ => Or.inr fun i ⟨c, hc, hspace⟩ => (hnone i c hc hspace).elim
    · exact fun _ i c hc hspace => (hnone i c hc hspace).elim
  · by_cases hshort : sec.Short config
    · simp only [hblank, hshort, if_true, true_or, iff_true]
      intro i c hc _
      exact ⟨_, List.mem_singleton.mpr rfl, Nat.zero_le i, (List.getElem?_eq_some_iff.mp hc).1⟩
    · simp only [hblank, hshort, if_false, false_or]
      constructor
      · exact fun h i ⟨c, hc, hspace⟩ => h i c hc hspace
      · exact fun h i c hc hspace => h i ⟨c, hc, hspace⟩

def LosesNoText (config : ChunkerConfig) (content : ParsedContent) : Prop :=
  ∀ sec ∈ splitByHeading content, sec.Kept config content

/-- No text is lost exactly when no pass jumps over text. -/
theorem losesNoText_iff (config : ChunkerConfig) (content : ParsedContent) :
    LosesNoText config content ↔ ∀ sec ∈ splitByHeading content, sec.Short config ∨
      ∀ s, (sectionSlicing config content sec).Reached s →
        ¬ (sectionSlicing config content sec).JumpsOverText s :=
  forall₂_congr fun sec _ => sec.kept_iff config content

theorem losesNoText_of_laidApart (config : ChunkerConfig) (content : ParsedContent)
    (h : ∀ sec ∈ splitByHeading content, ¬ sec.Short config →
      (sectionSlicing config content sec).LaidApart) : LosesNoText config content := by
  intro sec hsec
  refine (sec.kept_iff config content).mpr ?_
  by_cases hshort : sec.Short config
  · exact Or.inl hshort
  · exact Or.inr fun s hs =>
      (h sec hsec hshort).not_jumpsOverText (sectionSlicing_proper config content sec) hs

def smallChunks : ChunkerConfig := { maxTokens := 64, overlapTokens := 0 }

/-- A fenced block that fills the first chunk exactly, and a line behind it. -/
def exactFit : ParsedContent where
  title := "untitled".toList
  body := "```\n".toList ++ List.replicate 247 'x' ++ "\n```\ntail".toList
  mediaType := "text/markdown"
  codeBlocks := [(1, 3)]

/-- Of the block only the first character is kept. -/
theorem not_losesNoText : ¬ ∀ config content, LosesNoText config content := by
  intro h
  have hkept := h smallChunks exactFit ⟨[], exactFit.body, 1, 0⟩ List.mem_cons_self
  rw [Section.kept_iff] at hkept
  rcases hkept with hshort | hsafe
  · exact absurd hshort (by decide +kernel)
  · refine hsafe {} .refl ⟨⟨rfl, by decide +kernel, by decide +kernel⟩, by decide +kernel, (0, 256), by decide +kernel, 1, ?_⟩
    exact ⟨⟨Char.ofNat 0x60, by decide +kernel, by decide +kernel⟩, by decide +kernel, by decide +kernel, by decide +kernel⟩

end GroundGraph.Ingestion
