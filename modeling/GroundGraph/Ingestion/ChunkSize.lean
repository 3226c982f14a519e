import GroundGraph.Ingestion.ChunkProgress
import GroundGraph.Ingestion.LineMap

/-! How long the chunker runs on a section, and how long a chunk may be: as long as the budget,
or up to the end of the protected range that reaches across it.
-/

set_option autoImplicit false

namespace GroundGraph.Ingestion

open PyText

/-- A slice of a text is not empty, and no longer than `chars` unless it ends with a protected
range that begins within them. It is then too long by no more than this range. -/
structure Piece.InBudget (ranges : List (Nat × Nat)) (length chars : Nat) (k : Piece) : Prop where
  start_lt : k.start < k.stop
  stop_le : k.stop ≤ length
  size : k.stop - k.start ≤ chars ∨ ∃ p ∈ ranges, k.stop = p.2 ∧ p.1 < k.start + chars ∧
    k.stop - k.start ≤ chars + (p.2 - p.1)

namespace Slicing

variable {w : Slicing}

theorem passes_add_rank {n : Nat} {s : SliceState} (h : Iteration.Passes w.step {} n s) :
    n + w.rank s ≤ w.text.length := by
  refine h.preserves (fun n s => n + w.rank s ≤ w.text.length) ?_ (by simp [rank])
  intro n s s' hn hstep
  have hlt := rank_step hstep
  omega

theorem passes_le {n : Nat} {s : SliceState} (h : Iteration.Passes w.step {} n s) :
    n ≤ w.text.length := by
  have hsum := passes_add_rank h
  omega

theorem chunkEnd_cases (hw : w.Proper) {s : SliceState} (h : s.start < w.text.length) :
    w.chunkEnd s ≤ w.target s ∨
      ∃ p ∈ w.protectedRanges, w.chunkEnd s = p.2 ∧ p.1 < w.target s := by
  have htarget := lt_target hw h
  rw [chunkEnd_eq_position hw h]
  cases hrule : w.rule s with
  | before p => exact Or.inl (Nat.le_of_lt (endRule_before hrule).2.1)
  | past p =>
    obtain ⟨hp, hfirst⟩ := endRule_past htarget hrule
    exact Or.inr ⟨p, hp, rfl, hfirst⟩
  | fits p => exact Or.inl htarget
  | atTarget => exact Or.inl (Nat.le_refl _)

theorem chunk_inBudget (hw : w.Proper) (hranges : ∀ p ∈ w.protectedRanges, p.2 ≤ w.text.length)
    {s : SliceState} (h : s.start < w.text.length) :
    (w.chunk s).InBudget w.protectedRanges w.text.length w.estimatedChars := by
  have hlt := w.lt_chunkEnd h
  have htarget : w.target s ≤ s.start + w.estimatedChars := Nat.min_le_left _ _
  have hlength : w.target s ≤ w.text.length := Nat.min_le_right _ _
  rcases chunkEnd_cases hw h with hend | ⟨p, hp, hend, hfirst⟩
  · have hsize : w.chunkEnd s - s.start ≤ w.estimatedChars := by omega
    exact ⟨hlt, hend.trans hlength, Or.inl hsize⟩
  · have hbegins : p.1 < s.start + w.estimatedChars := Nat.lt_of_lt_of_le hfirst htarget
    have hover : w.chunkEnd s - s.start ≤ w.estimatedChars + (p.2 - p.1) := by omega
    have hle : w.chunkEnd s ≤ w.text.length := hend.trans_le (hranges p hp)
    exact ⟨hlt, hle, Or.inr ⟨p, hp, hend, hbegins, hover⟩⟩

theorem chunks_inBudget (hw : w.Proper)
    (hranges : ∀ p ∈ w.protectedRanges, p.2 ≤ w.text.length) :
    ∀ k ∈ w.chunks, k.content = strip (w.slice k.start k.stop) ∧
      k.InBudget w.protectedRanges w.text.length w.estimatedChars := by
  intro k hk
  obtain ⟨s, _, he, rfl⟩ := mem_chunks_iff.mp hk
  exact ⟨rfl, chunk_inBudget hw hranges he.2.1⟩

end Slicing

section

variable {config : ChunkerConfig} {content : ParsedContent} {sec : Section}

theorem chunkText_of_short (hshort : sec.Short config) :
    ∀ k ∈ chunkText config content sec, k.content = strip sec.body ∧ k.start = 0 ∧
      k.stop = sec.body.length ∧ 0 < sec.body.length ∧
        sec.body.length ≤ 4 * config.maxTokens + 3 := by
  intro k hk
  unfold chunkText at hk
  split at hk
  · cases hk
  · rename_i hblank
    obtain rfl := List.mem_singleton.mp hk
    have hsome : 0 < sec.body.length := by
      rw [List.length_pos_iff]
      intro hnil
      rw [hnil] at hblank
      exact hblank rfl
    have hle : sec.body.length ≤ 4 * config.maxTokens + 3 := by
      unfold Section.Short estimateTokens at hshort
      omega
    exact ⟨rfl, rfl, rfl, hsome, hle⟩

theorem chunkText_of_not_short (hlong : ¬ sec.Short config) :
    ∀ k ∈ chunkText config content sec,
      k.content = strip ((sec.body.drop k.start).take (k.stop - k.start)) ∧
        k.InBudget (buildProtectedRangesChar sec.body content sec.startLine) sec.body.length
          (4 * config.maxTokens) := by
  intro k hk
  unfold chunkText at hk
  split at hk
  · cases hk
  · exact Slicing.chunks_inBudget (sectionSlicing_proper config content sec)
      buildProtectedRangesChar_le k hk

end

/-- The loop ends within as many passes as the section has characters. A section that is cut up
gives slices within the budget of `4 * max_tokens` characters, or up to the end of a protected
range; one that fits by its estimated tokens is a single slice, of three characters more at most. -/
theorem chunkText_size (config : ChunkerConfig) (content : ParsedContent) (sec : Section) :
    (∀ n s, Iteration.Passes (sectionSlicing config content sec).step {} n s →
      n ≤ sec.body.length) ∧
    (sectionSlicing config content sec).step
      (Iteration.run (sectionSlicing config content sec).step sec.body.length {}) = none ∧
    (sec.Short config → ∀ k ∈ chunkText config content sec,
      k.content = strip sec.body ∧ k.start = 0 ∧ k.stop = sec.body.length ∧
        0 < sec.body.length ∧ sec.body.length ≤ 4 * config.maxTokens + 3) ∧
    (¬ sec.Short config → ∀ k ∈ chunkText config content sec,
      k.content = strip ((sec.body.drop k.start).take (k.stop - k.start)) ∧
        k.InBudget (buildProtectedRangesChar sec.body content sec.startLine) sec.body.length
          (4 * config.maxTokens)) :=
  ⟨fun _ _ => Slicing.passes_le, (sectionSlicing config content sec).step_chunks,
    chunkText_of_short, chunkText_of_not_short⟩

def longLine (n : Nat) : ParsedContent where
  title := "untitled".toList
  body := List.replicate n 'x'
  mediaType := "text/markdown"

/-- One chunk for 257 characters, and slices within the budget for 600. -/
theorem chunkText_size_longLine :
    (∀ k ∈ chunkText { maxTokens := 64, overlapTokens := 0 } (longLine 257)
        ⟨[], (longLine 257).body, 1, 0⟩,
      k.content = strip (longLine 257).body ∧ k.start = 0 ∧ k.stop = (longLine 257).body.length ∧
        0 < (longLine 257).body.length ∧ (longLine 257).body.length ≤ 4 * 64 + 3) ∧
    (∀ k ∈ chunkText { maxTokens := 64, overlapTokens := 0 } (longLine 600)
        ⟨[], (longLine 600).body, 1, 0⟩,
      k.content = strip (((longLine 600).body.drop k.start).take (k.stop - k.start)) ∧
        k.InBudget (buildProtectedRangesChar (longLine 600).body (longLine 600) 1)
          (longLine 600).body.length (4 * 64)) :=
  ⟨(chunkText_size { maxTokens := 64, overlapTokens := 0 } (longLine 257)
      ⟨[], (longLine 257).body, 1, 0⟩).2.2.1 (by decide +kernel),
    (chunkText_size { maxTokens := 64, overlapTokens := 0 } (longLine 600)
      ⟨[], (longLine 600).body, 1, 0⟩).2.2.2 (by decide +kernel)⟩

/-- The 257 characters are 64 tokens by the estimate. -/
theorem not_chunkText_inBudget : ¬ ∀ (config : ChunkerConfig) (content : ParsedContent)
    (sec : Section), ∀ k ∈ chunkText config content sec,
      k.InBudget (buildProtectedRangesChar sec.body content sec.startLine) sec.body.length
        (4 * config.maxTokens) := by
  intro h
  have hchunk : ⟨strip (longLine 257).body, 1, 1 + (longLine 257).body.count '\n', 0,
      (longLine 257).body.length⟩ ∈ chunkText { maxTokens := 64, overlapTokens := 0 }
        (longLine 257) ⟨[], (longLine 257).body, 1, 0⟩ := by
    rw [chunkText, if_neg (by decide +kernel), if_pos (by decide +kernel)]
    exact List.mem_singleton_self _
  rcases (h _ _ _ _ hchunk).size with hsize | ⟨p, hp, _⟩
  · exact absurd hsize (by decide +kernel)
  · cases hp

end GroundGraph.Ingestion
