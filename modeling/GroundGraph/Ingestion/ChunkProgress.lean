import GroundGraph.Ingestion.ChunkBoundaries
import Mathlib.Data.List.Chain

/-! How the chunks of a section follow each other: what two of them share, and when one ends
no later than the one before. The next start goes back by the overlap, and the end may be
drawn back to the beginning of a protected range that the chunk before ran past.
-/

set_option autoImplicit false

namespace GroundGraph.Ingestion

open PyText

def Piece.shared (a b : Piece) : Nat := min a.stop b.stop - max a.start b.start

/-- The ends increase, so no chunk lies in an earlier one, and two chunks in a row share no more
than the overlap. -/
structure Progress (overlapChars : Nat) (pieces : List Piece) : Prop where
  increasing : (pieces.map Piece.stop).Pairwise (· < ·)
  overlap : pieces.IsChain fun a b => a.shared b ≤ overlapChars

namespace Slicing

variable {w : Slicing}

/-- The chunk begins before the end of the last one, and the range that decides about its end
leads back: the chunk is stopped at a range that begins before that end, or goes to the end of
one that ends there or before, or is left one character by one that ends at the target. -/
def FallsBack (w : Slicing) (s : SliceState) : Prop :=
  ∃ e, s.prevEnd = some e ∧ s.start < e ∧
    match w.rule s with
    | .before p => p.1 < e
    | .past p => p.2 ≤ e
    | .fits _ => True
    | .atTarget => False

/-- The last chunk was cut off by a state that the loop has left behind. -/
structure Follows (w : Slicing) (s : SliceState) : Prop where
  prevEnd : s.prevEnd = s.chunks.getLast?.map Piece.stop
  cut : ∀ k, s.chunks.getLast? = some k → ∃ t, w.Reached t ∧ w.Emits t ∧ k = w.chunk t ∧
    (s.broke = false → t.start < s.start ∧ k.stop < w.text.length ∧
      k.stop ≤ s.start + w.overlapChars)

theorem chunkEnd_le_overlapStart (w : Slicing) (s : SliceState) :
    w.chunkEnd s ≤ w.overlapStart s + w.overlapChars := by
  unfold overlapStart
  simp only
  split <;> omega

theorem Follows.emit {s s' : SliceState} (hs : w.Reached s) (he : w.Emits s)
    (hchunks : s'.chunks = s.chunks ++ [w.chunk s]) (hprev : s'.prevEnd = some (w.chunkEnd s))
    (hstart : s'.broke = false → s.start < s'.start ∧ w.chunkEnd s < w.text.length ∧
      w.chunkEnd s ≤ s'.start + w.overlapChars) : w.Follows s' where
  prevEnd := by
    rw [hchunks, List.getLast?_concat, hprev]
    rfl
  cut k hk := by
    rw [hchunks, List.getLast?_concat] at hk
    obtain rfl := Option.some.inj hk
    exact ⟨s, hs, he, rfl, hstart⟩

theorem reached_follows {s : SliceState} (hs : w.Reached s) : w.Follows s := by
  induction hs with
  | refl => exact ⟨rfl, fun _ h => by cases h⟩
  | @tail s s' hs hstep ih =>
    have hover := w.lt_overlapStart s
    have hle := w.chunkEnd_le_overlapStart s
    obtain ⟨hbroke, hstart, ⟨_, rfl⟩ | ⟨he, _, rfl⟩ | ⟨he, hend, p, hjump, rfl⟩ |
      ⟨he, hend, _, rfl⟩⟩ := step_cases hstep
    · refine ⟨ih.prevEnd, fun k hk => ?_⟩
      obtain ⟨t, ht, hemits, rfl, hafter⟩ := ih.cut k hk
      obtain ⟨hlt, hlen, hshare⟩ := hafter hbroke
      exact ⟨t, ht, hemits, rfl, fun _ => ⟨by simp only; omega, hlen, by simp only; omega⟩⟩
    · exact .emit hs he rfl rfl fun h => by cases h
    · have hin := (jump_some hjump).2
      exact .emit hs he rfl rfl fun _ => ⟨by simp only; omega, hend, by simp only; omega⟩
    · exact .emit hs he rfl rfl fun _ => ⟨by simp only; omega, hend, by simp only; omega⟩

theorem lt_target_of_atTarget (hw : w.Proper) {s t : SliceState} (ht : w.Emits t)
    (hlt : t.start < s.start) (hlen : w.chunkEnd t < w.text.length)
    (hover : s.start < w.chunkEnd t) (hrule : w.rule s = .atTarget) :
    w.chunkEnd t < w.target s := by
  have hmono : w.target t ≤ w.target s := by
    unfold target
    omega
  rw [chunkEnd_eq_position hw ht.2.1] at hlen hover ⊢
  cases hrule' : w.rule t with
  | before p =>
    exact Nat.lt_of_lt_of_le (endRule_before hrule').2.1 hmono
  | past p =>
    obtain ⟨hp, hfirst⟩ := endRule_past (lt_target hw ht.2.1) hrule'
    have hout := endRule_atTarget hrule p hp
    simp only [EndRule.position]
    by_contra hle
    exact hout ⟨Nat.lt_of_lt_of_le hfirst hmono, Nat.not_lt.mp hle⟩
  | fits p =>
    rw [hrule'] at hover
    simp only [EndRule.position] at hover
    omega
  | atTarget =>
    rw [hrule'] at hlen
    simp only [EndRule.position, target] at hlen ⊢
    omega

theorem lt_chunkEnd_iff (hw : w.Proper) {s : SliceState} (hs : w.Reached s) (he : w.Emits s)
    {k : Piece} (hk : s.chunks.getLast? = some k) :
    k.stop < w.chunkEnd s ↔ ¬ w.FallsBack s := by
  have hfollows := reached_follows hs
  have hprev : s.prevEnd = some k.stop := by rw [hfollows.prevEnd, hk, Option.map_some]
  obtain ⟨t, _, ht, rfl, hafter⟩ := hfollows.cut k hk
  obtain ⟨hlt, hlen, _⟩ := hafter he.1
  by_cases hover : s.start < (w.chunk t).stop
  · have hfalls : w.FallsBack s ↔ match w.rule s with
        | .before p => p.1 < (w.chunk t).stop
        | .past p => p.2 ≤ (w.chunk t).stop
        | .fits _ => True
        | .atTarget => False := by
      simp [FallsBack, hprev, hover]
    rw [hfalls, chunkEnd_eq_position hw he.2.1]
    cases hrule : w.rule s with
    | before p =>
      have hne := (endRule_before hrule).2.2
      rw [hprev] at hne
      have hne : (w.chunk t).stop ≠ p.1 := fun heq => hne (congrArg some heq)
      simp only [EndRule.position]
      omega
    | past p => simp [EndRule.position]
    | fits p =>
      refine iff_of_false ?_ (not_not_intro trivial)
      simp only [EndRule.position]
      omega
    | atTarget =>
      exact iff_of_true (lt_target_of_atTarget hw ht hlt hlen hover hrule) not_false
  · have hend := w.lt_chunkEnd he.2.1
    refine iff_of_true (by omega) ?_
    rintro ⟨e, he', hstart, _⟩
    rw [hprev] at he'
    obtain rfl := Option.some.inj he'
    exact hover hstart

theorem isChain_chunks_iff {R : Piece → Piece → Prop} :
    w.chunks.IsChain R ↔
      ∀ s, w.Reached s → w.Emits s → ∀ k, s.chunks.getLast? = some k → R k (w.chunk s) := by
  constructor
  · intro h s hs he k hk
    obtain ⟨s', hstep, hchunks⟩ := he.step_isSome
    have hprefix := Reached.chunks_prefix (.tail hs hstep)
    rw [hchunks] at hprefix
    obtain ⟨later, hlater⟩ := hprefix
    rw [← hlater] at h
    have hchain := (List.isChain_append.mp h.left_of_append).2.2
    exact hchain k hk _ rfl
  · intro h
    have hreached : ∀ s, w.Reached s → s.chunks.IsChain R := by
      intro s hs
      induction hs with
      | refl => exact .nil
      | @tail s s' hs hstep ih =>
        have hemit : w.Emits s → (s.chunks ++ [w.chunk s]).IsChain R := by
          intro he
          refine List.isChain_append.mpr ⟨ih, .singleton _, fun k hk k' hk' => ?_⟩
          obtain rfl := Option.some.inj hk'
          exact h s hs he k hk
        obtain ⟨_, _, ⟨_, rfl⟩ | ⟨he, _, rfl⟩ | ⟨he, _, p, _, rfl⟩ | ⟨he, _, _, rfl⟩⟩ :=
          step_cases hstep
        · exact ih
        · exact hemit he
        · exact hemit he
        · exact hemit he
    exact hreached _ w.reached_end

theorem shared_le {s : SliceState} (hs : w.Reached s) (he : w.Emits s) {k : Piece}
    (hk : s.chunks.getLast? = some k) : k.shared (w.chunk s) ≤ w.overlapChars := by
  obtain ⟨t, _, _, rfl, hafter⟩ := (reached_follows hs).cut k hk
  obtain ⟨_, _, hle⟩ := hafter he.1
  have hstart : (w.chunk s).start = s.start := rfl
  unfold Piece.shared
  omega

theorem progress_iff (hw : w.Proper) :
    Progress w.overlapChars w.chunks ↔ ∀ s, w.Reached s → w.Emits s → ¬ w.FallsBack s := by
  have hends : (w.chunks.map Piece.stop).Pairwise (· < ·) ↔
      ∀ s, w.Reached s → w.Emits s → ¬ w.FallsBack s := by
    rw [← List.isChain_iff_pairwise, List.isChain_map, isChain_chunks_iff]
    refine forall₃_congr fun s hs he => ?_
    constructor
    · intro h hfalls
      have hbefore := hfalls
      obtain ⟨e, hprev, _⟩ := hbefore
      rw [(reached_follows hs).prevEnd, Option.map_eq_some_iff] at hprev
      obtain ⟨k, hk, _⟩ := hprev
      exact (lt_chunkEnd_iff hw hs he hk).mp (h k hk) hfalls
    · exact fun h k hk => (lt_chunkEnd_iff hw hs he hk).mpr h
  rw [← hends]
  exact ⟨Progress.increasing, fun h => ⟨h, isChain_chunks_iff.mpr fun s hs he k => shared_le hs he⟩⟩

theorem not_fallsBack_of_no_overlap (hzero : w.overlapChars = 0) {s : SliceState}
    (hs : w.Reached s) (he : w.Emits s) : ¬ w.FallsBack s := by
  rintro ⟨e, hprev, hlt, _⟩
  have hfollows := reached_follows hs
  rw [hfollows.prevEnd, Option.map_eq_some_iff] at hprev
  obtain ⟨k, hk, rfl⟩ := hprev
  obtain ⟨t, _, _, _, hafter⟩ := hfollows.cut k hk
  have hle := (hafter he.1).2.2
  omega

theorem not_fallsBack_of_no_ranges (hnil : w.protectedRanges = []) (s : SliceState) :
    ¬ w.FallsBack s := by
  rintro ⟨e, _, _, hrule⟩
  rw [rule, hnil] at hrule
  exact hrule

end Slicing

/-- The chunks of a section get on, and overlap as configured, unless a pass of the loop falls
back behind the end of the last chunk. -/
theorem chunkText_progress_iff (config : ChunkerConfig) (content : ParsedContent)
    (sec : Section) :
    Progress config.overlapChars (chunkText config content sec) ↔
      blank sec.body = true ∨ sec.Short config ∨
        ∀ s, (sectionSlicing config content sec).Reached s →
          (sectionSlicing config content sec).Emits s →
            ¬ (sectionSlicing config content sec).FallsBack s := by
  rw [← Slicing.progress_iff (sectionSlicing_proper config content sec)]
  unfold chunkText
  by_cases hblank : blank sec.body = true
  · simp only [hblank, if_true, true_or, iff_true]
    exact ⟨List.Pairwise.nil, .nil⟩
  · by_cases hshort : sec.Short config
    · simp only [hblank, hshort, Bool.false_eq_true, if_true, if_false, true_or, or_true, iff_true]
      exact ⟨List.pairwise_singleton _ _, .singleton _⟩
    · simp only [hblank, hshort, Bool.false_eq_true, if_false, false_or]
      exact Iff.rfl

def itemEarly : ParsedContent where
  title := "untitled".toList
  body := "intro\n- item\n".toList ++ List.replicate 247 'x'
  mediaType := "text/markdown"
  listItems := [(2, 2)]

/-- The chunks end at 6, at 13 and then at 6 again. -/
theorem not_chunkText_progress : ¬ ∀ (config : ChunkerConfig) (content : ParsedContent)
    (sec : Section), Progress config.overlapChars (chunkText config content sec) := by
  intro h
  have hprogress := (h { maxTokens := 64, overlapTokens := 64 } itemEarly
    ⟨[], itemEarly.body, 1, 0⟩).increasing
  have hstops : ((chunkText { maxTokens := 64, overlapTokens := 64 } itemEarly
      ⟨[], itemEarly.body, 1, 0⟩).map Piece.stop).take 3 = [6, 13, 6] := by decide +kernel
  have hfirst := hprogress.sublist (List.take_sublist 3 _)
  rw [hstops] at hfirst
  exact absurd hfirst (by decide)

end GroundGraph.Ingestion
