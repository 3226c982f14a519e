import GroundGraph.Ingestion.ChunkSize
import GroundGraph.Ingestion.ProtectedRanges

/-! Cuts inside a code block, a table or a list item. The loop over a section knows the items by
its protected ranges; where these are the items, a cut falls inside one when ranges are nested, when
a range ends exactly at the target of a chunk or when white space is skipped into one, and not
otherwise.
-/

set_option autoImplicit false

namespace GroundGraph.Ingestion

open PyText

def Inside (x : Nat × Nat) (b : Nat) : Prop := x.1 < b ∧ b < x.2

instance (x : Nat × Nat) (b : Nat) : Decidable (Inside x b) := inferInstanceAs (Decidable (_ ∧ _))

namespace Slicing

variable {w : Slicing}

/-- Where a range ends; a newline at its end is not counted. -/
def rangeEnd (w : Slicing) (p : Nat × Nat) : Nat :=
  if w.text[p.2 - 1]? = some '\n' then p.2 - 1 else p.2

/-- No range that begins from `a` on and before `b` goes on behind `b`. -/
def ClosedBetween (w : Slicing) (a b : Nat) : Prop :=
  ∀ q ∈ w.protectedRanges, a ≤ q.1 → q.1 < b → w.rangeEnd q ≤ b

/-- The branch that sets the end of the chunk is no mistake. -/
def EndsWell (w : Slicing) (s : SliceState) : Prop :=
  match w.rule s with
  -- The range that the chunk stops before is nested in none that the chunk begins in.
  | .before p => ∀ q ∈ w.protectedRanges, q.1 ≤ s.start → w.rangeEnd q ≤ p.1
  -- No range that begins in the one that the chunk goes through is longer.
  | .past p => w.ClosedBetween p.1 p.2
  -- Of a range that ends at the target there is one character left, which is cut off.
  | .fits p => w.rangeEnd p ≤ s.start + 1
  | .atTarget => True

/-- The white space in front of the chunk is skipped from here on. -/
structure SkipsFrom (w : Slicing) (t s : SliceState) : Prop where
  reached : w.Reached t
  arrived : t.arrival ≠ .skipped
  same : t.chunks = s.chunks
  lt : t.start < s.start

/-- Where the range begins that the start jumped over, if it did. -/
def arrivedFrom (t : SliceState) : Nat :=
  match t.arrival with
  | .jumped p => p.1
  | _ => t.start

/-- The branch that set its start was none. -/
def StartsWell (w : Slicing) (s : SliceState) : Prop :=
  match s.arrival with
  | .first | .overlapping => True
  | .jumped p => w.ClosedBetween p.1 p.2
  -- No range that begins in the white space, or in the range jumped over before it, goes on.
  | .skipped => ∀ t, w.SkipsFrom t s → w.ClosedBetween (arrivedFrom t) s.start

def EndsSection (w : Slicing) (s : SliceState) : Prop :=
  match w.rule s with
  | .before _ => False
  | .past p => p.2 = w.text.length
  | .fits _ => s.start + 1 = w.text.length
  | .atTarget => w.text.length ≤ s.start + w.estimatedChars

structure Ranged (w : Slicing) : Prop extends w.Proper where
  sorted : w.protectedRanges.Pairwise fun p q => p.1 ≤ q.1
  le : ∀ p ∈ w.protectedRanges, p.2 ≤ w.text.length
  two : 2 < w.estimatedChars

theorem rangeEnd_le (w : Slicing) (p : Nat × Nat) : w.rangeEnd p ≤ p.2 := by
  unfold rangeEnd
  split <;> omega

theorem le_rangeEnd (w : Slicing) (p : Nat × Nat) : p.2 ≤ w.rangeEnd p + 1 := by
  unfold rangeEnd
  split <;> omega

theorem rangeEnd_congr {p q : Nat × Nat} (h : p.2 = q.2) : w.rangeEnd p = w.rangeEnd q := by
  rw [rangeEnd, rangeEnd, h]

def Outside (w : Slicing) (b : Nat) : Prop :=
  ∀ q ∈ w.protectedRanges, ¬ (q.1 < b ∧ b < w.rangeEnd q)

theorem outside_of_ranges {b : Nat} (h : ∀ q ∈ w.protectedRanges, ¬ (q.1 < b ∧ b < q.2)) :
    w.Outside b :=
  fun q hq hin => h q hq ⟨hin.1, Nat.lt_of_lt_of_le hin.2 (w.rangeEnd_le q)⟩

theorem outside_iff {b : Nat} :
    w.Outside b ↔ ∀ q ∈ w.protectedRanges, q.1 < b → w.rangeEnd q ≤ b := by
  refine forall₂_congr fun q _ => ?_
  rw [not_and, Nat.not_lt]

theorem outside_length (hw : w.Ranged) : w.Outside w.text.length :=
  outside_of_ranges fun q hq hin => Nat.not_lt.mpr (hw.le q hq) hin.2

/-- The first range that is stopped before: one that begins earlier has the start of the chunk. -/
theorem endRule_before_earlier {target chunkStart : Nat} {prevEnd : Option Nat}
    {ranges : List (Nat × Nat)} (hsorted : ranges.Pairwise fun p q => p.1 ≤ q.1) {p : Nat × Nat}
    (h : endRule target chunkStart prevEnd ranges = .before p) :
    chunkStart < p.1 ∧ p.1 < target ∧ ∀ q ∈ ranges, q.1 < p.1 → q.1 ≤ chunkStart := by
  induction ranges with
  | nil => cases h
  | cons r rest ih =>
    obtain ⟨hfirst, hrest⟩ := List.pairwise_cons.mp hsorted
    simp only [endRule] at h
    split at h
    · rename_i hin
      split at h
      · cases h
      · obtain rfl := EndRule.before.inj h
        refine ⟨hin.1, hin.2, fun q hq hlt => ?_⟩
        rcases List.mem_cons.mp hq with rfl | hq
        · exact absurd hlt (Nat.lt_irrefl _)
        · exact absurd (hfirst q hq) (Nat.not_le.mpr hlt)
    · rename_i hout
      split at h
      · cases h
      · split at h
        · cases h
        · obtain ⟨hstart, htarget, hearlier⟩ := ih hrest h
          refine ⟨hstart, htarget, fun q hq hlt => ?_⟩
          rcases List.mem_cons.mp hq with rfl | hq
          · omega
          · exact hearlier q hq hlt

theorem Outside.closedBetween {b : Nat} (h : w.Outside b) (a : Nat) : w.ClosedBetween a b :=
  fun q hq _ hlt => outside_iff.mp h q hq hlt

/-- It is enough to look at the ranges that begin from `a` on if all others have ended. -/
theorem ClosedBetween.outside {a b : Nat} (h : w.ClosedBetween a b)
    (hearlier : ∀ q ∈ w.protectedRanges, q.1 < a → q.2 ≤ b) : w.Outside b := by
  rw [outside_iff]
  intro q hq hlt
  rcases Nat.lt_or_ge q.1 a with hbefore | hfrom
  · exact (w.rangeEnd_le q).trans (hearlier q hq hbefore)
  · exact h q hq hfrom hlt

/-- The first range that is gone through: the last chunk ended where it begins, or the chunk begins
in it, and no range that began earlier is longer. -/
theorem endRule_past_earlier {target chunkStart : Nat} {prevEnd : Option Nat}
    {ranges : List (Nat × Nat)} (hsorted : ranges.Pairwise fun p q => p.1 ≤ q.1) {p : Nat × Nat}
    (h : endRule target chunkStart prevEnd ranges = .past p) :
    prevEnd = some p.1 ∨ p.1 ≤ chunkStart ∧ chunkStart ≤ p.2 ∧ target < p.2 ∧
      ∀ q ∈ ranges, q.1 < p.1 → q.2 ≤ p.2 := by
  induction ranges with
  | nil => cases h
  | cons r rest ih =>
    obtain ⟨hfirst, hrest⟩ := List.pairwise_cons.mp hsorted
    simp only [endRule] at h
    split at h
    · split at h
      · rename_i hprev
        obtain rfl := EndRule.past.inj h
        exact Or.inl hprev
      · cases h
    · rename_i hout
      split at h
      · rename_i hin
        obtain rfl := EndRule.past.inj h
        refine Or.inr ⟨hin.1, hin.2.1, hin.2.2, fun q hq hlt => ?_⟩
        rcases List.mem_cons.mp hq with rfl | hq
        · exact Nat.le_refl _
        · exact absurd hlt (Nat.not_lt.mpr (hfirst q hq))
      · rename_i hpast
        split at h
        · cases h
        · rcases ih hrest h with hprev | ⟨hbegun, hgoes, htarget, hearlier⟩
          · exact Or.inl hprev
          · refine Or.inr ⟨hbegun, hgoes, htarget, fun q hq hlt => ?_⟩
            rcases List.mem_cons.mp hq with rfl | hq
            · -- A longer one would have been gone through itself.
              by_contra hlonger
              exact hpast ⟨by omega, by omega, by omega⟩
            · exact hearlier q hq hlt

theorem endsWell_of_outside (hw : w.Ranged) {s : SliceState} (h : s.start < w.text.length)
    (hout : w.Outside (w.chunkEnd s)) : w.EndsWell s := by
  rw [chunkEnd_eq_position hw.toProper h] at hout
  unfold EndsWell
  cases hrule : w.rule s with
  | before p =>
    obtain ⟨hstart, _, _⟩ := endRule_before_earlier hw.sorted hrule
    simp only [hrule, EndRule.position, outside_iff] at hout
    exact fun q hq hbegun => hout q hq (by omega)
  | past p =>
    simp only [hrule, EndRule.position] at hout
    exact hout.closedBetween p.1
  | fits p =>
    obtain ⟨hp, hbegun, _⟩ := endRule_fits (lt_target hw.toProper h) hrule
    simp only [hrule, EndRule.position, outside_iff] at hout
    exact hout p hp (by omega)
  | atTarget => trivial

/-- Where the last chunk did not end in a range, this one does not. -/
theorem EndsWell.outside (hw : w.Ranged) {s : SliceState} (h : s.start < w.text.length)
    (hprev : ∀ e ∈ s.prevEnd, w.Outside e) (hends : w.EndsWell s) : w.Outside (w.chunkEnd s) := by
  rw [chunkEnd_eq_position hw.toProper h]
  unfold EndsWell at hends
  cases hrule : w.rule s with
  | before p =>
    obtain ⟨_, _, hearlier⟩ := endRule_before_earlier hw.sorted hrule
    simp only [hrule] at hends
    simp only [EndRule.position, outside_iff]
    exact fun q hq hlt => hends q hq (hearlier q hq hlt)
  | past p =>
    simp only [hrule] at hends
    rcases endRule_past_earlier hw.sorted hrule with hlast | ⟨_, _, _, hearlier⟩
    · have hbegin := outside_iff.mp (hprev p.1 hlast)
      rw [EndRule.position, outside_iff]
      intro q hq hlt
      rcases Nat.lt_or_ge q.1 p.1 with hbefore | hfrom
      · have hproper := hw.ranges p (endRule_past (lt_target hw.toProper h) hrule).1
        exact (hbegin q hq hbefore).trans hproper.le
      · exact hends q hq hfrom hlt
    · exact hends.outside hearlier
  | fits p =>
    obtain ⟨_, hbegun, hstop⟩ := endRule_fits (lt_target hw.toProper h) hrule
    simp only [hrule] at hends
    simp only [EndRule.position, outside_iff]
    intro q hq _
    -- What is left of the range is less than a target is away, so the target is the text's end.
    have hrest := w.le_rangeEnd p
    have htwo := hw.two
    have hle := hw.le q hq
    have hqend := w.rangeEnd_le q
    have htarget : w.target s = min (s.start + w.estimatedChars) w.text.length := rfl
    by_cases hsame : q.2 = p.2
    · rw [rangeEnd_congr hsame]
      exact hends
    · omega
  | atTarget =>
    refine outside_of_ranges fun q hq hin => ?_
    exact endRule_atTarget hrule q hq ⟨hin.1, hin.2.le⟩

theorem outside_prevEnd (hw : w.Ranged)
    (hends : ∀ s, w.Reached s → w.Emits s → w.EndsWell s) {s : SliceState} (hs : w.Reached s) :
    ∀ e ∈ s.prevEnd, w.Outside e := by
  induction hs with
  | refl => simp
  | @tail s s' hs hstep ih =>
    have hchunk : ∀ he : w.Emits s, ∀ e ∈ some (w.chunkEnd s), w.Outside e := by
      intro he e heq
      obtain rfl := Option.some.inj heq
      exact (hends s hs he).outside hw he.2.1 ih
    obtain ⟨_, _, ⟨_, rfl⟩ | ⟨he, _, rfl⟩ | ⟨he, _, p, _, rfl⟩ | ⟨he, _, _, rfl⟩⟩ :=
      step_cases hstep
    · exact ih
    · exact hchunk he
    · exact hchunk he
    · exact hchunk he

/-- The range that the start jumped over is the first that it fell into. -/
theorem reached_jumped (hw : w.Ranged) {s : SliceState} (hs : w.Reached s) {p : Nat × Nat}
    (harrival : s.arrival = .jumped p) : ∀ q ∈ w.protectedRanges, q.1 < p.1 → q.2 ≤ p.2 := by
  induction hs with
  | refl => cases harrival
  | @tail s s' hs hstep ih =>
    obtain ⟨_, _, ⟨_, rfl⟩ | ⟨_, _, rfl⟩ | ⟨_, _, r, hjump, rfl⟩ | ⟨_, _, _, rfl⟩⟩ :=
      step_cases hstep
    · cases harrival
    · exact ih harrival
    · obtain rfl := Arrival.jumped.inj harrival
      obtain ⟨hin, front, back, hranges, hfront⟩ := List.find?_eq_some_iff_append.mp hjump
      have hin := of_decide_eq_true hin
      have hsorted := hw.sorted
      rw [hranges, List.pairwise_append] at hsorted
      intro q hq hlt
      rw [hranges, List.mem_append] at hq
      rcases hq with hq | hq
      · have hmissed : w.overlapStart s ≤ q.1 ∨ q.2 ≤ w.overlapStart s := by
          simpa using hfront q hq
        omega
      · rcases List.mem_cons.mp hq with rfl | hq
        · exact Nat.le_refl _
        · have hle := List.rel_of_pairwise_cons hsorted.2.1 hq
          omega
    · cases harrival

theorem exists_skipsFrom {s : SliceState} (hs : w.Reached s) (hbroke : s.broke = false)
    (harrival : s.arrival = .skipped) : ∃ t, w.SkipsFrom t s := by
  induction hs with
  | refl => cases harrival
  | @tail s s' hs hstep ih =>
    obtain ⟨hgoes, _, ⟨_, rfl⟩ | ⟨_, _, rfl⟩ | ⟨_, _, r, _, rfl⟩ | ⟨_, _, _, rfl⟩⟩ :=
      step_cases hstep
    · by_cases hskipped : s.arrival = .skipped
      · obtain ⟨t, ht⟩ := ih hgoes hskipped
        exact ⟨t, ht.reached, ht.arrived, ht.same, Nat.lt_succ_of_lt ht.lt⟩
      · exact ⟨s, hs, hskipped, rfl, Nat.lt_succ_self _⟩
    · cases hbroke
    · cases harrival
    · cases harrival

theorem SkipsFrom.earlier (hw : w.Ranged) {t s : SliceState} (h : w.SkipsFrom t s)
    (hs : s.start < w.text.length) :
    ∀ q ∈ w.protectedRanges, q.1 < arrivedFrom t → q.2 ≤ s.start := by
  have harrived := reached_arrived h.reached
  have hlt := h.lt
  unfold Arrived at harrived
  unfold arrivedFrom
  intro q hq hbefore
  cases harrival : t.arrival with
  | first =>
    simp only [harrival] at harrived hbefore
    omega
  | skipped => exact absurd harrival h.arrived
  | overlapping =>
    simp only [harrival] at harrived hbefore
    have hout := harrived (by omega) q hq
    omega
  | jumped p =>
    simp only [harrival] at harrived hbefore
    have hp := reached_jumped hw h.reached harrival q hq hbefore
    have hstart := harrived (by omega)
    omega

theorem outside_start_iff (hw : w.Ranged) {s : SliceState} (hs : w.Reached s) (he : w.Emits s) :
    w.Outside s.start ↔ w.StartsWell s := by
  obtain ⟨hbroke, hlength, _⟩ := he
  have harrived := reached_arrived hs
  unfold Arrived at harrived
  unfold StartsWell
  cases harrival : s.arrival with
  | first =>
    simp only [harrival] at harrived
    exact iff_of_true (outside_of_ranges fun q _ hin => by omega) trivial
  | skipped =>
    refine ⟨fun hout t _ => hout.closedBetween _, fun hclosed => ?_⟩
    obtain ⟨t, ht⟩ := exists_skipsFrom hs hbroke harrival
    exact (hclosed t ht).outside (ht.earlier hw hlength)
  | overlapping =>
    simp only [harrival] at harrived
    exact iff_of_true (outside_of_ranges (harrived hlength)) trivial
  | jumped p =>
    simp only [harrival] at harrived
    rw [harrived hlength]
    exact ⟨fun hout => hout.closedBetween _,
      fun hclosed => hclosed.outside (reached_jumped hw hs harrival)⟩

theorem chunkEnd_eq_length_iff (hw : w.Ranged) {s : SliceState} (h : s.start < w.text.length) :
    w.chunkEnd s = w.text.length ↔ w.EndsSection s := by
  rw [chunkEnd_eq_position hw.toProper h]
  unfold EndsSection
  cases hrule : w.rule s with
  | before p =>
    obtain ⟨_, htarget, _⟩ := endRule_before_earlier hw.sorted hrule
    refine iff_of_false ?_ id
    simp only [EndRule.position, target] at htarget ⊢
    omega
  | past p => exact Iff.rfl
  | fits p => exact Iff.rfl
  | atTarget =>
    simp only [EndRule.position, target]
    omega

/-! ## The ranges and the items

`off` is the offset of the section and `xs` are the extents of the items. -/

def Fills (w : Slicing) (off : Nat) (x p : Nat × Nat) : Prop :=
  x.1 = off + p.1 ∧ min x.2 (off + w.text.length) = off + w.rangeEnd p

structure RangesInStep (w : Slicing) (off : Nat) (xs : List (Nat × Nat)) : Prop where
  filled : ∀ x ∈ xs, off ≤ x.1 → x.1 < off + w.text.length →
    ∃ p ∈ w.protectedRanges, w.Fills off x p
  ranges : ∀ p ∈ w.protectedRanges, ∃ x ∈ xs, w.Fills off x p

theorem RangesInStep.outside_iff {off b : Nat} {xs : List (Nat × Nat)} (h : w.RangesInStep off xs)
    (hoff : ∀ x ∈ xs, ¬ Inside x off) (hb : b < w.text.length) :
    (∀ x ∈ xs, ¬ Inside x (off + b)) ↔ w.Outside b := by
  constructor
  · rintro hnone q hq ⟨hbegun, hgoes⟩
    obtain ⟨x, hx, hfirst, hlast⟩ := h.ranges q hq
    refine hnone x hx ⟨by omega, ?_⟩
    omega
  · rintro hout x hx ⟨hbegun, hgoes⟩
    have hge : off ≤ x.1 := by
      by_contra hbefore
      exact hoff x hx ⟨by omega, by omega⟩
    obtain ⟨q, hq, hfirst, hlast⟩ := h.filled x hx hge (by omega)
    exact hout q hq ⟨by omega, by omega⟩

theorem RangesInStep.stop_iff (hw : w.Ranged) {off : Nat} {xs : List (Nat × Nat)}
    (h : w.RangesInStep off xs) (hoff : ∀ x ∈ xs, ¬ Inside x off) {s : SliceState}
    (hs : s.start < w.text.length) :
    (∀ x ∈ xs, ¬ Inside x (off + w.chunkEnd s)) ↔
      w.Outside (w.chunkEnd s) ∧
        (w.EndsSection s → ∀ x ∈ xs, ¬ Inside x (off + w.text.length)) := by
  rw [← chunkEnd_eq_length_iff hw hs]
  rcases Nat.lt_or_ge (w.chunkEnd s) w.text.length with hlt | hge
  · rw [h.outside_iff hoff hlt]
    exact ⟨fun hout => ⟨hout, fun heq => by omega⟩, And.left⟩
  · have heq : w.chunkEnd s = w.text.length :=
      Nat.le_antisymm (chunk_inBudget hw.toProper hw.le hs).stop_le hge
    rw [heq]
    exact ⟨fun hnone => ⟨outside_length hw, fun _ => hnone⟩, fun hboth => hboth.2 rfl⟩

/-- No chunk of the section begins or ends inside an extent exactly when no branch is a mistake,
and the last chunk does not end inside one either. -/
theorem chunks_outside_iff (hw : w.Ranged) {off : Nat} {xs : List (Nat × Nat)}
    (hstep : w.RangesInStep off xs) (hoff : ∀ x ∈ xs, ¬ Inside x off) :
    (∀ k ∈ w.chunks, ∀ x ∈ xs, ¬ Inside x (off + k.start) ∧ ¬ Inside x (off + k.stop)) ↔
      ∀ s, w.Reached s → w.Emits s → w.StartsWell s ∧ w.EndsWell s ∧
        (w.EndsSection s → ∀ x ∈ xs, ¬ Inside x (off + w.text.length)) := by
  constructor
  · intro h s hs he
    have hk := h (w.chunk s) (mem_chunks_iff.mpr ⟨s, hs, he, rfl⟩)
    obtain ⟨hout, hlast⟩ := (hstep.stop_iff hw hoff he.2.1).mp fun x hx => (hk x hx).2
    refine ⟨(outside_start_iff hw hs he).mp ?_, endsWell_of_outside hw he.2.1 hout, hlast⟩
    exact (hstep.outside_iff hoff he.2.1).mp fun x hx => (hk x hx).1
  · intro h k hk x hx
    obtain ⟨s, hs, he, rfl⟩ := mem_chunks_iff.mp hk
    obtain ⟨hstarts, hends, hlast⟩ := h s hs he
    have hprev := outside_prevEnd hw (fun s hs he => (h s hs he).2.1) hs
    have hstop := hends.outside hw he.2.1 hprev
    have hstart := (outside_start_iff hw hs he).mpr hstarts
    exact ⟨(hstep.outside_iff hoff he.2.1).mpr hstart x hx,
      (hstep.stop_iff hw hoff he.2.1).mpr ⟨hstop, hlast⟩ x hx⟩

end Slicing

/-! ## The items -/

/-- From the beginning of the first line of an item to the end of its last line. -/
def extent (ls : List (List Char × List Char)) (item : Int × Int) : Nat × Nat :=
  (lineBegin ls (item.1.toNat - 1),
    lineBegin ls (item.2.toNat - 1) + (ls.getD (item.2.toNat - 1) ([], [])).1.length)

/-- The extents of the code blocks, whose lines are numbered by the newlines, and of
the tables and list items, whose lines are those of `splitlines`. -/
def extents (content : ParsedContent) : List (Nat × Nat) :=
  content.codeBlocks.map (extent (newlineLines content.body)) ++
    (content.tables ++ content.listItems).map (extent (lines content.body))

theorem exists_lastLine {ls : List (List Char × List Char)} {item : Int × Int}
    (h : InLines ls.length item) :
    ∃ l, ls[item.2.toNat - 1]? = some l ∧
      (extent ls item).2 = lineBegin ls (item.2.toNat - 1) + l.1.length ∧
      lineBegin ls item.2.toNat = (extent ls item).2 + l.2.length := by
  obtain ⟨hfirst, hle, hlast⟩ := h
  have hget := List.getElem?_eq_getElem (l := ls) (i := item.2.toNat - 1) (by omega)
  have hstop : (extent ls item).2 = lineBegin ls (item.2.toNat - 1) +
      ls[item.2.toNat - 1].1.length := by
    rw [extent, List.getD_eq_getElem?_getD, hget, Option.getD_some]
  refine ⟨_, hget, hstop, ?_⟩
  have hnext := lineBegin_succ hget
  rw [show item.2.toNat - 1 + 1 = item.2.toNat by omega] at hnext
  omega

theorem markdown_inLines (bytes : List UInt8) :
    (∀ item ∈ (parseMarkdown bytes).codeBlocks,
      InLines (newlineLines (parseMarkdown bytes).body).length item) ∧
    ∀ item ∈ (parseMarkdown bytes).tables ++ (parseMarkdown bytes).listItems,
      InLines (lines (parseMarkdown bytes).body).length item := by
  refine ⟨fun item hitem => extractCodeBlocks_inLines _ item hitem, fun item hitem => ?_⟩
  rw [← length_splitlines]
  rcases List.mem_append.mp hitem with hitem | hitem
  · exact extractTables_inLines _ item hitem
  · exact extractListItems_inLines _ item hitem

theorem lineBegin_le {body : List Char} {ls : List (List Char × List Char)}
    (h : (ls.map fun l => l.1 ++ l.2).flatten = body) (i : Nat) : lineBegin ls i ≤ body.length := by
  have hall : lineBegin ls (max i ls.length) = body.length := by
    rw [lineBegin, List.take_of_length_le (Nat.le_max_right _ _), h]
  rw [← hall]
  exact lineBegin_mono ls (Nat.le_max_left _ _)

theorem markdown_extents (bytes : List UInt8) :
    ∀ x ∈ extents (parseMarkdown bytes), x.2 ≤ (parseMarkdown bytes).body.length := by
  obtain ⟨hblocks, hothers⟩ := markdown_inLines bytes
  intro x hx
  rcases List.mem_append.mp hx with hx | hx
  · obtain ⟨item, hitem, rfl⟩ := List.mem_map.mp hx
    obtain ⟨l, _, _, hnext⟩ := exists_lastLine (hblocks item hitem)
    have hle := lineBegin_le (flatten_newlineLines (parseMarkdown bytes).body) item.2.toNat
    omega
  · obtain ⟨item, hitem, rfl⟩ := List.mem_map.mp hx
    obtain ⟨l, _, _, hnext⟩ := exists_lastLine (hothers item hitem)
    have hle := lineBegin_le (flatten_splitlinesKeepends (parseMarkdown bytes).body) item.2.toNat
    omega

/-! ## Headings in items -/

/-- Line `m` of the document, counted from zero, is taken for a heading. -/
def HeadsSection (content : ParsedContent) (m : Nat) : Prop :=
  ∃ line ∈ (splitlinesKeepends content.body)[m]?,
    (matchedHeading content.headings line).isSome = true

/-- No line of a table or of a list item but its first is taken for a heading, and none that begins
in a code block: behind its first character, and before the newline that ends its last line. -/
def HeadingsApart (content : ParsedContent) : Prop :=
  ∀ m, HeadsSection content m →
    (∀ item ∈ content.codeBlocks,
      lineBegin (newlineLines content.body) (item.1.toNat - 1) < lineStart content.body m →
        item.2 ≤ (content.body.take (lineStart content.body m)).count '\n') ∧
    ∀ item ∈ content.tables ++ content.listItems, item.1 ≤ m → item.2 ≤ m

theorem HeadsSection.line {content : ParsedContent} {m : Nat} (h : HeadsSection content m) :
    ∃ l, (lines content.body)[m]? = some l ∧ blank l.1 = false := by
  obtain ⟨line, hline, hmatch⟩ := h
  rw [splitlinesKeepends, List.getElem?_map, Option.mem_def, Option.map_eq_some_iff] at hline
  obtain ⟨l, hl, rfl⟩ := hline
  refine ⟨l, hl, ?_⟩
  rw [Bool.eq_false_iff]
  intro hblank
  have hwhole : strip (l.1 ++ l.2) = [] := by
    rw [strip_eq_nil_iff, blank, List.all_append, Bool.and_eq_true]
    exact ⟨hblank, blank_of_mem_lines l (List.mem_of_getElem? hl)⟩
  unfold matchedHeading findHeading at hmatch
  rw [hwhole] at hmatch
  have hnone : content.headings.find? (fun h =>
      (List.replicate h.1.toNat '#').isPrefixOf [] &&
        (List.replicate h.1.toNat '#' ++ ' ' :: h.2).isPrefixOf []) = none := by
    rw [List.find?_eq_none]
    intro h _
    cases List.replicate h.1.toNat '#' <;> simp
  rw [hnone] at hmatch
  cases hmatch

theorem not_inside_lines_iff {body : List Char} {item : Int × Int}
    (hin : InLines (lines body).length item) {m : Nat} {l : List Char × List Char}
    (hl : (lines body)[m]? = some l) (htext : blank l.1 = false) :
    ¬ Inside (extent (lines body) item) (lineStart body m) ↔ (item.1 ≤ m → item.2 ≤ m) := by
  obtain ⟨last, hlast, hstop, hnext⟩ := exists_lastLine hin
  obtain ⟨hfirst, hle, hbound⟩ := hin
  have hm := (List.getElem?_eq_some_iff.mp hl).1
  rw [lineBegin_lines] at hstop hnext
  have hbegin : (extent (lines body) item).1 = lineStart body (item.1.toNat - 1) :=
    lineBegin_lines body _
  have hbegun : lineStart body (item.1.toNat - 1) < lineStart body m ↔ item.1 ≤ m := by
    constructor
    · intro hlt
      have hlines := lt_of_lineStart_lt hlt
      omega
    · intro hlines
      exact lineStart_lt (by omega) (by omega)
  have hgoes : lineStart body m < (extent (lines body) item).2 ↔ ¬ item.2 ≤ m := by
    constructor
    · intro hlt hlines
      have hmono := lineStart_mono body (i := item.2.toNat) (j := m) (by omega)
      omega
    · intro hlines
      rcases Nat.lt_or_ge m (item.2.toNat - 1) with hearlier | hsame
      · have hlt := lineStart_lt hm hearlier
        omega
      · obtain rfl : m = item.2.toNat - 1 := by omega
        rw [hl] at hlast
        obtain rfl := Option.some.inj hlast
        have hpos : 0 < l.1.length := by
          rw [List.length_pos_iff]
          intro hnil
          rw [hnil] at htext
          cases htext
        omega
  rw [Inside, hbegin, hbegun, hgoes]
  tauto

theorem not_newline_of_line {body : List Char} {m : Nat} {l : List Char × List Char}
    (hl : (lines body)[m]? = some l) (htext : blank l.1 = false) :
    body[lineStart body m]? ≠ some '\n' := by
  intro hnewline
  have hpos : 0 < l.1.length := by
    rw [List.length_pos_iff]
    intro hnil
    rw [hnil] at htext
    cases htext
  have hget := getElem?_line (flatten_splitlinesKeepends body) hl (j := 0) (by omega)
  rw [lineBegin_lines, Nat.add_zero, hnewline, List.getElem?_append_left hpos] at hget
  have hbreak := (breaks_of_mem_lines l (List.mem_of_getElem? hl)).1 '\n'
    (List.mem_of_getElem? hget.symm)
  revert hbreak
  decide

theorem not_inside_newlines_iff {body : List Char} {item : Int × Int}
    (hin : InLines (newlineLines body).length item) {m : Nat} {l : List Char × List Char}
    (hl : (lines body)[m]? = some l) (htext : blank l.1 = false) :
    ¬ Inside (extent (newlineLines body) item) (lineStart body m) ↔
      (lineBegin (newlineLines body) (item.1.toNat - 1) < lineStart body m →
        item.2 ≤ (body.take (lineStart body m)).count '\n') := by
  obtain ⟨last, hlast, hstop, hnext⟩ := exists_lastLine hin
  obtain ⟨hfirst, hle, hbound⟩ := hin
  have hlength := lineStart_lt_length.mpr (List.getElem?_eq_some_iff.mp hl).1
  have hcount := count_take_lt_iff (n := item.2.toNat) hlength
  have hgoes : lineStart body m < (extent (newlineLines body) item).2 ↔
      lineStart body m < lineBegin (newlineLines body) item.2.toNat := by
    refine ⟨fun hlt => by omega, fun hlt => ?_⟩
    by_contra hge
    -- What the line ends with is a newline at most, and the heading would begin with it.
    refine not_newline_of_line hl htext ?_
    rcases stop_of_mem_newlineLines last (List.mem_of_getElem? hlast) with hnone | hnewline
    · rw [hnone, List.length_nil] at hnext
      omega
    · rw [hnewline, List.length_singleton] at hnext
      have hget := getElem?_line (flatten_newlineLines body) hlast (j := last.1.length)
        (by simp [hnewline])
      rw [show lineStart body m = lineBegin (newlineLines body) (item.2.toNat - 1) +
        last.1.length by omega, hget, hnewline, List.getElem?_append_right (Nat.le_refl _),
        Nat.sub_self]
      rfl
  have hbegin : (extent (newlineLines body) item).1 =
    lineBegin (newlineLines body) (item.1.toNat - 1) := rfl
  rw [Inside, hbegin, hgoes, ← hcount]
  omega

theorem markdown_headingsApart_iff (bytes : List UInt8) :
    HeadingsApart (parseMarkdown bytes) ↔ ∀ m, HeadsSection (parseMarkdown bytes) m →
      ∀ x ∈ extents (parseMarkdown bytes), ¬ Inside x (lineStart (parseMarkdown bytes).body m) := by
  obtain ⟨hblocks, hothers⟩ := markdown_inLines bytes
  refine forall₂_congr fun m hheads => ?_
  obtain ⟨l, hl, htext⟩ := hheads.line
  rw [extents, List.forall_mem_append (p := fun x => ¬ Inside x _), List.forall_mem_map,
    List.forall_mem_map]
  refine and_congr (forall₂_congr fun item hitem => ?_) (forall₂_congr fun item hitem => ?_)
  · exact (not_inside_newlines_iff (hblocks item hitem) hl htext).symm
  · exact (not_inside_lines_iff (hothers item hitem) hl htext).symm

/-! ## Where sections end -/

/-- The text up to `stop`, which is the end of the document or the next heading, without the white
space at its end. -/
structure Section.Ends (content : ParsedContent) (sec : Section) (stop : Nat) : Prop where
  body : sec.body = rstrip ((content.body.drop sec.offset).take (stop - sec.offset))
  le : sec.offset ≤ stop
  heading : stop = content.body.length ∨
    ∃ m, HeadsSection content m ∧ stop = lineStart content.body m

section

variable {content : ParsedContent} {s : Splitting}

theorem Splitting.Located.ends_closeSection (h : s.Located content.body)
    (hstop : s.position = content.body.length ∨
      ∃ m, HeadsSection content m ∧ s.position = lineStart content.body m)
    (hsections : ∀ sec ∈ s.sections, ∃ stop, sec.Ends content stop) :
    ∀ sec ∈ s.closeSection, ∃ stop, sec.Ends content stop := by
  intro sec hsec
  rcases List.mem_append.mp hsec with hsec | hsec
  · exact hsections sec hsec
  · obtain rfl := List.mem_singleton.mp hsec
    have hposition := h.position
    refine ⟨s.position, ?_, by simp only; omega, hstop⟩
    have hcurrent := List.prefix_iff_eq_take.mp h.current
    rw [show s.position - s.currentOffset = s.currentLines.flatten.length by omega, ← hcurrent]

theorem Splitting.Located.ends_finish (h : s.Located content.body)
    (hstop : s.position = content.body.length)
    (hsections : ∀ sec ∈ s.sections, ∃ stop, sec.Ends content stop) :
    ∀ sec ∈ s.finish, ∃ stop, sec.Ends content stop := by
  unfold Splitting.finish
  split
  · exact hsections
  · exact h.ends_closeSection (Or.inl hstop) hsections

theorem Splitting.Located.ends_addLine (h : s.Located content.body) {m : Nat} {line : List Char}
    (hline : (splitlinesKeepends content.body)[m]? = some line)
    (hposition : s.position = lineStart content.body m)
    (hsections : ∀ sec ∈ s.sections, ∃ stop, sec.Ends content stop) (n : Nat) :
    ∀ sec ∈ (s.addLine content.headings (line, n)).sections, ∃ stop, sec.Ends content stop := by
  unfold Splitting.addLine
  cases hmatch : matchedHeading content.headings line with
  | none => exact hsections
  | some heading =>
    simp only
    split
    · simp
    · refine h.ends_closeSection (Or.inr ⟨m, ⟨line, hline, ?_⟩, hposition⟩) hsections
      rw [hmatch]
      rfl

theorem foldl_addLine_ends (ls : List (List Char)) (n m : Nat) (h : s.Located content.body)
    (hls : (splitlinesKeepends content.body).drop m = ls)
    (hposition : s.position = lineStart content.body m)
    (hsections : ∀ sec ∈ s.sections, ∃ stop, sec.Ends content stop) :
    ∀ sec ∈ ((ls.zipIdx n).foldl (Splitting.addLine content.headings) s).finish,
      ∃ stop, sec.Ends content stop := by
  induction ls generalizing s n m with
  | nil =>
    refine h.ends_finish ?_ hsections
    rw [List.drop_eq_nil_iff, splitlinesKeepends, List.length_map] at hls
    rw [hposition, lineStart_of_length_le hls]
  | cons line rest ih =>
    rw [List.zipIdx_cons, List.foldl_cons]
    have hline : (splitlinesKeepends content.body)[m]? = some line := by
      rw [← List.head?_drop, hls, List.head?_cons]
    have hrest : (splitlinesKeepends content.body).drop (m + 1) = rest := by
      rw [← List.tail_drop, hls, List.tail_cons]
    have hprefix : line <+: content.body.drop s.position := by
      rw [hposition, drop_lineStart_cons hline]
      exact List.prefix_append _ _
    refine ih (n + 1) (m + 1) (h.addLine content.headings n hprefix) hrest ?_
      (h.ends_addLine hline hposition hsections n)
    rw [Splitting.position_addLine, hposition, lineStart, lineStart, List.take_add_one, hline]
    simp

end

theorem splitByHeading_ends (content : ParsedContent) (h : content.headings ≠ []) :
    ∀ sec ∈ splitByHeading content, ∃ stop, sec.Ends content stop := by
  rw [splitByHeading_eq content h]
  refine foldl_addLine_ends _ 1 0 ?_ rfl rfl fun sec hsec => by cases hsec
  exact ⟨fun _ => ⟨rfl, rfl⟩, by simp, by simp, by simp⟩

def EndsBlank (body : List Char) (x : Nat × Nat) : Prop := ∃ c ∈ body[x.2 - 1]?, isSpace c = true

instance (body : List Char) (x : Nat × Nat) : Decidable (EndsBlank body x) :=
  inferInstanceAs (Decidable (∃ c ∈ body[x.2 - 1]?, isSpace c = true))

/-- No item that goes to the end of the section's text ends with white space, which the section is
stripped of. A document without headings is one section and is not stripped. -/
def Section.EndsApart (content : ParsedContent) (sec : Section) : Prop :=
  content.headings ≠ [] → ∀ x ∈ extents content, x.1 < sec.offset + sec.body.length →
    sec.offset + sec.body.length ≤ x.2 → ¬ EndsBlank content.body x

section

variable {content : ParsedContent} {sec : Section} {stop : Nat}

theorem Section.Ends.length_le (h : sec.Ends content stop) :
    sec.offset + sec.body.length ≤ stop := by
  have hlength : sec.body.length ≤ stop - sec.offset := by
    rw [h.body]
    exact (List.rdropWhile_prefix isSpace _).length_le.trans (List.length_take_le _ _)
  have hle := h.le
  omega

theorem Section.Ends.isSpace (h : sec.Ends content stop) {i : Nat}
    (hge : sec.offset + sec.body.length ≤ i) (hlt : i < stop) {c : Char}
    (hc : content.body[i]? = some c) : isSpace c = true := by
  have hsplit := List.rdropWhile_append_rtakeWhile (p := PyText.isSpace)
    (l := (content.body.drop sec.offset).take (stop - sec.offset))
  rw [show List.rdropWhile _ _ = sec.body from h.body.symm] at hsplit
  have hget : ((content.body.drop sec.offset).take (stop - sec.offset))[i - sec.offset]? =
      some c := by
    rw [List.getElem?_take_of_lt (by omega), List.getElem?_drop,
      show sec.offset + (i - sec.offset) = i by omega, hc]
  rw [← hsplit, List.getElem?_append_right (by omega)] at hget
  exact List.mem_rtakeWhile_imp (List.mem_of_getElem? hget)

theorem Section.Ends.not_isSpace (h : sec.Ends content stop) (hblank : blank sec.body = false)
    {c : Char} (hc : content.body[sec.offset + sec.body.length - 1]? = some c) :
    PyText.isSpace c = false := by
  have hne : sec.body ≠ [] := by
    rintro hnil
    rw [hnil] at hblank
    cases hblank
  have hpos := List.length_pos_iff.mpr hne
  have hprefix : sec.body <+: content.body.drop sec.offset := by
    rw [h.body]
    exact (List.rdropWhile_prefix PyText.isSpace _).trans (List.take_prefix _ _)
  have hlast : sec.body.getLast? = some c := by
    obtain ⟨rest, hrest⟩ := hprefix
    rw [show sec.offset + sec.body.length - 1 = sec.offset + (sec.body.length - 1) by omega,
      ← List.getElem?_drop, ← hrest, List.getElem?_append_left (by omega)] at hc
    rw [List.getLast?_eq_getElem?, hc]
  have hstripped := h.body
  unfold rstrip at hstripped
  have hend := List.rdropWhile_last_not (p := PyText.isSpace)
    (l := (content.body.drop sec.offset).take (stop - sec.offset)) (by rwa [← hstripped])
  rw [List.getLast?_eq_some_getLast hne] at hlast
  obtain rfl := Option.some.inj hlast
  simp only [← hstripped, Bool.not_eq_true] at hend
  exact hend

end

/-- Where no heading is in an item, an item goes beyond the text of a section only with white
space. -/
theorem Section.endsApart_iff {content : ParsedContent}
    (hin : ∀ x ∈ extents content, x.2 ≤ content.body.length)
    (hheads : ∀ m, HeadsSection content m →
      ∀ x ∈ extents content, ¬ Inside x (lineStart content.body m))
    {sec : Section} (hsec : sec ∈ splitByHeading content) (hblank : blank sec.body = false) :
    sec.EndsApart content ↔
      ∀ x ∈ extents content, ¬ Inside x (sec.offset + sec.body.length) := by
  by_cases hnone : content.headings = []
  · rw [splitByHeading, if_pos hnone] at hsec
    obtain rfl := List.mem_singleton.mp hsec
    refine iff_of_true (fun hsome => absurd hnone hsome) fun x hx hinside => ?_
    have hle := hin x hx
    have hlt : 0 + content.body.length < x.2 := hinside.2
    omega
  obtain ⟨stop, hends⟩ := splitByHeading_ends content hnone sec hsec
  have hstop := hends.length_le
  have hget : ∀ i < content.body.length, ∃ c, content.body[i]? = some c :=
    fun i hi => ⟨_, List.getElem?_eq_getElem hi⟩
  constructor
  · rintro hapart x hx ⟨hbegun, hgoes⟩
    have hle : x.2 ≤ stop := by
      rcases hends.heading with heq | ⟨m, hm, heq⟩
      · rw [heq]
        exact hin x hx
      · by_contra hlt
        exact hheads m hm x hx ⟨by omega, by omega⟩
    obtain ⟨c, hc⟩ := hget (x.2 - 1) (by have := hin x hx; omega)
    exact hapart hnone x hx hbegun hgoes.le
      ⟨c, hc, hends.isSpace (by omega) (by omega) hc⟩
  · rintro hout _ x hx hbegun hgoes ⟨c, hc, hspace⟩
    refine hout x hx ⟨hbegun, ?_⟩
    rcases Nat.eq_or_lt_of_le hgoes with heq | hlt
    · rw [← heq] at hc
      have hnot := hends.not_isSpace hblank hc
      rw [hspace] at hnot
      cases hnot
    · exact hlt

def boundaries (config : ChunkerConfig) (content : ParsedContent) : List Nat :=
  (splitByHeading content).flatMap fun sec =>
    sec.offset :: (chunkText config content sec).flatMap fun k =>
      [sec.offset + k.start, sec.offset + k.stop]

def NeverSplits (config : ChunkerConfig) (content : ParsedContent) : Prop :=
  ∀ b ∈ boundaries config content, ∀ x ∈ extents content, ¬ Inside x b

instance (config : ChunkerConfig) (content : ParsedContent) :
    Decidable (NeverSplits config content) :=
  inferInstanceAs (Decidable (∀ b ∈ boundaries config content, ∀ x ∈ extents content, ¬ Inside x b))

/-- If the section is cut up, its protected ranges are the items that begin in it. -/
def Section.InStep (config : ChunkerConfig) (content : ParsedContent) (sec : Section) : Prop :=
  blank sec.body = false → ¬ sec.Short config →
    (sectionSlicing config content sec).RangesInStep sec.offset (extents content)

/-- No pass over a section that is cut up takes a branch that is a mistake. -/
def Section.CutWell (config : ChunkerConfig) (content : ParsedContent) (sec : Section) : Prop :=
  if blank sec.body then True
  else if sec.Short config then sec.EndsApart content
  else
    ∀ s, (sectionSlicing config content sec).Reached s →
      (sectionSlicing config content sec).Emits s →
        (sectionSlicing config content sec).StartsWell s ∧
          (sectionSlicing config content sec).EndsWell s ∧
          ((sectionSlicing config content sec).EndsSection s → sec.EndsApart content)

structure CutsWell (config : ChunkerConfig) (content : ParsedContent) : Prop where
  headings : HeadingsApart content
  sections : ∀ sec ∈ splitByHeading content, sec.CutWell config content

theorem rangeLe_total (a b : Nat × Nat) : rangeLe a b ∨ rangeLe b a := by
  unfold rangeLe
  omega

theorem rangeLe_trans {a b c : Nat × Nat} (hab : rangeLe a b) (hbc : rangeLe b c) :
    rangeLe a c := by
  unfold rangeLe at *
  omega

instance : Std.Total rangeLe := ⟨rangeLe_total⟩

instance : IsTrans (Nat × Nat) rangeLe := ⟨fun _ _ _ => rangeLe_trans⟩

theorem sectionSlicing_ranged (config : ChunkerConfig) (content : ParsedContent) (sec : Section) :
    (sectionSlicing config content sec).Ranged where
  toProper := sectionSlicing_proper config content sec
  sorted := by
    refine (List.pairwise_insertionSort rangeLe _).imp ?_
    intro p q hle
    unfold rangeLe at hle
    omega
  le := buildProtectedRangesChar_le
  two := by
    have hmin := config.maxTokens_min
    simp only [sectionSlicing, ChunkerConfig.estimatedChars]
    omega

theorem Section.cutWell_iff {config : ChunkerConfig} {content : ParsedContent}
    {sec : Section} (hstep : sec.InStep config content)
    (hoff : ∀ x ∈ extents content, ¬ Inside x sec.offset)
    (hapart : blank sec.body = false → (sec.EndsApart content ↔
      ∀ x ∈ extents content, ¬ Inside x (sec.offset + sec.body.length))) :
    sec.CutWell config content ↔ ∀ k ∈ chunkText config content sec, ∀ x ∈ extents content,
      ¬ Inside x (sec.offset + k.start) ∧ ¬ Inside x (sec.offset + k.stop) := by
  unfold Section.CutWell chunkText
  split
  · simp
  · rename_i hblank
    rw [Bool.not_eq_true] at hblank
    rw [hapart hblank]
    split
    · simp only [List.mem_singleton, forall_eq, Nat.add_zero]
      exact ⟨fun h x hx => ⟨hoff x hx, h x hx⟩, fun h x hx => (h x hx).2⟩
    · rename_i hlong
      exact (Slicing.chunks_outside_iff (sectionSlicing_ranged config content sec)
        (hstep hblank hlong) hoff).symm

theorem splitByHeading_outside_iff (content : ParsedContent) :
    (∀ sec ∈ splitByHeading content, ∀ x ∈ extents content, ¬ Inside x sec.offset) ↔
      ∀ m, HeadsSection content m →
        ∀ x ∈ extents content, ¬ Inside x (lineStart content.body m) := by
  rw [splitByHeading_starts content (fun _ o => ∀ x ∈ extents content, ¬ Inside x o)
    fun x _ hin => Nat.not_lt_zero _ hin.1]
  constructor
  · rintro h m ⟨line, hline, hmatch⟩
    exact h m line hline hmatch
  · intro h m line hline hmatch
    exact h m ⟨line, hline, hmatch⟩

theorem NeverSplits.cutWell {config : ChunkerConfig} {bytes : List UInt8}
    (h : NeverSplits config (parseMarkdown bytes)) :
    HeadingsApart (parseMarkdown bytes) ∧ ∀ sec ∈ splitByHeading (parseMarkdown bytes),
      sec.InStep config (parseMarkdown bytes) → sec.CutWell config (parseMarkdown bytes) := by
  have hoff : ∀ sec ∈ splitByHeading (parseMarkdown bytes),
      ∀ x ∈ extents (parseMarkdown bytes), ¬ Inside x sec.offset :=
    fun sec hsec => h sec.offset (List.mem_flatMap.mpr ⟨sec, hsec, List.mem_cons_self⟩)
  have hheads := (splitByHeading_outside_iff _).mp hoff
  refine ⟨(markdown_headingsApart_iff bytes).mpr hheads, fun sec hsec hstep => ?_⟩
  refine (Section.cutWell_iff hstep (hoff sec hsec)
    (Section.endsApart_iff (markdown_extents bytes) hheads hsec)).mpr ?_
  intro k hk x hx
  have hin : ∀ b ∈ [sec.offset + k.start, sec.offset + k.stop],
      b ∈ boundaries config (parseMarkdown bytes) :=
    fun b hb => List.mem_flatMap.mpr ⟨sec, hsec, List.mem_cons_of_mem _
      (List.mem_flatMap.mpr ⟨k, hk, hb⟩)⟩
  exact ⟨h _ (hin _ (by simp)) x hx, h _ (hin _ (by simp)) x hx⟩

theorem CutsWell.neverSplits {config : ChunkerConfig} {bytes : List UInt8}
    (h : CutsWell config (parseMarkdown bytes))
    (hstep : ∀ sec ∈ splitByHeading (parseMarkdown bytes),
      sec.InStep config (parseMarkdown bytes)) : NeverSplits config (parseMarkdown bytes) := by
  intro b hb x hx
  have hheads := (markdown_headingsApart_iff bytes).mp h.headings
  have hoff := (splitByHeading_outside_iff _).mpr hheads
  obtain ⟨sec, hsec, hb⟩ := List.mem_flatMap.mp hb
  rcases List.mem_cons.mp hb with rfl | hb
  · exact hoff sec hsec x hx
  · obtain ⟨k, hk, hb⟩ := List.mem_flatMap.mp hb
    have hchunk := (Section.cutWell_iff (hstep sec hsec) (hoff sec hsec)
      (Section.endsApart_iff (markdown_extents bytes) hheads hsec)).mp
        (h.sections sec hsec) k hk x hx
    simp only [List.mem_cons, List.not_mem_nil, or_false] at hb
    rcases hb with rfl | rfl
    · exact hchunk.1
    · exact hchunk.2

theorem extractCodeBlocks_lines {body : List Char} (h : NewlinesOnly body) :
    ∀ item ∈ extractCodeBlocks body, InLines (lines body).length item ∧
      extent (newlineLines body) item = extent (lines body) item := by
  intro item hitem
  obtain ⟨hone, hle, _⟩ := extractCodeBlocks_inLines body item hitem
  obtain ⟨_, hclose, _⟩ := mem_pairUp (fenceLines_sorted body) hitem
  obtain ⟨l, hl, hfence⟩ := mem_fenceLines hclose
  have hlast : (lines body)[item.2.toNat - 1]? = some l := by
    rcases h.newlineLines with hlines | hlines
    · rwa [hlines] at hl
    · rw [hlines, List.getElem?_append] at hl
      split at hl
      · exact hl
      · obtain rfl := List.mem_singleton.mp (List.mem_of_getElem? hl)
        exact absurd hfence.length_pos (Nat.lt_irrefl 0)
  have hbound := (List.getElem?_eq_some_iff.mp hlast).1
  refine ⟨⟨hone, hle, by omega⟩, ?_⟩
  rw [extent, extent, h.lineBegin, h.lineBegin, lineBegin_lines, lineBegin_lines,
    List.getD_eq_getElem?_getD, List.getD_eq_getElem?_getD, hl, hlast]

namespace Section

variable {body : List Char} {sec : Section} {m : Nat}

/-- The section goes on to the end of the document, or no newline ends it. -/
def Stripped (body : List Char) (sec : Section) : Prop :=
  sec.offset + sec.body.length = body.length ∨ sec.body[sec.body.length - 1]? ≠ some '\n'

theorem crlfsBefore_eq_zero {text : List Char} (h : NewlinesOnly text) (i : Nat) :
    crlfsBefore text i = 0 := by
  rw [crlfsBefore, List.countP_eq_zero]
  intro l hl
  rcases h.stop l (List.mem_of_mem_take hl) with hstop | hstop <;> simp [isCrlf, hstop]

theorem getD_lineStart {text : List Char} (h : NewlinesOnly text) {i default : Nat}
    (hi : i < (PyText.lines text).length ∨ default = text.length) :
    ((buildLineToCharMap text)[i]?).getD default = PyText.lineStart text i := by
  by_cases hlt : i < (PyText.lines text).length
  · obtain ⟨p, hget, hp⟩ := buildLineToCharMap_of_lt hlt
    rw [crlfsBefore_eq_zero h] at hp
    rw [hget, Option.getD_some, ← hp, Nat.add_zero]
  · have hle := Nat.not_lt.mp hlt
    rw [buildLineToCharMap_of_le hle, Option.getD_none, hi.resolve_left hlt,
      lineStart_of_length_le hle]

theorem Placed.newlinesOnly (h : sec.Placed body m) (hbody : NewlinesOnly body) :
    NewlinesOnly sec.body :=
  hbody.mono (List.Subset.trans h.body.subset (List.drop_subset _ _))

theorem Stripped.lt_of_le_count (h : sec.Stripped body) (hplaced : sec.Placed body m)
    (hne : sec.body ≠ []) {i : Nat} (hi : i ≤ sec.body.count '\n')
    (hlines : m + i < (PyText.lines body).length) :
    PyText.lineStart sec.body i < sec.body.length := by
  rcases h with hwhole | hnewline
  · have hplace := hplaced.lineStart i
    have hbefore := lineStart_lt_length.mpr hlines
    have hle := hplaced.offset_le
    have hpos := List.length_pos_iff.mpr hne
    omega
  · rw [lineStart_lt_length, lines_length hne]
    have hcount : sec.body.count '\n' = sec.body.dropLast.count '\n' := by
      have hsplit := List.dropLast_append_getLast hne
      have hnone : [sec.body.getLast hne].count '\n' = 0 := by
        rw [List.count_eq_zero, List.mem_singleton]
        intro heq
        refine hnewline ?_
        rw [← List.getLast?_eq_getElem?, List.getLast?_eq_some_getLast hne, ← heq]
      conv_lhs => rw [← hsplit, List.count_append, hnone, Nat.add_zero]
    omega

theorem Placed.begins_of_protectedRange (h : sec.Placed body m)
    (hstripped : sec.Stripped body) (hne : sec.body ≠ []) {item : Int × Int} {p : Nat × Nat}
    (hin : InLines (PyText.lines body).length item)
    (hp : protectedRange (buildLineToCharMap sec.body) sec.startLine (sec.body.count '\n')
      sec.body.length item = some p) :
    sec.offset ≤ (extent (PyText.lines body) item).1 ∧
      (extent (PyText.lines body) item).1 < sec.offset + sec.body.length := by
  obtain ⟨i, j, hi, hj, hreach, _, _, _⟩ := protectedRange_eq_some_iff.mp hp
  obtain ⟨hone, hle, hlast⟩ := hin
  have hline := h.startLine
  have hfirst : item.1.toNat - 1 = m + i := by omega
  have hbegin : (extent (PyText.lines body) item).1 = PyText.lineStart body (m + i) := by
    rw [← hfirst]
    exact lineBegin_lines body _
  have hplace := h.lineStart i
  have hmono := lineStart_mono body (Nat.le_add_right m i)
  have hoffset := h.offset
  have hlt := hstripped.lt_of_le_count h hne hreach (by omega)
  omega

/-- What the section has of the end of a line, the newline left out. -/
theorem Placed.stop_of_line (h : sec.Placed body m) (hbody : NewlinesOnly body)
    (hstripped : sec.Stripped body) {j : Nat} {l : List Char × List Char}
    (hl : (PyText.lines body)[m + j]? = some l)
    (hpos : 0 < PyText.lineStart sec.body (j + 1)) :
    min (PyText.lineStart body (m + j) + l.1.length) (sec.offset + sec.body.length) = sec.offset +
      if sec.body[PyText.lineStart sec.body (j + 1) - 1]? = some '\n' then
        PyText.lineStart sec.body (j + 1) - 1 else PyText.lineStart sec.body (j + 1) := by
  have hplace := h.lineStart (j + 1)
  rw [← Nat.add_assoc] at hplace
  have hnext := lineBegin_succ hl
  rw [lineBegin_lines, lineBegin_lines] at hnext
  have hstopped := hbody.getElem?_stop hl
  rcases Nat.lt_or_ge (sec.offset + sec.body.length) (PyText.lineStart body (m + j + 1))
    with hbeyond | hinside
  · -- The section ends before the line does.
    have hwhole := lineStart_le body (m + j + 1)
    have hshort : l.2.length ≤ 1 := by
      rcases hbody.stop l (List.mem_of_getElem? hl) with hstop | hstop <;> simp [hstop]
    rw [show PyText.lineStart sec.body (j + 1) = sec.body.length by omega,
      if_neg (hstripped.resolve_left (by omega))]
    omega
  · have hget : sec.body[PyText.lineStart sec.body (j + 1) - 1]? =
        body[PyText.lineStart body (m + j + 1) - 1]? := by
      obtain ⟨rest, hrest⟩ := h.body
      rw [show PyText.lineStart body (m + j + 1) - 1 =
        sec.offset + (PyText.lineStart sec.body (j + 1) - 1) by omega, ← List.getElem?_drop,
        ← hrest, List.getElem?_append_left (by omega)]
    rw [← hget] at hstopped
    rcases hbody.stop l (List.mem_of_getElem? hl) with hnone | hnewline
    · rw [hnone, List.length_nil] at hnext
      rw [if_neg fun heq => by rw [hstopped, hnone] at heq; cases heq]
      omega
    · rw [hnewline, List.length_singleton] at hnext
      rw [if_pos (hstopped.mpr hnewline)]
      omega

theorem Placed.protectedRange_of_begins (h : sec.Placed body m) (hbody : NewlinesOnly body)
    (hstripped : sec.Stripped body) {item : Int × Int}
    (hin : InLines (PyText.lines body).length item)
    (hge : sec.offset ≤ (extent (PyText.lines body) item).1)
    (hlt : (extent (PyText.lines body) item).1 < sec.offset + sec.body.length) :
    ∃ p, protectedRange (buildLineToCharMap sec.body) sec.startLine (sec.body.count '\n')
        sec.body.length item = some p ∧
      (extent (PyText.lines body) item).1 = sec.offset + p.1 ∧
      min (extent (PyText.lines body) item).2 (sec.offset + sec.body.length) = sec.offset +
        if sec.body[p.2 - 1]? = some '\n' then p.2 - 1 else p.2 := by
  obtain ⟨l, hl, hstop, _⟩ := exists_lastLine hin
  obtain ⟨hone, hle, hlast⟩ := hin
  have hsec := h.newlinesOnly hbody
  have hbegin : (extent (PyText.lines body) item).1 = PyText.lineStart body (item.1.toNat - 1) :=
    lineBegin_lines body _
  rw [lineBegin_lines] at hstop
  have hm : m ≤ item.1.toNat - 1 := by
    by_contra hbefore
    have hbegun := lineStart_lt (s := body) (i := item.1.toNat - 1) (j := m) (by omega) (by omega)
    rw [← h.offset] at hbegun
    omega
  obtain ⟨i, hi⟩ := Nat.exists_eq_add_of_le hm
  obtain ⟨j, hj⟩ : ∃ j, item.2.toNat - 1 = m + j := ⟨item.2.toNat - 1 - m, by omega⟩
  have hfirst := h.lineStart i
  rw [← hi, ← hbegin] at hfirst
  have hilines : i < (PyText.lines sec.body).length := lineStart_lt_length.mp (by omega)
  have hreach : i ≤ sec.body.count '\n' := by
    have hne : sec.body ≠ [] := by
      rintro hnil
      rw [hnil] at hilines
      exact Nat.not_lt_zero _ hilines
    have hcount := (List.dropLast_sublist sec.body).count_le '\n'
    rw [lines_length hne, hsec.otherStops] at hilines
    omega
  have hline := h.startLine
  have hbegun : PyText.lineStart sec.body i < PyText.lineStart sec.body (j + 1) :=
    lineStart_lt hilines (by omega)
  rw [hj] at hl hstop
  refine ⟨(PyText.lineStart sec.body i, PyText.lineStart sec.body (j + 1)), ?_, by simp only; omega,
    ?_⟩
  · exact protectedRange_eq_some_iff.mpr ⟨i, j, by omega, by omega, hreach,
      getD_lineStart hsec (Or.inl hilines), getD_lineStart hsec (Or.inr rfl), hbegun⟩
  · rw [hstop]
    exact h.stop_of_line hbody hstripped hl (by omega)

end Section

theorem splitByHeading_stripped (content : ParsedContent) : ∀ sec ∈ splitByHeading content,
    blank sec.body = false → sec.Stripped content.body := by
  intro sec hsec hblank
  by_cases hnone : content.headings = []
  · rw [splitByHeading, if_pos hnone] at hsec
    obtain rfl := List.mem_singleton.mp hsec
    exact Or.inl (Nat.zero_add _)
  · obtain ⟨stop, hends⟩ := splitByHeading_ends content hnone sec hsec
    refine Or.inr fun hnewline => ?_
    have hpos : 0 < sec.body.length := by
      by_contra hzero
      rw [List.getElem?_eq_none (by omega)] at hnewline
      cases hnewline
    obtain ⟨rest, hrest⟩ := splitByHeading_located content sec hsec
    have hlast : content.body[sec.offset + sec.body.length - 1]? = some '\n' := by
      rw [← hnewline, show sec.offset + sec.body.length - 1 = sec.offset + (sec.body.length - 1) by
        omega, ← List.getElem?_drop, ← hrest, List.getElem?_append_left (by omega)]
    have hspace := hends.not_isSpace hblank hlast
    revert hspace
    decide

theorem markdown_mem_extents {bytes : List UInt8}
    (h : NewlinesOnly (parseMarkdown bytes).body) {x : Nat × Nat} :
    x ∈ extents (parseMarkdown bytes) ↔
      ∃ item ∈ (parseMarkdown bytes).codeBlocks ++ (parseMarkdown bytes).tables ++
          (parseMarkdown bytes).listItems,
        InLines (lines (parseMarkdown bytes).body).length item ∧
          x = extent (lines (parseMarkdown bytes).body) item := by
  obtain ⟨_, hothers⟩ := markdown_inLines bytes
  rw [extents, List.append_assoc]
  simp only [List.mem_append, List.mem_map]
  constructor
  · rintro (⟨item, hitem, rfl⟩ | ⟨item, hitem, rfl⟩)
    · obtain ⟨hin, hextent⟩ := extractCodeBlocks_lines h item hitem
      exact ⟨item, Or.inl hitem, hin, hextent⟩
    · exact ⟨item, Or.inr hitem, hothers item (List.mem_append.mpr hitem), rfl⟩
  · rintro ⟨item, hitem | hitem, hin, rfl⟩
    · exact Or.inl ⟨item, hitem, (extractCodeBlocks_lines h item hitem).2⟩
    · exact Or.inr ⟨item, hitem, rfl⟩

theorem mem_buildProtectedRangesChar {text : List Char} {content : ParsedContent}
    {sectionStart : Int} {p : Nat × Nat} :
    p ∈ buildProtectedRangesChar text content sectionStart ↔
      ∃ item ∈ content.codeBlocks ++ content.tables ++ content.listItems,
        protectedRange (buildLineToCharMap text) sectionStart (text.count '\n') text.length item =
          some p := by
  unfold buildProtectedRangesChar
  rw [List.mem_insertionSort, ← List.filterMap_append, ← List.filterMap_append,
    List.mem_filterMap]

theorem markdown_inStep (config : ChunkerConfig) {bytes : List UInt8}
    (h : NewlinesOnly (parseMarkdown bytes).body) : ∀ sec ∈ splitByHeading (parseMarkdown bytes),
      sec.InStep config (parseMarkdown bytes) := by
  intro sec hsec hblank _
  obtain ⟨m, hplaced⟩ := splitByHeading_placed _ sec hsec
  have hstripped := splitByHeading_stripped _ sec hsec hblank
  have hne : sec.body ≠ [] := by
    rintro hnil
    rw [hnil] at hblank
    cases hblank
  constructor
  · intro x hx hge hlt
    obtain ⟨item, hitem, hin, rfl⟩ := (markdown_mem_extents h).mp hx
    obtain ⟨p, hp, hfirst, hlast⟩ := hplaced.protectedRange_of_begins h hstripped hin hge hlt
    exact ⟨p, mem_buildProtectedRangesChar.mpr ⟨item, hitem, hp⟩, hfirst, hlast⟩
  · intro p hp
    obtain ⟨item, hitem, hp⟩ := mem_buildProtectedRangesChar.mp hp
    have hin : InLines (lines (parseMarkdown bytes).body).length item := by
      rw [List.append_assoc] at hitem
      rcases List.mem_append.mp hitem with hblock | hother
      · exact (extractCodeBlocks_lines h item hblock).1
      · exact (markdown_inLines bytes).2 item hother
    obtain ⟨hge, hlt⟩ := hplaced.begins_of_protectedRange hstripped hne hin hp
    obtain ⟨q, hq, hfirst, hlast⟩ := hplaced.protectedRange_of_begins h hstripped hin hge hlt
    obtain rfl := Option.some.inj (hp.symm.trans hq)
    exact ⟨_, (markdown_mem_extents h).mpr ⟨item, hitem, hin, rfl⟩, hfirst, hlast⟩

/-- A paragraph, a list item and a paragraph, which are two chunks for the smallest budget. -/
def itemBetween : List UInt8 :=
  List.replicate 250 97 ++ "\n- item\n\nend of it".toList.map fun c => UInt8.ofNat c.toNat

/-- A fenced code block with a comment line in it. -/
def commentInFence : List UInt8 := "```\n# x\n```\n".toList.map fun c => UInt8.ofNat c.toNat

end GroundGraph.Ingestion
