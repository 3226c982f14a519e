import GroundGraph.Extraction.EntityResolver
import Mathlib.Algebra.Order.Field.Basic

/-! What `_levenshtein` and `_string_similarity` compute. The distance is that of the lower-cased
names, and it is divided by the length of the names as they are.
-/

set_option autoImplicit false

namespace GroundGraph.Extraction

open EditDistance (Edits)

/-- The least number of single edits, with what makes it a metric. -/
theorem levenshtein_metric :
    (∀ a b, IsLeast {n | Edits n a b} (levenshtein a b)) ∧
      (∀ a b, levenshtein a b = levenshtein b a) ∧
      (∀ a b, levenshtein a b = 0 ↔ a = b) ∧
      (∀ a b, levenshtein a b ≤ max a.length b.length) ∧
      ∀ a b c, levenshtein a c ≤ levenshtein a b + levenshtein b c := by
  simp only [levenshtein_eq_distance]
  exact ⟨EditDistance.distance_isLeast, EditDistance.distance_comm,
    fun _ _ => EditDistance.distance_eq_zero_iff, EditDistance.distance_le_length,
    EditDistance.distance_triangle⟩

/-- A score in the unit interval, the same for both orders, and one for equal names only. -/
structure ProperScore (L : Lowercase) (a b : List Char) : Prop where
  symmetric : stringSimilarity L a b = stringSimilarity L b a
  nonneg : 0 ≤ stringSimilarity L a b
  le_one : stringSimilarity L a b ≤ 1
  one_iff : stringSimilarity L a b = 1 ↔ L.lower a = L.lower b

def Contained (L : Lowercase) (a b : List Char) : Prop :=
  L.lower a <:+: L.lower b ∨ L.lower b <:+: L.lower a

section
variable (L : Lowercase) (a b : List Char)

theorem stringSimilarity_comm : stringSimilarity L a b = stringSimilarity L b a := by
  simp only [stringSimilarity, levenshtein_eq_distance,
    EditDistance.distance_comm (L.lower b) (L.lower a), Nat.max_comm b.length,
    eq_comm (a := L.lower b),
    or_comm (a := L.lower b <:+: L.lower a)]

variable {L a b}

theorem stringSimilarity_of_contained (h : Contained L a b) : 0 ≤ stringSimilarity L a b := by
  unfold Contained at h
  unfold stringSimilarity
  simp only [if_pos h]
  split <;> norm_num

/-- Names that are not empty and not part of each other are compared by their distance. -/
theorem stringSimilarity_of_not_contained (h : ¬ Contained L a b) :
    0 < max a.length b.length ∧
      stringSimilarity L a b =
        1 - (levenshtein (L.lower a) (L.lower b) : Rat) / (max a.length b.length : Nat) := by
  have hne : L.lower a ≠ L.lower b := by
    intro heq
    exact h (Or.inl (heq ▸ List.infix_refl _))
  have hlength : max a.length b.length ≠ 0 := by
    intro hzero
    have ha : a = [] := List.eq_nil_of_length_eq_zero (by omega)
    have hb : b = [] := List.eq_nil_of_length_eq_zero (by omega)
    exact hne (by rw [ha, hb])
  refine ⟨Nat.pos_of_ne_zero hlength, ?_⟩
  unfold Contained at h
  unfold stringSimilarity
  simp only
  rw [if_neg hne, if_neg h, if_neg hlength]

theorem exists_edits_le_iff {m : Nat} {xs ys : List Char} :
    (∃ n ≤ m, Edits n xs ys) ↔ levenshtein xs ys ≤ m := by
  rw [levenshtein_eq_distance]
  constructor
  · rintro ⟨n, hle, hedits⟩
    exact ((EditDistance.distance_isLeast xs ys).2 hedits).trans hle
  · intro hle
    exact ⟨_, hle, EditDistance.edits_distance xs ys⟩

theorem stringSimilarity_nonneg_iff :
    0 ≤ stringSimilarity L a b ↔
      Contained L a b ∨ levenshtein (L.lower a) (L.lower b) ≤ max a.length b.length := by
  by_cases h : Contained L a b
  · exact iff_of_true (stringSimilarity_of_contained h) (Or.inl h)
  · obtain ⟨hpos, hscore⟩ := stringSimilarity_of_not_contained h
    have hpos : (0 : Rat) < (max a.length b.length : Nat) := by exact_mod_cast hpos
    rw [or_iff_right h, hscore, sub_nonneg, div_le_one hpos]
    exact Nat.cast_le

end

/-- The score is negative where lower-casing makes the names longer than they were and more of
them than that has to be changed. -/
theorem properScore_iff (L : Lowercase) (a b : List Char) :
    ProperScore L a b ↔
      Contained L a b ∨ ∃ n ≤ max a.length b.length, Edits n (L.lower a) (L.lower b) := by
  rw [exists_edits_le_iff, ← stringSimilarity_nonneg_iff]
  constructor
  · exact ProperScore.nonneg
  · intro h
    exact ⟨stringSimilarity_comm L a b, h, stringSimilarity_le_one L a b,
      stringSimilarity_eq_one_iff⟩

theorem properScore_of_length {L : Lowercase} {a b : List Char}
    (ha : (L.lower a).length ≤ max a.length b.length)
    (hb : (L.lower b).length ≤ max a.length b.length) : ProperScore L a b := by
  refine (properScore_iff L a b).mpr (Or.inr (exists_edits_le_iff.mpr ?_))
  rw [levenshtein_eq_distance]
  exact (EditDistance.distance_le_length _ _).trans (max_le ha hb)

/-- `str.lower` for ASCII and the dotted `I`, which becomes two characters. -/
def dottedLower : Lowercase where
  lower := fun s => s.flatMap fun c =>
    if c.toNat = 0x130 then ['i', Char.ofNat 0x307] else [c.toLower]
  lower_eq_nil_iff := by
    intro s
    rw [List.flatMap_eq_nil_iff]
    constructor
    · intro h
      cases s with
      | nil => rfl
      | cons c s =>
        have hc := h c List.mem_cons_self
        split at hc <;> cases hc
    · rintro rfl
      simp

theorem not_properScore_dotted : ¬ ∀ (L : Lowercase) (a b : List Char), ProperScore L a b := by
  intro h
  have hnonneg := (h dottedLower [Char.ofNat 0x130] ['x']).nonneg
  have hnot : ¬ Contained dottedLower [Char.ofNat 0x130] ['x'] := by
    unfold Contained
    decide
  rw [stringSimilarity_nonneg_iff, or_iff_right hnot] at hnonneg
  revert hnonneg
  decide

end GroundGraph.Extraction
