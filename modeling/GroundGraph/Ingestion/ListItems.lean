import GroundGraph.Ingestion.Parsers
import GroundGraph.Library.Correspondence
import Mathlib.Data.List.Range

/-! Which lines `_extract_list_items` reports. The line that ends an item is looked at next, and
every line that starts an item ends the one before, so none is passed over.
-/

set_option autoImplicit false

namespace GroundGraph.Ingestion

open PyText

def isMarker (ls : List (List Char)) (i : Nat) : Bool := isListItem (strip (lineAt ls i))

/-- Text that is not indented, or that begins as an item does. -/
def endsItem (ls : List (List Char)) (i : Nat) : Bool :=
  let line := lineAt ls i
  !blank line && (decide (lstrip line = line) || startsItem (strip line))

/-- The range of the item that line `i` starts: up to the line in front of the one that ends it. -/
structure ItemLines (ls : List (List Char)) (i : Nat) (r : Int × Int) : Prop where
  first : r.1 = i + 1
  last : ∃ j : Nat, r.2 = j ∧ i < j ∧ j ≤ ls.length ∧
    (∀ k, i < k → k < j → endsItem ls k = false) ∧ (j < ls.length → endsItem ls j = true)

theorem startsItem_of_isListItem {line : List Char} (h : isListItem line = true) :
    startsItem line = true := by
  unfold isListItem at h
  unfold startsItem
  rw [Bool.or_eq_true] at h ⊢
  rcases h with h | h
  · cases line with
    | nil => cases h
    | cons c rest =>
      rw [Bool.and_eq_true] at h
      exact Or.inl h.1
  · cases hnumber : matchNumberDot line with
    | none =>
      rw [hnumber] at h
      cases h
    | some rest => exact Or.inr rfl

theorem endsItem_of_isMarker {ls : List (List Char)} {i : Nat} (h : isMarker ls i = true) :
    endsItem ls i = true := by
  have hstarts : startsItem (strip (lineAt ls i)) = true := startsItem_of_isListItem h
  have hblank : blank (lineAt ls i) = false := by
    by_contra hblank
    rw [strip_eq_nil_iff.mpr (Bool.not_eq_false _ |>.mp hblank)] at hstarts
    cases hstarts
  simp [endsItem, hblank, hstarts]

section
variable {ls : List (List Char)}

/-- The indentation is that of the stripped line, so it is always zero. -/
theorem indent_eq_zero (line : List Char) :
    (strip line).length - (lstrip (strip line)).length = 0 := by
  rw [lstrip_strip]
  omega

theorem unindented_iff (line : List Char) :
    line.length - (lstrip line).length ≤ 0 ↔ lstrip line = line := by
  have hsuffix : lstrip line <:+ line := List.dropWhile_suffix isSpace
  constructor
  · intro h
    exact hsuffix.eq_of_length_le (by omega)
  · intro h
    rw [h]
    omega

theorem listItemEnd_succ (fuel : Nat) {j : Nat} (hj : j < ls.length) :
    listItemEnd ls 0 (fuel + 1) j =
      if endsItem ls j = true then j else listItemEnd ls 0 fuel (j + 1) := by
  have hspace : (strip (lineAt ls j)).head? ≠ some ' ' := by
    intro hhead
    have hnot := isSpace_of_head?_strip hhead
    revert hnot
    decide
  rw [listItemEnd, if_pos hj]
  simp only [unindented_iff, strip_eq_nil_iff, endsItem]
  by_cases hblank : blank (lineAt ls j) = true
  · simp [hblank]
  · by_cases hindent : lstrip (lineAt ls j) = lineAt ls j
    · have hzero := (unindented_iff (lineAt ls j)).mpr hindent
      simp [hblank, hindent, hspace]
    · have hpos : 0 < (lineAt ls j).length - (lstrip (lineAt ls j)).length :=
        Nat.pos_of_ne_zero fun h => hindent ((unindented_iff _).mp (Nat.le_of_eq h))
      simp [hblank, hindent, hpos]

theorem listItemEnd_stops (fuel : Nat) {j : Nat} (hj : j ≤ ls.length)
    (hfuel : ls.length ≤ j + fuel) :
    j ≤ listItemEnd ls 0 fuel j ∧ listItemEnd ls 0 fuel j ≤ ls.length ∧
      (∀ k, j ≤ k → k < listItemEnd ls 0 fuel j → endsItem ls k = false) ∧
      (listItemEnd ls 0 fuel j < ls.length → endsItem ls (listItemEnd ls 0 fuel j) = true) := by
  induction fuel generalizing j with
  | zero => exact ⟨Nat.le_refl j, hj, fun k hjk hkj => absurd hkj (Nat.not_lt.mpr hjk),
      fun hlt => absurd hlt (Nat.not_lt.mpr hfuel)⟩
  | succ fuel ih =>
    rcases Nat.eq_or_lt_of_le hj with rfl | hlt
    · have hend : listItemEnd ls 0 (fuel + 1) ls.length = ls.length := by
        rw [listItemEnd, if_neg (Nat.lt_irrefl _)]
      rw [hend]
      exact ⟨Nat.le_refl _, Nat.le_refl _, fun k hjk hkj => absurd hkj (Nat.not_lt.mpr hjk),
        fun hlt => absurd hlt (Nat.lt_irrefl _)⟩
    · rw [listItemEnd_succ fuel hlt]
      split
      · rename_i hends
        exact ⟨Nat.le_refl j, hj, fun k hjk hkj => absurd hkj (Nat.not_lt.mpr hjk),
          fun _ => hends⟩
      · rename_i hends
        obtain ⟨hle, hbound, hinside, hstop⟩ := ih (j := j + 1) hlt (by omega)
        refine ⟨by omega, hbound, ?_, hstop⟩
        intro k hjk hk
        rcases Nat.eq_or_lt_of_le hjk with rfl | hlt'
        · exact Bool.not_eq_true _ |>.mp hends
        · exact hinside k hlt' hk

/-- The lines that start an item, from line `i` on. -/
def markersFrom (ls : List (List Char)) (i : Nat) : List Nat :=
  (List.range' i (ls.length - i)).filter (isMarker ls)

theorem markersFrom_skip {i j : Nat} (hij : i ≤ j) (hj : j ≤ ls.length)
    (hnone : ∀ k, i ≤ k → k < j → isMarker ls k = false) :
    markersFrom ls i = markersFrom ls j := by
  have hsplit : ls.length - i = (j - i) + (ls.length - j) := by omega
  have hbegin : i + (j - i) = j := by omega
  have hfront : (List.range' i (j - i)).filter (isMarker ls) = [] := by
    rw [List.filter_eq_nil_iff]
    intro k hk
    rw [List.mem_range'_1] at hk
    simp [hnone k hk.1 (by omega)]
  rw [markersFrom, hsplit, ← List.range'_append_1, hbegin, List.filter_append, hfront]
  rfl

theorem markersFrom_marker {i : Nat} (hi : i < ls.length) (h : isMarker ls i = true) :
    markersFrom ls i = i :: markersFrom ls (i + 1) := by
  have hsplit : ls.length - i = (ls.length - (i + 1)) + 1 := by omega
  rw [markersFrom, hsplit, List.range'_succ, List.filter_cons_of_pos h]
  rfl

theorem listItemsFrom_markers (fuel : Nat) {i : Nat} (hi : i ≤ ls.length)
    (hfuel : ls.length ≤ i + fuel) :
    List.Forall₂ (ItemLines ls) (markersFrom ls i) (listItemsFrom ls fuel i) := by
  have hnil : markersFrom ls ls.length = [] := by
    rw [markersFrom, Nat.sub_self]
    rfl
  induction fuel generalizing i with
  | zero =>
    obtain rfl : i = ls.length := by omega
    rw [hnil]
    exact .nil
  | succ fuel ih =>
    rcases Nat.eq_or_lt_of_le hi with rfl | hlt
    · rw [hnil, listItemsFrom, if_neg (Nat.lt_irrefl _)]
      exact .nil
    · rw [listItemsFrom, if_pos hlt]
      cases hmarker : isMarker ls i with
      | false =>
        have hitem : isListItem (strip (lineAt ls i)) = false := hmarker
        have hskip : markersFrom ls i = markersFrom ls (i + 1) := by
          refine markersFrom_skip (Nat.le_succ i) hlt fun k hik hk => ?_
          obtain rfl : k = i := by omega
          exact hmarker
        simp only [hitem, hskip]
        exact ih hlt (by omega)
      | true =>
        have hitem : isListItem (strip (lineAt ls i)) = true := hmarker
        simp only [hitem, if_true, indent_eq_zero]
        have hnext : i + 1 ≤ ls.length := hlt
        obtain ⟨hle, hbound, hinside, hstop⟩ :=
          listItemEnd_stops ls.length hnext (Nat.le_add_left ls.length (i + 1))
        have hskip : markersFrom ls (i + 1) =
            markersFrom ls (listItemEnd ls 0 ls.length (i + 1)) := by
          refine markersFrom_skip hle hbound fun k hik hk => ?_
          by_contra hk'
          have hends := endsItem_of_isMarker (Bool.not_eq_false _ |>.mp hk')
          rw [hinside k hik hk] at hends
          cases hends
        rw [markersFrom_marker hlt hmarker, hskip]
        refine .cons ⟨rfl, _, rfl, hle, hbound, fun k hik hk => hinside k hik hk, hstop⟩ ?_
        exact ih hbound (by omega)

theorem ItemLines.lt_first {i i' : Nat} {r r' : Int × Int} (hlt : i < i')
    (hmarker : isMarker ls i' = true) (h : ItemLines ls i r) (h' : ItemLines ls i' r') :
    r.2 < r'.1 := by
  obtain ⟨j, hj, _, _, hinside, _⟩ := h.last
  have hle : j ≤ i' := by
    by_contra hji
    have hends := endsItem_of_isMarker hmarker
    rw [hinside i' hlt (Nat.not_le.mp hji)] at hends
    cases hends
  rw [hj, h'.first]
  omega

end

/-- One range for each line that starts an item, in order, and none reaches into another. -/
theorem extractListItems_exact (body : List Char) :
    List.Forall₂ (ItemLines (splitlines body)) (markersFrom (splitlines body) 0)
        (extractListItems body) ∧
      (extractListItems body).Pairwise (fun a b => a.2 < b.1) ∧
      ∀ r ∈ extractListItems body, InLines (splitlines body).length r := by
  have hitems : List.Forall₂ (ItemLines (splitlines body)) (markersFrom (splitlines body) 0)
      (extractListItems body) :=
    listItemsFrom_markers (splitlines body).length (Nat.zero_le _) (by omega)
  refine ⟨hitems, ?_, extractListItems_inLines body⟩
  have hsorted : (markersFrom (splitlines body) 0).Pairwise (· < ·) :=
    (List.pairwise_lt_range' 1 Nat.one_pos).filter _
  refine Correspondence.pairwise_right hitems hsorted ?_
  intro i _ i' hi' r r' hlt h h'
  exact ItemLines.lt_first hlt (List.mem_filter.mp hi').2 h h'

end GroundGraph.Ingestion
