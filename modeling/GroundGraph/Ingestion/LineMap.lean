import GroundGraph.Ingestion.Chunker
import GroundGraph.Library.LineStarts
import Mathlib.Algebra.GroupWithZero.Nat

/-! The line map of a section against where its lines begin. The map gives every line end one
character, and a line may end with two.
-/

set_option autoImplicit false

namespace GroundGraph.Ingestion

open PyText

def isCrlf (l : List Char × List Char) : Bool := decide (l.2 = ['\r', '\n'])

def crlfs (text : List Char) : Nat := (lines text).countP isCrlf

def crlfsBefore (text : List Char) (i : Nat) : Nat := ((lines text).take i).countP isCrlf

theorem crlfs_take (text : List Char) (i : Nat) :
    crlfs (text.take (lineStart text i)) = crlfsBefore text i := by
  rw [crlfs, lines_take_lineStart, crlfsBefore]

theorem lineToCharFrom_getElem? (ls : List (List Char)) (pos i : Nat) :
    (lineToCharFrom pos ls)[i]? =
      if i < ls.length then some (pos + ((ls.take i).map fun line => line.length + 1).sum)
      else none := by
  induction ls generalizing pos i with
  | nil => simp [lineToCharFrom]
  | cons line rest ih =>
    cases i with
    | zero => simp [lineToCharFrom]
    | succ i =>
      simp only [lineToCharFrom, List.getElem?_cons_succ, ih, List.length_cons,
        Nat.add_lt_add_iff_right, List.take_succ_cons, List.map_cons, List.sum_cons,
        Nat.add_assoc]

theorem crlfsBefore_succ {text : List Char} {i : Nat} {l : List Char × List Char}
    (h : (lines text)[i]? = some l) :
    crlfsBefore text (i + 1) = crlfsBefore text i + if l.2 = ['\r', '\n'] then 1 else 0 := by
  rw [crlfsBefore, List.take_add_one, h, List.countP_append]
  simp [crlfsBefore, isCrlf, List.countP_cons]

theorem sum_add_crlfsBefore {text : List Char} {i : Nat} (h : i < (lines text).length) :
    (((splitlines text).take i).map fun line => line.length + 1).sum + crlfsBefore text i =
      lineStart text i := by
  induction i with
  | zero => simp [crlfsBefore]
  | succ i ih =>
    have hget := List.getElem?_eq_getElem (Nat.lt_of_succ_lt h)
    have hline : (splitlines text)[i]? = some ((lines text)[i]).1 := by
      rw [splitlines, List.getElem?_map, hget]
      rfl
    have hprev := ih (Nat.lt_of_succ_lt h)
    have hstop := stop_length hget h
    rw [List.take_add_one, hline, crlfsBefore_succ hget, lineStart_succ hget]
    simp only [Option.toList_some, List.map_append, List.map_cons, List.map_nil, List.sum_append,
      List.sum_cons, List.sum_nil]
    split at hstop
    · rename_i hcrlf
      rw [if_pos hcrlf]
      omega
    · rename_i hcrlf
      rw [if_neg hcrlf]
      omega

theorem length_splitlines (text : List Char) :
    (splitlines text).length = (lines text).length := by
  simp [splitlines]

/-- Every line is in the map, one character too early for each such line end before it. -/
theorem buildLineToCharMap_of_lt {text : List Char} {i : Nat} (h : i < (lines text).length) :
    ∃ p, (buildLineToCharMap text)[i]? = some p ∧ p + crlfsBefore text i = lineStart text i := by
  have hsum := sum_add_crlfsBefore h
  rw [buildLineToCharMap, lineToCharFrom_getElem?, length_splitlines, if_pos h, Nat.zero_add]
  exact ⟨_, rfl, hsum⟩

theorem buildLineToCharMap_of_le {text : List Char} {i : Nat} (h : (lines text).length ≤ i) :
    (buildLineToCharMap text)[i]? = none := by
  rw [buildLineToCharMap, lineToCharFrom_getElem?, length_splitlines, if_neg (Nat.not_lt.mpr h)]

theorem lookupLine_le_length {text : List Char} (line : Int) {default : Nat}
    (h : default ≤ text.length) :
    lookupLine (buildLineToCharMap text) line default ≤ text.length := by
  unfold lookupLine
  split
  · by_cases hline : line.toNat - 1 < (lines text).length
    · obtain ⟨p, hget, hp⟩ := buildLineToCharMap_of_lt hline
      have hle := lineStart_le text (line.toNat - 1)
      rw [hget, Option.getD_some]
      omega
    · rw [buildLineToCharMap_of_le (Nat.not_lt.mp hline)]
      exact h
  · exact h

theorem protectedRange_le {text : List Char} {sectionStart : Int} {newlines : Nat}
    {item : Int × Int} {p : Nat × Nat}
    (h : protectedRange (buildLineToCharMap text) sectionStart newlines text.length item = some p) :
    p.2 ≤ text.length := by
  unfold protectedRange at h
  simp only at h
  split at h
  · cases h
  · split at h
    · cases h
    · split at h
      · obtain rfl := Option.some.inj h
        exact lookupLine_le_length _ (Nat.le_refl _)
      · cases h

theorem buildProtectedRangesChar_le {text : List Char} {content : ParsedContent}
    {sectionStart : Int} :
    ∀ p ∈ buildProtectedRangesChar text content sectionStart, p.2 ≤ text.length := by
  intro p hp
  unfold buildProtectedRangesChar at hp
  simp only [List.mem_insertionSort, List.mem_append, List.mem_filterMap] at hp
  rcases hp with (⟨item, _, h⟩ | ⟨item, _, h⟩) | ⟨item, _, h⟩
  · exact protectedRange_le h
  · exact protectedRange_le h
  · exact protectedRange_le h

/-- The map gives the beginning of a line under its own number only, and when every line end
before it is one character. -/
theorem getD_eq_start_iff {text : List Char} {k i : Nat} (hk : k ≤ i)
    (hi : i < (lines text).length) :
    ((buildLineToCharMap text)[k]?).getD 0 = lineStart text i ↔
      k = i ∧ crlfsBefore text i = 0 := by
  obtain ⟨p, hget, hp⟩ := buildLineToCharMap_of_lt (Nat.lt_of_le_of_lt hk hi)
  rw [hget, Option.getD_some]
  rcases Nat.eq_or_lt_of_le hk with rfl | hlt
  · omega
  · have hstart := lineStart_lt (Nat.lt_trans hlt hi) hlt
    omega

theorem lineStart_add_crlfsBefore_lt {text : List Char} {i k : Nat} (hik : i < k)
    (hk : k < (lines text).length) :
    lineStart text i + crlfsBefore text k < lineStart text k + crlfsBefore text i := by
  induction k with
  | zero => exact absurd hik (Nat.not_lt_zero i)
  | succ k ih =>
    have hget := List.getElem?_eq_getElem (Nat.lt_of_succ_lt hk)
    have hstop := stop_length hget hk
    rw [crlfsBefore_succ hget, lineStart_succ hget]
    have hgap : 1 + (if ((lines text)[k]).2 = ['\r', '\n'] then 1 else 0) ≤
        ((lines text)[k]).2.length := by
      split at hstop
      · rename_i hcrlf
        rw [if_pos hcrlf]
        omega
      · rename_i hcrlf
        rw [if_neg hcrlf]
        omega
    rcases Nat.lt_succ_iff_lt_or_eq.mp hik with hlt | rfl
    · have hprev := ih hlt (Nat.lt_of_succ_lt hk)
      omega
    · omega

theorem start_lt_getD {text : List Char} {i k : Nat} (hik : i < k)
    (hi : i < (lines text).length) (hcrlf : crlfsBefore text i = 0) :
    lineStart text i < ((buildLineToCharMap text)[k]?).getD text.length := by
  by_cases hk : k < (lines text).length
  · obtain ⟨p, hget, hp⟩ := buildLineToCharMap_of_lt hk
    have hlt := lineStart_add_crlfsBefore_lt hik hk
    rw [hget, Option.getD_some]
    omega
  · rw [buildLineToCharMap_of_le (Nat.not_lt.mp hk), Option.getD_none]
    exact lineStart_lt_length.mpr hi

/-- The end that the map gives under its own number is at most `slack` too early. Behind the last
line the map is not asked. -/
theorem getD_near_stop_iff {text : List Char} {k slack : Nat} :
    (lineStart text k ≤ ((buildLineToCharMap text)[k]?).getD text.length + slack ∧
        ((buildLineToCharMap text)[k]?).getD text.length ≤ lineStart text k) ↔
      (lines text).length ≤ k ∨ crlfsBefore text k ≤ slack := by
  by_cases hk : k < (lines text).length
  · obtain ⟨p, hget, hp⟩ := buildLineToCharMap_of_lt hk
    rw [hget, Option.getD_some]
    omega
  · have hle := Nat.not_lt.mp hk
    rw [buildLineToCharMap_of_le hle, Option.getD_none, lineStart_of_length_le hle]
    omega

/-- Under a smaller number it is only when the last line is nothing but its end. -/
theorem getD_near_later_stop_iff {text : List Char} {k i : Nat} {l : List Char × List Char}
    (hk : k ≤ i) (hl : (lines text)[i]? = some l) :
    (lineStart text (i + 1) ≤ ((buildLineToCharMap text)[k]?).getD text.length + l.2.length ∧
        ((buildLineToCharMap text)[k]?).getD text.length ≤ lineStart text (i + 1)) ↔
      k = i ∧ l.1 = [] ∧ crlfsBefore text i = 0 := by
  have hi := (List.getElem?_eq_some_iff.mp hl).1
  obtain ⟨p, hget, hp⟩ := buildLineToCharMap_of_lt (Nat.lt_of_le_of_lt hk hi)
  rw [hget, Option.getD_some, lineStart_succ hl, ← List.length_eq_zero_iff]
  rcases Nat.eq_or_lt_of_le hk with rfl | hlt
  · omega
  · have hstart := lineStart_lt (Nat.lt_trans hlt hi) hlt
    omega

theorem lookupLine_add_one (map : List Nat) (i default : Nat) :
    lookupLine map ((i : Int) + 1) default = (map[i]?).getD default := by
  rw [lookupLine, if_pos (by omega)]
  rfl

theorem protectedRange_eq_some_iff {map : List Nat} {sectionStart : Int}
    {newlines textLength : Nat} {item : Int × Int} {p : Nat × Nat} :
    protectedRange map sectionStart newlines textLength item = some p ↔
      ∃ i j : Nat, item.1 = sectionStart + i ∧ item.2 = sectionStart + j ∧ i ≤ newlines ∧
        (map[i]?).getD 0 = p.1 ∧ (map[j + 1]?).getD textLength = p.2 ∧ p.1 < p.2 := by
  unfold protectedRange
  simp only
  constructor
  · intro h
    split at h
    · cases h
    · rename_i hreach
      split at h
      · cases h
      · rename_i hpos
        split at h
        · rename_i hlt
          obtain rfl := Option.some.inj h
          obtain ⟨i, hi⟩ := Int.eq_ofNat_of_zero_le (a := item.1 - sectionStart) (by omega)
          obtain ⟨j, hj⟩ := Int.eq_ofNat_of_zero_le (a := item.2 - sectionStart) (by omega)
          rw [hi, hj] at hlt ⊢
          rw [lookupLine_add_one, show (j : Int) + 1 + 1 = ((j + 1 : Nat) : Int) + 1 from rfl,
            lookupLine_add_one] at hlt ⊢
          exact ⟨i, j, by omega, by omega, by omega, rfl, rfl, hlt⟩
        · cases h
  · rintro ⟨i, j, hi, hj, hle, hstart, hstop, hlt⟩
    have hrel : item.1 - sectionStart + 1 = (i : Int) + 1 := by omega
    have hrel' : item.2 - sectionStart + 1 + 1 = ((j + 1 : Nat) : Int) + 1 := by omega
    rw [if_neg (by omega), if_neg (by omega), hrel, hrel', lookupLine_add_one, lookupLine_add_one,
      hstart, hstop, if_pos hlt]

end GroundGraph.Ingestion
