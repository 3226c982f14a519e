import Mathlib.Data.List.Basic

/-! The edit distance of two lists, and the table that computes it row by row: the cell for a
prefix of each list holds the distance of the two prefixes, kept here as reversed lists.
-/

set_option autoImplicit false

universe u

namespace EditDistance

variable {α : Type u} [DecidableEq α]

def substitution (x y : α) : Nat := if x = y then 0 else 1

/-- Insertions, deletions and substitutions, from the front. -/
def distance : List α → List α → Nat
  | [], ys => ys.length
  | xs, [] => xs.length
  | x :: xs, y :: ys =>
    min (min (distance xs (y :: ys) + 1) (distance (x :: xs) ys + 1))
      (distance xs ys + substitution x y)
termination_by xs ys => xs.length + ys.length

theorem distance_nil_left (ys : List α) : distance [] ys = ys.length := by
  simp [distance]

theorem distance_nil_right (xs : List α) : distance xs [] = xs.length := by
  cases xs <;> simp [distance]

theorem distance_cons_cons (x y : α) (xs ys : List α) :
    distance (x :: xs) (y :: ys) =
      min (min (distance xs (y :: ys) + 1) (distance (x :: xs) ys + 1))
        (distance xs ys + substitution x y) := by
  rw [distance]

theorem eq_of_distance_eq_zero {xs ys : List α} (h : distance xs ys = 0) : xs = ys := by
  induction xs generalizing ys with
  | nil =>
    rw [distance_nil_left] at h
    exact (List.eq_nil_of_length_eq_zero h).symm
  | cons x xs ih =>
    cases ys with
    | nil => simp [distance_nil_right] at h
    | cons y ys =>
      rw [distance_cons_cons] at h
      -- only the substitution costs nothing, and only for equal elements
      have hsub : distance xs ys = 0 ∧ substitution x y = 0 := by omega
      have hxy : x = y := by
        by_contra hne
        simp [substitution, hne] at hsub
      rw [hxy, ih hsub.1]

/-- The rest of a row: the cell to the left, the row above from the diagonal on, and the elements
that are left. -/
def nextCells (x : α) : Nat → List Nat → List α → List Nat
  | left, diagonal :: up :: above, y :: ys =>
    let cell := min (min (up + 1) (left + 1)) (diagonal + substitution x y)
    cell :: nextCells x cell (up :: above) ys
  | _, _, _ => []

/-- All rows, the last of them kept; `i` elements are done. -/
def lastRow (ys : List α) : Nat → List Nat → List α → List Nat
  | _, row, [] => row
  | i, row, x :: xs => lastRow ys (i + 1) ((i + 1) :: nextCells x (i + 1) row ys) xs

/-- The cells of the row for `xs` from the column `q` on. -/
def cells (xs : List α) : List α → List α → List Nat
  | q, [] => [distance xs q]
  | q, y :: ys => distance xs q :: cells xs (y :: q) ys

theorem cells_eq_cons (xs q ys : List α) : ∃ rest, cells xs q ys = distance xs q :: rest := by
  cases ys with
  | nil => exact ⟨[], rfl⟩
  | cons y ys => exact ⟨_, rfl⟩

theorem cons_nextCells (x : α) (xs q ys : List α) :
    distance (x :: xs) q :: nextCells x (distance (x :: xs) q) (cells xs q ys) ys =
      cells (x :: xs) q ys := by
  induction ys generalizing q with
  | nil => simp [cells, nextCells]
  | cons y ys ih =>
    obtain ⟨rest, hrest⟩ := cells_eq_cons xs (y :: q) ys
    have hnext := ih (y :: q)
    rw [hrest] at hnext
    simp only [cells, hrest, nextCells, ← distance_cons_cons, hnext]

theorem lastRow_cells (ys done xs : List α) :
    lastRow ys done.length (cells done [] ys) xs = cells (xs.reverse ++ done) [] ys := by
  induction xs generalizing done with
  | nil => rfl
  | cons x xs ih =>
    have hrow : (done.length + 1) :: nextCells x (done.length + 1) (cells done [] ys) ys =
        cells (x :: done) [] ys := by
      have hcons := cons_nextCells x done [] ys
      rw [distance_nil_right] at hcons
      exact hcons
    have hdone := ih (x :: done)
    rw [List.length_cons] at hdone
    rw [lastRow, hrow, hdone, List.reverse_cons, List.append_assoc, List.singleton_append]

theorem cells_nil (q ys : List α) :
    cells [] q ys = (List.range (ys.length + 1)).map fun i => q.length + i := by
  induction ys generalizing q with
  | nil => simp [cells, distance_nil_left]
  | cons y ys ih =>
    rw [cells, ih, distance_nil_left, List.length_cons, List.length_cons,
      List.range_succ_eq_map (n := ys.length + 1)]
    simp only [List.map_cons, List.map_map, Nat.add_zero]
    congr 1
    refine List.map_congr_left fun i _ => ?_
    simp only [Function.comp_apply]
    omega

theorem getLastD_cells (xs q ys : List α) :
    (cells xs q ys).getLastD 0 = distance xs (ys.reverse ++ q) := by
  induction ys generalizing q with
  | nil => rfl
  | cons y ys ih =>
    obtain ⟨rest, hrest⟩ := cells_eq_cons xs (y :: q) ys
    have hlast := ih (y :: q)
    rw [hrest] at hlast
    rw [cells, hrest, List.reverse_cons, List.append_assoc, List.singleton_append, ← hlast]
    simp [List.getLastD]

theorem getLastD_lastRow (xs ys : List α) :
    (lastRow ys 0 (List.range (ys.length + 1)) xs).getLastD 0 =
      distance xs.reverse ys.reverse := by
  have hfirst : List.range (ys.length + 1) = cells ([] : List α) [] ys := by
    rw [cells_nil]
    simp
  have hrows := lastRow_cells ys [] xs
  rw [List.length_nil, List.append_nil] at hrows
  rw [hfirst, hrows, getLastD_cells, List.append_nil]

end EditDistance
