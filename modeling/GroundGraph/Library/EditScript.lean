import GroundGraph.Library.EditDistance
import Mathlib.Order.Bounds.Basic
import Mathlib.Order.MinMax

/-! Sequences of single edits. The edit distance is the length of the shortest one that turns one
list into the other: no edit changes the distance to a third list by more than one.
-/

set_option autoImplicit false

universe u

namespace EditDistance

variable {α : Type u}

inductive Edit : List α → List α → Prop
  | insert (u v : List α) (c : α) : Edit (u ++ v) (u ++ c :: v)
  | delete (u v : List α) (c : α) : Edit (u ++ c :: v) (u ++ v)
  | substitute (u v : List α) (c d : α) : Edit (u ++ c :: v) (u ++ d :: v)

inductive Edits : Nat → List α → List α → Prop
  | refl (xs : List α) : Edits 0 xs xs
  | step {n : Nat} {xs ys zs : List α} (h : Edit xs ys) (hs : Edits n ys zs) : Edits (n + 1) xs zs

section
variable {m n : Nat} {xs ys zs : List α}

theorem Edit.symm (h : Edit xs ys) : Edit ys xs := by
  cases h with
  | insert u v c => exact .delete u v c
  | delete u v c => exact .insert u v c
  | substitute u v c d => exact .substitute u v d c

theorem Edit.cons (x : α) (h : Edit xs ys) : Edit (x :: xs) (x :: ys) := by
  cases h with
  | insert u v c => exact .insert (x :: u) v c
  | delete u v c => exact .delete (x :: u) v c
  | substitute u v c d => exact .substitute (x :: u) v c d

theorem Edit.reverse (h : Edit xs ys) : Edit xs.reverse ys.reverse := by
  cases h with
  | insert u v c => simpa using Edit.insert v.reverse u.reverse c
  | delete u v c => simpa using Edit.delete v.reverse u.reverse c
  | substitute u v c d => simpa using Edit.substitute v.reverse u.reverse c d

theorem Edits.trans (h : Edits m xs ys) (h' : Edits n ys zs) : Edits (m + n) xs zs := by
  induction h with
  | refl xs => simpa using h'
  | @step m xs _ _ hedit _ ih =>
    have hrest := Edits.step hedit (ih h')
    rwa [Nat.add_right_comm] at hrest

theorem Edits.symm (h : Edits n xs ys) : Edits n ys xs := by
  induction h with
  | refl xs => exact .refl xs
  | step hedit _ ih => exact ih.trans (.step hedit.symm (.refl _))

theorem Edits.cons (x : α) (h : Edits n xs ys) : Edits n (x :: xs) (x :: ys) := by
  induction h with
  | refl xs => exact .refl _
  | step hedit _ ih => exact .step (hedit.cons x) ih

theorem Edits.reverse (h : Edits n xs ys) : Edits n xs.reverse ys.reverse := by
  induction h with
  | refl xs => exact .refl _
  | step hedit _ ih => exact .step hedit.reverse ih

theorem edits_reverse_iff : Edits n xs.reverse ys.reverse ↔ Edits n xs ys := by
  constructor
  · intro h
    simpa using h.reverse
  · exact Edits.reverse

theorem edits_nil (ys : List α) : Edits ys.length [] ys := by
  induction ys with
  | nil => exact .refl []
  | cons y ys ih => exact .step (.insert [] [] y) (ih.cons y)

end

section
variable [DecidableEq α] {n : Nat} {xs ys zs : List α}

theorem substitution_comm (x y : α) : substitution x y = substitution y x := by
  simp [substitution, eq_comm]

theorem substitution_le_one (x y : α) : substitution x y ≤ 1 := by
  unfold substitution
  split <;> omega

theorem distance_comm (xs ys : List α) : distance xs ys = distance ys xs := by
  induction xs, ys using distance.induct with
  | case1 ys => rw [distance_nil_left, distance_nil_right]
  | case2 xs _ => rw [distance_nil_right, distance_nil_left]
  | case3 x xs y ys hdelete hinsert hboth =>
    rw [distance_cons_cons, distance_cons_cons, hdelete, hinsert, hboth, substitution_comm]
    omega

theorem distance_cons_le (x : α) (xs zs : List α) :
    distance (x :: xs) zs ≤ distance xs zs + 1 := by
  cases zs with
  | nil => simp [distance_nil_right]
  | cons z zs =>
    rw [distance_cons_cons]
    omega

theorem distance_le_cons (x : α) (xs zs : List α) :
    distance xs zs ≤ distance (x :: xs) zs + 1 := by
  induction zs with
  | nil =>
    simp only [distance_nil_right, List.length_cons]
    omega
  | cons z zs ih =>
    have hlonger : distance xs (z :: zs) ≤ distance xs zs + 1 := by
      rw [distance_comm xs, distance_comm xs]
      exact distance_cons_le z zs xs
    rw [distance_cons_cons]
    omega

theorem distance_substitute_le (c d : α) (v zs : List α) :
    distance (c :: v) zs ≤ distance (d :: v) zs + 1 := by
  induction zs with
  | nil => simp [distance_nil_right]
  | cons z zs ih =>
    have hone := substitution_le_one c z
    rw [distance_cons_cons, distance_cons_cons]
    omega

/-- What holds behind a common front holds with it. -/
theorem distance_append_le {v w : List α} (h : ∀ zs, distance v zs ≤ distance w zs + 1)
    (u zs : List α) : distance (u ++ v) zs ≤ distance (u ++ w) zs + 1 := by
  induction u generalizing zs with
  | nil => exact h zs
  | cons x u ih =>
    induction zs with
    | nil =>
      have hlength := ih []
      simp only [distance_nil_right, List.cons_append, List.length_cons] at hlength ⊢
      omega
    | cons z zs ihzs =>
      have hwhole := ih (z :: zs)
      have hrest := ih zs
      rw [List.cons_append, List.cons_append] at ihzs ⊢
      rw [distance_cons_cons, distance_cons_cons]
      omega

theorem distance_le_of_edit (h : Edit xs ys) (zs : List α) :
    distance xs zs ≤ distance ys zs + 1 := by
  cases h with
  | insert u v c => exact distance_append_le (distance_le_cons c v) u zs
  | delete u v c => exact distance_append_le (distance_cons_le c v) u zs
  | substitute u v c d => exact distance_append_le (distance_substitute_le c d v) u zs

theorem distance_le_of_edits (h : Edits n xs ys) (zs : List α) :
    distance xs zs ≤ distance ys zs + n := by
  induction h with
  | refl xs => exact Nat.le_refl _
  | step hedit _ ih =>
    have hone := distance_le_of_edit hedit zs
    omega

theorem distance_self (xs : List α) : distance xs xs = 0 := by
  induction xs with
  | nil => rw [distance_nil_left, List.length_nil]
  | cons x xs ih =>
    rw [distance_cons_cons, ih]
    simp [substitution]

/-- As many edits as the distance are enough. -/
theorem edits_distance (xs ys : List α) : Edits (distance xs ys) xs ys := by
  induction xs, ys using distance.induct with
  | case1 ys =>
    rw [distance_nil_left]
    exact edits_nil ys
  | case2 xs _ =>
    rw [distance_nil_right]
    exact (edits_nil xs).symm
  | case3 x xs y ys hdelete hinsert hboth =>
    have hdeleted : Edits (distance xs (y :: ys) + 1) (x :: xs) (y :: ys) :=
      .step (.delete [] xs x) hdelete
    have hinserted : Edits (distance (x :: xs) ys + 1) (x :: xs) (y :: ys) :=
      .step (.insert [] (x :: xs) y) (hinsert.cons y)
    have hsubstituted : Edits (distance xs ys + substitution x y) (x :: xs) (y :: ys) := by
      by_cases hxy : x = y
      · subst hxy
        simpa [substitution] using hboth.cons x
      · simpa [substitution, hxy] using Edits.step (.substitute [] xs x y) (hboth.cons y)
    rw [distance_cons_cons]
    let enough := fun n => Edits n (x :: xs) (y :: ys)
    exact min_rec' enough (min_rec' enough hdeleted hinserted) hsubstituted

/-- The distance is the least number of edits. -/
theorem distance_isLeast (xs ys : List α) : IsLeast {n | Edits n xs ys} (distance xs ys) := by
  refine ⟨edits_distance xs ys, ?_⟩
  intro n h
  have hle := distance_le_of_edits h ys
  rw [distance_self] at hle
  omega

theorem distance_reverse (xs ys : List α) : distance xs.reverse ys.reverse = distance xs ys := by
  have hleast := distance_isLeast xs.reverse ys.reverse
  simp only [edits_reverse_iff] at hleast
  exact hleast.unique (distance_isLeast xs ys)

theorem distance_eq_zero_iff : distance xs ys = 0 ↔ xs = ys := by
  constructor
  · exact eq_of_distance_eq_zero
  · rintro rfl
    exact distance_self xs

theorem distance_le_length (xs ys : List α) : distance xs ys ≤ max xs.length ys.length := by
  induction xs generalizing ys with
  | nil =>
    rw [distance_nil_left]
    exact Nat.le_max_right _ _
  | cons x xs ih =>
    cases ys with
    | nil =>
      rw [distance_nil_right]
      exact Nat.le_max_left _ _
    | cons y ys =>
      have hrest := ih ys
      have hone := substitution_le_one x y
      simp only [distance_cons_cons, List.length_cons]
      omega

theorem distance_triangle (xs ys zs : List α) :
    distance xs zs ≤ distance xs ys + distance ys zs :=
  (distance_isLeast xs zs).2 ((edits_distance xs ys).trans (edits_distance ys zs))

end

end EditDistance
