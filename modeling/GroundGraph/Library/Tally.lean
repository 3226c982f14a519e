import GroundGraph.Library.FirstPerKey
import GroundGraph.Library.KeyedTable
import Mathlib.Algebra.BigOperators.Group.List.Basic

/-! Counting into a table: an element opens the row of its key if there is none, and is added to
that row. The loop over a list leaves one row for each key, in the order in which the keys turn
up, and each row has had the elements of its key added to it and no others.
-/

set_option autoImplicit false

universe u v w x

structure Tally {κ : Type u} {ρ : Type v} (key : ρ → κ) (α : Type w) where
  start : α → ρ
  add : α → ρ → ρ
  key_add : ∀ a r, key (add a r) = key r

namespace Tally

variable {κ : Type u} {ρ : Type v} {key : ρ → κ} {α : Type w} [DecidableEq κ]
variable (T : Tally key α)

def keyOf (a : α) : κ := key (T.start a)

def step (t : KeyedTable key) (a : α) : KeyedTable key :=
  (t.setDefault (T.start a)).modifyAt (T.keyOf a) (T.add a) (T.key_add a)

/-- The row `r` after the element `a`. -/
def addTo (a : α) (r : ρ) : ρ := if T.keyOf a = key r then T.add a r else r

def total (xs : List α) (r : ρ) : ρ := xs.foldl (fun r a => T.addTo a r) r

theorem key_addTo (a : α) (r : ρ) : key (T.addTo a r) = key r := by
  unfold addTo
  split
  · exact T.key_add a r
  · rfl

theorem key_total (xs : List α) (r : ρ) : key (T.total xs r) = key r := by
  induction xs generalizing r with
  | nil => rfl
  | cons a xs ih => exact (ih _).trans (T.key_addTo a r)

theorem total_append_singleton (xs : List α) (a : α) (r : ρ) :
    T.total (xs ++ [a]) r = T.addTo a (T.total xs r) :=
  List.foldl_concat _ _ _ _

theorem total_of_forall_ne {xs : List α} {r : ρ} (h : ∀ a ∈ xs, T.keyOf a ≠ key r) :
    T.total xs r = r := by
  induction xs with
  | nil => rfl
  | cons a xs ih =>
    have ha : T.addTo a r = r := if_neg (h a List.mem_cons_self)
    have hrest := ih fun b hb => h b (List.mem_cons_of_mem _ hb)
    rw [total, List.foldl_cons, ha]
    exact hrest

theorem rows_step (t : KeyedTable key) (a : α) :
    (T.step t a).rows =
      t.rows.map (T.addTo a) ++ if T.keyOf a ∈ t.rows.map key then [] else [T.add a (T.start a)] := by
  have hflip : (fun r => if key r = T.keyOf a then T.add a r else r) = T.addTo a := by
    funext r
    simp only [addTo, eq_comm]
  have hself : T.addTo a (T.start a) = T.add a (T.start a) := if_pos rfl
  unfold step KeyedTable.setDefault KeyedTable.modifyAt
  rw [KeyedTable.rows_modify, hflip]
  by_cases hmem : key (T.start a) ∈ t.rows.map key
  · rw [dif_pos hmem, keyOf, if_pos hmem, List.append_nil]
  · rw [dif_neg hmem, keyOf, if_neg hmem, KeyedTable.rows_append, List.map_append,
      List.map_singleton, hself]

theorem rows_foldl (xs : List α) :
    (xs.foldl T.step KeyedTable.empty).rows =
      (firstPerKey T.keyOf [] xs).map fun a => T.total xs (T.start a) := by
  induction xs using List.reverseRecOn with
  | nil => rfl
  | append_singleton xs a ih =>
    have hkeys : (xs.foldl T.step KeyedTable.empty).rows.map key =
        (firstPerKey T.keyOf [] xs).map T.keyOf := by
      rw [ih, List.map_map]
      exact List.map_congr_left fun b _ => T.key_total xs (T.start b)
    rw [List.foldl_concat, rows_step, hkeys, FirstPerKey.append_singleton, List.map_append, ih,
      List.map_map]
    congr 1
    · exact List.map_congr_left fun b _ => (T.total_append_singleton xs a (T.start b)).symm
    · simp only [List.not_mem_nil, false_or, FirstPerKey.mem_map_key_iff]
      split
      · rfl
      · rename_i hnew
        have htotal : T.total xs (T.start a) = T.start a := by
          apply T.total_of_forall_ne
          intro b hb hkey
          exact hnew (List.mem_map.mpr ⟨b, hb, hkey⟩)
        have hself : T.addTo a (T.start a) = T.add a (T.start a) := if_pos rfl
        rw [List.map_singleton, total_append_singleton, htotal, hself]

theorem total_frame {β : Type x} {g : ρ → β} (hg : ∀ a r, g (T.add a r) = g r) (xs : List α) (r : ρ) :
    g (T.total xs r) = g r := by
  induction xs generalizing r with
  | nil => rfl
  | cons a xs ih =>
    have ha : g (T.addTo a r) = g r := by
      unfold addTo
      split
      · exact hg a r
      · rfl
    exact (ih _).trans ha

theorem total_last {β : Type x} (g : ρ → β) (writes : α → Bool) (value : α → β)
    (hwrites : ∀ a r, writes a = true → g (T.add a r) = value a)
    (hother : ∀ a r, writes a = false → g (T.add a r) = g r) (xs : List α) (r : ρ) :
    g (T.total xs r) =
      ((xs.reverse.find? fun a => writes a && decide (T.keyOf a = key r)).map value).getD (g r) := by
  induction xs using List.reverseRecOn with
  | nil => rfl
  | append_singleton xs a ih =>
    rw [total_append_singleton, List.reverse_append, List.reverse_singleton, List.singleton_append]
    unfold addTo
    rw [T.key_total xs r]
    by_cases ha : T.keyOf a = key r
    · cases hw : writes a with
      | true =>
        rw [if_pos ha, hwrites _ _ hw, List.find?_cons_of_pos (by simp [hw, ha])]
        rfl
      | false => rw [if_pos ha, hother _ _ hw, ih, List.find?_cons_of_neg (by simp [hw])]
    · rw [if_neg ha, ih, List.find?_cons_of_neg (by simp [ha])]

theorem total_sum {M : Type x} [AddCommMonoid M] (score : ρ → M) (weight : α → M)
    (h : ∀ a r, score (T.add a r) = score r + weight a) (xs : List α) (r : ρ) :
    score (T.total xs r) =
      score r + ((xs.filter fun a => decide (T.keyOf a = key r)).map weight).sum := by
  induction xs generalizing r with
  | nil => exact (add_zero _).symm
  | cons a xs ih =>
    have htotal : T.total (a :: xs) r = T.total xs (T.addTo a r) := rfl
    rw [htotal, ih, T.key_addTo a r]
    by_cases ha : T.keyOf a = key r
    · rw [List.filter_cons_of_pos (by simpa using ha), List.map_cons, List.sum_cons, addTo, if_pos ha,
        h, add_assoc]
    · rw [List.filter_cons_of_neg (by simpa using ha), addTo, if_neg ha]

end Tally
