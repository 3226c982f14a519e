import Mathlib.Data.List.Nodup
import Mathlib.Data.List.Basic

/-! Elements taken key by key: the loop over the keys with a loop over all the elements in it.
Elements that come in this order already stay where they are.
-/

set_option autoImplicit false

universe u v w

namespace Grouping

variable {α : Type u} {κ : Type v} [DecidableEq κ]

def withKey (key : α → κ) (k : κ) (xs : List α) : List α := xs.filter fun x => decide (key x = k)

def grouped (key : α → κ) (ks : List κ) (xs : List α) : List α := ks.flatMap fun k => withKey key k xs

variable {key : α → κ} {k : κ} {ks : List κ} {xs ys : List α}

theorem mem_grouped {x : α} : x ∈ grouped key ks xs ↔ x ∈ xs ∧ key x ∈ ks := by
  unfold grouped withKey
  rw [List.mem_flatMap]
  constructor
  · rintro ⟨k, hk, hx⟩
    obtain ⟨hx, hkey⟩ := List.mem_filter.mp hx
    rw [of_decide_eq_true hkey]
    exact ⟨hx, hk⟩
  · rintro ⟨hx, hk⟩
    exact ⟨key x, hk, List.mem_filter.mpr ⟨hx, decide_eq_true rfl⟩⟩

theorem withKey_append : withKey key k (xs ++ ys) = withKey key k xs ++ withKey key k ys :=
  List.filter_append _ _

theorem withKey_of_forall_eq (h : ∀ x ∈ xs, key x = k) : withKey key k xs = xs :=
  List.filter_eq_self.mpr fun x hx => decide_eq_true (h x hx)

theorem withKey_of_forall_ne (h : ∀ x ∈ xs, key x ≠ k) : withKey key k xs = [] :=
  List.filter_eq_nil_iff.mpr fun x hx hkey => h x hx (of_decide_eq_true hkey)

theorem key_of_mem_withKey {x : α} (h : x ∈ withKey key k xs) : key x = k :=
  of_decide_eq_true (List.mem_filter.mp h).2

theorem withKey_grouped (hks : ks.Nodup) (hk : k ∈ ks) :
    withKey key k (grouped key ks xs) = withKey key k xs := by
  induction ks with
  | nil => cases hk
  | cons k' ks ih =>
    obtain ⟨hnew, hrest⟩ := List.nodup_cons.mp hks
    have hsplit : grouped key (k' :: ks) xs = withKey key k' xs ++ grouped key ks xs := rfl
    rw [hsplit, withKey_append]
    rcases List.mem_cons.mp hk with rfl | hk
    · have hothers : withKey key k (grouped key ks xs) = [] := by
        apply withKey_of_forall_ne
        intro x hx heq
        exact hnew (heq ▸ (mem_grouped.mp hx).2)
      rw [withKey_of_forall_eq fun _ => key_of_mem_withKey, hothers, List.append_nil]
    · have hfirst : withKey key k (withKey key k' xs) = [] := by
        apply withKey_of_forall_ne
        intro x hx heq
        rw [key_of_mem_withKey hx] at heq
        exact hnew (heq ▸ hk)
      rw [hfirst, ih hrest hk, List.nil_append]

theorem grouped_grouped (hks : ks.Nodup) :
    grouped key ks (grouped key ks xs) = grouped key ks xs := by
  unfold grouped
  apply List.flatMap_congr
  intro k hk
  exact withKey_grouped hks hk

/-- Elements whose keys come in runs, one run for each key, are grouped as they stand. -/
theorem grouped_of_runs {β : Type w} {bs : List β} {f : β → κ} {n : β → Nat}
    (hks : (bs.map f).Nodup) (h : xs.map key = bs.flatMap fun b => List.replicate (n b) (f b)) :
    grouped key (bs.map f) xs = xs := by
  induction bs generalizing xs with
  | nil =>
    obtain rfl := List.map_eq_nil_iff.mp h
    rfl
  | cons b bs ih =>
    obtain ⟨hnew, hrest⟩ := List.nodup_cons.mp hks
    obtain ⟨run, others, rfl, hrun, hothers⟩ := List.map_eq_append_iff.mp h
    have hkey : ∀ x ∈ run, key x = f b := by
      intro x hx
      exact List.eq_of_mem_replicate (hrun ▸ List.mem_map_of_mem hx)
    have hne : ∀ x ∈ others, key x ≠ f b := by
      intro x hx heq
      have hmem : key x ∈ (bs.map fun b => List.replicate (n b) (f b)).flatten :=
        hothers ▸ List.mem_map_of_mem hx
      rw [← List.flatMap_def] at hmem
      obtain ⟨b', hb', hx'⟩ := List.mem_flatMap.mp hmem
      rw [List.eq_of_mem_replicate hx'] at heq
      exact hnew (heq ▸ List.mem_map_of_mem hb')
    have hskip : grouped key (bs.map f) (run ++ others) = grouped key (bs.map f) others := by
      unfold grouped
      apply List.flatMap_congr
      intro k hk
      have hnone : withKey key k run = [] := by
        apply withKey_of_forall_ne
        intro x hx heq
        exact hnew ((hkey x hx).symm.trans heq ▸ hk)
      rw [withKey_append, hnone, List.nil_append]
    have hsplit : grouped key ((b :: bs).map f) (run ++ others) =
        withKey key (f b) (run ++ others) ++ grouped key (bs.map f) (run ++ others) := rfl
    rw [hsplit, withKey_append, withKey_of_forall_eq hkey, withKey_of_forall_ne hne, hskip,
      ih hrest hothers, List.append_nil]

end Grouping
