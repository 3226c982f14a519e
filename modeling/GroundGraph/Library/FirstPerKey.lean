import Mathlib.Data.List.Induction
import Mathlib.Data.List.Nodup

/-! The first element of each key: the loop that keeps a set of the keys it has seen. -/

set_option autoImplicit false

universe u v

variable {α : Type u} {κ : Type v} [DecidableEq κ]

def firstPerKey (key : α → κ) : List κ → List α → List α
  | _, [] => []
  | seen, a :: rest =>
    if key a ∈ seen then firstPerKey key seen rest
    else a :: firstPerKey key (key a :: seen) rest

namespace FirstPerKey

variable {key : α → κ} {seen : List κ} {xs : List α} {a : α}

theorem mem_imp (h : a ∈ firstPerKey key seen xs) : a ∈ xs ∧ key a ∉ seen := by
  induction xs generalizing seen with
  | nil => cases h
  | cons x xs ih =>
    unfold firstPerKey at h
    split at h
    · obtain ⟨hmem, hseen⟩ := ih h
      exact ⟨List.mem_cons_of_mem _ hmem, hseen⟩
    · rename_i hx
      rcases List.mem_cons.mp h with rfl | h
      · exact ⟨List.mem_cons_self, hx⟩
      · obtain ⟨hmem, hseen⟩ := ih h
        exact ⟨List.mem_cons_of_mem _ hmem, fun hs => hseen (List.mem_cons_of_mem _ hs)⟩

theorem keys_nodup (key : α → κ) (seen : List κ) (xs : List α) :
    ((firstPerKey key seen xs).map key).Nodup := by
  induction xs generalizing seen with
  | nil => exact List.nodup_nil
  | cons x xs ih =>
    unfold firstPerKey
    split
    · exact ih seen
    · refine List.nodup_cons.mpr ⟨fun hmem => ?_, ih _⟩
      obtain ⟨y, hy, hkey⟩ := List.mem_map.mp hmem
      exact (mem_imp hy).2 (hkey ▸ List.mem_cons_self)

theorem exists_of_mem (h : a ∈ xs) (hseen : key a ∉ seen) :
    ∃ b ∈ firstPerKey key seen xs, key b = key a := by
  induction xs generalizing seen with
  | nil => cases h
  | cons x xs ih =>
    unfold firstPerKey
    by_cases hx : key x ∈ seen
    · rw [if_pos hx]
      rcases List.mem_cons.mp h with rfl | h
      · exact absurd hx hseen
      · exact ih h hseen
    · rw [if_neg hx]
      by_cases hkey : key a = key x
      · exact ⟨x, List.mem_cons_self, hkey.symm⟩
      · have hmem : a ∈ xs := by
          rcases List.mem_cons.mp h with rfl | h
          · exact absurd rfl hkey
          · exact h
        have hnew : key a ∉ key x :: seen := by simp [hkey, hseen]
        obtain ⟨b, hb, hbkey⟩ := ih hmem hnew
        exact ⟨b, List.mem_cons_of_mem _ hb, hbkey⟩

theorem sublist (key : α → κ) (seen : List κ) (xs : List α) :
    (firstPerKey key seen xs).Sublist xs := by
  induction xs generalizing seen with
  | nil => exact List.Sublist.refl _
  | cons x xs ih =>
    unfold firstPerKey
    split
    · exact (ih seen).cons x
    · exact (ih _).cons_cons x

theorem map {β : Type u} (f : β → α) (key : α → κ) (seen : List κ) (ys : List β) :
    firstPerKey key seen (ys.map f) = (firstPerKey (fun y => key (f y)) seen ys).map f := by
  induction ys generalizing seen with
  | nil => rfl
  | cons y ys ih =>
    rw [List.map_cons]
    unfold firstPerKey
    split
    · exact ih seen
    · rw [ih, List.map_cons]

theorem append_singleton (key : α → κ) (seen : List κ) (xs : List α) (a : α) :
    firstPerKey key seen (xs ++ [a]) =
      firstPerKey key seen xs ++ if key a ∈ seen ∨ key a ∈ xs.map key then [] else [a] := by
  induction xs generalizing seen with
  | nil =>
    by_cases ha : key a ∈ seen
    · simp [firstPerKey, ha]
    · simp [firstPerKey, ha]
  | cons x xs ih =>
    rw [List.cons_append]
    unfold firstPerKey
    by_cases hx : key x ∈ seen
    · rw [if_pos hx, if_pos hx, ih]
      by_cases hkey : key a = key x
      · simp [hkey, hx]
      · simp [hkey]
    · rw [if_neg hx, if_neg hx, ih, List.cons_append]
      simp only [List.mem_cons, List.map_cons, or_assoc, or_left_comm]

theorem mem_map_key_iff {k : κ} :
    k ∈ (firstPerKey key [] xs).map key ↔ k ∈ xs.map key := by
  constructor
  · intro h
    exact ((sublist key [] xs).map key).subset h
  · intro h
    obtain ⟨a, ha, rfl⟩ := List.mem_map.mp h
    obtain ⟨b, hb, hkey⟩ := exists_of_mem ha (List.not_mem_nil (a := key a))
    exact hkey ▸ List.mem_map_of_mem hb

theorem find?_of_mem (h : a ∈ firstPerKey key seen xs) :
    xs.find? (fun x => decide (key x = key a)) = some a := by
  induction xs generalizing seen with
  | nil => cases h
  | cons x xs ih =>
    unfold firstPerKey at h
    have hne : ∀ s, a ∈ firstPerKey key s xs → key x ∈ s → key x ≠ key a := by
      intro s hs hx heq
      exact (mem_imp hs).2 (heq ▸ hx)
    split at h
    · rename_i hx
      rw [List.find?_cons_of_neg (by simpa using hne seen h hx)]
      exact ih h
    · rcases List.mem_cons.mp h with rfl | h
      · exact List.find?_cons_of_pos (by simp)
      · rw [List.find?_cons_of_neg (by simpa using hne _ h List.mem_cons_self)]
        exact ih h

theorem exists_rel {r : α → α → Prop} (hr : ∀ x, r x x) (hsorted : xs.Pairwise r) (h : a ∈ xs)
    (hseen : key a ∉ seen) : ∃ b ∈ firstPerKey key seen xs, key b = key a ∧ r b a := by
  induction xs generalizing seen with
  | nil => cases h
  | cons x xs ih =>
    obtain ⟨hx, hxs⟩ := List.pairwise_cons.mp hsorted
    unfold firstPerKey
    by_cases hold : key x ∈ seen
    · rw [if_pos hold]
      rcases List.mem_cons.mp h with rfl | h
      · exact absurd hold hseen
      · exact ih hxs h hseen
    · rw [if_neg hold]
      rcases List.mem_cons.mp h with rfl | h
      · exact ⟨a, List.mem_cons_self, rfl, hr a⟩
      · by_cases hkey : key a = key x
        · exact ⟨x, List.mem_cons_self, hkey.symm, hx a h⟩
        · have hnew : key a ∉ key x :: seen := by simp [hkey, hseen]
          obtain ⟨b, hb, hbkey, hba⟩ := ih hxs h hnew
          exact ⟨b, List.mem_cons_of_mem _ hb, hbkey, hba⟩

theorem pairwise_idxOf (key : α → κ) (xs : List α) :
    (firstPerKey key [] xs).Pairwise fun a b =>
      (xs.map key).idxOf (key a) < (xs.map key).idxOf (key b) := by
  induction xs using List.reverseRecOn with
  | nil => exact List.Pairwise.nil
  | append_singleton xs x ih =>
    have hmem : ∀ a ∈ firstPerKey key [] xs, key a ∈ xs.map key := fun a ha =>
      List.mem_map_of_mem (mem_imp ha).1
    have hold : ∀ a ∈ firstPerKey key [] xs,
        ((xs ++ [x]).map key).idxOf (key a) = (xs.map key).idxOf (key a) := by
      intro a ha
      rw [List.map_append, List.idxOf_append_of_mem (hmem a ha)]
    rw [append_singleton]
    refine List.pairwise_append.mpr ⟨?_, ?_, ?_⟩
    · refine ih.imp_of_mem ?_
      intro a b ha hb hlt
      rw [hold a ha, hold b hb]
      exact hlt
    · split
      · exact List.Pairwise.nil
      · exact List.pairwise_singleton _ _
    · intro a ha b hb
      split at hb
      · cases hb
      · rename_i hnew
        obtain rfl := List.mem_singleton.mp hb
        have hlast : key b ∉ xs.map key := fun hmem => hnew (Or.inr hmem)
        rw [hold a ha, List.map_append, List.idxOf_append_of_notMem hlast]
        exact Nat.lt_of_lt_of_le (List.idxOf_lt_length_of_mem (hmem a ha)) (Nat.le_add_right _ _)

theorem eq_nil_iff : firstPerKey key [] xs = [] ↔ xs = [] := by
  cases xs with
  | nil => simp [firstPerKey]
  | cons x xs => simp [firstPerKey]

end FirstPerKey
