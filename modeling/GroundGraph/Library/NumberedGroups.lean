import Mathlib.Data.List.Basic

/-! Groups laid one behind the other, each member with the number of its group. The place of a
member is the number of its group just as long as the groups in front have one member each.
-/

set_option autoImplicit false

universe u

namespace NumberedGroups

variable {α : Type u}

def numbered : Nat → List (List α) → List (α × Nat)
  | _, [] => []
  | start, g :: rest => g.map (fun x => (x, start)) ++ numbered (start + 1) rest

variable {groups : List (List α)}

theorem map_fst_numbered (start : Nat) (groups : List (List α)) :
    (numbered start groups).map Prod.fst = groups.flatten := by
  induction groups generalizing start with
  | nil => rfl
  | cons g rest ih => simp [numbered, ih, Function.comp_def]

theorem number_le (hne : ∀ g ∈ groups, g ≠ []) {start k : Nat} {x : α} {n : Nat}
    (h : (numbered start groups)[k]? = some (x, n)) : n ≤ start + k := by
  induction groups generalizing start k with
  | nil => simp [numbered] at h
  | cons g rest ih =>
    obtain ⟨hg, hrest⟩ := List.forall_mem_cons.mp hne
    have hpos := List.length_pos_of_ne_nil hg
    rw [numbered] at h
    rcases Nat.lt_or_ge k g.length with hk | hk
    · rw [List.getElem?_append_left (by simpa using hk), List.getElem?_map] at h
      obtain ⟨y, _, hy⟩ := Option.map_eq_some_iff.mp h
      have hn := (Prod.mk.inj hy).2
      omega
    · rw [List.getElem?_append_right (by simpa using hk), List.length_map] at h
      have hle := ih hrest h
      omega

/-- Member `k` is in group `k` if and only if it begins this group and those in front of it have
one member each. -/
theorem numbered_at_iff (hne : ∀ g ∈ groups, g ≠ []) {start k : Nat} {x : α} :
    (numbered start groups)[k]? = some (x, start + k) ↔
      (∀ g ∈ groups.take k, g.length = 1) ∧ (groups[k]?.bind List.head?) = some x := by
  induction groups generalizing start k with
  | nil => simp [numbered]
  | cons g rest ih =>
    obtain ⟨hg, hrest⟩ := List.forall_mem_cons.mp hne
    obtain ⟨y, ys, rfl⟩ := List.exists_cons_of_ne_nil hg
    cases k with
    | zero => simp [numbered]
    | succ k =>
      have hnumber : start + (k + 1) = start + 1 + k := by omega
      rw [List.take_succ_cons, List.forall_mem_cons, List.getElem?_cons_succ, hnumber]
      cases ys with
      | nil => simpa [numbered] using ih hrest
      | cons z zs =>
        -- a longer group moves what follows it too far to the back
        have hlong : ¬ (y :: z :: zs).length = 1 := by simp
        have hnot : (numbered start ((y :: z :: zs) :: rest))[k + 1]? ≠ some (x, start + 1 + k) := by
          intro h
          rw [numbered] at h
          rcases Nat.lt_or_ge (k + 1) (y :: z :: zs).length with hk | hk
          · rw [List.getElem?_append_left (by simpa using hk), List.getElem?_map] at h
            obtain ⟨w, _, hw⟩ := Option.map_eq_some_iff.mp h
            have hn := (Prod.mk.inj hw).2
            omega
          · rw [List.getElem?_append_right (by simpa using hk), List.length_map] at h
            have hle := number_le hrest h
            simp only [List.length_cons] at hle hk
            omega
        simp [hnot]

end NumberedGroups
