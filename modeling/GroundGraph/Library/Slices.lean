import GroundGraph.Library.LabelledSystem

/-! A part of the state that only some of the actions concern. Where the others leave the part as
it is, and those actions do to the part what they do to the whole, the part of the state after a
run is the state after the run of those actions alone. Of an action, too, the part may see only
some.
-/

set_option autoImplicit false

universe u v

namespace LabelledSystem

variable {σ : Type u} {α : Type v} (M : LabelledSystem σ α)

theorem run_congr (N : LabelledSystem σ α) (h : M.step = N.step) (s : σ) (as : List α) :
    M.run s as = N.run s as := by
  induction as generalizing s with
  | nil => rfl
  | cons a as ih => simp only [run, h, ih]

theorem run_preserves_of {I : σ → Prop} {Q : α → Prop}
    (hstep : ∀ s a t, I s → Q a → M.step s a = some t → I t) {s t : σ} {as : List α} (hs : I s)
    (hQ : ∀ a ∈ as, Q a) (hrun : M.run s as = some t) : I t := by
  induction as generalizing s with
  | nil =>
    obtain rfl : s = t := by simpa using hrun
    exact hs
  | cons a as ih =>
    obtain ⟨m, hm, ht⟩ := M.run_cons_iff.mp hrun
    exact ih (hstep s a m hs (hQ a List.mem_cons_self) hm)
      (fun b hb => hQ b (List.mem_cons_of_mem _ hb)) ht

/-- `Q` is what is known of the actions, `I` what it keeps of the state; `view` is what the part
sees of an action. -/
structure Slice (I : σ → Prop) (Q : α → Prop) (part : σ → σ) (visible : α → Bool) (view : α → α) :
    Prop where
  keeps : ∀ s a t, I s → Q a → M.step s a = some t → I t
  hidden : ∀ s a t, I s → Q a → visible a = false → M.step s a = some t → part t = part s
  visible : ∀ s a t, I s → Q a → visible a = true → M.step s a = some t →
    M.step (part s) (view a) = some (part t)

variable {M} {I : σ → Prop} {Q : α → Prop} {part : σ → σ} {visible : α → Bool} {view : α → α}

theorem Slice.run (h : M.Slice I Q part visible view) {s t : σ} {as : List α} (hs : I s)
    (hQ : ∀ a ∈ as, Q a) (hrun : M.run s as = some t) :
    I t ∧ M.run (part s) ((as.filter visible).map view) = some (part t) := by
  induction as generalizing s with
  | nil =>
    obtain rfl : s = t := by simpa using hrun
    exact ⟨hs, rfl⟩
  | cons a as ih =>
    obtain ⟨m, hm, ht⟩ := M.run_cons_iff.mp hrun
    have ha := hQ a List.mem_cons_self
    obtain ⟨hI, hrest⟩ := ih (h.keeps s a m hs ha hm)
      (fun b hb => hQ b (List.mem_cons_of_mem _ hb)) ht
    refine ⟨hI, ?_⟩
    cases hvisible : visible a with
    | false =>
      rw [List.filter_cons_of_neg (by simp [hvisible]), ← h.hidden s a m hs ha hvisible hm]
      exact hrest
    | true =>
      rw [List.filter_cons_of_pos hvisible, List.map_cons]
      exact M.run_cons_iff.mpr ⟨part m, h.visible s a m hs ha hvisible hm, hrest⟩

end LabelledSystem
