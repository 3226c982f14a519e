import Mathlib.Data.List.Basic
import Mathlib.Order.Basic

/-! Systems that step on labelled actions, their finite runs, and the two rules
every safety result here goes through: an invariant of the reachable states and
a preorder that no step leaves.
-/

set_option autoImplicit false

universe u v

/-- An action may be refused: `step` is then `none`. All choice (scheduling,
failures, fresh values) sits in the action, so a run is its list of actions. -/
structure LabelledSystem (σ : Type u) (α : Type v) where
  start : σ
  step : σ → α → Option σ

namespace LabelledSystem

variable {σ : Type u} {α : Type v} (M : LabelledSystem σ α)

def run : σ → List α → Option σ
  | s, [] => some s
  | s, a :: as => (M.step s a).bind fun t => run t as

@[simp] theorem run_nil (s : σ) : M.run s [] = some s := rfl

theorem run_cons_iff {s t : σ} {a : α} {as : List α} :
    M.run s (a :: as) = some t ↔ ∃ m, M.step s a = some m ∧ M.run m as = some t := by
  simp [run, Option.bind_eq_some_iff]

theorem run_append_iff {s t : σ} {as bs : List α} :
    M.run s (as ++ bs) = some t ↔ ∃ m, M.run s as = some m ∧ M.run m bs = some t := by
  induction as generalizing s with
  | nil => simp
  | cons a as ih =>
    simp only [List.cons_append, run_cons_iff, ih]
    constructor
    · rintro ⟨u, hu, m, hm, ht⟩
      exact ⟨m, ⟨u, hu, hm⟩, ht⟩
    · rintro ⟨m, ⟨u, hu, hm⟩, ht⟩
      exact ⟨u, hu, m, hm, ht⟩

theorem run_single {s t : σ} {a : α} (h : M.step s a = some t) : M.run s [a] = some t := by
  simp [run, h]

def Reachable (s : σ) : Prop := ∃ as, M.run M.start as = some s

theorem reachable_start : M.Reachable M.start := ⟨[], rfl⟩

theorem Reachable.run {s t : σ} {as : List α} (hs : M.Reachable s)
    (h : M.run s as = some t) : M.Reachable t := by
  obtain ⟨bs, hbs⟩ := hs
  exact ⟨bs ++ as, M.run_append_iff.mpr ⟨s, hbs, h⟩⟩

/-- What one step preserves, a run preserves. -/
theorem run_preserves {I : σ → Prop}
    (hstep : ∀ s a t, I s → M.step s a = some t → I t)
    {s t : σ} {as : List α} (hs : I s) (h : M.run s as = some t) : I t := by
  induction as generalizing s with
  | nil =>
    obtain rfl : s = t := by simpa using h
    exact hs
  | cons a as ih =>
    obtain ⟨m, hm, ht⟩ := M.run_cons_iff.mp h
    exact ih (hstep s a m hs hm) ht

theorem reachable_invariant {I : σ → Prop} (hstart : I M.start)
    (hstep : ∀ s a t, I s → M.step s a = some t → I t)
    {s : σ} (hs : M.Reachable s) : I s := by
  obtain ⟨as, h⟩ := hs
  exact M.run_preserves hstep hstart h

def states : σ → List α → List σ
  | s, [] => [s]
  | s, a :: as =>
    s :: match M.step s a with
      | none => []
      | some t => states t as

theorem mem_states_of_run {s t : σ} {as : List α} (h : M.run s as = some t) :
    t ∈ M.states s as := by
  induction as generalizing s with
  | nil =>
    obtain rfl : s = t := by simpa using h
    simp [states]
  | cons a as ih =>
    obtain ⟨m, hm, ht⟩ := M.run_cons_iff.mp h
    simp only [states, hm, List.mem_cons]
    exact Or.inr (ih ht)

/-- Every action is taken in a state where `Q` allows it. -/
def Along (Q : σ → α → Prop) : σ → List α → Prop
  | _, [] => True
  | s, a :: as => Q s a ∧ ∀ t, M.step s a = some t → Along Q t as

/-- If a step keeps `H` exactly when `Q` allows it, and `Q` allows what is refused anyway,
then `H` holds throughout a run exactly when `Q` allows all of it. -/
theorem holds_throughout_iff_of_refused {I H : σ → Prop} {Q : σ → α → Prop}
    (hinv : ∀ s a t, I s → M.step s a = some t → I t)
    (hrefused : ∀ s a, M.step s a = none → Q s a)
    (hstep : ∀ s a t, I s → H s → M.step s a = some t → (H t ↔ Q s a))
    {s : σ} (as : List α) (hI : I s) (hs : H s) :
    (∀ t ∈ M.states s as, H t) ↔ M.Along Q s as := by
  induction as generalizing s with
  | nil => simp [states, Along, hs]
  | cons a as ih =>
    cases hu : M.step s a with
    | none => simp [states, Along, hu, hs, hrefused s a hu]
    | some u =>
      have hkeeps := hstep s a u hI hs hu
      simp only [states, hu, List.mem_cons, forall_eq_or_imp, hs, true_and, Along]
      constructor
      · intro hall
        have hH : H u := hall u (by cases as <;> simp [states])
        refine ⟨hkeeps.mp hH, fun t ht => ?_⟩
        obtain rfl := Option.some.inj ht
        exact (ih (hinv s a u hI hu) hH).mp hall
      · rintro ⟨hQ, hrest⟩
        exact (ih (hinv s a u hI hu) (hkeeps.mpr hQ)).mpr (hrest u rfl)

theorem holds_throughout_iff {I H : σ → Prop} {Q : σ → α → Prop}
    (hinv : ∀ s a t, I s → M.step s a = some t → I t)
    (htotal : ∀ s a, ∃ t, M.step s a = some t)
    (hstep : ∀ s a t, I s → H s → M.step s a = some t → (H t ↔ Q s a))
    {s : σ} (as : List α) (hI : I s) (hs : H s) :
    (∀ t ∈ M.states s as, H t) ↔ M.Along Q s as := by
  refine M.holds_throughout_iff_of_refused hinv (fun s a hnone => ?_) hstep as hI hs
  obtain ⟨t, ht⟩ := htotal s a
  rw [hnone] at ht
  cases ht

/-- A reflexive and transitive relation that every step from an invariant state
respects relates the two ends of every run. -/
theorem run_relates {I : σ → Prop} {R : σ → σ → Prop}
    (hrefl : ∀ s, R s s) (htrans : ∀ s t u, R s t → R t u → R s u)
    (hinv : ∀ s a t, I s → M.step s a = some t → I t)
    (hstep : ∀ s a t, I s → M.step s a = some t → R s t)
    {s t : σ} {as : List α} (hs : I s) (h : M.run s as = some t) : R s t := by
  induction as generalizing s with
  | nil =>
    obtain rfl : s = t := by simpa using h
    exact hrefl s
  | cons a as ih =>
    obtain ⟨m, hm, ht⟩ := M.run_cons_iff.mp h
    exact htrans s m t (hstep s a m hs hm) (ih (hinv s a m hs hm) ht)

end LabelledSystem
