import Mathlib.Data.Option.Basic

/-! Loops: a step that may say that there is no further pass, and a number of passes
that is enough for the loop to end. -/

set_option autoImplicit false

universe u v

namespace Iteration

variable {σ : Type u} {τ : Type v}

def run (step : σ → Option σ) : Nat → σ → σ
  | 0, s => s
  | fuel + 1, s =>
    match step s with
    | none => s
    | some s' => run step fuel s'

inductive Reaches (step : σ → Option σ) (s : σ) : σ → Prop
  | refl : Reaches step s s
  | tail {t t' : σ} (h : Reaches step s t) (hstep : step t = some t') : Reaches step s t'

/-- The states at the head of the loop, with the passes taken so far. -/
inductive Passes (step : σ → Option σ) (s : σ) : Nat → σ → Prop
  | zero : Passes step s 0 s
  | succ {n : Nat} {t t' : σ} (h : Passes step s n t) (hstep : step t = some t') :
      Passes step s (n + 1) t'

variable {step : σ → Option σ}

theorem Reaches.head {s s' t : σ} (hstep : step s = some s') (h : Reaches step s' t) :
    Reaches step s t := by
  induction h with
  | refl => exact .tail .refl hstep
  | tail _ ht ih => exact .tail ih ht

theorem Reaches.trans {s t u : σ} (h : Reaches step s t) (h' : Reaches step t u) :
    Reaches step s u := by
  induction h' with
  | refl => exact h
  | tail _ hstep ih => exact .tail ih hstep

theorem Reaches.preserves (P : σ → Prop) (hP : ∀ s s', P s → step s = some s' → P s') {s t : σ}
    (h : Reaches step s t) (hs : P s) : P t := by
  induction h with
  | refl => exact hs
  | tail _ hstep ih => exact hP _ _ ih hstep

theorem reaches_run (fuel : Nat) (s : σ) : Reaches step s (run step fuel s) := by
  induction fuel generalizing s with
  | zero => exact .refl
  | succ fuel ih =>
    simp only [run]
    cases hstep : step s with
    | none => exact .refl
    | some s' => exact .head hstep (ih s')

theorem run_preserves (P : σ → Prop) (hP : ∀ s s', P s → step s = some s' → P s') (fuel : Nat)
    (s : σ) (hs : P s) : P (run step fuel s) :=
  (reaches_run fuel s).preserves P hP hs

theorem Passes.preserves (P : Nat → σ → Prop)
    (hP : ∀ n s s', P n s → step s = some s' → P (n + 1) s') {s t : σ} {n : Nat}
    (h : Passes step s n t) (hs : P 0 s) : P n t := by
  induction h with
  | zero => exact hs
  | succ _ hstep ih => exact hP _ _ _ ih hstep

/-- The loop ends when every pass, from the states an invariant allows, lowers a number
that is at most the fuel. -/
theorem step_run_eq_none_of (P : σ → Prop) (hP : ∀ s s', P s → step s = some s' → P s')
    (rank : σ → Nat) (hrank : ∀ s s', P s → step s = some s' → rank s' < rank s)
    (fuel : Nat) (s : σ) (hs : P s) (hfuel : rank s ≤ fuel) : step (run step fuel s) = none := by
  induction fuel generalizing s with
  | zero =>
    simp only [run]
    cases hstep : step s with
    | none => rfl
    | some s' => exact absurd (hrank s s' hs hstep) (by omega)
  | succ fuel ih =>
    simp only [run]
    cases hstep : step s with
    | none => exact hstep
    | some s' =>
      have hlt := hrank s s' hs hstep
      exact ih s' (hP s s' hs hstep) (by omega)

theorem step_run_eq_none (rank : σ → Nat) (hrank : ∀ s s', step s = some s' → rank s' < rank s)
    (fuel : Nat) (s : σ) (hfuel : rank s ≤ fuel) : step (run step fuel s) = none :=
  step_run_eq_none_of (fun _ => True) (fun _ _ _ _ => trivial) rank (fun s s' _ => hrank s s') fuel s
    trivial hfuel

/-- A loop that has ended went through every state that can be reached. -/
theorem Reaches.reaches_end {s t e : σ} (h : Reaches step s t) (hend : Reaches step s e)
    (hstop : step e = none) : Reaches step t e := by
  induction h with
  | refl => exact hend
  | tail _ hstep ih =>
    rename_i t₀ t₁ _
    have hsplit : ∀ {x}, Reaches step t₀ x → x = t₀ ∨ Reaches step t₁ x := by
      intro x hx
      induction hx with
      | refl => exact Or.inl rfl
      | tail _ hx ih =>
        rcases ih with rfl | ih
        · rw [hstep] at hx
          obtain rfl := Option.some.inj hx
          exact Or.inr .refl
        · exact Or.inr (.tail ih hx)
    rcases hsplit ih with rfl | h
    · rw [hstep] at hstop
      cases hstop
    · exact h

theorem Reaches.eq_of_end {s t : σ} (h : Reaches step s t) (hstop : step s = none) : t = s := by
  induction h with
  | refl => rfl
  | tail _ hstep ih =>
    rw [ih, hstop] at hstep
    cases hstep

theorem Reaches.end_unique {s t e : σ} (h : Reaches step s t) (hstop : step t = none)
    (h' : Reaches step s e) (hstop' : step e = none) : t = e :=
  ((h.reaches_end h' hstop').eq_of_end hstop).symm

theorem run_related (R : σ → τ → Prop) {step' : τ → Option τ}
    (hR : ∀ s t, R s t → Option.Rel R (step s) (step' t)) (fuel : Nat) (s : σ) (t : τ)
    (h : R s t) : R (run step fuel s) (run step' fuel t) := by
  induction fuel generalizing s t with
  | zero => exact h
  | succ fuel ih =>
    have hstep := hR s t h
    simp only [run]
    generalize step s = x at hstep
    generalize step' t = y at hstep
    cases hstep with
    | none => exact h
    | some hst => exact ih _ _ hst

end Iteration
