import GroundGraph.Library.LabelledSystem
import Mathlib.Logic.Function.Basic

/-! A system that is followed by another one, and one to be followed by: a register for each key,
which any number of calls write. A call takes effect at one moment, after it is made and before it
is answered, and one that is never answered may have taken effect or not.
-/

set_option autoImplicit false

universe u v w x

namespace LabelledSystem

variable {σ : Type u} {α : Type v} {τ : Type w} {β : Type x}

def trace (M : LabelledSystem σ α) (f : σ → α → List β) : σ → List α → List β
  | _, [] => []
  | s, a :: as =>
    f s a ++ match M.step s a with
      | none => []
      | some t => M.trace f t as

variable (M : LabelledSystem σ α) (N : LabelledSystem τ β)

theorem run_trace {R : σ → τ → Prop} {f : σ → α → List β}
    (hstep : ∀ s a t r, R s r → M.step s a = some t → ∃ q, N.run r (f s a) = some q ∧ R t q)
    {s t : σ} {r : τ} {as : List α} (hs : R s r) (hrun : M.run s as = some t) :
    ∃ q, N.run r (M.trace f s as) = some q ∧ R t q := by
  induction as generalizing s r with
  | nil =>
    obtain rfl : s = t := by simpa using hrun
    exact ⟨r, rfl, hs⟩
  | cons a as ih =>
    obtain ⟨m, hm, ht⟩ := M.run_cons_iff.mp hrun
    obtain ⟨p, hp, hmp⟩ := hstep s a m r hs hm
    obtain ⟨q, hq, htq⟩ := ih hmp ht
    refine ⟨q, ?_, htq⟩
    simp only [trace, hm]
    exact N.run_append_iff.mpr ⟨p, hp, hq⟩

end LabelledSystem

namespace AtomicRegister

variable {κ : Type u} {ν : Type v}

structure Call (κ : Type u) (ν : Type v) where
  key : κ
  value : ν
  done : Bool := false

structure State (κ : Type u) (ν : Type v) where
  contents : κ → Option ν
  calls : List (Call κ ν) := []
  answers : List (κ × ν) := []

inductive Event (κ : Type u) (ν : Type v) where
  | call (key : κ) (value : ν)
  | effect (i : Nat)
  | answer (i : Nat)
  | giveUp (i : Nat)
  | remove (key : κ)
  deriving DecidableEq

variable [DecidableEq κ]

def step (s : State κ ν) : Event κ ν → Option (State κ ν)
  | .call key value => some { s with calls := s.calls ++ [{ key := key, value := value }] }
  | .effect i =>
    match s.calls[i]? with
    | some ⟨key, value, false⟩ =>
      some { s with
        contents := Function.update s.contents key (some value)
        calls := s.calls.set i ⟨key, value, true⟩ }
    | _ => none
  | .answer i =>
    match s.calls[i]? with
    | some ⟨key, value, true⟩ =>
      some { s with calls := s.calls.eraseIdx i, answers := s.answers ++ [(key, value)] }
    | _ => none
  | .giveUp i =>
    match s.calls[i]? with
    | some _ => some { s with calls := s.calls.eraseIdx i }
    | none => none
  | .remove key => some { s with contents := Function.update s.contents key none }

def system (κ : Type u) (ν : Type v) [DecidableEq κ] : LabelledSystem (State κ ν) (Event κ ν) where
  start := { contents := fun _ => none }
  step := step

variable {s : State κ ν} {i : Nat} {key : κ} {value : ν}

theorem step_effect (h : s.calls[i]? = some ⟨key, value, false⟩) :
    (system κ ν).step s (.effect i) = some { s with
      contents := Function.update s.contents key (some value)
      calls := s.calls.set i ⟨key, value, true⟩ } := by
  simp only [system, step, h]

theorem step_answer (h : s.calls[i]? = some ⟨key, value, true⟩) :
    (system κ ν).step s (.answer i) = some { s with
      calls := s.calls.eraseIdx i
      answers := s.answers ++ [(key, value)] } := by
  simp only [system, step, h]

theorem step_giveUp {c : Call κ ν} (h : s.calls[i]? = some c) :
    (system κ ν).step s (.giveUp i) = some { s with calls := s.calls.eraseIdx i } := by
  simp only [system, step, h]

theorem run_effect_answer (h : s.calls[i]? = some ⟨key, value, false⟩) :
    (system κ ν).run s [.effect i, .answer i] = some {
      contents := Function.update s.contents key (some value)
      calls := s.calls.eraseIdx i
      answers := s.answers ++ [(key, value)] } := by
  refine (system κ ν).run_cons_iff.mpr ⟨_, step_effect h, ?_⟩
  obtain ⟨hi, -⟩ := List.getElem?_eq_some_iff.mp h
  refine ((system κ ν).run_single (step_answer (List.getElem?_set_self hi))).trans ?_
  simp only [List.eraseIdx_set_eq]

theorem run_effect_same (h : s.calls[i]? = some ⟨key, value, false⟩)
    (hsame : s.contents key = some value) :
    (system κ ν).run s [.effect i] = some { s with calls := s.calls.set i ⟨key, value, true⟩ } := by
  refine ((system κ ν).run_single (step_effect h)).trans ?_
  rw [← hsame, Function.update_eq_self]

end AtomicRegister
