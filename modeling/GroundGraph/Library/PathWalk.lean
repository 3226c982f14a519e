import Mathlib.Data.Finset.Card
import Mathlib.Logic.Relation

/-! A walk over a finite graph that knows the nodes on the way down to where it is, and no others.
It may come to a node more than once. It fails where a node comes again on its own way down, which
happens if and only if a cycle can be reached.
-/

set_option autoImplicit false

universe u

namespace PathWalk

open Relation

variable {ν : Type u} (next : ν → List ν) (ok : ν → Bool)

def Leads (v w : ν) : Prop := w ∈ next v

/-- From `v` no node of the path can be reached, no cycle, and no node that fails its check. -/
def Clear (path : Finset ν) (v : ν) : Prop :=
  ∀ w, ReflTransGen (Leads next) v w → w ∉ path ∧ ok w = true ∧ ¬ TransGen (Leads next) w w

variable [DecidableEq ν]

/-- No node comes again on the way down, and each passes its own check. -/
def clear : Nat → Finset ν → ν → Bool
  | 0, _, _ => false
  | fuel + 1, path, v => decide (v ∉ path) && (ok v && (next v).all (clear fuel (insert v path)))

variable {next ok} {nodes path : Finset ν} {v : ν}

omit [DecidableEq ν] in
theorem Clear.not_mem (h : Clear next ok path v) : v ∉ path := (h v .refl).1

theorem clear_step_iff (hpath : v ∉ path) :
    Clear next ok path v ↔ ok v = true ∧ ∀ w ∈ next v, Clear next ok (insert v path) w := by
  constructor
  · intro h
    refine ⟨(h v .refl).2.1, fun w hw x hx => ?_⟩
    obtain ⟨hout, hok, hcycle⟩ := h x (.head hw hx)
    refine ⟨?_, hok, hcycle⟩
    intro hmem
    rcases Finset.mem_insert.mp hmem with rfl | hmem
    · exact hcycle (TransGen.head' hw hx)
    · exact hout hmem
  · rintro ⟨hok, hnext⟩ w hw
    rcases hw.cases_head with rfl | ⟨x, hx, hxw⟩
    · refine ⟨hpath, hok, fun hcycle => ?_⟩
      obtain ⟨x, hx, hback⟩ := TransGen.head'_iff.mp hcycle
      exact (hnext x hx v hback).1 (Finset.mem_insert_self v path)
    · obtain ⟨hout, hrest⟩ := hnext x hx w hxw
      exact ⟨fun hmem => hout (Finset.mem_insert_of_mem hmem), hrest⟩

/-- As many steps down as there are nodes off the path are enough. -/
theorem clear_iff (hclosed : ∀ v ∈ nodes, ∀ w ∈ next v, w ∈ nodes) {fuel : Nat} (hv : v ∈ nodes)
    (hpath : path ⊆ nodes) (hfuel : nodes.card ≤ fuel + path.card) :
    clear next ok fuel path v = true ↔ Clear next ok path v := by
  induction fuel generalizing path v with
  | zero =>
    have hall : path = nodes := Finset.eq_of_subset_of_card_le hpath (by omega)
    have hmem : v ∈ path := hall ▸ hv
    exact iff_of_false (by simp [clear]) fun h => h.not_mem hmem
  | succ fuel ih =>
    by_cases hmem : v ∈ path
    · exact iff_of_false (by simp [clear, hmem]) fun h => h.not_mem hmem
    · have hcard := Finset.card_insert_of_notMem hmem
      have hdown : ∀ w ∈ next v, (clear next ok fuel (insert v path) w = true ↔
          Clear next ok (insert v path) w) := fun w hw =>
        ih (hclosed v hv w hw) (Finset.insert_subset hv hpath) (by omega)
      rw [clear_step_iff hmem, clear]
      simp only [hmem, not_false_eq_true, decide_true, Bool.true_and, Bool.and_eq_true,
        List.all_eq_true]
      exact and_congr_right' (forall₂_congr hdown)

end PathWalk
