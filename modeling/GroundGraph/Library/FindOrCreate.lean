import Mathlib.Data.List.Basic

/-! Find or create: a request names a key and is told the value stored under it, which the
first such request has made. The answers given so far are consistent with what is stored
when every one of them is right and each stored key was created by exactly one.
-/

set_option autoImplicit false

namespace FindOrCreate

variable {κ β : Type}

/-- What a request was told. -/
structure Answer (κ β : Type) where
  key : κ
  value : β
  created : Bool

section

variable [DecidableEq κ]

def creations (k : κ) (answers : List (Answer κ β)) : List (Answer κ β) :=
  answers.filter fun a => a.created && decide (a.key = k)

@[simp] theorem creations_append (k : κ) (xs ys : List (Answer κ β)) :
    creations k (xs ++ ys) = creations k xs ++ creations k ys :=
  List.filter_append ..

theorem creations_found (k j : κ) (b : β) : creations k [⟨j, b, false⟩] = [] := by
  simp [creations]

theorem creations_created (k : κ) (b : β) : creations k [⟨k, b, true⟩] = [⟨k, b, true⟩] := by
  simp [creations]

theorem creations_other {k j : κ} (b : β) (created : Bool) (h : j ≠ k) :
    creations k [⟨j, b, created⟩] = [] := by
  simp [creations, h]

end

/-- `stored k b` says that `b` is stored under `k`. -/
structure Consistent [DecidableEq κ] (stored : κ → β → Prop) (answers : List (Answer κ β)) :
    Prop where
  functional : ∀ k b b', stored k b → stored k b' → b = b'
  agree : ∀ a ∈ answers, stored a.key a.value
  once : ∀ k b, stored k b → (creations k answers).length = 1

variable [DecidableEq κ] {stored stored' : κ → β → Prop} {answers : List (Answer κ β)}

theorem consistent_nil (h : ∀ k b, ¬ stored k b) : Consistent stored [] :=
  ⟨fun k b _ hb => absurd hb (h k b), by simp, fun k b hb => absurd hb (h k b)⟩

theorem Consistent.creations_eq_nil (h : Consistent stored answers) {k : κ}
    (habsent : ∀ b, ¬ stored k b) : creations k answers = [] := by
  refine List.filter_eq_nil_iff.mpr fun a ha hk => ?_
  simp only [Bool.and_eq_true, decide_eq_true_eq] at hk
  have hstored := h.agree a ha
  rw [hk.2] at hstored
  exact habsent a.value hstored

theorem Consistent.found (h : Consistent stored answers) {k : κ} {b : β} (hb : stored k b) :
    Consistent stored (answers ++ [⟨k, b, false⟩]) where
  functional := h.functional
  agree := by
    intro a ha
    rcases List.mem_append.mp ha with ha | ha
    · exact h.agree a ha
    · rw [List.mem_singleton.mp ha]
      exact hb
  once := by
    intro j c hc
    rw [creations_append, creations_found, List.append_nil]
    exact h.once j c hc

theorem Consistent.create (h : Consistent stored answers) {k : κ} {b : β}
    (habsent : ∀ c, ¬ stored k c)
    (hstored : ∀ j c, stored' j c ↔ stored j c ∨ j = k ∧ c = b) :
    Consistent stored' (answers ++ [⟨k, b, true⟩]) where
  functional := by
    intro j c c' hc hc'
    rcases (hstored j c).mp hc with hc | ⟨rfl, rfl⟩ <;>
      rcases (hstored j c').mp hc' with hc' | ⟨hj, rfl⟩
    · exact h.functional j c c' hc hc'
    · exact absurd (hj ▸ hc) (habsent c)
    · exact absurd hc' (habsent c')
    · rfl
  agree := by
    intro a ha
    rcases List.mem_append.mp ha with ha | ha
    · exact (hstored _ _).mpr (Or.inl (h.agree a ha))
    · rw [List.mem_singleton.mp ha]
      exact (hstored k b).mpr (Or.inr ⟨rfl, rfl⟩)
  once := by
    intro j c hc
    by_cases hj : j = k
    · subst hj
      rw [creations_append, h.creations_eq_nil habsent, creations_created]
      rfl
    · rw [creations_append, creations_other b true (Ne.symm hj), List.append_nil]
      rcases (hstored j c).mp hc with hc | ⟨rfl, _⟩
      · exact h.once j c hc
      · exact absurd rfl hj

theorem Consistent.congr (h : Consistent stored answers)
    (hstored : ∀ k b, stored' k b ↔ stored k b) : Consistent stored' answers where
  functional := fun k b b' hb hb' => h.functional k b b' ((hstored k b).mp hb) ((hstored k b').mp hb')
  agree := fun a ha => (hstored a.key a.value).mpr (h.agree a ha)
  once := fun k b hb => h.once k b ((hstored k b).mp hb)

theorem Consistent.same_value (h : Consistent stored answers) {a a' : Answer κ β}
    (ha : a ∈ answers) (ha' : a' ∈ answers) (hkey : a.key = a'.key) : a.value = a'.value := by
  have hstored := h.agree a ha
  rw [hkey] at hstored
  exact h.functional a'.key a.value a'.value hstored (h.agree a' ha')

end FindOrCreate
