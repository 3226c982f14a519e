import Mathlib.Data.List.Sort

/-! Sorting by a score, the highest first. The sort is stable, so elements with one score stay
in the order in which they came.
-/

set_option autoImplicit false

universe u v

namespace StableSort

variable {α : Type u} {β : Type v} [LinearOrder β]

/-- `a` comes before `b`: its score is higher, or as high and it came first. -/
def Before (score : α → β) (position : α → Nat) (a b : α) : Prop :=
  score b < score a ∨ score a = score b ∧ position a < position b

variable {score : α → β} {position : α → Nat} {a : α} {xs : List α}

theorem Before.trans {a b c : α} (hab : Before score position a b)
    (hbc : Before score position b c) : Before score position a c := by
  rcases hab with hab | ⟨hab, hpos⟩
  · rcases hbc with hbc | ⟨hbc, -⟩
    · exact Or.inl (hbc.trans hab)
    · exact Or.inl (hbc ▸ hab)
  · rcases hbc with hbc | ⟨hbc, hpos'⟩
    · exact Or.inl (hab.symm ▸ hbc)
    · exact Or.inr ⟨hab.trans hbc, hpos.trans hpos'⟩

theorem pairwise_orderedInsert (hfirst : ∀ b ∈ xs, position a < position b)
    (h : xs.Pairwise (Before score position)) :
    (xs.orderedInsert (fun a b => score b ≤ score a) a).Pairwise (Before score position) := by
  induction xs with
  | nil => exact List.pairwise_singleton _ _
  | cons b xs ih =>
    obtain ⟨hb, hxs⟩ := List.pairwise_cons.mp h
    by_cases hle : score b ≤ score a
    · rw [List.orderedInsert_cons, if_pos hle]
      have hab : Before score position a b := by
        rcases hle.lt_or_eq with hlt | heq
        · exact Or.inl hlt
        · exact Or.inr ⟨heq.symm, hfirst b List.mem_cons_self⟩
      refine List.pairwise_cons.mpr ⟨?_, h⟩
      intro c hc
      rcases List.mem_cons.mp hc with rfl | hc
      · exact hab
      · exact hab.trans (hb c hc)
    · rw [List.orderedInsert_cons, if_neg hle]
      refine List.pairwise_cons.mpr ⟨?_, ih (fun c hc => hfirst c (List.mem_cons_of_mem _ hc)) hxs⟩
      intro c hc
      rcases (List.mem_orderedInsert _).mp hc with rfl | hc
      · exact Or.inl (lt_of_not_ge hle)
      · exact hb c hc

theorem pairwise_insertionSort (h : xs.Pairwise fun a b => position a < position b) :
    (xs.insertionSort fun a b => score b ≤ score a).Pairwise (Before score position) := by
  induction xs with
  | nil => exact List.Pairwise.nil
  | cons a xs ih =>
    obtain ⟨ha, hxs⟩ := List.pairwise_cons.mp h
    rw [List.insertionSort_cons]
    refine pairwise_orderedInsert ?_ (ih hxs)
    intro b hb
    exact ha b ((List.mem_insertionSort _).mp hb)

theorem pairwise_score (score : α → β) (xs : List α) :
    (xs.insertionSort fun a b => score b ≤ score a).Pairwise fun a b => score b ≤ score a := by
  induction xs with
  | nil => exact List.Pairwise.nil
  | cons a xs ih =>
    rw [List.insertionSort_cons]
    have htotal : Std.Total fun a b : α => score b ≤ score a := ⟨fun a b => le_total _ _⟩
    have htrans : IsTrans α fun a b => score b ≤ score a := ⟨fun _ _ _ hab hbc => hbc.trans hab⟩
    exact ih.orderedInsert a _

end StableSort
