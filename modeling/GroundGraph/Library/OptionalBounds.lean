import Mathlib.Order.Bounds.Basic

/-! Lower bounds that may be absent, and then bound nothing; upper bounds are lower bounds of the
dual order. The loop that keeps the outermost bound takes an absent one as one to be replaced,
so what it keeps is the least of those that are there.
-/

set_option autoImplicit false

universe u

namespace OptionalBounds

variable {α : Type u} [LinearOrder α]

/-- What is above `b` includes all that is above `c`. -/
def Reaches (b c : Option α) : Prop := ∀ x, b = some x → ∃ y, c = some y ∧ x ≤ y

/-- The new bound `a` where it is further out, or where there was none. -/
def outer (a b : Option α) : Option α :=
  match a, b with
  | some x, none => some x
  | some x, some y => if x < y then some x else some y
  | none, b => b

structure LeastOf (bounds : List (Option α)) (b : Option α) : Prop where
  absent : b = none → ∀ x, some x ∉ bounds
  least : ∀ x, b = some x → IsLeast {y | some y ∈ bounds} x

variable {bounds : List (Option α)} {a b : Option α}

theorem LeastOf.singleton (b : Option α) : LeastOf [b] b := by
  refine ⟨?_, ?_⟩
  · rintro rfl x hx
    exact Option.some_ne_none x (List.eq_of_mem_singleton hx)
  · rintro x rfl
    refine ⟨List.mem_singleton_self _, ?_⟩
    intro y hy
    exact (Option.some.inj (List.mem_singleton.mp hy)).ge

theorem outer_none (b : Option α) : outer none b = b := by cases b <;> rfl

theorem outer_some_some (x z : α) : outer (some x) (some z) = some (min x z) := by
  change (if x < z then some x else some z) = _
  split
  · rename_i hlt
    rw [min_eq_left hlt.le]
  · rename_i hle
    rw [min_eq_right (not_lt.mp hle)]

theorem LeastOf.outer (h : LeastOf bounds b) (a : Option α) :
    LeastOf (bounds ++ [a]) (outer a b) := by
  cases a with
  | none =>
    have hsame : ∀ y, some y ∈ bounds ++ [none] ↔ some y ∈ bounds := by
      intro y
      simp
    rw [outer_none]
    refine ⟨fun hb x hx => h.absent hb x ((hsame x).mp hx), ?_⟩
    intro x hb
    obtain ⟨hx, hlow⟩ := h.least x hb
    exact ⟨(hsame x).mpr hx, fun y hy => hlow ((hsame y).mp hy)⟩
  | some x =>
    have hmem : ∀ y, some y ∈ bounds ++ [some x] ↔ some y ∈ bounds ∨ y = x := by
      intro y
      simp
    cases b with
    | none =>
      refine ⟨fun hb => absurd hb (Option.some_ne_none _), ?_⟩
      rintro _ ⟨⟩
      refine ⟨(hmem x).mpr (Or.inr rfl), ?_⟩
      intro y hy
      rcases (hmem y).mp hy with hold | rfl
      · exact absurd hold (h.absent rfl y)
      · exact le_rfl
    | some z =>
      obtain ⟨hz, hlow⟩ := h.least z rfl
      rw [outer_some_some]
      refine ⟨fun hb => absurd hb (Option.some_ne_none _), ?_⟩
      rintro _ ⟨⟩
      refine ⟨?_, ?_⟩
      · apply (hmem _).mpr
        rcases le_total x z with hle | hle
        · exact Or.inr (min_eq_left hle)
        · rw [min_eq_right hle]
          exact Or.inl hz
      · intro y hy
        rcases (hmem y).mp hy with hold | rfl
        · exact (min_le_right x z).trans (hlow hold)
        · exact min_le_left y z

/-- The least bound reaches as far as each of them unless some are there and some are absent. -/
theorem LeastOf.reaches_iff (h : LeastOf bounds b) :
    (∀ c ∈ bounds, Reaches b c) ↔ ∀ c ∈ bounds, ∀ d ∈ bounds, c.isSome = d.isSome := by
  constructor
  · intro hreach
    have hsame : ∀ c ∈ bounds, c.isSome = b.isSome := by
      intro c hc
      cases hb : b with
      | none =>
        cases c with
        | none => rfl
        | some x => exact absurd hc (h.absent hb x)
      | some x =>
        obtain ⟨y, rfl, -⟩ := hreach c hc x hb
        rfl
    intro c hc d hd
    rw [hsame c hc, hsame d hd]
  · intro hsame c hc x hb
    obtain ⟨hx, hlow⟩ := h.least x hb
    have hc' : c.isSome = true := hsame c hc _ hx
    obtain ⟨y, rfl⟩ := Option.isSome_iff_exists.mp hc'
    exact ⟨y, rfl, hlow hc⟩

end OptionalBounds
