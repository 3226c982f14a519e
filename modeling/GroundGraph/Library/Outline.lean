import Mathlib.Data.List.Infix

/-! Outlines: elements in a row, each with a level. The parent of an element is the nearest one
in front of a lower level. A stack that is cut to one less than the level of each element keeps
the ancestors as long as no level is left out.
-/

set_option autoImplicit false

universe u v

namespace Outline

variable {α : Type u} {γ : Type v} {level : α → Nat}

/-- The ancestors of an element of level `n`, the highest first; those in front of it are given
from the nearest on. -/
def ancestors (level : α → Nat) : List α → Nat → List α
  | [], _ => []
  | a :: before, n =>
    if level a < n then ancestors level before (level a) ++ [a] else ancestors level before n

def outlineFrom (level : α → Nat) (before : List α) : List α → List (α × List α)
  | [] => []
  | a :: rest =>
    (a, ancestors level before (level a)) :: outlineFrom level (a :: before) rest

def stackedFrom (level : α → Nat) (stack : List α) : List α → List (α × List α)
  | [] => []
  | a :: rest =>
    (a, stack.take (level a - 1)) :: stackedFrom level (stack.take (level a - 1) ++ [a]) rest

def outline (level : α → Nat) (elements : List α) : List (α × List α) :=
  outlineFrom level [] elements

def stacked (level : α → Nat) (elements : List α) : List (α × List α) :=
  stackedFrom level [] elements

/-- An element of level `n` is deeper than the one in front, or has an ancestor of each level
above. -/
def Fits (level : α → Nat) (before : List α) (n : Nat) : Prop :=
  (∀ a ∈ before.head?, level a < n) ∨ (ancestors level before n).length + 1 = n

def Gapless (level : α → Nat) (elements : List α) : Prop :=
  ∀ front a back, elements = front ++ a :: back → Fits level front.reverse (level a)

def chain (level : α → Nat) : List α → List α
  | [] => []
  | a :: before => ancestors level before (level a) ++ [a]

theorem map_fst_outlineFrom (elements before : List α) :
    (outlineFrom level before elements).map Prod.fst = elements := by
  induction elements generalizing before with
  | nil => rfl
  | cons a rest ih => rw [outlineFrom, List.map_cons, ih]

theorem map_fst_stackedFrom (elements stack : List α) :
    (stackedFrom level stack elements).map Prod.fst = elements := by
  induction elements generalizing stack with
  | nil => rfl
  | cons a rest ih => rw [stackedFrom, List.map_cons, ih]

theorem length_ancestors_lt {before : List α} (hlevel : ∀ a ∈ before, 1 ≤ level a) {n : Nat}
    (hn : 1 ≤ n) : (ancestors level before n).length < n := by
  induction before generalizing n with
  | nil => exact hn
  | cons a before ih =>
    rw [List.forall_mem_cons] at hlevel
    rw [ancestors]
    split
    · have hparent := ih hlevel.2 hlevel.1
      rw [List.length_append, List.length_singleton]
      omega
    · exact ih hlevel.2 hn

theorem ancestors_isPrefix (before : List α) {n n' : Nat} (h : n ≤ n') :
    ancestors level before n <+: ancestors level before n' := by
  induction before generalizing n n' with
  | nil => exact List.prefix_refl _
  | cons a before ih =>
    simp only [ancestors]
    by_cases hlow : level a < n
    · rw [if_pos hlow, if_pos (Nat.lt_of_lt_of_le hlow h)]
    · rw [if_neg hlow]
      split
      · exact (ih (Nat.not_lt.mp hlow)).trans (List.prefix_append _ _)
      · exact ih h

theorem ancestors_prefix_chain (before : List α) (n : Nat) :
    ancestors level before n <+: chain level before := by
  cases before with
  | nil => exact List.prefix_refl _
  | cons a before =>
    rw [ancestors, chain]
    split
    · exact List.prefix_refl _
    · rename_i hlow
      exact (ancestors_isPrefix before (Nat.not_lt.mp hlow)).trans (List.prefix_append _ _)

theorem length_take_chain_iff {before : List α} (hlevel : ∀ a ∈ before, 1 ≤ level a) {n : Nat}
    (hn : 1 ≤ n) :
    ((chain level before).take (n - 1)).length = (ancestors level before n).length ↔
      Fits level before n := by
  cases before with
  | nil => simp [chain, ancestors, Fits]
  | cons a before =>
    rw [List.forall_mem_cons] at hlevel
    have hchain : (chain level (a :: before)).length =
        (ancestors level before (level a)).length + 1 := by
      rw [chain, List.length_append, List.length_singleton]
    have hparent := length_ancestors_lt hlevel.2 hlevel.1
    rw [List.length_take, Fits, List.head?_cons]
    simp only [Option.mem_some_iff, forall_eq']
    by_cases hlow : level a < n
    · rw [ancestors, if_pos hlow, List.length_append, List.length_singleton]
      omega
    · have hshort := (ancestors_isPrefix before (Nat.not_lt.mp hlow) :
        ancestors level before n <+: ancestors level before (level a)).length_le
      rw [ancestors, if_neg hlow]
      omega

theorem take_chain_eq {before : List α} {n : Nat}
    (h : ((chain level before).take (n - 1)).length = (ancestors level before n).length) :
    (chain level before).take (n - 1) = ancestors level before n :=
  (List.prefix_of_prefix_length_le (List.take_prefix _ _) (ancestors_prefix_chain before n)
    (Nat.le_of_eq h)).eq_of_length h

/-- Whatever is read off an element and what stands above it, as long as their number can be
told, agrees for the stack and the ancestors when all elements fit, and only then. -/
theorem stackedFrom_eq_iff (f : α × List α → γ)
    (hf : ∀ a s t, f (a, s) = f (a, t) → s.length = t.length) (elements before : List α)
    (hbefore : ∀ a ∈ before, 1 ≤ level a) (helements : ∀ a ∈ elements, 1 ≤ level a) :
    (stackedFrom level (chain level before) elements).map f =
        (outlineFrom level before elements).map f ↔
      ∀ front a back, elements = front ++ a :: back →
        Fits level (front.reverse ++ before) (level a) := by
  induction elements generalizing before with
  | nil => simp [stackedFrom, outlineFrom]
  | cons a rest ih =>
    rw [List.forall_mem_cons] at helements
    have hsplit : (∀ front b back, a :: rest = front ++ b :: back →
        Fits level (front.reverse ++ before) (level b)) ↔ Fits level before (level a) ∧
          ∀ front b back, rest = front ++ b :: back →
            Fits level (front.reverse ++ (a :: before)) (level b) := by
      constructor
      · intro h
        refine ⟨h [] a rest rfl, fun front b back hrest => ?_⟩
        have hfits := h (a :: front) b back (by rw [hrest, List.cons_append])
        rwa [List.reverse_cons, List.append_assoc, List.singleton_append] at hfits
      · rintro ⟨hfirst, hrest⟩ front b back heq
        cases front with
        | nil =>
          obtain ⟨rfl, rfl⟩ := List.cons.inj heq
          exact hfirst
        | cons c front =>
          obtain ⟨rfl, rfl⟩ := List.cons.inj heq
          rw [List.reverse_cons, List.append_assoc, List.singleton_append]
          exact hrest front b back rfl
    rw [hsplit, ← length_take_chain_iff hbefore helements.1]
    simp only [stackedFrom, outlineFrom, List.map_cons, List.cons.injEq]
    have hrest := ih (a :: before) (List.forall_mem_cons.mpr ⟨helements.1, hbefore⟩) helements.2
    constructor
    · rintro ⟨hhead, htail⟩
      have hlength := hf a _ _ hhead
      rw [take_chain_eq hlength] at htail
      exact ⟨hlength, hrest.mp htail⟩
    · rintro ⟨hlength, hfits⟩
      rw [take_chain_eq hlength]
      exact ⟨rfl, hrest.mpr hfits⟩

theorem stacked_eq_iff (f : α × List α → γ)
    (hf : ∀ a s t, f (a, s) = f (a, t) → s.length = t.length) {elements : List α}
    (hlevel : ∀ a ∈ elements, 1 ≤ level a) :
    (stacked level elements).map f = (outline level elements).map f ↔ Gapless level elements := by
  have hfrom := stackedFrom_eq_iff f hf elements [] (by simp) hlevel
  simp only [List.append_nil] at hfrom
  exact hfrom

end Outline
