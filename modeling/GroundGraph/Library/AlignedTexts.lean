import Mathlib.Data.List.Basic
import Mathlib.Data.List.Infix

/-! Texts that are the same but for pieces that stand for one another. What lies apart from the
pieces of both is found in both, in the same order.
-/

set_option autoImplicit false

universe u

namespace AlignedTexts

variable {α : Type u}

inductive Aligned (P : List α → List α → Prop) : List α → List α → Prop where
  | nil : Aligned P [] []
  | keep {c : α} {s t : List α} : Aligned P s t → Aligned P (c :: s) (c :: t)
  | cut {x y s t : List α} : P x y → Aligned P s t → Aligned P (x ++ s) (y ++ t)

variable {P : List α → List α → Prop} {s t : List α}

theorem Aligned.symm (h : Aligned P s t) : Aligned (fun x y => P y x) t s := by
  induction h with
  | nil => exact .nil
  | keep _ ih => exact .keep ih
  | cut hp _ ih => exact .cut hp ih

theorem Aligned.append_left (x : List α) (h : Aligned P s t) : Aligned P (x ++ s) (x ++ t) := by
  induction x with
  | nil => exact h
  | cons c x ih => exact .keep ih

theorem Aligned.cases_cons {c : α} (h : Aligned P (c :: s) t) :
    (∃ t', t = c :: t' ∧ Aligned P s t') ∨
      ∃ x y s' t', P x y ∧ c :: s = x ++ s' ∧ t = y ++ t' ∧ Aligned P s' t' := by
  generalize hs : c :: s = cs at h
  cases h with
  | nil => cases hs
  | keep h =>
    cases hs
    exact Or.inl ⟨_, rfl, h⟩
  | cut hp h => exact Or.inr ⟨_, _, _, _, hp, rfl, rfl, h⟩

/-- One goes on where the other ends. -/
def Comparable (a b : List α) : Prop := a <+: b ∨ b <+: a

theorem comparable_of_append_eq {a b c d : List α} (h : a ++ c = b ++ d) : Comparable a b :=
  List.prefix_or_prefix_of_prefix (List.prefix_append a c) (h ▸ List.prefix_append b d)

/-- No place of a text can be in both. -/
structure Apart (b x : List α) : Prop where
  inside : ∀ y z, x = y ++ z → z ≠ [] → ¬ Comparable b z
  across : ∀ y z, b = y ++ z → y ≠ [] → z ≠ [] → ¬ Comparable z x

/-- No piece starts in the rest of a word. -/
theorem Aligned.keep_word {b : List α} (h : Aligned P (b ++ s) t)
    (hb : ∀ y z, b = y ++ z → z ≠ [] → ∀ x w, P x w → ¬ Comparable z x) :
    ∃ t', t = b ++ t' ∧ Aligned P s t' := by
  induction b generalizing t with
  | nil => exact ⟨t, rfl, h⟩
  | cons c b ih =>
    rcases h.cases_cons with ⟨t', rfl, h'⟩ | ⟨x, y, s', t', hp, heq, -, -⟩
    · obtain ⟨t'', rfl, h''⟩ := ih h' fun y z hyz hz => hb (c :: y) z (by rw [hyz]; rfl) hz
      exact ⟨t'', rfl, h''⟩
    · exact absurd (comparable_of_append_eq heq) (hb [] (c :: b) rfl (by simp) x y hp)

theorem Aligned.find_word {a b c : List α} (h : Aligned P (a ++ (b ++ c)) t) (hb : b ≠ [])
    (hapart : ∀ x y, P x y → Apart b x) :
    ∃ a' c', t = a' ++ (b ++ c') ∧ Aligned P c c' := by
  generalize hs : a ++ (b ++ c) = s at h
  induction h generalizing a with
  | nil => simp [hb] at hs
  | @keep d s t h ih =>
    cases a with
    | cons d' a =>
      cases hs
      obtain ⟨a', c', rfl, hc⟩ := ih rfl
      exact ⟨d :: a', c', rfl, hc⟩
    | nil =>
      -- the word starts here, and no piece starts in the rest of it
      cases b with
      | nil => exact absurd rfl hb
      | cons d' b =>
        cases hs
        obtain ⟨c', rfl, hc⟩ := h.keep_word fun y z hyz hz x w hp =>
          (hapart x w hp).across (d :: y) z (by rw [hyz]; rfl) (by simp) hz
        exact ⟨[], c', rfl, hc⟩
  | @cut x y s t hp h ih =>
    rcases List.append_eq_append_iff.mp hs with ⟨a', rfl, hs'⟩ | ⟨z, rfl, hs'⟩
    · -- the word starts in the piece, if there is anything left of it
      rcases eq_or_ne a' [] with rfl | hz
      · obtain ⟨a', c', rfl, hc⟩ := ih (a := []) (by simpa using hs')
        exact ⟨y ++ a', c', by rw [List.append_assoc], hc⟩
      · exact absurd (comparable_of_append_eq hs') ((hapart _ _ hp).inside a a' rfl hz)
    · obtain ⟨a', c', rfl, hc⟩ := ih (a := z) hs'.symm
      exact ⟨y ++ a', c', by rw [List.append_assoc], hc⟩

def InOrder : List (List α → Prop) → List α → Prop
  | [], _ => True
  | w :: ws, s => ∃ a b c, s = a ++ (b ++ c) ∧ w b ∧ InOrder ws c

theorem InOrder.append_left {ws : List (List α → Prop)} (a : List α) (h : InOrder ws s) :
    InOrder ws (a ++ s) := by
  cases ws with
  | nil => trivial
  | cons w ws =>
    obtain ⟨a', b, c, rfl, hb, hc⟩ := h
    exact ⟨a ++ a', b, c, by rw [List.append_assoc], hb, hc⟩

theorem Aligned.inOrder {ws : List (List α → Prop)} (h : Aligned P s t)
    (hws : ∀ w ∈ ws, ∀ b, w b → b ≠ [] ∧ ∀ x y, P x y → Apart b x) (hs : InOrder ws s) :
    InOrder ws t := by
  induction ws generalizing s t with
  | nil => trivial
  | cons w ws ih =>
    obtain ⟨a, b, c, rfl, hb, hc⟩ := hs
    obtain ⟨hne, hapart⟩ := hws w List.mem_cons_self b hb
    obtain ⟨a', c', rfl, hcc⟩ := h.find_word hne hapart
    exact ⟨a', b, c', rfl, hb, ih hcc (fun w hw => hws w (List.mem_cons_of_mem _ hw)) hc⟩

/-- Words that are apart from the pieces of both texts are in both or in none. -/
theorem Aligned.inOrder_iff {ws : List (List α → Prop)} (h : Aligned P s t)
    (hws : ∀ w ∈ ws, ∀ b, w b → b ≠ [] ∧ ∀ x y, P x y → Apart b x ∧ Apart b y) :
    InOrder ws s ↔ InOrder ws t := by
  constructor
  · exact h.inOrder fun w hw b hb => ⟨(hws w hw b hb).1, fun x y hp => ((hws w hw b hb).2 x y hp).1⟩
  · exact h.symm.inOrder fun w hw b hb =>
      ⟨(hws w hw b hb).1, fun x y hp => ((hws w hw b hb).2 y x hp).2⟩

end AlignedTexts
