import Mathlib.Data.List.Forall2

/-! Lists that correspond element by element: what a loop makes of a list, one result for each
element.
-/

set_option autoImplicit false

universe u v w x

namespace Correspondence

variable {α : Type u} {β : Type v} {R : α → β → Prop} {as : List α} {bs : List β}

theorem exists_left_of_mem (h : List.Forall₂ R as bs) {b : β} (hb : b ∈ bs) : ∃ a ∈ as, R a b := by
  induction h with
  | nil => cases hb
  | @cons x y xs ys hxy _ ih =>
    rcases List.mem_cons.mp hb with rfl | hb
    · exact ⟨x, List.mem_cons_self, hxy⟩
    · obtain ⟨a, ha, hab⟩ := ih hb
      exact ⟨a, List.mem_cons_of_mem _ ha, hab⟩

theorem exists_right_of_mem (h : List.Forall₂ R as bs) {a : α} (ha : a ∈ as) : ∃ b ∈ bs, R a b := by
  obtain ⟨b, hb, hab⟩ := exists_left_of_mem h.flip ha
  exact ⟨b, hb, hab⟩

theorem map_eq {γ : Type w} {f : α → γ} {g : β → γ} (h : List.Forall₂ R as bs)
    (hfg : ∀ a ∈ as, ∀ b, R a b → g b = f a) : bs.map g = as.map f := by
  induction h with
  | nil => rfl
  | cons hone _ ih =>
    rw [List.map_cons, List.map_cons, hfg _ List.mem_cons_self _ hone,
      ih fun a ha => hfg a (List.mem_cons_of_mem _ ha)]

theorem filter_map_eq {γ : Type w} {f : α → γ} {g : β → γ} {p : α → Bool} {q : β → Bool}
    (h : List.Forall₂ R as bs) (hpq : ∀ a b, R a b → q b = p a) (hfg : ∀ a b, R a b → g b = f a) :
    (bs.filter q).map g = (as.filter p).map f := by
  induction h with
  | nil => rfl
  | cons hone _ ih =>
    rw [List.filter_cons, List.filter_cons, hpq _ _ hone]
    split
    · rw [List.map_cons, List.map_cons, hfg _ _ hone, ih]
    · exact ih

theorem trans {γ : Type w} {S : β → γ → Prop} {T : α → γ → Prop} {cs : List γ}
    (h : List.Forall₂ R as bs) (h' : List.Forall₂ S bs cs)
    (hcomp : ∀ a b c, R a b → S b c → T a c) : List.Forall₂ T as cs := by
  induction h generalizing cs with
  | nil =>
    cases h'
    exact .nil
  | cons hone _ ih =>
    cases h' with
    | cons hnext hrest => exact .cons (hcomp _ _ _ hone hnext) (ih hrest)

theorem pairwise_right {S : α → α → Prop} {T : β → β → Prop} (h : List.Forall₂ R as bs)
    (hpairs : as.Pairwise S)
    (hST : ∀ a ∈ as, ∀ a' ∈ as, ∀ b b', S a a' → R a b → R a' b' → T b b') : bs.Pairwise T := by
  induction h with
  | nil => exact .nil
  | cons hone hrest ih =>
    obtain ⟨hfirst, hpairs⟩ := List.pairwise_cons.mp hpairs
    refine List.pairwise_cons.mpr ⟨?_, ih hpairs fun a ha a' ha' =>
      hST a (List.mem_cons_of_mem _ ha) a' (List.mem_cons_of_mem _ ha')⟩
    intro b' hb'
    obtain ⟨a', ha', hab'⟩ := exists_left_of_mem hrest hb'
    exact hST _ List.mem_cons_self a' (List.mem_cons_of_mem _ ha') _ _ (hfirst a' ha') hone hab'

theorem of_mapM {ε : Type x} {f : α → Except ε β} (h : as.mapM f = .ok bs) :
    List.Forall₂ (fun a b => f a = .ok b) as bs := by
  induction as generalizing bs with
  | nil =>
    obtain rfl := Except.ok.inj h
    exact List.Forall₂.nil
  | cons a as ih =>
    rw [List.mapM_cons] at h
    cases hone : f a with
    | error err =>
      rw [hone] at h
      cases h
    | ok b =>
      cases hrest : as.mapM f with
      | error err =>
        rw [hone, hrest] at h
        cases h
      | ok rest =>
        rw [hone, hrest] at h
        obtain rfl := Except.ok.inj h
        exact List.Forall₂.cons hone (ih hrest)

theorem mapM_ok_iff {ε : Type x} {f : α → Except ε β} :
    (∃ bs, as.mapM f = .ok bs) ↔ ∀ a ∈ as, ∃ b, f a = .ok b := by
  induction as with
  | nil => exact ⟨fun _ _ ha => absurd ha List.not_mem_nil, fun _ => ⟨[], rfl⟩⟩
  | cons a as ih =>
    rw [List.forall_mem_cons, ← ih, List.mapM_cons]
    cases hone : f a with
    | error err => simp [bind, Except.bind]
    | ok b =>
      cases hrest : as.mapM f with
      | error err => simp [bind, Except.bind]
      | ok rest => simp [bind, Except.bind, pure, Except.pure]

theorem mapM_of_all {f : α → Option β} (h : ∀ a ∈ as, (f a).isSome = true) :
    as.mapM f = some (as.filterMap f) := by
  induction as with
  | nil => rfl
  | cons a as ih =>
    rw [List.forall_mem_cons] at h
    obtain ⟨b, hb⟩ := Option.isSome_iff_exists.mp h.1
    rw [List.mapM_cons, hb, ih h.2, List.filterMap_cons_some hb]
    rfl

theorem mapM_of_none {f : α → Option β} {a : α} (ha : a ∈ as) (hnone : f a = none) :
    as.mapM f = none := by
  induction as with
  | nil => cases ha
  | cons b as ih =>
    rw [List.mapM_cons]
    rcases List.mem_cons.mp ha with rfl | ha
    · rw [hnone]
      rfl
    · rw [ih ha]
      cases f b <;> rfl

end Correspondence
