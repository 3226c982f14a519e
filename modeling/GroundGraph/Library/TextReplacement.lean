import GroundGraph.Library.TextPattern

/-! The replacement of all that is read with a pattern, the leftmost first, by a mask. What is
apart from the mask was there before; the replacements of two patterns commute up to what is read
with the first.
-/

set_option autoImplicit false

universe u

namespace TextPattern

open AlignedTexts

variable {α : Type u}

def subFrom (p : Pattern α) (mask : List α) : Nat → List α → List α
  | 0, s => s
  | _ + 1, [] => []
  | n + 1, c :: s =>
    match matchAt p (c :: s) with
    | some t => mask ++ subFrom p mask n t
    | none => c :: subFrom p mask n s

/-- All readings replaced, for a pattern that reads one element at least. -/
def sub (p : Pattern α) (mask s : List α) : List α := subFrom p mask s.length s

/-- `t` is `s` with what is read replaced, the leftmost first. -/
inductive Replaced (p : Pattern α) (mask : List α) : List α → List α → Prop where
  | nil : Replaced p mask [] []
  | keep {c : α} {s t : List α} : matchAt p (c :: s) = none → Replaced p mask s t →
      Replaced p mask (c :: s) (c :: t)
  | cut {x s t : List α} : matchAt p (x ++ s) = some s → x ≠ [] → Replaced p mask s t →
      Replaced p mask (x ++ s) (mask ++ t)

section
variable {p : Pattern α} {mask : List α}

theorem subFrom_replaced (hp : Consumes p) {n : Nat} {s : List α} (hn : s.length ≤ n) :
    Replaced p mask s (subFrom p mask n s) := by
  induction n generalizing s with
  | zero =>
    rw [List.eq_nil_of_length_eq_zero (Nat.le_zero.mp hn)]
    exact .nil
  | succ n ih =>
    cases s with
    | nil => exact .nil
    | cons c s =>
      rw [subFrom]
      cases hs : matchAt p (c :: s) with
      | none => exact .keep hs (ih (by simpa using hn))
      | some t =>
        have hlen := hp.length_lt (reads_of_matchAt hs)
        obtain ⟨x, hx⟩ := reads_suffix (reads_of_matchAt hs)
        rw [hx] at hs hlen ⊢
        refine .cut hs ?_ (ih ?_)
        · rintro rfl
          simp at hlen
        · have hlen' := congrArg List.length hx
          rw [List.length_append] at hlen hlen'
          omega

theorem sub_replaced (hp : Consumes p) (s : List α) : Replaced p mask s (sub p mask s) :=
  subFrom_replaced hp le_rfl

theorem Replaced.cases_cons {c : α} {s t : List α} (h : Replaced p mask (c :: s) t) :
    (matchAt p (c :: s) = none ∧ ∃ t', t = c :: t' ∧ Replaced p mask s t') ∨
      ∃ s' t', matchAt p (c :: s) = some s' ∧ t = mask ++ t' ∧ Replaced p mask s' t' := by
  generalize hs : c :: s = cs at h
  cases h with
  | nil => cases hs
  | keep hnone h =>
    cases hs
    exact Or.inl ⟨hnone, _, rfl, h⟩
  | cut hsome _ h => exact Or.inr ⟨_, _, hsome, rfl, h⟩

theorem Replaced.of_none {c : α} {s t : List α} (h : Replaced p mask (c :: s) t)
    (hnone : matchAt p (c :: s) = none) : ∃ t', t = c :: t' ∧ Replaced p mask s t' := by
  rcases h.cases_cons with ⟨-, h⟩ | ⟨s', -, hsome, -⟩
  · exact h
  · rw [hnone] at hsome
    cases hsome

theorem Replaced.of_some (hp : Consumes p) {s s' t : List α} (h : Replaced p mask s t)
    (hsome : matchAt p s = some s') : ∃ t', t = mask ++ t' ∧ Replaced p mask s' t' := by
  cases s with
  | nil => exact absurd (hp.length_lt (reads_of_matchAt hsome)) (Nat.not_lt_zero _)
  | cons c s =>
    rcases h.cases_cons with ⟨hnone, -⟩ | ⟨s'', t', hsome', ht, h'⟩
    · rw [hnone] at hsome
      cases hsome
    · cases hsome.symm.trans hsome'
      exact ⟨t', ht, h'⟩

theorem Replaced.eq_sub (hp : Consumes p) {s t : List α} (h : Replaced p mask s t) :
    t = sub p mask s := by
  have hsub : Replaced p mask s (sub p mask s) := sub_replaced hp s
  generalize sub p mask s = t' at hsub
  induction h generalizing t' with
  | nil =>
    generalize hs : ([] : List α) = s at hsub
    cases hsub with
    | nil => rfl
    | keep => cases hs
    | cut _ hx _ => exact absurd (List.append_eq_nil_iff.mp hs.symm).1 hx
  | keep hnone _ ih =>
    obtain ⟨t'', rfl, h'⟩ := hsub.of_none hnone
    rw [ih t'' h']
  | cut hsome _ _ ih =>
    obtain ⟨t'', rfl, h'⟩ := hsub.of_some hp hsome
    rw [ih t'' h']

theorem Replaced.eq_of_not_occurs {s t : List α} (h : Replaced p mask s t) (hs : ¬ Occurs p s) :
    t = s := by
  induction h with
  | nil => rfl
  | @keep c s t _ _ ih =>
    rw [ih]
    rintro ⟨a, b, u, rfl, hb⟩
    exact hs ⟨c :: a, b, u, rfl, hb⟩
  | @cut x s t hsome _ _ _ => exact absurd ⟨[], x ++ s, s, rfl, reads_of_matchAt hsome⟩ hs

theorem Replaced.aligned {s t : List α} (h : Replaced p mask s t) :
    Aligned (fun x y => (∃ u, Reads p (x ++ u) u) ∧ y = mask) s t := by
  induction h with
  | nil => exact .nil
  | keep _ _ ih => exact .keep ih
  | cut hsome _ _ ih => exact .cut ⟨⟨_, reads_of_matchAt hsome⟩, rfl⟩ ih

theorem Replaced.keep_word {b s t : List α} (h : Replaced p mask (b ++ s) t)
    (hb : ∀ y z, b = y ++ z → z ≠ [] → matchAt p (z ++ s) = none) :
    ∃ t', t = b ++ t' ∧ Replaced p mask s t' := by
  induction b generalizing t with
  | nil => exact ⟨t, rfl, h⟩
  | cons c b ih =>
    obtain ⟨t', rfl, h'⟩ := h.of_none (hb [] (c :: b) rfl (by simp))
    obtain ⟨t'', rfl, h''⟩ := ih h' fun y z hyz hz => hb (c :: y) z (by rw [hyz]; rfl) hz
    exact ⟨t'', rfl, h''⟩

theorem Replaced.of_word {m : α} (hmask : mask.head? = some m) {b s t : List α} (hm : m ∉ b)
    (h : Replaced p mask s (b ++ t)) : ∃ s', s = b ++ s' ∧ Replaced p mask s' t ∧
      ∀ y z, b = y ++ z → z ≠ [] → matchAt p (z ++ s') = none := by
  obtain ⟨ms, rfl⟩ := List.head?_eq_some_iff.mp hmask
  induction b generalizing s with
  | nil =>
    refine ⟨s, rfl, h, ?_⟩
    intro y z hyz hz
    exact absurd (List.append_eq_nil_iff.mp hyz.symm).2 hz
  | cons c b ih =>
    rw [List.mem_cons, not_or] at hm
    obtain ⟨hc, hb⟩ := hm
    generalize ht : c :: b ++ t = ct at h
    cases h with
    | nil => cases ht
    | cut => exact absurd (List.cons.inj ht).1.symm hc
    | @keep _ s _ hnone h =>
      cases ht
      obtain ⟨s', rfl, h', hnone'⟩ := ih hb h
      refine ⟨s', rfl, h', ?_⟩
      intro y z hyz hz
      cases y with
      | nil =>
        subst hyz
        exact hnone
      | cons d y =>
        cases hyz
        exact hnone' y z rfl hz

end

section
variable {p q : Pattern α} {mask : List α}

/-- A word that does not meet the mask occurred before, where nothing was read. -/
theorem Replaced.occurs {m : α} (hmask : mask.head? = some m) {s t : List α}
    (h : Replaced p mask s t) (hq : Plain q) (hword : ∀ b, Word q b → b ≠ [] ∧ m ∉ b)
    (hinside : ∀ y z, mask = y ++ z → z ≠ [] → ∀ u, matchAt q (z ++ u) = none)
    (ht : Occurs q t) :
    ∃ a b, s = a ++ b ∧ (∃ u, Reads q b u) ∧ matchAt p b = none := by
  induction h with
  | nil =>
    obtain ⟨a, b, u, hab, hb⟩ := ht
    obtain ⟨x, rfl, hx⟩ := (reads_iff_word hq).mp hb
    simp only [List.nil_eq, List.append_eq_nil_iff] at hab
    exact absurd hab.2.1 (hword x hx).1
  | @keep c s t hnone h ih =>
    obtain ⟨a, b, u, hab, hb⟩ := ht
    cases a with
    | cons d a =>
      cases hab
      obtain ⟨a', b', rfl, hb'⟩ := ih ⟨a, b, u, rfl, hb⟩
      exact ⟨c :: a', b', rfl, hb'⟩
    | nil =>
      obtain ⟨x, rfl, hx⟩ := (reads_iff_word hq).mp hb
      obtain ⟨hne, hm⟩ := hword x hx
      cases x with
      | nil => exact absurd rfl hne
      | cons d x =>
        cases hab
        obtain ⟨s', rfl, -, -⟩ := h.of_word hmask fun hmem => hm (List.mem_cons_of_mem c hmem)
        exact ⟨[], _, rfl, ⟨s', (reads_iff_word hq).mpr ⟨c :: x, rfl, hx⟩⟩, hnone⟩
  | @cut x s t hsome hx h ih =>
    obtain ⟨a, b, u, hab, hb⟩ := ht
    have hlater : ∀ a', t = a' ++ b → ∃ a b, x ++ s = a ++ b ∧ (∃ u, Reads q b u) ∧
        matchAt p b = none := by
      intro a' ht'
      obtain ⟨a'', b', rfl, hb'⟩ := ih ⟨a', b, u, ht', hb⟩
      exact ⟨x ++ a'', b', (List.append_assoc x a'' b').symm, hb'⟩
    rcases List.append_eq_append_iff.mp hab with ⟨a', rfl, ht'⟩ | ⟨z, hz, rfl⟩
    · exact hlater a' ht'
    · rcases eq_or_ne z [] with rfl | hne
      · exact hlater [] rfl
      · exact absurd hb (not_reads_of_matchAt (hinside a z hz hne t) u)

theorem Replaced.not_occurs {m : α} (hmask : mask.head? = some m) {s t : List α}
    (h : Replaced p mask s t) (hp : Plain p) (hword : ∀ b, Word p b → b ≠ [] ∧ m ∉ b)
    (hinside : ∀ y z, mask = y ++ z → z ≠ [] → ∀ u, matchAt p (z ++ u) = none) :
    ¬ Occurs p t := by
  intro ht
  obtain ⟨-, b, -, ⟨u, hu⟩, hnone⟩ := h.occurs hmask hp hword hinside ht
  exact not_reads_of_matchAt hnone u hu

theorem Replaced.not_occurs_other {m : α} (hmask : mask.head? = some m) {s t : List α}
    (h : Replaced p mask s t) (hq : Plain q) (hword : ∀ b, Word q b → b ≠ [] ∧ m ∉ b)
    (hinside : ∀ y z, mask = y ++ z → z ≠ [] → ∀ u, matchAt q (z ++ u) = none)
    (hs : ¬ Occurs q s) : ¬ Occurs q t := by
  intro ht
  obtain ⟨a, b, rfl, ⟨u, hu⟩, -⟩ := h.occurs hmask hq hword hinside ht
  exact hs ⟨a, b, u, rfl, hu⟩

theorem Replaced.through {e : α} (hread : ∀ x s, matchAt p (x ++ s) = some s → e ∉ x)
    (he : e ∉ mask) {m s t : List α} (h : Replaced p mask (m ++ e :: s) t) (hm : e ∉ m) :
    ∃ m' t', t = m' ++ e :: t' ∧ e ∉ m' ∧ Replaced p mask s t' := by
  generalize hu : m ++ e :: s = u at h
  induction h generalizing m with
  | nil => simp at hu
  | @keep c u t _ h ih =>
    cases m with
    | nil =>
      cases hu
      exact ⟨[], t, rfl, by simp, h⟩
    | cons d m =>
      cases hu
      rw [List.mem_cons, not_or] at hm
      obtain ⟨m', t', rfl, hm', h'⟩ := ih hm.2 rfl
      exact ⟨c :: m', t', rfl, by simp [hm.1, hm'], h'⟩
  | @cut x u t hsome _ h ih =>
    rcases List.append_eq_append_iff.mp hu.symm with ⟨m', rfl, hs⟩ | ⟨z, rfl, hs⟩
    · obtain ⟨m'', t', rfl, hm'', h'⟩ := ih (fun hmem => hm (List.mem_append_right x hmem)) hs.symm
      exact ⟨mask ++ m'', t', (List.append_assoc mask m'' _).symm, by simp [he, hm''], h'⟩
    · -- the element would be in what is read, unless that ends right before it
      cases z with
      | nil =>
        obtain ⟨m'', t', rfl, hm'', h'⟩ := ih (m := []) (by simp) hs
        exact ⟨mask ++ m'', t', (List.append_assoc mask m'' _).symm, by simp [he, hm''], h'⟩
      | cons d z =>
        cases hs
        exact absurd (by simp) (hread _ u hsome)

theorem Replaced.of_through {e : α} (hread : ∀ x s, matchAt p (x ++ s) = some s → e ∉ x)
    (he : e ∉ mask) {m s t : List α} (h : Replaced p mask s (m ++ e :: t)) (hm : e ∉ m) :
    ∃ m' s', s = m' ++ e :: s' ∧ e ∉ m' ∧ Replaced p mask s' t := by
  generalize hv : m ++ e :: t = v at h
  induction h generalizing m with
  | nil => simp at hv
  | @keep c s v _ h ih =>
    cases m with
    | nil =>
      cases hv
      exact ⟨[], s, rfl, by simp, h⟩
    | cons d m =>
      cases hv
      rw [List.mem_cons, not_or] at hm
      obtain ⟨m', s', rfl, hm', h'⟩ := ih hm.2 rfl
      exact ⟨c :: m', s', rfl, by simp [hm.1, hm'], h'⟩
  | @cut x s v hsome _ h ih =>
    have hx : e ∉ x := hread x s hsome
    rcases List.append_eq_append_iff.mp hv.symm with ⟨m', rfl, ht⟩ | ⟨z, hz, ht⟩
    · obtain ⟨m'', s', rfl, hm'', h'⟩ :=
        ih (fun hmem => hm (List.mem_append_right mask hmem)) ht.symm
      exact ⟨x ++ m'', s', (List.append_assoc x m'' _).symm, by simp [hx, hm''], h'⟩
    · cases z with
      | nil =>
        obtain ⟨m'', s', rfl, hm'', h'⟩ := ih (m := []) (by simp) ht
        exact ⟨x ++ m'', s', (List.append_assoc x m'' _).symm, by simp [hx, hm''], h'⟩
      | cons d z =>
        cases ht
        exact absurd (by rw [hz]; simp) he

/-- `k` is read before the replacement of `p` where `k'` is read after it. Then the replacement of
`k` before and that of `k'` after it differ in what is read with `p` only. -/
theorem Replaced.commute {k k' : Pattern α} (hk : Consumes k) (hk' : Consumes k')
    (hreads : ∀ u v u', Replaced p mask u v → matchAt k u = some u' →
      ∃ v', matchAt k' v = some v' ∧ Replaced p mask u' v')
    (hkeeps : ∀ c u v, matchAt p (c :: u) = none → Replaced p mask u v →
      matchAt k (c :: u) = none → matchAt k' (c :: v) = none)
    (hinside : ∀ x u, matchAt p (x ++ u) = some u → ∀ y z, x = y ++ z → z ≠ [] →
      matchAt k (z ++ u) = none)
    (hmask : ∀ y z, mask = y ++ z → z ≠ [] → ∀ u, matchAt k' (z ++ u) = none)
    {u v s t : List α} (h : Replaced p mask u v) (hs : Replaced k mask u s)
    (ht : Replaced k' mask v t) :
    Aligned (fun x y => (∃ u, Reads p (x ++ u) u) ∧ y = mask) s t := by
  induction hn : u.length using Nat.strong_induction_on generalizing u v s t with
  | _ n ih =>
    cases hku : matchAt k u with
    | some u' =>
      obtain ⟨v', hkv, h'⟩ := hreads u v u' h hku
      obtain ⟨s', rfl, hs'⟩ := hs.of_some hk hku
      obtain ⟨t', rfl, ht'⟩ := ht.of_some hk' hkv
      have hlt : u'.length < n := hn ▸ hk.length_lt (reads_of_matchAt hku)
      exact (ih u'.length hlt h' hs' ht' rfl).append_left mask
    | none =>
      cases h with
      | nil =>
        rw [hs.eq_sub hk, ht.eq_sub hk']
        exact .nil
      | @keep c u v hnone h =>
        obtain ⟨s', rfl, hs'⟩ := hs.of_none hku
        obtain ⟨t', rfl, ht'⟩ := ht.of_none (hkeeps c u v hnone h hku)
        exact .keep (ih u.length (by simp [← hn]) h hs' ht' rfl)
      | @cut x u v hsome hx h =>
        obtain ⟨s', rfl, hs'⟩ := hs.keep_word (hinside x u hsome)
        obtain ⟨t', rfl, ht'⟩ := ht.keep_word fun y z hyz hz => hmask y z hyz hz v
        have hlt : u.length < n := hn ▸ (by simpa using List.length_pos_iff.mpr hx)
        exact .cut ⟨⟨u, reads_of_matchAt hsome⟩, rfl⟩ (ih u.length hlt h hs' ht' rfl)

end

end TextPattern
