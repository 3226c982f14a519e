import GroundGraph.Library.AlignedTexts
import Mathlib.Data.List.Forall2

/-! Patterns that are read from left to right with backtracking. -/

set_option autoImplicit false

universe u

namespace TextPattern

open AlignedTexts

variable {α : Type u}

/-- One element, as many or as few as possible, or a test of what comes next. -/
inductive Item (α : Type u) where
  | one (ok : α → Bool)
  | many (ok : α → Bool)
  | fewest (ok : α → Bool)
  | here (ok : List α → Bool)

abbrev Pattern (α : Type u) := List (Item α)

def greedy (ok : α → Bool) (next : List α → Option (List α)) : List α → Option (List α)
  | [] => next []
  | c :: s => if ok c then (greedy ok next s).or (next (c :: s)) else next (c :: s)

def reluctant (ok : α → Bool) (next : List α → Option (List α)) : List α → Option (List α)
  | [] => next []
  | c :: s => (next (c :: s)).or (if ok c then reluctant ok next s else none)

/-- What is left behind the first reading at the start of the text. -/
def matchAt : Pattern α → List α → Option (List α)
  | [], s => some s
  | .one _ :: _, [] => none
  | .one ok :: p, c :: s => if ok c then matchAt p s else none
  | .many ok :: p, s => greedy ok (matchAt p) s
  | .fewest ok :: p, s => reluctant ok (matchAt p) s
  | .here ok :: p, s => if ok s then matchAt p s else none

def Item.Reads : Item α → List α → List α → Prop
  | .one ok, s, t => ∃ c, ok c ∧ s = c :: t
  | .many ok, s, t | .fewest ok, s, t => ∃ x, (∀ c ∈ x, ok c) ∧ s = x ++ t
  | .here ok, s, t => ok s ∧ s = t

/-- `t` is left where the pattern is read from `s` in some way. -/
def Reads : Pattern α → List α → List α → Prop
  | [], s, t => s = t
  | i :: p, s, t => ∃ u, i.Reads s u ∧ Reads p u t

def Occurs (p : Pattern α) (s : List α) : Prop := ∃ a b t, s = a ++ b ∧ Reads p b t

theorem reads_append {p q : Pattern α} {s t : List α} :
    Reads (p ++ q) s t ↔ ∃ u, Reads p s u ∧ Reads q u t := by
  induction p generalizing s with
  | nil => simp [Reads]
  | cons i p ih =>
    simp only [List.cons_append, Reads, ih]
    constructor
    · rintro ⟨u, hi, v, hp, hq⟩
      exact ⟨v, ⟨u, hi, hp⟩, hq⟩
    · rintro ⟨v, ⟨u, hi, hp⟩, hq⟩
      exact ⟨u, hi, v, hp, hq⟩

theorem greedy_some {ok : α → Bool} {next : List α → Option (List α)} {s t : List α}
    (h : greedy ok next s = some t) : ∃ x u, (∀ c ∈ x, ok c) ∧ s = x ++ u ∧ next u = some t := by
  induction s with
  | nil => exact ⟨[], [], by simp, rfl, h⟩
  | cons c s ih =>
    rw [greedy] at h
    split at h
    · rename_i hc
      rcases Option.or_eq_some_iff.mp h with hs | ⟨-, hs⟩
      · obtain ⟨x, u, hx, rfl, hu⟩ := ih hs
        exact ⟨c :: x, u, by simpa [hc] using hx, rfl, hu⟩
      · exact ⟨[], c :: s, by simp, rfl, hs⟩
    · exact ⟨[], c :: s, by simp, rfl, h⟩

theorem greedy_none {ok : α → Bool} {next : List α → Option (List α)} {x u : List α}
    (hx : ∀ c ∈ x, ok c) (h : greedy ok next (x ++ u) = none) : next u = none := by
  induction x with
  | nil =>
    cases u with
    | nil => exact h
    | cons c u =>
      rw [List.nil_append, greedy] at h
      split at h
      · exact (Option.or_eq_none_iff.mp h).2
      · exact h
  | cons c x ih =>
    rw [List.cons_append, greedy, if_pos (hx c List.mem_cons_self)] at h
    exact ih (fun d hd => hx d (List.mem_cons_of_mem c hd)) (Option.or_eq_none_iff.mp h).1

theorem reluctant_some {ok : α → Bool} {next : List α → Option (List α)} {s t : List α}
    (h : reluctant ok next s = some t) : ∃ x u, (∀ c ∈ x, ok c) ∧ s = x ++ u ∧ next u = some t := by
  induction s with
  | nil => exact ⟨[], [], by simp, rfl, h⟩
  | cons c s ih =>
    rw [reluctant] at h
    rcases Option.or_eq_some_iff.mp h with hs | ⟨-, hs⟩
    · exact ⟨[], c :: s, by simp, rfl, hs⟩
    · split at hs
      · rename_i hc
        obtain ⟨x, u, hx, rfl, hu⟩ := ih hs
        exact ⟨c :: x, u, by simpa [hc] using hx, rfl, hu⟩
      · cases hs

theorem reluctant_none {ok : α → Bool} {next : List α → Option (List α)} {x u : List α}
    (hx : ∀ c ∈ x, ok c) (h : reluctant ok next (x ++ u) = none) : next u = none := by
  induction x with
  | nil =>
    cases u with
    | nil => exact h
    | cons c u =>
      rw [List.nil_append, reluctant] at h
      exact (Option.or_eq_none_iff.mp h).1
  | cons c x ih =>
    rw [List.cons_append, reluctant, if_pos (hx c List.mem_cons_self)] at h
    exact ih (fun d hd => hx d (List.mem_cons_of_mem c hd)) (Option.or_eq_none_iff.mp h).2

theorem reads_of_matchAt {p : Pattern α} {s t : List α} (h : matchAt p s = some t) :
    Reads p s t := by
  induction p generalizing s with
  | nil => exact Option.some.inj h
  | cons i p ih =>
    cases i with
    | one ok =>
      cases s with
      | nil => cases h
      | cons c s =>
        rw [matchAt] at h
        split at h
        · exact ⟨s, ⟨c, ‹_›, rfl⟩, ih h⟩
        · cases h
    | many ok =>
      rw [matchAt] at h
      obtain ⟨x, u, hx, hs, hu⟩ := greedy_some h
      exact ⟨u, ⟨x, hx, hs⟩, ih hu⟩
    | fewest ok =>
      rw [matchAt] at h
      obtain ⟨x, u, hx, hs, hu⟩ := reluctant_some h
      exact ⟨u, ⟨x, hx, hs⟩, ih hu⟩
    | here ok =>
      rw [matchAt] at h
      split at h
      · exact ⟨s, ⟨‹_›, rfl⟩, ih h⟩
      · cases h

theorem not_reads_of_matchAt {p : Pattern α} {s : List α} (h : matchAt p s = none) (t : List α) :
    ¬ Reads p s t := by
  induction p generalizing s with
  | nil => cases h
  | cons i p ih =>
    rintro ⟨u, hi, hp⟩
    refine ih ?_ hp
    cases i with
    | one ok =>
      obtain ⟨c, hc, rfl⟩ := hi
      rwa [matchAt, if_pos hc] at h
    | many ok =>
      obtain ⟨x, hx, rfl⟩ := hi
      rw [matchAt] at h
      exact greedy_none hx h
    | fewest ok =>
      obtain ⟨x, hx, rfl⟩ := hi
      rw [matchAt] at h
      exact reluctant_none hx h
    | here ok =>
      obtain ⟨hok, rfl⟩ := hi
      rwa [matchAt, if_pos hok] at h

theorem matchAt_eq_none_iff {p : Pattern α} {s : List α} :
    matchAt p s = none ↔ ∀ t, ¬ Reads p s t := by
  constructor
  · exact not_reads_of_matchAt
  · intro h
    cases hs : matchAt p s with
    | none => rfl
    | some t => exact absurd (reads_of_matchAt hs) (h t)

/-- A pattern that is read in one way only is read so by the matcher. -/
theorem matchAt_of_reads {p : Pattern α} {s t : List α} (h : Reads p s t)
    (hunique : ∀ u, Reads p s u → u = t) : matchAt p s = some t := by
  cases hs : matchAt p s with
  | none => exact absurd h (not_reads_of_matchAt hs t)
  | some u => rw [hunique u (reads_of_matchAt hs)]

theorem Item.Reads.suffix {i : Item α} {s t : List α} (h : i.Reads s t) : ∃ x, s = x ++ t := by
  cases i with
  | one ok =>
    obtain ⟨c, -, rfl⟩ := h
    exact ⟨[c], rfl⟩
  | many ok =>
    obtain ⟨x, -, rfl⟩ := h
    exact ⟨x, rfl⟩
  | fewest ok =>
    obtain ⟨x, -, rfl⟩ := h
    exact ⟨x, rfl⟩
  | here ok =>
    obtain ⟨-, rfl⟩ := h
    exact ⟨[], rfl⟩

theorem reads_suffix {p : Pattern α} {s t : List α} (h : Reads p s t) : ∃ x, s = x ++ t := by
  induction p generalizing s with
  | nil => exact ⟨[], h⟩
  | cons i p ih =>
    obtain ⟨u, hi, hp⟩ := h
    obtain ⟨x, rfl⟩ := hi.suffix
    obtain ⟨y, rfl⟩ := ih hp
    exact ⟨x ++ y, (List.append_assoc x y t).symm⟩

def Consumes (p : Pattern α) : Prop := ∃ ok, Item.one ok ∈ p

theorem Consumes.length_lt {p : Pattern α} (hp : Consumes p) {s t : List α} (h : Reads p s t) :
    t.length < s.length := by
  obtain ⟨ok, hok⟩ := hp
  obtain ⟨q, q', rfl⟩ := List.append_of_mem hok
  obtain ⟨u, hu, v, ⟨c, -, rfl⟩, ht⟩ := reads_append.mp h
  obtain ⟨x, rfl⟩ := reads_suffix hu
  obtain ⟨y, rfl⟩ := reads_suffix ht
  simp
  omega

/-- The elements one after the other, up to what counts as the same. -/
def literal (same : α → α → Bool) (w : List α) : Pattern α := w.map fun c => .one (same c)

def Fits (same : α → α → Bool) : List α → List α → Prop := List.Forall₂ fun c d => same c d

theorem reads_literal {same : α → α → Bool} {w s t : List α} :
    Reads (literal same w) s t ↔ ∃ x, Fits same w x ∧ s = x ++ t := by
  induction w generalizing s with
  | nil =>
    constructor
    · rintro rfl
      exact ⟨[], .nil, rfl⟩
    · rintro ⟨x, hx, rfl⟩
      cases hx
      rfl
  | cons c w ih =>
    constructor
    · rintro ⟨u, ⟨d, hd, rfl⟩, hu⟩
      obtain ⟨x, hx, rfl⟩ := ih.mp hu
      exact ⟨d :: x, .cons hd hx, rfl⟩
    · rintro ⟨x, hx, rfl⟩
      cases hx with
      | @cons _ d _ x hd hx => exact ⟨x ++ t, ⟨d, hd, rfl⟩, ih.mpr ⟨x, hx, rfl⟩⟩

theorem reads_literal_append {same : α → α → Bool} {w s t : List α} {p : Pattern α} :
    Reads (literal same w ++ p) s t ↔ ∃ x u, Fits same w x ∧ s = x ++ u ∧ Reads p u t := by
  rw [reads_append]
  constructor
  · rintro ⟨u, hs, hu⟩
    obtain ⟨x, hx, rfl⟩ := reads_literal.mp hs
    exact ⟨x, u, hx, rfl, hu⟩
  · rintro ⟨x, u, hx, rfl, hu⟩
    exact ⟨u, reads_literal.mpr ⟨x, hx, rfl⟩, hu⟩

theorem Fits.suffix {same : α → α → Bool} {w y z : List α} (h : Fits same w (y ++ z)) :
    ∃ n, n <:+ w ∧ Fits same n z := by
  refine ⟨w.drop y.length, List.drop_suffix y.length w, ?_⟩
  have hdrop := List.forall₂_drop y.length h
  rwa [List.drop_left] at hdrop

theorem Fits.append_left {same : α → α → Bool} {w w' x : List α} (h : Fits same (w ++ w') x) :
    ∃ y z, x = y ++ z ∧ Fits same w y ∧ Fits same w' z := by
  have htake := List.forall₂_take w.length h
  have hdrop := List.forall₂_drop w.length h
  rw [List.take_left] at htake
  rw [List.drop_left] at hdrop
  exact ⟨x.take w.length, x.drop w.length, (List.take_append_drop w.length x).symm, htake, hdrop⟩

theorem reads_until {ok : α → Bool} {e : α} (hok : ∀ c, ok c ↔ c ≠ e) {p : Pattern α}
    {s t : List α} :
    Reads (.many ok :: p) s t ↔ ∃ m u, e ∉ m ∧ s = m ++ u ∧ Reads p u t := by
  have hnot : ∀ m : List α, (∀ c ∈ m, ok c) ↔ e ∉ m := by
    intro m
    constructor
    · exact fun h hmem => (hok e).mp (h e hmem) rfl
    · exact fun h c hc => (hok c).mpr fun heq => h (heq ▸ hc)
  constructor
  · rintro ⟨u, ⟨m, hm, rfl⟩, hu⟩
    exact ⟨m, u, (hnot m).mp hm, rfl, hu⟩
  · rintro ⟨m, u, hm, rfl, hu⟩
    exact ⟨u, ⟨m, (hnot m).mpr hm, rfl⟩, hu⟩

theorem prefix_of_not_mem {e : α} {s t x r : List α} (h : s ++ e :: t = x ++ r) (he : e ∉ x) :
    x <+: s := by
  rcases List.append_eq_append_iff.mp h with ⟨z, rfl, hz⟩ | ⟨z, rfl, -⟩
  · cases z with
    | nil => simp
    | cons d z =>
      cases hz
      simp at he
  · exact List.prefix_append x z

theorem first_unique {e : α} {m m' s s' : List α} (hm : e ∉ m) (hm' : e ∉ m')
    (h : m ++ e :: s = m' ++ e :: s') : m = m' ∧ s = s' := by
  have hle : m <+: m' := prefix_of_not_mem h.symm hm
  obtain rfl : m = m' := hle.eq_of_length_le (prefix_of_not_mem h hm').length_le
  exact ⟨rfl, (List.cons.inj (List.append_cancel_left h)).2⟩

theorem exists_first {e : α} (s t : List α) :
    ∃ m z, e ∉ m ∧ s ++ e :: t = m ++ e :: (z ++ t) := by
  have hmem : e ∈ s ++ e :: t := List.mem_append_right s List.mem_cons_self
  obtain ⟨m, u, heq, hm⟩ := List.eq_append_cons_of_mem hmem
  obtain ⟨z, rfl⟩ := prefix_of_not_mem heq hm
  rw [List.append_assoc] at heq
  cases z with
  | nil => exact ⟨m, [], hm, by simp⟩
  | cons d z =>
    cases List.append_cancel_left heq
    exact ⟨m, z ++ [e], hm, by simp⟩

/-- A literal, the next place of an element and what comes behind it are found in this order
wherever the last two are. -/
theorem occurs_iff_inOrder {same : α → α → Bool} {ok : α → Bool} {w s : List α} {e : α}
    {q : Pattern α} {ws : List (List α → Prop)} (hok : ∀ c, ok c ↔ c ≠ e)
    (hsame : ∀ x, Fits same [e] x ↔ x = [e]) (hq : ∀ v, (∃ t, Reads q v t) ↔ InOrder ws v) :
    Occurs (literal same w ++ .many ok :: (literal same [e] ++ q)) s ↔
      InOrder (Fits same w :: Fits same [e] :: ws) s := by
  constructor
  · rintro ⟨a, b, t, rfl, hb⟩
    obtain ⟨x, u, hx, rfl, hu⟩ := reads_literal_append.mp hb
    obtain ⟨m, v, -, rfl, hv⟩ := (reads_until hok).mp hu
    obtain ⟨y, v, hy, rfl, ht⟩ := reads_literal_append.mp hv
    exact ⟨a, x, _, rfl, hx, m, y, v, rfl, hy, (hq v).mp ⟨t, ht⟩⟩
  · rintro ⟨a, x, _, rfl, hx, a', y, c, rfl, hy, hc⟩
    cases (hsame y).mp hy
    obtain ⟨m, z, hm, heq⟩ := exists_first (e := e) a' c
    obtain ⟨t, ht⟩ := (hq (z ++ c)).mpr (hc.append_left z)
    refine ⟨a, x ++ (a' ++ ([e] ++ c)), t, rfl, reads_literal_append.mpr ⟨x, _, hx, rfl, ?_⟩⟩
    refine (reads_until hok).mpr ⟨m, e :: (z ++ c), hm, heq, ?_⟩
    exact reads_literal_append.mpr ⟨[e], z ++ c, (hsame [e]).mpr rfl, rfl, ht⟩

def Plain (p : Pattern α) : Prop := ∀ ok, Item.here ok ∉ p

def Word (p : Pattern α) (b : List α) : Prop := Reads p b []

theorem Item.Reads.append_right {i : Item α} (hi : ∀ ok, i ≠ .here ok) {b t : List α} (u : List α)
    (h : i.Reads b t) : i.Reads (b ++ u) (t ++ u) := by
  cases i with
  | one ok =>
    obtain ⟨c, hc, rfl⟩ := h
    exact ⟨c, hc, rfl⟩
  | many ok =>
    obtain ⟨x, hx, rfl⟩ := h
    exact ⟨x, hx, List.append_assoc x t u⟩
  | fewest ok =>
    obtain ⟨x, hx, rfl⟩ := h
    exact ⟨x, hx, List.append_assoc x t u⟩
  | here ok => exact absurd rfl (hi ok)

theorem Item.Reads.of_append_right {i : Item α} (hi : ∀ ok, i ≠ .here ok) {s t u : List α}
    (h : i.Reads s (t ++ u)) : ∃ b, s = b ++ u ∧ i.Reads b t := by
  cases i with
  | one ok =>
    obtain ⟨c, hc, rfl⟩ := h
    exact ⟨c :: t, rfl, c, hc, rfl⟩
  | many ok =>
    obtain ⟨x, hx, rfl⟩ := h
    exact ⟨x ++ t, (List.append_assoc x t u).symm, x, hx, rfl⟩
  | fewest ok =>
    obtain ⟨x, hx, rfl⟩ := h
    exact ⟨x ++ t, (List.append_assoc x t u).symm, x, hx, rfl⟩
  | here ok => exact absurd rfl (hi ok)

theorem plain_append {p q : Pattern α} (hp : Plain p) (hq : Plain q) : Plain (p ++ q) := by
  intro ok hmem
  rcases List.mem_append.mp hmem with h | h
  · exact hp ok h
  · exact hq ok h

theorem plain_literal (same : α → α → Bool) (w : List α) : Plain (literal same w) := by
  intro ok hmem
  obtain ⟨c, -, hc⟩ := List.mem_map.mp hmem
  cases hc

theorem reads_iff_word {p : Pattern α} (hp : Plain p) {s u : List α} :
    Reads p s u ↔ ∃ b, s = b ++ u ∧ Word p b := by
  unfold Word
  induction p generalizing s with
  | nil =>
    constructor
    · rintro rfl
      exact ⟨[], rfl, rfl⟩
    · rintro ⟨b, rfl, rfl⟩
      rfl
  | cons i p ih =>
    have hi : ∀ ok, i ≠ .here ok := fun ok heq => hp ok (heq ▸ List.mem_cons_self)
    have hp' : Plain p := fun ok hmem => hp ok (List.mem_cons_of_mem i hmem)
    constructor
    · rintro ⟨t, hit, ht⟩
      obtain ⟨b, rfl, hb⟩ := (ih hp').mp ht
      obtain ⟨b', rfl, hb'⟩ := hit.of_append_right hi
      exact ⟨b', rfl, b, hb', hb⟩
    · rintro ⟨b, rfl, t, hit, ht⟩
      exact ⟨t ++ u, hit.append_right hi u, (ih hp').mpr ⟨t, rfl, ht⟩⟩

end TextPattern
