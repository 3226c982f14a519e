import GroundGraph.Library.Iteration
import GroundGraph.Library.LabelledPath
import Mathlib.Data.List.Basic
import Mathlib.Data.Nat.Init
import Mathlib.Order.Nat
import Mathlib.Order.Bounds.Basic

/-! Breadth-first traversal of a graph with labelled edges, which marks the edges it
has used and not the nodes it has seen. It goes down to a bounded depth and stops
early once a given number of edges is marked. When it does not stop early, the
labels it marks and the depth at which it first meets each of them depend only on
which edges there are, not on the order in which an expansion lists them.
-/

set_option autoImplicit false

universe u v

namespace EdgeTraversal

variable {ν : Type u} {κ : Type v}

structure Mark (ν : Type u) (κ : Type v) where
  node : ν
  label : κ
  depth : Nat

/-- `expanded` records which nodes were expanded and at which depth. -/
structure Frontier (ν : Type u) (κ : Type v) where
  queue : List (ν × Nat)
  marks : List (Mark ν κ)
  expanded : List (ν × Nat)

def Frontier.Marked (s : Frontier ν κ) (n : ν) (k : κ) : Prop :=
  ∃ m ∈ s.marks, m.node = n ∧ m.label = k

def start (seed : ν) : Frontier ν κ := ⟨[(seed, 1)], [], []⟩

variable [DecidableEq ν] [DecidableEq κ]

instance (s : Frontier ν κ) (n : ν) (k : κ) : Decidable (s.Marked n k) :=
  inferInstanceAs (Decidable (∃ m ∈ s.marks, _))

/-- Of two edges with one label the first counts. -/
def firstOf : List (κ × ν) → κ → Option ν
  | [], _ => none
  | e :: es, k => if e.1 = k then some e.2 else firstOf es k

def offer (n : ν) (d : Nat) (s : Frontier ν κ) (e : κ × ν) : Frontier ν κ :=
  if s.Marked n e.1 then s
  else { s with queue := s.queue ++ [(e.2, d + 1)], marks := s.marks ++ [⟨n, e.1, d⟩] }

/-- `adj t n` lists the edges that leave `n`, as the expansion number `t` finds them. -/
def expand (adj : Nat → ν → List (κ × ν)) (n : ν) (d : Nat) (s : Frontier ν κ) : Frontier ν κ :=
  (adj s.expanded.length n).foldl (offer n d) { s with expanded := (n, d) :: s.expanded }

def step (adj : Nat → ν → List (κ × ν)) (bound : Int) (cap : Nat) (s : Frontier ν κ) :
    Option (Frontier ν κ) :=
  match s.queue with
  | [] => none
  | (n, d) :: rest =>
    if cap ≤ s.marks.length then none
    else if bound < d then some { s with queue := rest }
    else some (expand adj n d { s with queue := rest })

def loop (adj : Nat → ν → List (κ × ν)) (bound : Int) (cap fuel : Nat) :
    Frontier ν κ → Frontier ν κ :=
  Iteration.run (step adj bound cap) fuel

omit [DecidableEq ν] in
theorem firstOf_append (l l' : List (κ × ν)) (k : κ) :
    firstOf (l ++ l') k = (firstOf l k).or (firstOf l' k) := by
  induction l with
  | nil => simp [firstOf]
  | cons e es ih =>
    by_cases h : e.1 = k
    · simp [firstOf, h]
    · simp [firstOf, h, ih]

omit [DecidableEq ν] in
theorem mem_of_firstOf {l : List (κ × ν)} {k : κ} {m : ν} (h : firstOf l k = some m) :
    (k, m) ∈ l := by
  induction l with
  | nil => cases h
  | cons e es ih =>
    by_cases hk : e.1 = k
    · rw [firstOf, if_pos hk] at h
      obtain rfl := Option.some.inj h
      rw [← hk]
      exact List.mem_cons_self
    · rw [firstOf, if_neg hk] at h
      exact List.mem_cons_of_mem _ (ih h)

omit [DecidableEq ν] in
theorem firstOf_isSome_of_mem {l : List (κ × ν)} {k : κ} {m : ν} (h : (k, m) ∈ l) :
    (firstOf l k).isSome := by
  induction l with
  | nil => cases h
  | cons e es ih =>
    by_cases hk : e.1 = k
    · simp [firstOf, hk]
    · rw [firstOf, if_neg hk]
      rcases List.mem_cons.mp h with rfl | h
      · exact absurd rfl hk
      · exact ih h

omit [DecidableEq ν] in
/-- The order does not matter where a label has one end only. -/
theorem firstOf_congr {l l' : List (κ × ν)} (hmem : ∀ e, e ∈ l ↔ e ∈ l')
    (hfun : ∀ k m m', (k, m) ∈ l → (k, m') ∈ l → m = m') (k : κ) : firstOf l k = firstOf l' k := by
  ext m
  constructor
  · intro h
    have hin := (hmem _).mp (mem_of_firstOf h)
    obtain ⟨m', hm'⟩ := Option.isSome_iff_exists.mp (firstOf_isSome_of_mem hin)
    rw [hm', hfun k m m' (mem_of_firstOf h) ((hmem _).mpr (mem_of_firstOf hm'))]
  · intro h
    have hin := (hmem _).mpr (mem_of_firstOf h)
    obtain ⟨m', hm'⟩ := Option.isSome_iff_exists.mp (firstOf_isSome_of_mem hin)
    rw [hm', hfun k m m' hin (mem_of_firstOf hm')]

theorem foldl_offer (n : ν) (d : Nat) (l : List (κ × ν)) (s : Frontier ν κ) :
    ∃ new : List (κ × ν),
      l.foldl (offer n d) s =
        { s with queue := s.queue ++ new.map fun e => (e.2, d + 1)
                 marks := s.marks ++ new.map fun e => ⟨n, e.1, d⟩ } ∧
      (∀ e ∈ new, ¬ s.Marked n e.1 ∧ firstOf l e.1 = some e.2) ∧
      ∀ k m, firstOf l k = some m → ¬ s.Marked n k → (k, m) ∈ new := by
  induction l generalizing s with
  | nil => exact ⟨[], by simp, by simp, by simp [firstOf]⟩
  | cons e es ih =>
    by_cases hseen : s.Marked n e.1
    · obtain ⟨new, heq, hnew, hall⟩ := ih s
      refine ⟨new, by rw [List.foldl_cons, offer, if_pos hseen, heq], ?_, ?_⟩
      · intro x hx
        obtain ⟨hfresh, hfirst⟩ := hnew x hx
        have hne : e.1 ≠ x.1 := fun h => hfresh (h ▸ hseen)
        exact ⟨hfresh, by rw [firstOf, if_neg hne, hfirst]⟩
      · intro k m hfirst hfresh
        have hne : e.1 ≠ k := fun h => hfresh (h ▸ hseen)
        rw [firstOf, if_neg hne] at hfirst
        exact hall k m hfirst hfresh
    · obtain ⟨new, heq, hnew, hall⟩ := ih
        { s with queue := s.queue ++ [(e.2, d + 1)], marks := s.marks ++ [⟨n, e.1, d⟩] }
      refine ⟨e :: new, ?_, ?_, ?_⟩
      · rw [List.foldl_cons, offer, if_neg hseen, heq]
        simp
      · intro x hx
        rcases List.mem_cons.mp hx with rfl | hx
        · exact ⟨hseen, by rw [firstOf, if_pos rfl]⟩
        · obtain ⟨hfresh, hfirst⟩ := hnew x hx
          refine ⟨fun ⟨m, hm, h⟩ => hfresh ⟨m, List.mem_append_left _ hm, h⟩, ?_⟩
          have hne : e.1 ≠ x.1 := fun h =>
            hfresh ⟨⟨n, e.1, d⟩, List.mem_append_right _ List.mem_cons_self, rfl, h⟩
          rw [firstOf, if_neg hne, hfirst]
      · intro k m hfirst hfresh
        by_cases hk : e.1 = k
        · rw [firstOf, if_pos hk] at hfirst
          rw [← hk, ← Option.some.inj hfirst]
          exact List.mem_cons_self
        · rw [firstOf, if_neg hk] at hfirst
          refine List.mem_cons_of_mem _ (hall k m hfirst ?_)
          rintro ⟨x, hx, hnode, hlabel⟩
          rcases List.mem_append.mp hx with hx | hx
          · exact hfresh ⟨x, hx, hnode, hlabel⟩
          · obtain rfl := List.mem_singleton.mp hx
            exact hk hlabel

/-- The frontier once the edges `new` have been found from `n`. -/
def Frontier.extend (s : Frontier ν κ) (n : ν) (d : Nat) (new : List (κ × ν)) : Frontier ν κ where
  queue := s.queue ++ new.map fun e => (e.2, d + 1)
  marks := s.marks ++ new.map fun e => ⟨n, e.1, d⟩
  expanded := (n, d) :: s.expanded

omit [DecidableEq ν] [DecidableEq κ] in
theorem Frontier.mem_queue_extend {s : Frontier ν κ} {n : ν} {d : Nat} {new : List (κ × ν)}
    {b : ν × Nat} :
    b ∈ (s.extend n d new).queue ↔ b ∈ s.queue ∨ ∃ e ∈ new, b = (e.2, d + 1) := by
  simp [extend, eq_comm]

omit [DecidableEq ν] [DecidableEq κ] in
theorem Frontier.mem_marks_extend {s : Frontier ν κ} {n : ν} {d : Nat} {new : List (κ × ν)}
    {m : Mark ν κ} :
    m ∈ (s.extend n d new).marks ↔ m ∈ s.marks ∨ ∃ e ∈ new, m = ⟨n, e.1, d⟩ := by
  simp [extend, eq_comm]

omit [DecidableEq ν] [DecidableEq κ] in
theorem Frontier.Marked.extend {s : Frontier ν κ} {n' : ν} {k : κ} (h : s.Marked n' k) (n : ν)
    (d : Nat) (new : List (κ × ν)) : (s.extend n d new).Marked n' k := by
  obtain ⟨m, hm, hlabel⟩ := h
  exact ⟨m, Frontier.mem_marks_extend.mpr (Or.inl hm), hlabel⟩

theorem expand_eq (adj : Nat → ν → List (κ × ν)) (n : ν) (d : Nat) (s : Frontier ν κ) :
    ∃ new : List (κ × ν), expand adj n d s = s.extend n d new ∧
      (∀ e ∈ new, ¬ s.Marked n e.1 ∧ firstOf (adj s.expanded.length n) e.1 = some e.2) ∧
      ∀ k m, firstOf (adj s.expanded.length n) k = some m → ¬ s.Marked n k → (k, m) ∈ new :=
  foldl_offer n d (adj s.expanded.length n) { s with expanded := (n, d) :: s.expanded }

theorem step_cases {adj : Nat → ν → List (κ × ν)} {bound : Int} {cap : Nat} {s s' : Frontier ν κ}
    (h : step adj bound cap s = some s') :
    ∃ n d rest, s.queue = (n, d) :: rest ∧ s.marks.length < cap ∧
      ((bound < d ∧ s' = { s with queue := rest }) ∨
        ((d : Int) ≤ bound ∧ s' = expand adj n d { s with queue := rest })) := by
  unfold step at h
  split at h
  · cases h
  · rename_i n d rest hq
    split at h
    · cases h
    · rename_i hcap
      refine ⟨n, d, rest, hq, Nat.lt_of_not_le hcap, ?_⟩
      split at h
      · rename_i hdeep
        exact Or.inl ⟨hdeep, (Option.some.inj h).symm⟩
      · rename_i hdeep
        exact Or.inr ⟨Int.not_lt.mp hdeep, (Option.some.inj h).symm⟩

/-! The loop ends: every edge that is marked adds one entry to the queue, and every
pass takes one away. -/

theorem step_loop_eq_none (adj : Nat → ν → List (κ × ν)) (bound : Int) (cap : Nat)
    (fuel : Nat) (s : Frontier ν κ) (passes : Nat) (hfuel : cap ≤ fuel + passes)
    (hbalance : passes + s.queue.length = 1 + s.marks.length) :
    step adj bound cap (loop adj bound cap fuel s) = none := by
  unfold loop
  induction fuel generalizing s passes with
  | zero =>
    simp only [Iteration.run]
    cases hstep : step adj bound cap s with
    | none => rfl
    | some s' =>
      obtain ⟨n, d, rest, hq, hcap, _⟩ := step_cases hstep
      rw [hq, List.length_cons] at hbalance
      omega
  | succ fuel ih =>
    simp only [Iteration.run]
    cases hstep : step adj bound cap s with
    | none => exact hstep
    | some s' =>
      refine ih s' (passes + 1) (by omega) ?_
      obtain ⟨n, d, rest, hq, _, ⟨_, rfl⟩ | ⟨_, rfl⟩⟩ := step_cases hstep
      · rw [hq, List.length_cons] at hbalance
        simp only
        omega
      · obtain ⟨new, heq, _⟩ := expand_eq adj n d { s with queue := rest }
        rw [hq, List.length_cons] at hbalance
        rw [heq]
        simp only [Frontier.extend, List.length_append, List.length_map]
        omega

inductive Walk (edge : ν → κ → Option ν) (seed : ν) : Nat → ν → Prop
  | nil : Walk edge seed 0 seed
  | cons {j : Nat} {n m : ν} {k : κ} (h : Walk edge seed j n) (he : edge n k = some m) :
      Walk edge seed (j + 1) m

/-- The node is waiting, expanded or too deep, at this depth or above. -/
def Handled (bound : Int) (s : Frontier ν κ) (m : ν) (d : Nat) : Prop :=
  ∃ d' ≤ d, (m, d') ∈ s.queue ∨ (m, d') ∈ s.expanded ∨ bound < d'

structure Inv (edge : ν → κ → Option ν) (seed : ν) (bound : Int) (s : Frontier ν κ) : Prop where
  waiting : ∀ e ∈ s.queue, ∃ j, e.2 = j + 1 ∧ Walk edge seed j e.1
  visited : ∀ e ∈ s.expanded, (e.2 : Int) ≤ bound ∧ ∃ j, e.2 = j + 1 ∧ Walk edge seed j e.1
  sorted : s.queue.Pairwise fun a b => a.2 ≤ b.2
  window : ∀ a ∈ s.queue, ∀ b ∈ s.queue, b.2 ≤ a.2 + 1
  past : ∀ a ∈ s.expanded, ∀ b ∈ s.queue, a.2 ≤ b.2
  marked : ∀ m ∈ s.marks, (m.node, m.depth) ∈ s.expanded ∧ (edge m.node m.label).isSome
  earliest : ∀ m ∈ s.marks, ∀ d, (m.node, d) ∈ s.expanded → m.depth ≤ d
  ranked : s.marks.Pairwise fun a b => a.depth ≤ b.depth
  complete : ∀ e ∈ s.expanded, ∀ k, (edge e.1 k).isSome → s.Marked e.1 k
  closed : ∀ e ∈ s.expanded, ∀ k m, edge e.1 k = some m → Handled bound s m (e.2 + 1)
  seed : Handled bound s seed 1

variable {edge : ν → κ → Option ν} {seed : ν} {bound : Int}

omit [DecidableEq ν] [DecidableEq κ] in
theorem start_inv : Inv edge seed bound (start seed : Frontier ν κ) := by
  refine ⟨?_, by simp [start], by simp [start], by simp [start], by simp [start], by simp [start],
    by simp [start], by simp [start], by simp [start], by simp [start],
    ⟨1, le_rfl, Or.inl (by simp [start])⟩⟩
  intro e he
  obtain rfl : e = (seed, 1) := by simpa [start] using he
  exact ⟨0, rfl, .nil⟩

omit [DecidableEq ν] [DecidableEq κ] in
theorem Handled.mono {s s' : Frontier ν κ} {m : ν} {d d' : Nat} (h : Handled bound s m d)
    (hd : d ≤ d')
    (hqueue : ∀ e ∈ s.queue, e ∈ s'.queue ∨ e ∈ s'.expanded ∨ bound < e.2)
    (hexpanded : ∀ e ∈ s.expanded, e ∈ s'.expanded) : Handled bound s' m d' := by
  obtain ⟨d₀, hle, hq | he | hb⟩ := h
  · exact ⟨d₀, hle.trans hd, hqueue _ hq⟩
  · exact ⟨d₀, hle.trans hd, Or.inr (Or.inl (hexpanded _ he))⟩
  · exact ⟨d₀, hle.trans hd, Or.inr (Or.inr hb)⟩

omit [DecidableEq ν] [DecidableEq κ] in
theorem Inv.skip {s : Frontier ν κ} (hi : Inv edge seed bound s) {n : ν} {d : Nat}
    {rest : List (ν × Nat)} (hq : s.queue = (n, d) :: rest) (hdeep : bound < d) :
    Inv edge seed bound { s with queue := rest } := by
  have hsub : ∀ e ∈ rest, e ∈ s.queue := fun e he => hq ▸ List.mem_cons_of_mem _ he
  have hqueue : ∀ e ∈ s.queue, e ∈ rest ∨ e ∈ s.expanded ∨ bound < e.2 := by
    intro e he
    rw [hq] at he
    rcases List.mem_cons.mp he with rfl | he
    · exact Or.inr (Or.inr hdeep)
    · exact Or.inl he
  refine ⟨fun e he => hi.waiting e (hsub e he), hi.visited, ?_,
    fun a ha b hb => hi.window a (hsub a ha) b (hsub b hb),
    fun a ha b hb => hi.past a ha b (hsub b hb), hi.marked, hi.earliest, hi.ranked,
    hi.complete, ?_, ?_⟩
  · have hsorted := hi.sorted
    rw [hq] at hsorted
    exact (List.pairwise_cons.mp hsorted).2
  · intro e he k m hedge
    exact (hi.closed e he k m hedge).mono le_rfl hqueue (fun _ h => h)
  · exact hi.seed.mono le_rfl hqueue (fun _ h => h)

section Expansion

variable {s : Frontier ν κ} {n : ν} {d : Nat} {rest : List (ν × Nat)}

omit [DecidableEq ν] [DecidableEq κ]

/-- What is found from the head stands one level below it, and so does what waits
behind the head at most. -/
theorem Inv.expand_depth (hi : Inv edge seed bound s) (hq : s.queue = (n, d) :: rest)
    (new : List (κ × ν)) :
    ∀ b ∈ (Frontier.extend { s with queue := rest } n d new).queue, d ≤ b.2 ∧ b.2 ≤ d + 1 := by
  have hsorted := hi.sorted
  rw [hq, List.pairwise_cons] at hsorted
  intro b hb
  rcases Frontier.mem_queue_extend.mp hb with hb | ⟨e, _, rfl⟩
  · exact ⟨hsorted.1 b hb, hi.window (n, d) (by simp [hq]) b (hq ▸ List.mem_cons_of_mem _ hb)⟩
  · exact ⟨Nat.le_succ d, le_rfl⟩

theorem Inv.expand_sorted (hi : Inv edge seed bound s) (hq : s.queue = (n, d) :: rest)
    (new : List (κ × ν)) :
    (Frontier.extend { s with queue := rest } n d new).queue.Pairwise fun a b => a.2 ≤ b.2 := by
  have hsorted := hi.sorted
  rw [hq, List.pairwise_cons] at hsorted
  refine List.pairwise_append.mpr ⟨hsorted.2, ?_, ?_⟩
  · exact List.pairwise_map.mpr (List.pairwise_of_forall fun _ _ => le_rfl)
  · intro a ha b hb
    obtain ⟨e, _, rfl⟩ := List.mem_map.mp hb
    exact (hi.expand_depth hq new a (Frontier.mem_queue_extend.mpr (Or.inl ha))).2

theorem Inv.depth_le (hi : Inv edge seed bound s) (hq : s.queue = (n, d) :: rest) :
    ∀ m ∈ s.marks, m.depth ≤ d :=
  fun m hm => hi.past _ (hi.marked m hm).1 (n, d) (by simp [hq])

theorem Inv.expand_ranked (hi : Inv edge seed bound s) (hq : s.queue = (n, d) :: rest)
    (new : List (κ × ν)) :
    (Frontier.extend { s with queue := rest } n d new).marks.Pairwise
      fun a b => a.depth ≤ b.depth := by
  refine List.pairwise_append.mpr ⟨hi.ranked, ?_, ?_⟩
  · exact List.pairwise_map.mpr (List.pairwise_of_forall fun _ _ => le_rfl)
  · intro a ha b hb
    obtain ⟨e, _, rfl⟩ := List.mem_map.mp hb
    exact hi.depth_le hq a ha

/-- A mark names the earliest expansion of its node: one before this would have marked
the edge, which is new. -/
theorem Inv.expand_earliest (hi : Inv edge seed bound s) (hq : s.queue = (n, d) :: rest)
    {new : List (κ × ν)} (hnew : ∀ e ∈ new, ¬ s.Marked n e.1 ∧ edge n e.1 = some e.2) :
    ∀ m ∈ (Frontier.extend { s with queue := rest } n d new).marks, ∀ d',
      (m.node, d') ∈ (n, d) :: s.expanded → m.depth ≤ d' := by
  intro m hm d' hd'
  rcases Frontier.mem_marks_extend.mp hm with hm | ⟨e, he, rfl⟩
  · rcases List.mem_cons.mp hd' with h | hd'
    · rw [(Prod.mk.inj h).2]
      exact hi.depth_le hq m hm
    · exact hi.earliest m hm d' hd'
  · rcases List.mem_cons.mp hd' with h | hd'
    · exact (Prod.mk.inj h).2.ge
    · have hsome : (edge n e.1).isSome := by simp [(hnew e he).2]
      exact absurd (hi.complete _ hd' e.1 hsome) (hnew e he).1

theorem Inv.expand_complete (hi : Inv edge seed bound s) {new : List (κ × ν)}
    (hall : ∀ k m, edge n k = some m → ¬ s.Marked n k → (k, m) ∈ new) :
    ∀ e ∈ (n, d) :: s.expanded, ∀ k, (edge e.1 k).isSome →
      (Frontier.extend { s with queue := rest } n d new).Marked e.1 k := by
  intro e he k hsome
  have hkeep : s.Marked e.1 k → (Frontier.extend { s with queue := rest } n d new).Marked e.1 k :=
    fun h => Frontier.Marked.extend (s := { s with queue := rest }) h n d new
  rcases List.mem_cons.mp he with rfl | he
  · by_cases hseen : s.Marked n k
    · exact hkeep hseen
    · obtain ⟨m, hm⟩ := Option.isSome_iff_exists.mp hsome
      exact ⟨⟨n, k, d⟩, Frontier.mem_marks_extend.mpr (Or.inr ⟨(k, m), hall k m hm hseen, rfl⟩),
        rfl, rfl⟩
  · exact hkeep (hi.complete e he k hsome)

theorem Handled.extend {m : ν} {d₀ d' : Nat} (h : Handled bound s m d₀) (hd : d₀ ≤ d')
    (hq : s.queue = (n, d) :: rest) (new : List (κ × ν)) :
    Handled bound (Frontier.extend { s with queue := rest } n d new) m d' := by
  refine h.mono hd ?_ (fun e he => List.mem_cons_of_mem _ he)
  intro e he
  rw [hq] at he
  rcases List.mem_cons.mp he with rfl | he
  · exact Or.inr (Or.inl List.mem_cons_self)
  · exact Or.inl (Frontier.mem_queue_extend.mpr (Or.inl he))

theorem Inv.expand_closed (hi : Inv edge seed bound s) (hq : s.queue = (n, d) :: rest)
    {new : List (κ × ν)} (hall : ∀ k m, edge n k = some m → ¬ s.Marked n k → (k, m) ∈ new) :
    ∀ e ∈ (n, d) :: s.expanded, ∀ k m, edge e.1 k = some m →
      Handled bound (Frontier.extend { s with queue := rest } n d new) m (e.2 + 1) := by
  intro e he k m hedge
  rcases List.mem_cons.mp he with rfl | he
  · by_cases hseen : s.Marked n k
    · -- expanded before, and then at this depth or above
      obtain ⟨x, hx, rfl, rfl⟩ := hseen
      exact (hi.closed _ (hi.marked x hx).1 _ m hedge).extend
        (Nat.succ_le_succ (hi.depth_le hq x hx)) hq new
    · exact ⟨d + 1, le_rfl, Or.inl (Frontier.mem_queue_extend.mpr
        (Or.inr ⟨(k, m), hall k m hedge hseen, rfl⟩))⟩
  · exact (hi.closed e he k m hedge).extend le_rfl hq new

end Expansion

theorem Inv.expand {adj : Nat → ν → List (κ × ν)} {s : Frontier ν κ}
    (hi : Inv edge seed bound s) {n : ν} {d : Nat} {rest : List (ν × Nat)}
    (hq : s.queue = (n, d) :: rest) (hbound : (d : Int) ≤ bound)
    (hadj : ∀ t k, firstOf (adj t n) k = edge n k) :
    Inv edge seed bound (expand adj n d { s with queue := rest }) := by
  obtain ⟨new, heq, hnew, hall⟩ := expand_eq adj n d { s with queue := rest }
  rw [heq]
  simp only [hadj] at hnew hall
  have hhead : (n, d) ∈ s.queue := by simp [hq]
  have hdepth := hi.expand_depth hq new
  obtain ⟨j, hj, hwalk⟩ := hi.waiting (n, d) hhead
  refine ⟨?_, ?_, hi.expand_sorted hq new, ?_, ?_, ?_, hi.expand_earliest hq hnew,
    hi.expand_ranked hq new, hi.expand_complete hall, hi.expand_closed hq hall,
    hi.seed.extend le_rfl hq new⟩
  · intro b hb
    rcases Frontier.mem_queue_extend.mp hb with hb | ⟨e, he, rfl⟩
    · exact hi.waiting b (hq ▸ List.mem_cons_of_mem _ hb)
    · exact ⟨j + 1, by simp [← hj], .cons hwalk (hnew e he).2⟩
  · intro e he
    rcases List.mem_cons.mp he with rfl | he
    · exact ⟨hbound, j, hj, hwalk⟩
    · exact hi.visited e he
  · intro a ha b hb
    exact (hdepth b hb).2.trans (Nat.succ_le_succ (hdepth a ha).1)
  · intro a ha b hb
    rcases List.mem_cons.mp ha with rfl | ha
    · exact (hdepth b hb).1
    · exact (hi.past a ha (n, d) hhead).trans (hdepth b hb).1
  · intro m hm
    rcases Frontier.mem_marks_extend.mp hm with hm | ⟨e, he, rfl⟩
    · exact ⟨List.mem_cons_of_mem _ (hi.marked m hm).1, (hi.marked m hm).2⟩
    · exact ⟨List.mem_cons_self, by simp [(hnew e he).2]⟩

theorem expanded_subset_step {adj : Nat → ν → List (κ × ν)} {cap : Nat} {s s' : Frontier ν κ}
    (h : step adj bound cap s = some s') : ∀ e ∈ s.expanded, e ∈ s'.expanded := by
  intro e he
  obtain ⟨n, d, rest, _, _, ⟨_, rfl⟩ | ⟨_, rfl⟩⟩ := step_cases h
  · exact he
  · obtain ⟨new, heq, _⟩ := expand_eq adj n d { s with queue := rest }
    rw [heq]
    exact List.mem_cons_of_mem _ he

/-- The invariant holds at the end if every expansion saw the edges of the graph. -/
theorem loop_inv {adj : Nat → ν → List (κ × ν)} {cap : Nat} (fuel : Nat) (s : Frontier ν κ)
    (hi : Inv edge seed bound s)
    (hadj : ∀ e ∈ (loop adj bound cap fuel s).expanded, ∀ t k, firstOf (adj t e.1) k = edge e.1 k) :
    Inv edge seed bound (loop adj bound cap fuel s) := by
  unfold loop at hadj ⊢
  induction fuel generalizing s with
  | zero => exact hi
  | succ fuel ih =>
    simp only [Iteration.run] at hadj ⊢
    cases hstep : step adj bound cap s with
    | none => exact hi
    | some s' =>
      simp only [hstep] at hadj
      refine ih s' ?_ hadj
      have hkept : ∀ e ∈ s'.expanded, e ∈ (Iteration.run (step adj bound cap) fuel s').expanded :=
        Iteration.run_preserves (fun t => ∀ e ∈ s'.expanded, e ∈ t.expanded)
        (fun _ _ ht hs e he => expanded_subset_step hs e (ht e he)) fuel s' (fun _ he => he)
      obtain ⟨n, d, rest, hq, _, ⟨hdeep, rfl⟩ | ⟨hshallow, rfl⟩⟩ := step_cases hstep
      · exact hi.skip hq hdeep
      · refine hi.expand hq hshallow (hadj (n, d) (hkept _ ?_))
        obtain ⟨new, heq, _⟩ := expand_eq adj n d { s with queue := rest }
        rw [heq]
        exact List.mem_cons_self

omit [DecidableEq ν] [DecidableEq κ] in
theorem Handled.mem_expanded {s : Frontier ν κ} {m : ν} {d : Nat} (h : Handled bound s m d)
    (hd : (d : Int) ≤ bound) (hq : ∀ e ∈ s.queue, d < e.2) : ∃ d' ≤ d, (m, d') ∈ s.expanded := by
  obtain ⟨d', hle, hin | hin | hdeep⟩ := h
  · have hlt := hq _ hin
    omega
  · exact ⟨d', hle, hin⟩
  · omega

omit [DecidableEq ν] [DecidableEq κ] in
/-- When only deeper entries wait, every walk within the bound ends in an expanded node. -/
theorem Inv.expanded_of_walk {s : Frontier ν κ} (hi : Inv edge seed bound s) {j : Nat} {n : ν}
    (h : Walk edge seed j n) (hj : (j : Int) + 1 ≤ bound) (hq : ∀ e ∈ s.queue, j + 1 < e.2) :
    ∃ d ≤ j + 1, (n, d) ∈ s.expanded := by
  induction h with
  | nil => exact hi.seed.mem_expanded (by simpa using hj) (by simpa using hq)
  | @cons j n m k _ hedge ih =>
    obtain ⟨d, hd, hin⟩ := ih (by push_cast at hj; omega) (fun e he => by have := hq e he; omega)
    have hhandled : Handled bound s m (j + 1 + 1) :=
      (hi.closed _ hin k m hedge).mono (by omega) (fun _ he => Or.inl he) (fun _ he => he)
    exact hhandled.mem_expanded (by push_cast at hj ⊢; omega) hq

/-- The label leaves the end of a walk that is one step shorter than `d`. -/
def Reaches (edge : ν → κ → Option ν) (seed : ν) (bound : Int) (k : κ) (d : Nat) : Prop :=
  ∃ j n, d = j + 1 ∧ (d : Int) ≤ bound ∧ Walk edge seed j n ∧ (edge n k).isSome

theorem loop_queue_eq_nil {adj : Nat → ν → List (κ × ν)} {cap : Nat}
    (hcap : (loop adj bound cap cap (start seed)).marks.length < cap) :
    (loop adj bound cap cap (start seed)).queue = [] := by
  have hend := step_loop_eq_none adj bound cap cap (start seed) 0 (by omega) (by simp [start])
  generalize loop adj bound cap cap (start seed) = s at hend hcap
  cases hq : s.queue with
  | nil => rfl
  | cons e rest =>
    simp only [step, hq] at hend
    rw [if_neg (by omega)] at hend
    split at hend <;> cases hend

omit [DecidableEq ν] [DecidableEq κ] in
theorem Inv.reaches_of_mark {s : Frontier ν κ} (hi : Inv edge seed bound s) :
    ∀ m ∈ s.marks, Reaches edge seed bound m.label m.depth := by
  intro m hm
  obtain ⟨hexp, hsome⟩ := hi.marked m hm
  obtain ⟨hbound, j, hj, hwalk⟩ := hi.visited _ hexp
  exact ⟨j, m.node, hj, hbound, hwalk, hsome⟩

omit [DecidableEq ν] [DecidableEq κ] in
theorem Inv.mark_of_reaches {s : Frontier ν κ} (hi : Inv edge seed bound s) {k : κ} {d : Nat}
    (h : Reaches edge seed bound k d) (hq : ∀ e ∈ s.queue, d < e.2) :
    ∃ m ∈ s.marks, m.label = k ∧ m.depth ≤ d := by
  obtain ⟨j, n, rfl, hbound, hwalk, hsome⟩ := h
  obtain ⟨d', hd', hexp⟩ := hi.expanded_of_walk hwalk (by simpa using hbound) hq
  obtain ⟨m, hm, rfl, hlabel⟩ := hi.complete _ hexp k hsome
  exact ⟨m, hm, hlabel, (hi.earliest m hm d' hexp).trans hd'⟩

omit [DecidableEq ν] in
/-- At every moment the first mark with a label stands at the least depth that reaches it. -/
theorem Inv.firstMark_isLeast {s : Frontier ν κ} (hi : Inv edge seed bound s) {k : κ}
    {m : Mark ν κ} (hm : (s.marks.find? fun m => decide (m.label = k)) = some m) :
    IsLeast {d | Reaches edge seed bound k d} m.depth := by
  obtain ⟨hlabel, before, after, hsplit, hbefore⟩ := List.find?_eq_some_iff_append.mp hm
  have hmem : m ∈ s.marks := by simp [hsplit]
  have hk : m.label = k := of_decide_eq_true hlabel
  refine ⟨hk ▸ hi.reaches_of_mark m hmem, ?_⟩
  intro d hd
  by_contra hlt
  have hqueue : ∀ e ∈ s.queue, d < e.2 := fun e he =>
    (Nat.lt_of_not_le hlt).trans_le (hi.past _ (hi.marked m hmem).1 e he)
  obtain ⟨m', hm', hlabel', hdepth⟩ := hi.mark_of_reaches hd hqueue
  refine hlt (le_trans ?_ hdepth)
  have hranked := hi.ranked
  rw [hsplit] at hm' hranked
  rcases List.mem_append.mp hm' with h | h
  · simpa [hlabel'] using hbefore m' h
  · rcases List.mem_cons.mp h with rfl | h
    · exact le_rfl
    · exact (List.pairwise_cons.mp (List.pairwise_append.mp hranked).2.1).1 m' h

/-- The depth of the first mark with a label, when neither the cap stops the
traversal nor an expansion misses an edge: the least depth that reaches the label. -/
theorem firstDepth_eq_some_iff {adj : Nat → ν → List (κ × ν)} {cap : Nat}
    (hcap : (loop adj bound cap cap (start seed)).marks.length < cap)
    (hadj : ∀ e ∈ (loop adj bound cap cap (start seed)).expanded,
      ∀ t k, firstOf (adj t e.1) k = edge e.1 k) (k : κ) (d : Nat) :
    (((loop adj bound cap cap (start seed)).marks.find? fun m => decide (m.label = k)).map
        Mark.depth = some d) ↔ IsLeast {d | Reaches edge seed bound k d} d := by
  have hi : Inv edge seed bound (loop adj bound cap cap (start seed)) :=
    loop_inv cap (start seed) start_inv hadj
  have hq := loop_queue_eq_nil hcap
  generalize loop adj bound cap cap (start seed) = s at hi hq
  constructor
  · intro h
    obtain ⟨m, hm, rfl⟩ := Option.map_eq_some_iff.mp h
    exact hi.firstMark_isLeast hm
  · intro h
    obtain ⟨m', hm', hlabel', _⟩ := hi.mark_of_reaches h.1 (hq ▸ List.forall_mem_nil _)
    cases hm : s.marks.find? fun m => decide (m.label = k) with
    | none => exact absurd hlabel' (by simpa using List.find?_eq_none.mp hm m' hm')
    | some m => exact congrArg some ((hi.firstMark_isLeast hm).unique h)

/-! The walks of the traversal are the paths of the graph. -/

section Paths

variable {link : ν → κ → ν → Prop} (hlink : ∀ n k m, edge n k = some m ↔ link n k m)

include hlink

omit [DecidableEq ν] [DecidableEq κ]

theorem walk_iff_leads {j : Nat} {n : ν} :
    Walk edge seed j n ↔ ∃ path, path.length = j ∧ LabelledPath.Leads link seed path n := by
  constructor
  · intro h
    induction h with
    | nil => exact ⟨[], rfl, rfl⟩
    | @cons j n m k _ he ih =>
      obtain ⟨path, rfl, hpath⟩ := ih
      exact ⟨path ++ [k], by simp, LabelledPath.leads_snoc.mpr ⟨n, hpath, (hlink _ _ _).mp he⟩⟩
  · rintro ⟨path, rfl, hpath⟩
    induction path using List.reverseRecOn generalizing n with
    | nil =>
      obtain rfl : seed = n := hpath
      exact .nil
    | append_singleton path k ih =>
      obtain ⟨m, hpath, hstep⟩ := LabelledPath.leads_snoc.mp hpath
      rw [List.length_append]
      exact .cons (ih hpath) ((hlink _ _ _).mpr hstep)

theorem reaches_iff {k : κ} {d : Nat} :
    Reaches edge seed bound k d ↔ (d : Int) ≤ bound ∧ d ∈ LabelledPath.lengthsTo link seed k := by
  constructor
  · rintro ⟨j, n, rfl, hbound, hwalk, hsome⟩
    obtain ⟨path, rfl, hpath⟩ := (walk_iff_leads hlink).mp hwalk
    obtain ⟨m, hm⟩ := Option.isSome_iff_exists.mp hsome
    exact ⟨hbound, path, m, LabelledPath.leads_snoc.mpr ⟨n, hpath, (hlink _ _ _).mp hm⟩, rfl⟩
  · rintro ⟨hbound, path, b, hpath, rfl⟩
    obtain ⟨n, hpath, hstep⟩ := LabelledPath.leads_snoc.mp hpath
    exact ⟨path.length, n, rfl, hbound, (walk_iff_leads hlink).mpr ⟨path, rfl, hpath⟩,
      by simp [(hlink _ _ _).mpr hstep]⟩

end Paths

end EdgeTraversal
