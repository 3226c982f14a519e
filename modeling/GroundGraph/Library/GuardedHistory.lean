import GroundGraph.Library.KeyedTable
import GroundGraph.Library.LabelledSystem
import Mathlib.Data.List.Chain
import Mathlib.Order.Basic

/-! A status column that is only ever rewritten by guarded updates: each names the
status it expects and the one it sets, and takes effect only on a row that still
has the first. The moves that took effect on one row form a path of the transition
table; when the table has no cycle, no status is left twice, so of any number of
updates that expect one status at most one takes effect.
-/

set_option autoImplicit false

universe u v w

structure TransitionTable (σ : Type u) where
  start : σ
  allowed : σ → σ → Bool
  rank : σ → Nat
  rank_lt : ∀ a b, allowed a b = true → rank a < rank b

structure Move (σ : Type u) where
  source : σ
  target : σ
  deriving DecidableEq

namespace TransitionTable

variable {σ : Type u} (T : TransitionTable σ)

def Terminal (a : σ) : Prop := ∀ b, T.allowed a b = false

def current : List (Move σ) → σ
  | [] => T.start
  | m :: _ => m.target

def History : List (Move σ) → Prop
  | [] => True
  | m :: ms => T.allowed m.source m.target = true ∧ m.source = T.current ms ∧ History ms

def statuses (ms : List (Move σ)) : List σ := ms.map Move.target ++ [T.start]

theorem statuses_cons (m : Move σ) (ms : List (Move σ)) :
    T.statuses (m :: ms) = m.target :: T.statuses ms := rfl

theorem head_statuses (ms : List (Move σ)) : (T.statuses ms).head? = some (T.current ms) := by
  cases ms <;> rfl

variable {T}

theorem History.path {ms : List (Move σ)} (h : T.History ms) :
    (T.statuses ms).IsChain fun b a => T.allowed a b = true := by
  induction ms with
  | nil => simp [statuses]
  | cons m ms ih =>
    obtain ⟨hallowed, hsource, hrest⟩ := h
    rw [statuses_cons, List.isChain_cons]
    refine ⟨?_, ih hrest⟩
    intro a ha
    rw [head_statuses] at ha
    obtain rfl : T.current ms = a := by simpa using ha
    rw [← hsource]
    exact hallowed

theorem History.rank_lt_current {ms : List (Move σ)} (h : T.History ms) {m : Move σ}
    (hm : m ∈ ms) : T.rank m.source < T.rank (T.current ms) := by
  induction ms with
  | nil => cases hm
  | cons n ns ih =>
    obtain ⟨hallowed, hsource, hrest⟩ := h
    have hn : T.rank n.source < T.rank n.target := T.rank_lt _ _ hallowed
    rcases List.mem_cons.mp hm with rfl | hm
    · exact hn
    · have hlt := ih hrest hm
      rw [← hsource] at hlt
      exact hlt.trans hn

theorem History.sources_nodup {ms : List (Move σ)} (h : T.History ms) :
    (ms.map Move.source).Nodup := by
  induction ms with
  | nil => exact List.nodup_nil
  | cons n ns ih =>
    obtain ⟨_, hsource, hrest⟩ := h
    refine List.nodup_cons.mpr ⟨?_, ih hrest⟩
    intro hmem
    obtain ⟨m, hm, heq⟩ := List.mem_map.mp hmem
    have hlt := hrest.rank_lt_current hm
    rw [heq, hsource] at hlt
    exact lt_irrefl _ hlt

theorem History.count_source [DecidableEq σ] {ms : List (Move σ)} (h : T.History ms) (a : σ) :
    ms.countP (fun m => decide (m.source = a)) ≤ 1 := by
  have hcount := List.nodup_iff_count_le_one.mp h.sources_nodup a
  rw [List.count_eq_countP, List.countP_map] at hcount
  exact hcount

theorem History.eq_nil_of_terminal {ns ms : List (Move σ)} (h : T.History (ns ++ ms))
    (hterm : T.Terminal (T.current ms)) : ns = [] := by
  induction ns with
  | nil => rfl
  | cons n ns ih =>
    obtain ⟨hallowed, hsource, hrest⟩ := h
    obtain rfl := ih hrest
    have hsource : n.source = T.current ms := hsource
    rw [hsource, hterm] at hallowed
    cases hallowed

theorem History.count_source_current [DecidableEq σ] {ms : List (Move σ)} (h : T.History ms) :
    ms.countP (fun m => decide (m.source = T.current ms)) = 0 := by
  rw [List.countP_eq_zero]
  intro m hm heq
  have hlt := h.rank_lt_current hm
  rw [of_decide_eq_true heq] at hlt
  exact lt_irrefl _ hlt

/-! Races: a system each of whose steps adds at most one move to one history. -/

section Race

variable {S : Type v} {A : Type w} {M : LabelledSystem S A} {I : S → Prop}
  (moves : S → List (Move σ))

theorem moves_extend
    (hinv : ∀ s a t, I s → M.step s a = some t → I t)
    (hstep : ∀ s a t, I s → M.step s a = some t → moves t = moves s ∨ ∃ m, moves t = m :: moves s)
    {s t : S} {as : List A} (hs : I s) (h : M.run s as = some t) :
    ∃ ns, moves t = ns ++ moves s := by
  refine M.run_relates (R := fun s t => ∃ ns, moves t = ns ++ moves s) (fun _ => ⟨[], rfl⟩) ?_ hinv
    ?_ hs h
  · rintro s t u ⟨ns, hns⟩ ⟨ks, hks⟩
    exact ⟨ks ++ ns, by rw [hks, hns, List.append_assoc]⟩
  · intro s a t hs hat
    rcases hstep s a t hs hat with heq | ⟨m, hm⟩
    · exact ⟨[], heq⟩
    · exact ⟨[m], hm⟩

theorem exists_move_of_race (hinv : ∀ s a t, I s → M.step s a = some t → I t)
    (hhist : ∀ s, I s → T.History (moves s))
    (hstep : ∀ s a t, I s → M.step s a = some t → moves t = moves s ∨ ∃ m, moves t = m :: moves s)
    {x : σ} (effective : A → Prop)
    (heff : ∀ s a t, I s → M.step s a = some t → effective a → T.current (moves s) = x →
      moves t ≠ moves s)
    {s t : S} {as : List A} (hs : I s) (hx : T.current (moves s) = x) (h : M.run s as = some t)
    (hrace : ∃ a ∈ as, effective a) : ∃ m ∈ moves t, m.source = x := by
  induction as generalizing s with
  | nil => simp at hrace
  | cons a as ih =>
    obtain ⟨u, hu, ht⟩ := M.run_cons_iff.mp h
    have hI := hinv s a u hs hu
    rcases hstep s a u hs hu with heq | ⟨m, hm⟩
    · obtain ⟨b, hb, hbeff⟩ := hrace
      rcases List.mem_cons.mp hb with rfl | hb
      · exact absurd heq (heff s b u hs hu hbeff hx)
      · exact ih hI (heq ▸ hx) ht ⟨b, hb, hbeff⟩
    · have hhm := hhist u hI
      rw [hm] at hhm
      obtain ⟨ns, hns⟩ := moves_extend moves hinv hstep hI ht
      exact ⟨m, by rw [hns, hm]; simp, hhm.2.1.trans hx⟩

/-- Of the moves that a run adds to a history that stands at `x`, at most one leaves
`x`, and exactly one does as soon as one of the actions must move it from there. -/
theorem race_settled [DecidableEq σ] (hinv : ∀ s a t, I s → M.step s a = some t → I t)
    (hhist : ∀ s, I s → T.History (moves s))
    (hstep : ∀ s a t, I s → M.step s a = some t → moves t = moves s ∨ ∃ m, moves t = m :: moves s)
    {x : σ} (effective : A → Prop)
    (heff : ∀ s a t, I s → M.step s a = some t → effective a → T.current (moves s) = x →
      moves t ≠ moves s)
    {s t : S} {as : List A} (hs : I s) (hx : T.current (moves s) = x) (h : M.run s as = some t)
    {ns : List (Move σ)} (hns : moves t = ns ++ moves s) :
    ns.countP (fun m => decide (m.source = x)) ≤ 1 ∧
      ((∃ a ∈ as, effective a) → ns.countP (fun m => decide (m.source = x)) = 1) := by
  have hbefore : (moves s).countP (fun m => decide (m.source = x)) = 0 := by
    rw [← hx]
    exact (hhist s hs).count_source_current
  have hall : (moves t).countP (fun m => decide (m.source = x)) =
      ns.countP (fun m => decide (m.source = x)) := by
    rw [hns, List.countP_append, hbefore, Nat.add_zero]
  have hone : ns.countP (fun m => decide (m.source = x)) ≤ 1 := by
    rw [← hall]
    exact (hhist t (M.run_preserves hinv hs h)).count_source x
  refine ⟨hone, ?_⟩
  intro hrace
  obtain ⟨m, hm, hsource⟩ := exists_move_of_race moves hinv hhist hstep effective heff hs hx h hrace
  have hpos : 0 < ns.countP (fun m => decide (m.source = x)) := by
    rw [← hall]
    exact List.countP_pos_iff.mpr ⟨m, hm, decide_eq_true hsource⟩
  omega

theorem moves_stay_of_terminal (hinv : ∀ s a t, I s → M.step s a = some t → I t)
    (hhist : ∀ s, I s → T.History (moves s))
    (hstep : ∀ s a t, I s → M.step s a = some t → moves t = moves s ∨ ∃ m, moves t = m :: moves s)
    {s t : S} {as : List A} (hs : I s) (hterm : T.Terminal (T.current (moves s)))
    (h : M.run s as = some t) : moves t = moves s := by
  obtain ⟨ns, hns⟩ := moves_extend moves hinv hstep hs h
  have ht := hhist t (M.run_preserves hinv hs h)
  rw [hns] at ht
  rw [hns, ht.eq_nil_of_terminal hterm, List.nil_append]

end Race

end TransitionTable

/-- How a table of rows shows the guarded status: the text stored for it, and
whether the row has been closed. -/
structure StatusColumn {κ : Type u} {ρ : Type v} (key : ρ → κ) (σ τ : Type w) where
  status : ρ → τ
  closed : ρ → Bool
  value : σ → τ
  transitions : TransitionTable σ

namespace StatusColumn

variable {κ : Type u} {ρ : Type v} {σ τ : Type w} {key : ρ → κ}

/-- A write that sets the status to `target` and closes the row exactly when
that status is terminal. -/
structure Writes (C : StatusColumn key σ τ) (target : σ) (f : ρ → ρ) : Prop where
  key : ∀ r, key (f r) = key r
  status : ∀ r, C.status (f r) = C.value target
  closes : C.transitions.Terminal target → ∀ r, C.closed (f r) = true
  keeps : ¬ C.transitions.Terminal target → ∀ r, C.closed (f r) = C.closed r

theorem Writes.closed_iff {C : StatusColumn key σ τ} {target : σ} {f : ρ → ρ}
    (hf : C.Writes target f) {r : ρ} (hopen : C.closed r = false) :
    C.closed (f r) = true ↔ C.transitions.Terminal target := by
  by_cases hterm : C.transitions.Terminal target
  · simp [hf.closes hterm, hterm]
  · simp [hf.keeps hterm, hterm, hopen]

variable [DecidableEq κ] (C : StatusColumn key σ τ)

/-- The committed versions of one row, newest first, out of those of all rows. -/
def versionsOf (key : ρ → κ) (versions : List ρ) (k : κ) : List ρ :=
  versions.filter fun r => decide (key r = k)

structure Tracks (t : KeyedTable key) (versions : List ρ) (moves : κ → List (Move σ)) : Prop where
  history : ∀ k, C.transitions.History (moves k)
  absent : ∀ k, t.get? k = none → moves k = []
  latest : ∀ k, (versionsOf key versions k).head? = t.get? k
  texts : ∀ k r, t.get? k = some r →
    (versionsOf key versions k).map C.status = (C.transitions.statuses (moves k)).map C.value
  closed : ∀ k r, t.get? k = some r →
    (C.closed r = true ↔ C.transitions.Terminal (C.transitions.current (moves k)))

def addMove (moves : κ → List (Move σ)) (k : κ) (m : Move σ) : κ → List (Move σ) :=
  fun j => if j = k then m :: moves j else moves j

theorem versionsOf_cons (r : ρ) (versions : List ρ) (k : κ) :
    versionsOf key (r :: versions) k =
      if key r = k then r :: versionsOf key versions k else versionsOf key versions k := by
  by_cases h : key r = k <;> simp [versionsOf, h]

variable {C}

theorem Tracks.start : C.Tracks .empty [] fun _ => [] :=
  ⟨fun _ => trivial, fun _ _ => rfl, fun _ => rfl, fun _ _ h => by simp at h,
    fun _ _ h => by simp at h⟩

theorem Tracks.status {t : KeyedTable key} {versions : List ρ} {moves : κ → List (Move σ)}
    (h : C.Tracks t versions moves) {k : κ} {r : ρ} (hr : t.get? k = some r) :
    C.status r = C.value (C.transitions.current (moves k)) := by
  have hhead := congrArg List.head? (h.texts k r hr)
  rw [List.head?_map, List.head?_map, h.latest k, hr, TransitionTable.head_statuses] at hhead
  exact Option.some.inj hhead

/-- The texts stored for a row, newest first: a path of the table from its start to
the text the row has now. -/
theorem Tracks.path {t : KeyedTable key} {versions : List ρ} {moves : κ → List (Move σ)}
    (h : C.Tracks t versions moves) {k : κ} {r : ρ} (hr : t.get? k = some r) :
    ((versionsOf key versions k).map C.status).IsChain (fun b a => ∃ x y,
        a = C.value x ∧ b = C.value y ∧ C.transitions.allowed x y = true) ∧
      ((versionsOf key versions k).map C.status).head? = some (C.status r) ∧
      ((versionsOf key versions k).map C.status).getLast? = some (C.value C.transitions.start) := by
  refine ⟨?_, ?_, ?_⟩
  · rw [h.texts k r hr, List.isChain_map]
    refine (h.history k).path.imp ?_
    intro b a hab
    exact ⟨a, b, rfl, rfl, hab⟩
  · rw [List.head?_map, h.latest k, hr, Option.map_some]
  · rw [h.texts k r hr]
    simp [TransitionTable.statuses]

theorem Tracks.value_of_version {t : KeyedTable key} {versions : List ρ}
    {moves : κ → List (Move σ)} (h : C.Tracks t versions moves) {k : κ} {v : ρ}
    (hv : v ∈ versionsOf key versions k) : ∃ a, C.status v = C.value a := by
  cases hget : t.get? k with
  | none =>
    rw [← h.latest, List.head?_eq_none_iff] at hget
    rw [hget] at hv
    cases hv
  | some r =>
    have htext : C.status v ∈ (versionsOf key versions k).map C.status := List.mem_map_of_mem hv
    rw [h.texts k r hget] at htext
    obtain ⟨a, _, ha⟩ := List.mem_map.mp htext
    exact ⟨a, ha.symm⟩

theorem Tracks.present {t t' : KeyedTable key} {versions new : List ρ}
    {moves moves' : κ → List (Move σ)} (h : C.Tracks t versions moves)
    (h' : C.Tracks t' (new ++ versions) moves') {k : κ} (hsome : (t.get? k).isSome) :
    (t'.get? k).isSome := by
  rw [← h.latest] at hsome
  rw [← h'.latest]
  simp only [versionsOf, List.isSome_head?, List.filter_append] at hsome ⊢
  exact List.append_ne_nil_of_right_ne_nil _ hsome

theorem Tracks.insert {t t' : KeyedTable key} {versions : List ρ} {moves : κ → List (Move σ)}
    {r : ρ} (h : C.Tracks t versions moves) (hins : t.insert? r = some t')
    (hstatus : C.status r = C.value C.transitions.start) (hopen : C.closed r = false)
    (hstart : ¬ C.transitions.Terminal C.transitions.start) :
    C.Tracks t' (r :: versions) moves := by
  obtain ⟨hnew, _⟩ := KeyedTable.insert?_some_iff.mp hins
  have hget := KeyedTable.get?_insert? hins
  have hnone : t.get? (key r) = none := t.get?_none_iff.mpr hnew
  have hmoves : moves (key r) = [] := h.absent _ hnone
  have hversions : versionsOf key versions (key r) = [] := by
    have hlatest := h.latest (key r)
    rw [hnone] at hlatest
    exact List.head?_eq_none_iff.mp hlatest
  refine ⟨h.history, ?_, ?_, ?_, ?_⟩
  · intro k hk
    rw [hget] at hk
    split at hk
    · cases hk
    · exact h.absent k hk
  · intro k
    rw [versionsOf_cons, hget]
    by_cases hk : k = key r
    · simp [hk]
    · rw [if_neg (Ne.symm hk), if_neg hk]
      exact h.latest k
  · intro k x hx
    rw [hget] at hx
    rw [versionsOf_cons]
    by_cases hk : k = key r
    · rw [if_pos hk.symm, hk, hmoves, hversions]
      simp [TransitionTable.statuses, hstatus]
    · rw [if_neg (Ne.symm hk)]
      rw [if_neg hk] at hx
      exact h.texts k x hx
  · intro k x hx
    rw [hget] at hx
    split at hx
    · rename_i hk
      obtain rfl := Option.some.inj hx
      rw [hk, hmoves]
      simp [hopen, TransitionTable.current, hstart]
    · exact h.closed k x hx

theorem Tracks.open_of_allowed {t : KeyedTable key} {versions : List ρ}
    {moves : κ → List (Move σ)} (h : C.Tracks t versions moves) {k : κ} {r : ρ}
    (hr : t.get? k = some r) {target : σ}
    (hallowed : C.transitions.allowed (C.transitions.current (moves k)) target = true) :
    C.closed r = false := by
  rw [← Bool.not_eq_true, h.closed k r hr]
  intro hterm
  rw [hterm target] at hallowed
  cases hallowed

theorem Tracks.update [DecidableEq τ] {t t' : KeyedTable key} {versions : List ρ}
    {moves : κ → List (Move σ)} {k : κ} {expected target : σ} {f : ρ → ρ} {x : ρ}
    (h : C.Tracks t versions moves) (hinj : ∀ a b, C.value a = C.value b → a = b)
    (hf : C.Writes target f) (hallowed : C.transitions.allowed expected target = true)
    (hupd : t.updateReturning k (fun r => decide (C.status r = C.value expected)) f hf.key =
      some (t', x)) :
    C.Tracks t' (x :: versions) (addMove moves k ⟨expected, target⟩) := by
  obtain ⟨r, hr, hmatch, rfl, rfl⟩ := KeyedTable.updateReturning_some_iff.mp hupd
  have hkey : key (f r) = k := (hf.key r).trans (t.get?_some_iff.mp hr).2
  have hcurrent : expected = C.transitions.current (moves k) := by
    apply hinj
    rw [← h.status hr]
    exact (of_decide_eq_true hmatch).symm
  have hopen : C.closed r = false := h.open_of_allowed hr (hcurrent ▸ hallowed)
  have hat : (t.modifyAt k f hf.key).get? k = some (f r) := by
    rw [KeyedTable.get?_modifyAt, if_pos rfl, hr, Option.map_some]
  have hother : ∀ j, j ≠ k → (t.modifyAt k f hf.key).get? j = t.get? j := by
    intro j hj
    rw [KeyedTable.get?_modifyAt, if_neg hj]
  refine ⟨?_, ?_, ?_, ?_, ?_⟩
  · intro j
    by_cases hj : j = k
    · subst hj
      simpa [addMove] using ⟨hallowed, hcurrent, h.history j⟩
    · simpa [addMove, hj] using h.history j
  · intro j hnone
    by_cases hj : j = k
    · subst hj
      rw [hat] at hnone
      cases hnone
    · rw [hother j hj] at hnone
      simpa [addMove, hj] using h.absent j hnone
  · intro j
    rw [versionsOf_cons, hkey]
    by_cases hj : j = k
    · subst hj
      rw [if_pos rfl, hat, List.head?_cons]
    · rw [if_neg (Ne.symm hj), hother j hj]
      exact h.latest j
  · intro j y hy
    rw [versionsOf_cons, hkey]
    by_cases hj : j = k
    · subst hj
      simp [addMove, TransitionTable.statuses_cons, h.texts j r hr, hf.status]
    · rw [hother j hj] at hy
      rw [if_neg (Ne.symm hj), h.texts j y hy]
      simp [addMove, hj]
  · intro j y hy
    by_cases hj : j = k
    · subst hj
      rw [hat] at hy
      obtain rfl := Option.some.inj hy
      rw [hf.closed_iff hopen]
      simp [addMove, TransitionTable.current]
    · rw [hother j hj] at hy
      simpa [addMove, hj] using h.closed j y hy

end StatusColumn
