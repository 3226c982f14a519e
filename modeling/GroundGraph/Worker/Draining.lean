import GroundGraph.Worker.Rounds
import Mathlib.Data.Finset.Card

/-! The outbox runs dry. Whatever state the workers have left it in, one worker that is left
alone completes every event that can be read, in the order of its claims, as long as fewer than a
batch of others are open. Each pass takes at least the rest of its batch off what remains.
-/

set_option autoImplicit false

namespace GroundGraph.Worker

open GroundGraph.Knowledge GroundGraph.Neo4j GroundGraph.Outbox

def isOpen (r : Event) : Bool := decide (r.status ≠ .completed)

def openIds (p : Event → Bool) (table : OutboxTable JsonObject) : Finset UUID :=
  ((table.rows.filter fun r => isOpen r && p r).map OutboxRow.eventId).toFinset

def remaining (co : Conversions) (table : OutboxTable JsonObject) : Finset UUID :=
  openIds (projects co) table

/-- The open events that no attempt will get through. -/
def unreadable (co : Conversions) (table : OutboxTable JsonObject) : Finset UUID :=
  openIds (fun r => !projects co r) table

/-- There is an event of this id, and it is read without an exception. -/
def readable (co : Conversions) (table : OutboxTable JsonObject) (k : UUID) : Bool :=
  (table.get? k).any (projects co)

section
variable {co : Conversions} {texts : Set (List Char)} {w : Nat} {s t : World}
  {start now : Instant} {n p : Nat}
  {table : OutboxTable JsonObject}

theorem mem_openIds {q : Event → Bool} {k : UUID} :
    k ∈ openIds q table ↔ ∃ r, table.get? k = some r ∧ r.status ≠ .completed ∧ q r = true := by
  simp only [openIds, isOpen, List.mem_toFinset, List.mem_map, List.mem_filter, Bool.and_eq_true,
    decide_eq_true_eq]
  constructor
  · rintro ⟨r, ⟨hr, hopen, hq⟩, rfl⟩
    exact ⟨r, table.mem_rows_iff.mp hr, hopen, hq⟩
  · rintro ⟨r, hr, hopen, hq⟩
    obtain ⟨hmem, hid⟩ := table.get?_some_iff.mp hr
    exact ⟨r, ⟨hmem, hopen, hq⟩, hid⟩

theorem mem_remaining {k : UUID} : k ∈ remaining co table ↔
    ∃ r, table.get? k = some r ∧ r.status ≠ .completed ∧ projects co r = true :=
  mem_openIds

theorem mem_unreadable {k : UUID} : k ∈ unreadable co table ↔
    ∃ r, table.get? k = some r ∧ r.status ≠ .completed ∧ projects co r = false := by
  simp only [unreadable, mem_openIds, Bool.not_eq_true']

/-! ## What a poll selects -/

def selectedIds (table : OutboxTable JsonObject) (now : Instant) : Finset UUID :=
  ((selected table now).map OutboxRow.eventId).toFinset

theorem selectable_open {r : Event} (h : selectable now r = true) : r.status ≠ .completed := by
  intro hdone
  obtain ⟨hst | ⟨hst, _⟩, _⟩ := selectable_iff.mp h
  · rw [hdone] at hst
    cases hst
  · rw [hdone] at hst
    cases hst

theorem selectable_later {r : Event} (h : selectable start r = true) (hle : start ≤ now) :
    selectable now r = true := by
  obtain ⟨hstatus, havailable⟩ := selectable_iff.mp h
  refine selectable_iff.mpr ⟨?_, havailable.trans hle⟩
  rcases hstatus with hst | ⟨hst, e, he, hexpired⟩
  · exact Or.inl hst
  · exact Or.inr ⟨hst, e, he, hexpired.trans hle⟩

theorem selected_mem {r : Event} (h : r ∈ selected table now) :
    table.get? r.eventId = some r ∧ r.status ≠ .completed :=
  ⟨table.mem_rows_iff.mp (mem_selectRows h).1, selectable_open (mem_selectRows h).2⟩

theorem mem_selectedIds {k : UUID} :
    k ∈ selectedIds table now ↔ ∃ r ∈ selected table now, r.eventId = k := by
  simp [selectedIds]

theorem card_selectedIds : (selectedIds table now).card = (selected table now).length := by
  have hnodup : ((selected table now).map OutboxRow.eventId).Nodup := selectRows_nodup _ _ _ _
  rw [selectedIds, List.toFinset_card_of_nodup hnodup, List.length_map]

theorem selected_full_or_all (table : OutboxTable JsonObject) (now : Instant) :
    (selected table now).length = batchSize ∨
      ∀ r ∈ table.rows, selectable now r = true → r ∈ selected table now := by
  rcases Nat.lt_or_ge (table.rows.filter fun r => selectable now r && !false).length batchSize
    with hfew | hmany
  · refine Or.inr fun r hr hsel => ?_
    unfold selected selectRows
    rw [List.take_of_length_le (by rw [List.length_insertionSort]; exact hfew.le)]
    exact (List.mem_insertionSort _).mpr (List.mem_filter.mpr ⟨hr, by simp [hsel]⟩)
  · refine Or.inl ?_
    unfold selected selectRows
    rw [List.length_take, List.length_insertionSort]
    exact min_eq_left hmany

theorem selectedIds_subset :
    selectedIds table now ⊆ remaining co table ∪ unreadable co table := by
  intro k hk
  obtain ⟨r, hr, rfl⟩ := mem_selectedIds.mp hk
  obtain ⟨hget, hopen⟩ := selected_mem hr
  rw [Finset.mem_union]
  cases hprojects : projects co r with
  | true => exact Or.inl (mem_remaining.mpr ⟨r, hget, hopen, hprojects⟩)
  | false => exact Or.inr (mem_unreadable.mpr ⟨r, hget, hopen, hprojects⟩)

theorem card_remaining_sdiff
    (hdue : ∀ r ∈ table.rows, r.status ≠ .completed → projects co r = true →
      selectable now r = true) (hp : (unreadable co table).card ≤ p) :
    (remaining co table \ selectedIds table now).card ≤
      (remaining co table).card - (batchSize - p) := by
  rcases selected_full_or_all table now with hfull | hall
  · have hcard : (selectedIds table now).card = batchSize := card_selectedIds.trans hfull
    have hsplit : selectedIds table now ⊆
        (selectedIds table now ∩ remaining co table) ∪ unreadable co table := by
      intro k hk
      rcases Finset.mem_union.mp (selectedIds_subset hk) with h | h
      · exact Finset.mem_union_left _ (Finset.mem_inter.mpr ⟨hk, h⟩)
      · exact Finset.mem_union_right _ h
    have hle := (Finset.card_le_card hsplit).trans (Finset.card_union_le _ _)
    rw [Finset.card_sdiff]
    omega
  · have hempty : remaining co table \ selectedIds table now = ∅ := by
      rw [Finset.sdiff_eq_empty_iff_subset]
      intro k hk
      obtain ⟨r, hget, hopen, hprojects⟩ := mem_remaining.mp hk
      obtain ⟨hmem, hid⟩ := table.get?_some_iff.mp hget
      exact mem_selectedIds.mpr ⟨r, hall r hmem (hdue r hmem hopen hprojects), hid⟩
    simp [hempty]

/-! ## One pass -/

structure Ready (co : Conversions) (texts : Set (List Char)) (w : Nat) (start : Instant)
    (p n : Nat) (s : World) : Prop where
  idle : (s.workers w).stage = .idle
  due : ∀ r ∈ s.outbox.table.rows, r.status ≠ .completed → projects co r = true →
    selectable start r = true
  unreadable : (unreadable co s.outbox.table).card ≤ p
  attempts : ∀ r ∈ s.outbox.table.rows, r.status ≠ .completed → projects co r = false →
    r.attempts + n ≤ 1022
  texts : (Worker.unreadable co s.outbox.table).Nonempty → texts ⊆ recordable

theorem SameEvent.projects {r r' : Event} (h : SameEvent r r') :
    Worker.projects co r' = Worker.projects co r := by
  simp only [Worker.projects, h.eventType, h.payload]

inductive Attempted (co : Conversions) (r r' : Event) : Prop
  | completed (hprojects : projects co r = true) (hstatus : r'.status = .completed)
  | putBack (hprojects : projects co r = false) (hstatus : r'.status = .pending)
      (hattempts : r'.attempts = r.attempts + 1)

theorem ClaimedFrom.attempted {r e r' : Event} (h : ClaimedFrom now r e)
    (hhandled : Handled co e r') : SameEvent r r' ∧ Attempted co r r' := by
  have hprojects : Worker.projects co e = Worker.projects co r := h.projects
  obtain ⟨token, rfl⟩ := h
  cases hhandled with
  | completed hyes _ => exact ⟨⟨rfl, rfl, rfl⟩, .completed (hprojects.symm.trans hyes) rfl⟩
  | putBack hno _ _ => exact ⟨⟨rfl, rfl, rfl⟩, .putBack (hprojects.symm.trans hno) rfl rfl⟩

inductive RowPassed (co : Conversions) (batch : Finset UUID) (k : UUID) (r r' : Event) : Prop
  | skipped (hk : k ∉ batch) (hsame : r' = r)
  | taken (hk : k ∈ batch) (hopen : r.status ≠ .completed) (hattempted : Attempted co r r')

theorem Passed.row (h : Passed co now s t) {k : UUID} {r : Event}
    (hr : s.outbox.table.get? k = some r) : ∃ r', t.outbox.table.get? k = some r' ∧
      SameEvent r r' ∧ RowPassed co (selectedIds s.outbox.table now) k r r' := by
  by_cases hk : k ∈ selectedIds s.outbox.table now
  · obtain ⟨r₀, hr₀, rfl⟩ := mem_selectedIds.mp hk
    obtain ⟨hget, hopen⟩ := selected_mem hr₀
    obtain rfl : r₀ = r := Option.some.inj (hget.symm.trans hr)
    obtain ⟨e, r', hfrom, hr', hhandled⟩ := h.handled r₀ hr₀
    obtain ⟨hsame, hattempted⟩ := hfrom.attempted hhandled
    exact ⟨r', hr', hsame, .taken hk hopen hattempted⟩
  · have hother : k ∉ (selected s.outbox.table now).map OutboxRow.eventId := by
      simpa [selectedIds] using hk
    exact ⟨r, (h.others k hother).trans hr, .refl r, .skipped hk rfl⟩

theorem Passed.row_back (h : Passed co now s t) {k : UUID} {r' : Event}
    (hr' : t.outbox.table.get? k = some r') : ∃ r, s.outbox.table.get? k = some r ∧
      SameEvent r r' ∧ RowPassed co (selectedIds s.outbox.table now) k r r' := by
  have hthere : ∃ r, s.outbox.table.get? k = some r := by
    by_cases hk : k ∈ (selected s.outbox.table now).map OutboxRow.eventId
    · obtain ⟨r, hr, rfl⟩ := List.mem_map.mp hk
      exact ⟨r, (selected_mem hr).1⟩
    · exact ⟨r', (h.others k hk).symm.trans hr'⟩
  obtain ⟨r, hr⟩ := hthere
  obtain ⟨x, hx, hrest⟩ := h.row hr
  obtain rfl : x = r' := Option.some.inj (hx.symm.trans hr')
  exact ⟨r, hr, hrest⟩

theorem Passed.remaining (h : Passed co now s t) :
    remaining co t.outbox.table =
      Worker.remaining co s.outbox.table \ selectedIds s.outbox.table now := by
  ext k
  rw [Finset.mem_sdiff, mem_remaining, mem_remaining]
  constructor
  · rintro ⟨r', hr', hopen, hprojects⟩
    obtain ⟨r, hr, hsame, hpassed⟩ := h.row_back hr'
    rw [SameEvent.projects hsame] at hprojects
    cases hpassed with
    | skipped hk hrow =>
      subst hrow
      exact ⟨⟨r', hr, hopen, hprojects⟩, hk⟩
    | taken _ _ hattempted =>
      cases hattempted with
      | completed _ hdone => exact absurd hdone hopen
      | putBack hno _ _ =>
        rw [hprojects] at hno
        cases hno
  · rintro ⟨⟨r, hr, hopen, hprojects⟩, hk⟩
    obtain ⟨r', hr', _, hpassed⟩ := h.row hr
    cases hpassed with
    | skipped _ hrow =>
      subst hrow
      exact ⟨r', hr', hopen, hprojects⟩
    | taken hin _ _ => exact absurd hin hk

theorem Passed.unreadable (h : Passed co now s t) :
    unreadable co t.outbox.table = Worker.unreadable co s.outbox.table := by
  ext k
  rw [mem_unreadable, mem_unreadable]
  constructor
  · rintro ⟨r', hr', hopen, hprojects⟩
    obtain ⟨r, hr, hsame, hpassed⟩ := h.row_back hr'
    rw [SameEvent.projects hsame] at hprojects
    cases hpassed with
    | skipped _ hrow =>
      subst hrow
      exact ⟨r', hr, hopen, hprojects⟩
    | taken _ hstill _ => exact ⟨r, hr, hstill, hprojects⟩
  · rintro ⟨r, hr, hopen, hprojects⟩
    obtain ⟨r', hr', hsame, hpassed⟩ := h.row hr
    have hno : projects co r' = false := (SameEvent.projects hsame).trans hprojects
    cases hpassed with
    | skipped _ hrow =>
      subst hrow
      exact ⟨r', hr', hopen, hno⟩
    | taken _ _ hattempted =>
      cases hattempted with
      | completed hyes _ =>
        rw [hprojects] at hyes
        cases hyes
      | putBack _ hpending _ => exact ⟨r', hr', by rw [hpending]; simp, hno⟩

theorem Ready.round (h : Ready co texts w start p (n + 1) s) (hround : Round co texts w now s t) :
    Passed co now s t ∧ Ready co texts w start p n t := by
  have hback : ∀ r ∈ selected s.outbox.table now, projects co r = false →
      r.attempts < 1022 ∧ texts ⊆ recordable := by
    intro r hr hno
    obtain ⟨hget, hopen⟩ := selected_mem hr
    have hle := h.attempts r (s.outbox.table.mem_rows_iff.mpr hget) hopen hno
    exact ⟨by omega, h.texts ⟨r.eventId, mem_unreadable.mpr ⟨r, hget, hopen, hno⟩⟩⟩
  have hpassed := hround.passed h.idle hback
  refine ⟨hpassed, hround.idle, ?_, ?_, ?_, ?_⟩
  · intro r' hmem hopen hprojects
    obtain ⟨r, hr, hsame, hrow⟩ := hpassed.row_back (t.outbox.table.mem_rows_iff.mp hmem)
    rw [SameEvent.projects hsame] at hprojects
    cases hrow with
    | skipped _ hrow =>
      subst hrow
      exact h.due r' (s.outbox.table.get?_some_iff.mp hr).1 hopen hprojects
    | taken _ _ hattempted =>
      cases hattempted with
      | completed _ hdone => exact absurd hdone hopen
      | putBack hno _ _ =>
        rw [hprojects] at hno
        cases hno
  · rw [hpassed.unreadable]
    exact h.unreadable
  · intro r' hmem hopen hprojects
    obtain ⟨r, hr, hsame, hrow⟩ := hpassed.row_back (t.outbox.table.mem_rows_iff.mp hmem)
    rw [SameEvent.projects hsame] at hprojects
    have hmem := (s.outbox.table.get?_some_iff.mp hr).1
    cases hrow with
    | skipped _ hrow =>
      subst hrow
      have hle := h.attempts r' hmem hopen hprojects
      omega
    | taken _ hstill hattempted =>
      have hle := h.attempts r hmem hstill hprojects
      cases hattempted with
      | completed hyes _ =>
        rw [hprojects] at hyes
        cases hyes
      | putBack _ _ hattempts => omega
  · rw [hpassed.unreadable]
    exact h.texts

/-! ## All passes -/

structure Progress (co : Conversions) (p n : Nat) (s t : World) : Prop where
  kept : ∀ k r, s.outbox.table.get? k = some r →
    ∃ r', t.outbox.table.get? k = some r' ∧ SameEvent r r'
  none_new : ∀ k, s.outbox.table.get? k = none → t.outbox.table.get? k = none
  remaining : remaining co t.outbox.table ⊆ remaining co s.outbox.table
  card : (Worker.remaining co t.outbox.table).card ≤
    (Worker.remaining co s.outbox.table).card - n * (batchSize - p)
  unreadable : unreadable co t.outbox.table = unreadable co s.outbox.table
  commits : ∃ done : List ProjectionCommit, t.commits = done.reverse ++ s.commits ∧
    (done.map ProjectionCommit.eventId).Nodup ∧
      (done.map ProjectionCommit.eventId).toFinset =
        Worker.remaining co s.outbox.table \ Worker.remaining co t.outbox.table ∧
        (∃ granted : List Lease, t.outbox.leases = granted.reverse ++ s.outbox.leases ∧
          done.map ProjectionCommit.eventId =
            (granted.map Lease.eventId).filter (readable co s.outbox.table)) ∧
        (graphSystem co []).run s.graph (done.map ProjectionCommit.action) = some t.graph

theorem Progress.readable (h : Progress co p n s t) (k : UUID) :
    readable co t.outbox.table k = Worker.readable co s.outbox.table k := by
  unfold Worker.readable
  cases hget : s.outbox.table.get? k with
  | none => rw [h.none_new k hget]
  | some r =>
    obtain ⟨r', hr', hsame⟩ := h.kept k r hget
    rw [hr']
    exact SameEvent.projects hsame

theorem filter_readable_selected (co : Conversions) (table : OutboxTable JsonObject)
    (now : Instant) :
    ((selected table now).map OutboxRow.eventId).filter (readable co table) =
      ((selected table now).filter (projects co)).map OutboxRow.eventId := by
  rw [List.filter_map]
  refine congrArg (List.map OutboxRow.eventId) (List.filter_congr fun r hr => ?_)
  simp only [Function.comp, readable, (selected_mem hr).1, Option.any_some]

theorem Passed.progress (h : Passed co now s t) (hready : Ready co texts w start p n s)
    (hnow : start ≤ now) : Progress co p 1 s t := by
  refine ⟨?_, ?_, ?_, ?_, h.unreadable, ?_⟩
  · intro k r hr
    obtain ⟨r', hr', hsame, _⟩ := h.row hr
    exact ⟨r', hr', hsame⟩
  · intro k hk
    cases hget : t.outbox.table.get? k with
    | none => rfl
    | some r' =>
      obtain ⟨r, hr, _⟩ := h.row_back hget
      rw [hk] at hr
      cases hr
  · rw [h.remaining]
    exact Finset.sdiff_subset
  · rw [h.remaining, Nat.one_mul]
    refine card_remaining_sdiff (fun r hr hopen hprojects => ?_) hready.unreadable
    exact selectable_later (hready.due r hr hopen hprojects) hnow
  · obtain ⟨done, hdone, hids, hrun⟩ := h.commits
    obtain ⟨granted, hgranted, hclaimed⟩ := h.leases
    have horder : done.map ProjectionCommit.eventId =
        (granted.map Lease.eventId).filter (Worker.readable co s.outbox.table) := by
      rw [hids, hclaimed, filter_readable_selected]
    refine ⟨done, hdone, ?_, ?_, ⟨granted, hgranted, horder⟩, hrun⟩
    · rw [hids]
      have hnodup : ((selected s.outbox.table now).map OutboxRow.eventId).Nodup :=
        selectRows_nodup _ _ _ _
      exact hnodup.sublist (List.filter_sublist.map _)
    · ext k
      rw [hids, h.remaining, sdiff_sdiff_right_self, Finset.inf_eq_inter, Finset.mem_inter,
        mem_remaining, mem_selectedIds]
      simp only [List.mem_toFinset, List.mem_map, List.mem_filter]
      constructor
      · rintro ⟨r, ⟨hr, hprojects⟩, rfl⟩
        obtain ⟨hget, hopen⟩ := selected_mem hr
        exact ⟨⟨r, hget, hopen, hprojects⟩, r, hr, rfl⟩
      · rintro ⟨⟨r, hget, _, hprojects⟩, r₀, hr₀, rfl⟩
        obtain rfl : r₀ = r := Option.some.inj ((selected_mem hr₀).1.symm.trans hget)
        exact ⟨r₀, ⟨hr₀, hprojects⟩, rfl⟩

theorem Progress.trans {m n : Nat} {u : World} (h : Progress co p m s t)
    (h' : Progress co p n t u) : Progress co p (m + n) s u := by
  refine ⟨?_, fun k hk => h'.none_new k (h.none_new k hk), h'.remaining.trans h.remaining, ?_,
    h'.unreadable.trans h.unreadable, ?_⟩
  · intro k r hr
    obtain ⟨r', hr', hsame⟩ := h.kept k r hr
    obtain ⟨r'', hr'', hsame'⟩ := h'.kept k r' hr'
    exact ⟨r'', hr'', hsame.trans hsame'⟩
  · have hle := h.card
    have hle' := h'.card
    rw [Nat.add_mul]
    omega
  · obtain ⟨done, hdone, hnodup, hids, ⟨granted, hgranted, horder⟩, hrun⟩ := h.commits
    obtain ⟨done', hdone', hnodup', hids', ⟨granted', hgranted', horder'⟩, hrun'⟩ := h'.commits
    refine ⟨done ++ done', by simp [hdone, hdone'], ?_, ?_,
      ⟨granted ++ granted', by simp [hgranted, hgranted'], ?_⟩, ?_⟩
    · rw [List.map_append, List.nodup_append']
      refine ⟨hnodup, hnodup', fun k hk hk' => ?_⟩
      rw [← List.mem_toFinset, hids, Finset.mem_sdiff] at hk
      rw [← List.mem_toFinset, hids', Finset.mem_sdiff] at hk'
      exact hk.2 hk'.1
    · rw [List.map_append, List.toFinset_append, hids, hids']
      exact Finset.sdiff_union_sdiff_cancel h.remaining h'.remaining
    · have hlater : (granted'.map Lease.eventId).filter (Worker.readable co t.outbox.table) =
          (granted'.map Lease.eventId).filter (Worker.readable co s.outbox.table) :=
        List.filter_congr fun k _ => h.readable k
      rw [List.map_append, List.map_append, List.filter_append, horder, horder', hlater]
    · rw [List.map_append]
      exact (graphSystem co []).run_append_iff.mpr ⟨t.graph, hrun, hrun'⟩

theorem Progress.refl (s : World) : Progress co p 0 s s :=
  ⟨fun _ r hr => ⟨r, hr, .refl r⟩, fun _ h => h, fun _ h => h, by simp, rfl, [], rfl, by simp,
    by simp, ⟨[], rfl, rfl⟩, rfl⟩

theorem Rounds.progress {m : Nat} (h : Rounds co texts w start m s t)
    (hready : Ready co texts w start p (n + m) s) :
    Ready co texts w start p n t ∧ Progress co p m s t := by
  induction h generalizing n with
  | zero s => exact ⟨hready, .refl s⟩
  | @succ m s u t now _ hnow hround ih =>
    have hshift : n + 1 + m = n + (m + 1) := by omega
    obtain ⟨hready', hprogress⟩ := ih (n := n + 1) (hshift ▸ hready)
    obtain ⟨hpassed, hlast⟩ := hready'.round hround
    exact ⟨hlast, hprogress.trans (hpassed.progress hready' hnow)⟩

/-- Every event that can be read is done, with one transaction for each that was open, in the
order in which the leases were granted; the others are still open. -/
structure Drained (co : Conversions) (s t : World) : Prop where
  completed : ∀ r ∈ s.outbox.table.rows, projects co r = true →
    ∃ r', t.outbox.table.get? r.eventId = some r' ∧ SameEvent r r' ∧ r'.status = .completed
  unread : ∀ r ∈ s.outbox.table.rows, r.status ≠ .completed → projects co r = false →
    ∃ r', t.outbox.table.get? r.eventId = some r' ∧ SameEvent r r' ∧ r'.status ≠ .completed
  commits : ∃ done : List ProjectionCommit, t.commits = done.reverse ++ s.commits ∧
    (done.map ProjectionCommit.eventId).Perm
      ((s.outbox.table.rows.filter fun r => isOpen r && projects co r).map OutboxRow.eventId) ∧
      (∃ granted : List Lease, t.outbox.leases = granted.reverse ++ s.outbox.leases ∧
        done.map ProjectionCommit.eventId =
          (granted.map Lease.eventId).filter (readable co s.outbox.table)) ∧
      (graphSystem co []).run s.graph (done.map ProjectionCommit.action) = some t.graph

theorem Progress.emptied (h : Progress co p n s t)
    (hempty : Worker.remaining co t.outbox.table = ∅) : Drained co s t := by
  have hget : ∀ r ∈ s.outbox.table.rows, ∃ r', t.outbox.table.get? r.eventId = some r' ∧
      SameEvent r r' := fun r hr => h.kept _ r (s.outbox.table.mem_rows_iff.mp hr)
  refine ⟨?_, ?_, ?_⟩
  · intro r hr hprojects
    obtain ⟨r', hr', hsame⟩ := hget r hr
    refine ⟨r', hr', hsame, ?_⟩
    by_contra hopen
    have hleft : r.eventId ∈ Worker.remaining co t.outbox.table :=
      mem_remaining.mpr ⟨r', hr', hopen, (SameEvent.projects hsame).trans hprojects⟩
    rw [hempty] at hleft
    cases hleft
  · intro r hr hopen hprojects
    obtain ⟨r', hr', hsame⟩ := hget r hr
    have hstays : r.eventId ∈ Worker.unreadable co t.outbox.table := by
      rw [h.unreadable]
      exact mem_unreadable.mpr ⟨r, s.outbox.table.mem_rows_iff.mp hr, hopen, hprojects⟩
    obtain ⟨x, hx, hstill, _⟩ := mem_unreadable.mp hstays
    obtain rfl : x = r' := Option.some.inj (hx.symm.trans hr')
    exact ⟨x, hr', hsame, hstill⟩
  · obtain ⟨done, hdone, hnodup, hids, horder, hrun⟩ := h.commits
    refine ⟨done, hdone, ?_, horder, hrun⟩
    have hopenIds : ((s.outbox.table.rows.filter fun r => isOpen r && projects co r).map
        OutboxRow.eventId).Nodup := s.outbox.table.unique.sublist (List.filter_sublist.map _)
    refine List.perm_of_nodup_nodup_toFinset_eq hnodup hopenIds ?_
    rw [hids, hempty, Finset.sdiff_empty]
    rfl

/-- In every reachable state there is a time from which all open events are due. -/
theorem exists_due {chunks : List UUID} (hs : (worldSystem co chunks).Reachable s) :
    ∃ due, s.outbox.clock ≤ due ∧
      ∀ r ∈ s.outbox.table.rows, r.status ≠ .completed → selectable due r = true := by
  have hlease := Outbox.reachable_inv (Worker.reachable_inv hs).outbox
  have hall : ∀ rows : List Event, (∀ r ∈ rows, r ∈ s.outbox.table.rows) →
      ∃ due, s.outbox.clock ≤ due ∧
        ∀ r ∈ rows, r.status ≠ .completed → selectable due r = true := by
    intro rows hrows
    induction rows with
    | nil => exact ⟨s.outbox.clock, le_rfl, by simp⟩
    | cons r rows ih =>
      obtain ⟨due, hclock, hdue⟩ := ih fun x hx => hrows x (List.mem_cons_of_mem _ hx)
      by_cases hopen : r.status = .completed
      · refine ⟨due, hclock, fun x hx hne => ?_⟩
        rcases List.mem_cons.mp hx with rfl | hx
        · exact absurd hopen hne
        · exact hdue x hx hne
      · obtain ⟨at_, _, hsel⟩ := hlease.claimable (hrows r List.mem_cons_self) hopen
        refine ⟨max due at_, hclock.trans (le_max_left _ _), fun x hx hne => ?_⟩
        rcases List.mem_cons.mp hx with rfl | hx
        · exact hsel _ (le_max_right _ _)
        · exact selectable_later (hdue x hx hne) (le_max_left _ _)
  exact hall _ fun _ hr => hr

theorem Rounds.empties (h : Rounds co texts w start n s t)
    (hready : Ready co texts w start (unreadable co s.outbox.table).card n s)
    (hn : (remaining co s.outbox.table).card ≤
      n * (batchSize - (unreadable co s.outbox.table).card)) : Drained co s t := by
  obtain ⟨_, hprogress⟩ := h.progress (n := 0) (by rwa [Nat.zero_add])
  refine hprogress.emptied (Finset.card_eq_zero.mp ?_)
  have hcard := hprogress.card
  omega

/-- Liveness: enough passes, from some time on, and nothing that can be read is left. The texts
matter to the events that are put back. -/
theorem drained {chunks : List UUID} (hs : (worldSystem co chunks).Reachable s)
    (hidle : (s.workers w).stage = .idle)
    (hattempts : ∀ r ∈ s.outbox.table.rows, r.status ≠ .completed → projects co r = false →
      r.attempts + n ≤ 1022)
    (hn : (remaining co s.outbox.table).card ≤
      n * (batchSize - (unreadable co s.outbox.table).card))
    (htokens : s.outbox.leases.length + n * batchSize ≤ 2 ^ 128) :
    ∃ due, ∀ start, due ≤ start → (∃ t, Rounds co recordable w start n s t) ∧
      ∀ t, Rounds co recordable w start n s t → Drained co s t := by
  obtain ⟨due, hclock, hdue⟩ := exists_due hs
  refine ⟨due, fun start hstart => ⟨?_, fun t hrounds => ?_⟩⟩
  · obtain ⟨t, hrounds, _⟩ := exists_rounds co n nonempty_recordable hidle
      (hclock.trans hstart) htokens
    exact ⟨t, hrounds⟩
  · have hready : Ready co recordable w start (unreadable co s.outbox.table).card n s :=
      ⟨hidle, fun r hr hopen _ => selectable_later (hdue r hr hopen) hstart, le_rfl, hattempts,
        fun _ => subset_rfl⟩
    exact hrounds.empties hready hn

end

/-- A mention that nobody can read, an entity, and a worker that is gone with both. -/
def leftBehind : List Action :=
  [.emit ⟨1, "entity", 2, .entityMentioned, [], .pending, 0, none, 0, none, none, none⟩,
   .emit ⟨2, "entity", 2, .entityResolved,
      [("entity_id", .str "00000000-0000-0000-0000-000000000002"),
       ("entity_type", .str "person"), ("canonical_name", .str "Ada")],
      .pending, 0, none, 0, none, none, none⟩,
   .poll 0 0 (fun _ => false) (fun n => BitVec.ofNat 128 (n + 100)) .ok,
   .crash 0]

theorem drained_leftBehind :
    ∃ s, (worldSystem plainConversions []).run (worldSystem plainConversions []).start
        leftBehind = some s ∧
      (remaining plainConversions s.outbox.table).card = 1 ∧
      (unreadable plainConversions s.outbox.table).card = 1 ∧
      ∃ due, ∀ start, due ≤ start →
        (∃ t, Rounds plainConversions recordable 1 start 1 s t) ∧
          ∀ t, Rounds plainConversions recordable 1 start 1 s t →
            Drained plainConversions s t := by
  have hview : ((worldSystem plainConversions []).run (worldSystem plainConversions []).start
      leftBehind).map (fun s => (decide ((s.workers 1).stage.event? = none),
        s.outbox.table.rows.map OutboxRow.attempts, s.outbox.leases.length,
        (remaining plainConversions s.outbox.table).card,
        (unreadable plainConversions s.outbox.table).card)) = some (true, [1, 1], 2, 1, 1) := by
    decide
  obtain ⟨s, hs, hfields⟩ := Option.map_eq_some_iff.mp hview
  simp only [Prod.mk.injEq, decide_eq_true_eq] at hfields
  obtain ⟨hstage, hattempts, hleases, hremaining, hunreadable⟩ := hfields
  refine ⟨s, hs, hremaining, hunreadable, drained ⟨leftBehind, hs⟩ ?_ ?_ ?_ ?_⟩
  · cases hidle : (s.workers 1).stage with
    | idle => rfl
    | _ => simp [hidle, Stage.event?] at hstage
  · intro r hr _ _
    have hmem : r.attempts ∈ s.outbox.table.rows.map OutboxRow.attempts := List.mem_map_of_mem hr
    rw [hattempts] at hmem
    simp only [List.mem_cons, List.not_mem_nil, or_false, or_self] at hmem
    omega
  · rw [hremaining, hunreadable]
    decide
  · rw [hleases]
    decide

end GroundGraph.Worker
