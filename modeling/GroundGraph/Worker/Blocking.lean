import GroundGraph.Worker.Draining

/-! An event that cannot be put back any more. What `mark_failed` raises ends the batch, so the
events that were claimed after it wait for their leases to run out, and then are claimed after
it again.
-/

set_option autoImplicit false

namespace GroundGraph.Worker

open GroundGraph.Knowledge GroundGraph.Neo4j GroundGraph.Outbox

structure Later (r r' : Event) : Prop where
  createdAt : r'.createdAt = r.createdAt
  event : SameEvent r r'
  completed : r.status = .completed → r'.status = .completed

theorem Later.refl (r : Event) : Later r r := ⟨rfl, .refl r, fun h => h⟩

theorem Later.trans {r r' r'' : Event} (h : Later r r') (h' : Later r' r'') : Later r r'' :=
  ⟨h'.createdAt.trans h.createdAt, h.event.trans h'.event, fun hr => h'.completed (h.completed hr)⟩

structure Evolves (table table' : OutboxTable JsonObject) : Prop where
  forth : ∀ k r, table.get? k = some r → ∃ r', table'.get? k = some r' ∧ Later r r'
  back : ∀ k r', table'.get? k = some r' → ∃ r, table.get? k = some r ∧ Later r r'

section
variable {co : Conversions} {env : Conditions} {texts : Set (List Char)} {w : Nat} {s t : World} {start now : Instant}
  {table table' table'' : OutboxTable JsonObject}

theorem Evolves.trans (h : Evolves table table') (h' : Evolves table' table'') :
    Evolves table table'' := by
  constructor
  · intro k r hr
    obtain ⟨m, hm, hlater⟩ := h.forth k r hr
    obtain ⟨r', hr', hlater'⟩ := h'.forth k m hm
    exact ⟨r', hr', hlater.trans hlater'⟩
  · intro k r' hr'
    obtain ⟨m, hm, hlater'⟩ := h'.back k r' hr'
    obtain ⟨r, hr, hlater⟩ := h.back k m hm
    exact ⟨r, hr, hlater.trans hlater'⟩

theorem Evolves.of_rows (h : ∀ k r, table.get? k = some r →
      ∃ r', table'.get? k = some r' ∧ Later r r')
    (hnew : ∀ k, table.get? k = none → table'.get? k = none) : Evolves table table' := by
  refine ⟨h, fun k r' hr' => ?_⟩
  cases hget : table.get? k with
  | none =>
    rw [hnew k hget] at hr'
    cases hr'
  | some r =>
    obtain ⟨x, hx, hlater⟩ := h k r hget
    obtain rfl : x = r' := Option.some.inj (hx.symm.trans hr')
    exact ⟨r, rfl, hlater⟩

theorem Evolves.modifyAt {eventId : UUID} {f : Event → Event}
    (hf : ∀ r, (f r).eventId = r.eventId)
    (hlater : ∀ r, table.get? eventId = some r → Later r (f r)) :
    Evolves table (table.modifyAt eventId f hf) := by
  refine .of_rows (fun k r hr => ?_) fun k hk => ?_
  · rw [KeyedTable.get?_modifyAt]
    by_cases hk : k = eventId
    · rw [if_pos hk, hr, Option.map_some]
      exact ⟨f r, rfl, hlater r (hk ▸ hr)⟩
    · rw [if_neg hk]
      exact ⟨r, hr, .refl r⟩
  · rw [KeyedTable.get?_modifyAt, hk]
    simp

/-! ## The rows that a worker does not hold -/

theorem completeEvent_table {o o' : LeaseState JsonObject} {seen : Option Event} {e : Event}
    (h : completeEvent o seen e now = some o') : Evolves o.table o'.table ∧
      ∀ k, k ≠ e.eventId → o'.table.get? k = o.table.get? k := by
  unfold completeEvent at h
  split at h
  · cases h
  · split at h
    · rename_i u hu
      obtain ⟨r, _, _, _, rfl⟩ := markCompleted_ok hu
      obtain rfl := Option.some.inj h
      refine ⟨.modifyAt (completeRow_eventId now) fun r _ => ⟨rfl, ⟨rfl, rfl, rfl⟩, fun _ => rfl⟩,
        fun k hk => ?_⟩
      rw [KeyedTable.get?_modifyAt, if_neg hk]
    · cases h

theorem failEvent_table {o o' : LeaseState JsonObject} {seen : Option Event} {e : Event}
    {error : List Char} (h : failEvent o seen e error now = some o') : Evolves o.table o'.table ∧
      ∀ k, k ≠ e.eventId → o'.table.get? k = o.table.get? k := by
  unfold failEvent at h
  split at h
  · cases h
  · split at h
    · rename_i u hu
      obtain ⟨r, delay, hr, hclaimed, _, rfl⟩ := markFailed_ok hu
      obtain rfl := Option.some.inj h
      refine ⟨.modifyAt (failRow_eventId now delay error) fun x hx => ?_, fun k hk => ?_⟩
      · obtain rfl : r = x := Option.some.inj (hr.symm.trans hx)
        refine ⟨rfl, ⟨rfl, rfl, rfl⟩, fun hdone => ?_⟩
        rw [hclaimed] at hdone
        cases hdone
      · rw [KeyedTable.get?_modifyAt, if_neg hk]
    · cases h

/-- The worker has to do with other events only. -/
structure Aside (K : Finset UUID) (w : Nat) (s₀ s : World) : Prop where
  events : ∀ e ∈ (s.workers w).events, e.eventId ∉ K
  staged : ∀ e c, (s.workers w).stage = .projected e c → c.eventId = e.eventId
  evolves : Evolves s₀.outbox.table s.outbox.table
  rows : ∀ k ∈ K, s.outbox.table.get? k = s₀.outbox.table.get? k
  commits : ∃ done, s.commits = done ++ s₀.commits ∧ ∀ c ∈ done, c.eventId ∉ K

variable {K : Finset UUID} {s₀ : World}

theorem takeNext_events (queue : List Event) : (takeNext queue).events = queue := by
  cases queue with
  | nil => rfl
  | cons e queue => rfl

theorem Aside.current (h : Aside K w s₀ s) {e : Event}
    (hstage : (s.workers w).stage.event? = some e) : e.eventId ∉ K :=
  h.events e (List.mem_append_left _ (by simp [hstage]))

theorem Aside.queue (h : Aside K w s₀ s) : ∀ e ∈ (s.workers w).queue, e.eventId ∉ K :=
  fun e he => h.events e (List.mem_append_right _ he)

theorem Aside.setWorker (h : Aside K w s₀ s) {st : WorkerState}
    (hevents : ∀ e ∈ st.events, e.eventId ∉ K)
    (hstaged : ∀ e c, st.stage = .projected e c → c.eventId = e.eventId) :
    Aside K w s₀ (s.setWorker w st) := by
  refine ⟨?_, ?_, h.evolves, h.rows, h.commits⟩
  · rw [workers_setWorker]
    exact hevents
  · rw [workers_setWorker]
    exact hstaged

theorem Aside.next (h : Aside K w s₀ s) : Aside K w s₀ (s.setWorker w
    (takeNext (s.workers w).queue)) := by
  refine h.setWorker ?_ ?_
  · rw [takeNext_events]
    exact h.queue
  · cases hqueue : (s.workers w).queue <;> simp [takeNext, idleWorker]

theorem Aside.outbox (h : Aside K w s₀ s) {o : LeaseState JsonObject}
    (hevolves : Evolves s.outbox.table o.table)
    (hrows : ∀ k ∈ K, o.table.get? k = s.outbox.table.get? k) :
    Aside K w s₀ { s with outbox := o } :=
  ⟨h.events, h.staged, h.evolves.trans hevolves, fun k hk => (hrows k hk).trans (h.rows k hk),
    h.commits⟩

theorem Aside.failed (h : Aside K w s₀ s) {e : Event} (he : (s.workers w).stage.event? = some e)
    (error : List Char) : Aside K w s₀ (s.setWorker w ⟨.failed e error, (s.workers w).queue⟩) :=
  h.setWorker (fun _ hx => h.events _ (WorkerState.mem_events_of_stage he rfl hx)) (by simp)

theorem serveStep_aside (h : Aside K w s₀ s) (hstep : serveStep co env w s = some t) :
    Aside K w s₀ t := by
  cases hstage : (s.workers w).stage with
  | idle =>
    rw [serveStep_idle hstage] at hstep
    cases hstep
  | claimed e =>
    have he : (s.workers w).stage.event? = some e := by
      rw [hstage]
      rfl
    rw [serveStep_claimed hstage] at hstep
    simp only [project, hstage] at hstep
    split at hstep
    · obtain rfl := Option.some.inj hstep
      refine h.setWorker (fun _ hx => h.events _ (WorkerState.mem_events_of_stage he rfl hx)) ?_
      intro e' c hc
      obtain ⟨rfl, rfl⟩ := Stage.projected.inj hc
      rfl
    · obtain rfl := Option.some.inj hstep
      exact h.failed he _
  | projected e c =>
    have he : (s.workers w).stage.event? = some e := by
      rw [hstage]
      rfl
    rw [serveStep_projected hstage] at hstep
    obtain rfl := Option.some.inj hstep
    have hout : c.eventId ∉ K := by
      rw [h.staged e c hstage]
      exact h.current he
    obtain ⟨done, hdone, hfar⟩ := h.commits
    have hcommitted : Aside K w s₀ { s with
        graph := c.write.apply s.graph, commits := c :: s.commits } := by
      refine ⟨h.events, h.staged, h.evolves, h.rows, c :: done, by simp [hdone], ?_⟩
      simpa using ⟨hout, hfar⟩
    refine hcommitted.setWorker (fun _ hx => h.events _ ?_) (by simp)
    exact WorkerState.mem_events_of_stage he rfl hx
  | graphCommitted e =>
    have he : (s.workers w).stage.event? = some e := by
      rw [hstage]
      rfl
    rw [serveStep_graphCommitted hstage] at hstep
    simp only [complete, hstage] at hstep
    split at hstep
    · rename_i o _ ho _
      obtain rfl := Option.some.inj hstep
      obtain ⟨hevolves, hothers⟩ := completeEvent_table ho
      have hdone := h.outbox hevolves fun k hk => hothers k fun hke => h.current he (hke ▸ hk)
      exact hdone.next
    · cases ‹CommitOutcome.ok = _›
    · cases ‹CommitOutcome.ok = _›
    · obtain rfl := Option.some.inj hstep
      exact h.failed he _
  | failed e error =>
    have he : (s.workers w).stage.event? = some e := by
      rw [hstage]
      rfl
    rw [serveStep_failed hstage] at hstep
    simp only [fail, hstage] at hstep
    split at hstep
    · rename_i o _ ho _
      obtain rfl := Option.some.inj hstep
      obtain ⟨hevolves, hothers⟩ := failEvent_table ho
      have hback := h.outbox hevolves fun k hk => hothers k fun hke => h.current he (hke ▸ hk)
      exact hback.next
    · cases ‹CommitOutcome.ok = _›
    · cases ‹CommitOutcome.ok = _›
    · obtain rfl := Option.some.inj hstep
      exact h.setWorker (by simp [idleWorker, WorkerState.events, Stage.event?])
        (by simp [idleWorker])

/-! ## The batch behind an exhausted event -/

/-- The rows are pending, or they are all leased until the same time. -/
def DueTogether (start : Instant) (K : Finset UUID) (table : OutboxTable JsonObject) : Prop :=
  (∀ k ∈ K, ∀ r, table.get? k = some r → r.status = .pending ∧ r.availableAt ≤ start) ∨
    ∃ expiry, ∀ k ∈ K, ∀ r, table.get? k = some r →
      r.status = .claimed ∧ r.leaseExpiresAt = some expiry ∧ r.availableAt ≤ start

/-- The oldest open event cannot be read and has been tried too often. The events of the list,
at most a batch with it, come before all other open ones and are due together. -/
structure Blocking (co : Conversions) (start : Instant) (oldest : UUID) (K : Finset UUID)
    (table : OutboxTable JsonObject) : Prop where
  mem : oldest ∈ K
  card : K.card ≤ batchSize
  exhausted : ∃ r, table.get? oldest = some r ∧ projects co r = false ∧ 1022 ≤ r.attempts
  stored : ∀ k ∈ K, ∃ r, table.get? k = some r ∧ r.status ≠ .completed
  first : ∀ r, table.get? oldest = some r → ∀ k ∈ K, k ≠ oldest → ∀ r', table.get? k = some r' →
    r.createdAt < r'.createdAt
  before : ∀ k ∈ K, ∀ r, table.get? k = some r → ∀ k', k' ∉ K → ∀ r',
    table.get? k' = some r' → r'.status ≠ .completed → r.createdAt < r'.createdAt
  together : DueTogether start K table

variable {oldest : UUID}

theorem DueTogether.selectable (h : DueTogether start K table) (hnow : start ≤ now) :
    (∀ k ∈ K, ∀ r, table.get? k = some r → selectable now r = true) ∨
      ∀ k ∈ K, ∀ r, table.get? k = some r → selectable now r = false := by
  rcases h with hpending | ⟨expiry, hleased⟩
  · refine Or.inl fun k hk r hr => ?_
    obtain ⟨hst, havailable⟩ := hpending k hk r hr
    exact selectable_iff.mpr ⟨Or.inl hst, havailable.trans hnow⟩
  · rcases le_or_gt expiry now with hexpired | hlive
    · refine Or.inl fun k hk r hr => ?_
      obtain ⟨hst, hlease, havailable⟩ := hleased k hk r hr
      exact selectable_iff.mpr ⟨Or.inr ⟨hst, expiry, hlease, hexpired⟩, havailable.trans hnow⟩
    · refine Or.inr fun k hk r hr => ?_
      obtain ⟨hst, hlease, _⟩ := hleased k hk r hr
      have hlate : ¬ expiry ≤ now := not_le.mpr hlive
      simp [Outbox.selectable, hst, hlease, leaseExpired, hlate]

theorem DueTogether.available (h : DueTogether start K table) {k : UUID} (hk : k ∈ K) {r : Event}
    (hr : table.get? k = some r) : r.availableAt ≤ start := by
  rcases h with hpending | ⟨expiry, hleased⟩
  · exact (hpending k hk r hr).2
  · exact (hleased k hk r hr).2.2

def candidates (table : OutboxTable JsonObject) (now : Instant) : List Event :=
  (table.rows.filter fun r => Outbox.selectable now r && !false).insertionSort
    fun a b => a.createdAt ≤ b.createdAt

theorem selected_eq (table : OutboxTable JsonObject) (now : Instant) :
    selected table now = (candidates table now).take batchSize := rfl

theorem mem_candidates {r : Event} : r ∈ candidates table now ↔
    table.get? r.eventId = some r ∧ Outbox.selectable now r = true := by
  rw [candidates, List.mem_insertionSort, List.mem_filter, table.mem_rows_iff]
  simp

theorem candidates_sorted (table : OutboxTable JsonObject) (now : Instant) :
    (candidates table now).Pairwise fun a b => a.createdAt ≤ b.createdAt :=
  List.pairwise_insertionSort (fun a b : Event => a.createdAt ≤ b.createdAt) _

theorem Blocking.mem_selected (h : Blocking co start oldest K table)
    (hall : ∀ k ∈ K, ∀ r, table.get? k = some r → Outbox.selectable now r = true) {k : UUID}
    (hk : k ∈ K) {r : Event} (hr : table.get? k = some r) : r ∈ selected table now := by
  have hid := (table.get?_some_iff.mp hr).2
  have hmem : r ∈ candidates table now :=
    mem_candidates.mpr ⟨by rw [hid]; exact hr, hall k hk r hr⟩
  rw [selected_eq]
  by_contra hnot
  -- the row is in the rest, so the batch is full of rows that are no younger: all of the list
  have hdrop : r ∈ (candidates table now).drop batchSize := by
    rw [← List.take_append_drop batchSize (candidates table now)] at hmem
    exact (List.mem_append.mp hmem).resolve_left hnot
  have hsplit := candidates_sorted table now
  rw [← List.take_append_drop batchSize (candidates table now), List.pairwise_append] at hsplit
  have hsub : selectedIds table now ⊆ K.erase k := by
    intro k' hk'
    obtain ⟨x, hx, rfl⟩ := mem_selectedIds.mp hk'
    obtain ⟨hget, hopen⟩ := selected_mem hx
    have hle := hsplit.2.2 x (selected_eq table now ▸ hx) r hdrop
    refine Finset.mem_erase.mpr ⟨?_, ?_⟩
    · rintro rfl
      obtain rfl : x = r := Option.some.inj (hget.symm.trans hr)
      exact hnot (selected_eq table now ▸ hx)
    · by_contra hout
      exact absurd (h.before k hk r hr x.eventId hout x hget hopen) (not_lt.mpr hle)
  have hfull : batchSize ≤ (selected table now).length := by
    rw [selected_eq, List.length_take]
    have hlong : batchSize < (candidates table now).length := by
      by_contra hshort
      rw [List.drop_eq_nil_of_le (by omega)] at hdrop
      cases hdrop
    omega
  have hcard := Finset.card_le_card hsub
  rw [card_selectedIds, Finset.card_erase_of_mem hk] at hcard
  have hpos := Finset.card_pos.mpr ⟨k, hk⟩
  have hsmall := h.card
  omega

theorem Blocking.selected_head (h : Blocking co start oldest K table)
    (hall : ∀ k ∈ K, ∀ r, table.get? k = some r → Outbox.selectable now r = true) {r : Event}
    (hr : table.get? oldest = some r) : ∃ rest, selected table now = r :: rest := by
  have hmem := h.mem_selected hall h.mem hr
  have hsorted : (selected table now).Pairwise fun a b => a.createdAt ≤ b.createdAt :=
    (candidates_sorted table now).sublist (List.take_sublist _ _)
  cases hsel : selected table now with
  | nil =>
    rw [hsel] at hmem
    cases hmem
  | cons x rest =>
    have hx : x ∈ selected table now := hsel ▸ List.mem_cons_self
    obtain ⟨hget, hopen⟩ := selected_mem hx
    rw [hsel] at hmem hsorted
    rcases List.mem_cons.mp hmem with rfl | hrest
    · exact ⟨rest, rfl⟩
    · have hle := (List.pairwise_cons.mp hsorted).1 r hrest
      by_cases hin : x.eventId ∈ K
      · by_cases heq : x.eventId = oldest
        · rw [heq] at hget
          obtain rfl : x = r := Option.some.inj (hget.symm.trans hr)
          exact ⟨rest, rfl⟩
        · exact absurd (h.first r hr _ hin heq x hget) (not_lt.mpr hle)
      · exact absurd (h.before oldest h.mem r hr _ hin x hget hopen) (not_lt.mpr hle)

/-! ## One pass -/

theorem Polled.evolves {events : List Event} (h : Polled w now s t events) :
    Evolves s.outbox.table t.outbox.table := by
  have hids := ClaimedFrom.ids h.claimed
  refine .of_rows (fun k r hr => ?_) fun k hnone => ?_
  · by_cases hk : k ∈ events.map OutboxRow.eventId
    · rw [hids] at hk
      obtain ⟨r₀, hr₀, rfl⟩ := List.mem_map.mp hk
      obtain ⟨hget, hopen⟩ := selected_mem hr₀
      obtain rfl : r₀ = r := Option.some.inj (hget.symm.trans hr)
      obtain ⟨e, he, hfrom⟩ := Correspondence.exists_right_of_mem h.claimed hr₀
      have hstored := (h.held e he).stored
      rw [hfrom.eventId] at hstored
      obtain ⟨token, rfl⟩ := hfrom
      exact ⟨_, hstored, rfl, ⟨rfl, rfl, rfl⟩, fun hdone => absurd hdone hopen⟩
    · exact ⟨r, (h.others k hk).trans hr, .refl r⟩
  · have hk : k ∉ events.map OutboxRow.eventId := by
      rw [hids]
      intro hmem
      obtain ⟨r, hr, rfl⟩ := List.mem_map.mp hmem
      rw [(selected_mem hr).1] at hnone
      cases hnone
    exact (h.others k hk).trans hnone

/-- Nothing but the rows of the list can end the blocking. -/
theorem Blocking.evolves (h : Blocking co start oldest K table) (hlater : Evolves table table')
    (hrows : ∀ k ∈ K, ∀ r, table.get? k = some r → ∀ r', table'.get? k = some r' →
      r.attempts ≤ r'.attempts ∧ r'.status ≠ .completed)
    (htogether : DueTogether start K table') : Blocking co start oldest K table' := by
  refine ⟨h.mem, h.card, ?_, ?_, ?_, ?_, htogether⟩
  · obtain ⟨r, hr, hprojects, hattempts⟩ := h.exhausted
    obtain ⟨r', hr', hrow⟩ := hlater.forth oldest r hr
    refine ⟨r', hr', (SameEvent.projects hrow.event).trans hprojects, ?_⟩
    exact hattempts.trans (hrows oldest h.mem r hr r' hr').1
  · intro k hk
    obtain ⟨r, hr, _⟩ := h.stored k hk
    obtain ⟨r', hr', _⟩ := hlater.forth k r hr
    exact ⟨r', hr', (hrows k hk r hr r' hr').2⟩
  · intro x hx k hk hne x' hx'
    obtain ⟨r, hr, hrow⟩ := hlater.back oldest x hx
    obtain ⟨r', hr', hrow'⟩ := hlater.back k x' hx'
    rw [hrow.createdAt, hrow'.createdAt]
    exact h.first r hr k hk hne r' hr'
  · intro k hk x hx k' hk' x' hx' hopen
    obtain ⟨r, hr, hrow⟩ := hlater.back k x hx
    obtain ⟨r', hr', hrow'⟩ := hlater.back k' x' hx'
    rw [hrow.createdAt, hrow'.createdAt]
    exact h.before k hk r hr k' hk' r' hr' fun hdone => hopen (hrow'.completed hdone)

/-- The exhausted event ends its batch. -/
theorem serve_exhausted {e : Event} {queue : List Event}
    (hworker : s.workers w = ⟨.claimed e, queue⟩) (hheld : Held s.outbox.table e)
    (hprojects : projects co e = false) (hattempts : 1023 ≤ e.attempts) :
    ∃ t, Iteration.Reaches (serveStep co env w) s t ∧ t.workers w = idleWorker ∧
      t.outbox = s.outbox ∧ t.commits = s.commits := by
  have hcases : (projects co e = true ∧ _) ∨ _ := projectEvent_cases s.graph (env.now s) e
  obtain ⟨hyes, _⟩ | ⟨_, error, herror⟩ := hcases
  · rw [hprojects] at hyes
    cases hyes
  let failed := s.setWorker w ⟨.failed e (env.error s), queue⟩
  have hproject : serveStep co env w s = some failed := by
    rw [serveStep_claimed (by rw [hworker])]
    simp [project, hworker, herror, failed]
  have hstage : failed.workers w = ⟨.failed e (env.error s), queue⟩ := workers_setWorker _ _ _
  have hraised : failEvent failed.outbox (failed.outbox.table.get? e.eventId) e (env.error s)
      (env.now failed) = none := failEvent_of_exhausted hheld hattempts _ _
  have hfail : serveStep co env w failed = some (failed.setWorker w idleWorker) := by
    rw [serveStep_failed (by rw [hstage])]
    simp only [fail, hstage, hraised]
  exact ⟨_, (Iteration.Reaches.refl.tail hproject).tail hfail, workers_setWorker _ _ _, rfl, rfl⟩

structure StillBlocked (co : Conversions) (start : Instant) (oldest : UUID) (K : Finset UUID)
    (s t : World) : Prop where
  blocking : Blocking co start oldest K t.outbox.table
  commits : ∃ done, t.commits = done ++ s.commits ∧ ∀ c ∈ done, c.eventId ∉ K

/-- The poll takes the whole list, with the exhausted event in front. -/
theorem Polled.blocks_all {polled : World} {events : List Event}
    (hpolled : Polled w now s polled events)
    (h : Blocking co start oldest K s.outbox.table)
    (hall : ∀ k ∈ K, ∀ r, s.outbox.table.get? k = some r → Outbox.selectable now r = true)
    (hserve : Iteration.Reaches (serveStep co env w) polled t)
    (hend : serveStep co env w t = none) : StillBlocked co start oldest K s t := by
  obtain ⟨r, hr, hprojects, hattempts⟩ := h.exhausted
  obtain ⟨rest, hsel⟩ := h.selected_head hall hr
  have hclaimed := hpolled.claimed
  rw [hsel] at hclaimed
  cases hclaimed with
  | @cons _ e _ queue hfrom _ =>
    have hmany : 1023 ≤ e.attempts := by
      obtain ⟨token, rfl⟩ := hfrom
      exact Nat.succ_le_succ hattempts
    obtain ⟨x, hreach, hidle, houtbox, hcommits⟩ := serve_exhausted hpolled.worker
      (hpolled.held e List.mem_cons_self) (hfrom.projects.trans hprojects) hmany
    obtain rfl := hserve.end_unique hend hreach (serveStep_idle (by rw [hidle]; rfl))
    have hrow : ∀ k ∈ K, ∀ r, s.outbox.table.get? k = some r →
        ∃ e', t.outbox.table.get? k = some e' ∧ ClaimedFrom now r e' := by
      intro k hk r hr
      have hid := (s.outbox.table.get?_some_iff.mp hr).2
      obtain ⟨e', he', hfrom'⟩ :=
        Correspondence.exists_right_of_mem hpolled.claimed (h.mem_selected hall hk hr)
      have hstored := (hpolled.held e' he').stored
      rw [hfrom'.eventId, hid, ← houtbox] at hstored
      exact ⟨e', hstored, hfrom'⟩
    refine ⟨h.evolves (houtbox ▸ hpolled.evolves) ?_ (Or.inr ⟨now + 1000000 * 30, ?_⟩), [], ?_, ?_⟩
    · intro k hk r hr r' hr'
      obtain ⟨e', he', token, rfl⟩ := hrow k hk r hr
      obtain rfl := Option.some.inj (he'.symm.trans hr')
      exact ⟨Nat.le_succ _, by simp [claimRow]⟩
    · intro k hk r' hr'
      obtain ⟨r, hr, _⟩ := h.stored k hk
      obtain ⟨e', he', token, rfl⟩ := hrow k hk r hr
      obtain rfl := Option.some.inj (he'.symm.trans hr')
      have havailable : r.availableAt ≤ start := h.together.available hk hr
      exact ⟨rfl, rfl, havailable⟩
    · rw [hcommits, hpolled.commits]
      rfl
    · simp

/-- The poll takes nothing of the list: its leases have not run out. -/
theorem Polled.blocks_none {polled : World} {events : List Event}
    (hpolled : Polled w now s polled events) (h : Blocking co start oldest K s.outbox.table)
    (hnone : ∀ k ∈ K, ∀ r, s.outbox.table.get? k = some r → Outbox.selectable now r = false)
    (hserve : Iteration.Reaches (serveStep co env w) polled t) :
    StillBlocked co start oldest K s t := by
  have hids := ClaimedFrom.ids hpolled.claimed
  have hout : ∀ e ∈ events, e.eventId ∉ K := by
    intro e he hin
    obtain ⟨r, hr, hfrom⟩ := Correspondence.exists_left_of_mem hpolled.claimed he
    rw [hfrom.eventId] at hin
    have hsel := (mem_selectRows hr).2
    rw [hnone r.eventId hin r (selected_mem hr).1] at hsel
    cases hsel
  have hothers : ∀ k ∈ K, polled.outbox.table.get? k = s.outbox.table.get? k := by
    refine fun k hk => hpolled.others k fun hmem => ?_
    obtain ⟨e, he, rfl⟩ := List.mem_map.mp hmem
    exact hout e he hk
  have hstart : Aside K w s polled := by
    refine ⟨?_, ?_, hpolled.evolves, hothers, [], by simp [hpolled.commits], by simp⟩
    · rw [hpolled.worker, takeNext_events]
      exact hout
    · rw [hpolled.worker]
      cases events <;> simp [takeNext, idleWorker]
  have hafter := hserve.preserves (Aside K w s) (fun _ _ => serveStep_aside) hstart
  refine ⟨h.evolves hafter.evolves ?_ ?_, hafter.commits⟩
  · intro k hk r hr r' hr'
    rw [hafter.rows k hk, hr] at hr'
    obtain rfl := Option.some.inj hr'
    obtain ⟨x, hx, hopen⟩ := h.stored k hk
    obtain rfl : x = r := Option.some.inj (hx.symm.trans hr)
    exact ⟨le_rfl, hopen⟩
  · rcases h.together with hpending | ⟨expiry, hleased⟩
    · refine Or.inl fun k hk r hr => hpending k hk r ?_
      rw [← hafter.rows k hk, hr]
    · refine Or.inr ⟨expiry, fun k hk r hr => hleased k hk r ?_⟩
      rw [← hafter.rows k hk, hr]

theorem Round.blocked (hround : Round co texts w now s t) (hidle : (s.workers w).stage = .idle)
    (hnow : start ≤ now) (h : Blocking co start oldest K s.outbox.table) :
    StillBlocked co start oldest K s t := by
  cases hround with
  | @mk ticked polled _ _ env _ htick hpoll hserve hend =>
    have hticked := tick_ticked htick
    obtain ⟨events, hpolled⟩ := poll_polled (by rw [hticked.workers]; exact hidle) hpoll
    rw [← hticked.table] at h
    have hblocked : StillBlocked co start oldest K ticked t := by
      rcases h.together.selectable hnow with hall | hnone
      · exact hpolled.blocks_all h hall hserve hend
      · exact hpolled.blocks_none h hnone hserve
    refine ⟨hblocked.blocking, ?_⟩
    rw [← hticked.commits]
    exact hblocked.commits

/-! ## All passes -/

theorem Rounds.blocked {n : Nat} (hrounds : Rounds co texts w start n s t)
    (hidle : (s.workers w).stage = .idle) (h : Blocking co start oldest K s.outbox.table) :
    StillBlocked co start oldest K s t := by
  induction hrounds with
  | zero s => exact ⟨h, [], rfl, by simp⟩
  | succ hrounds hnow hround ih =>
    obtain ⟨hbefore, done, hdone, hfar⟩ := ih hidle h
    obtain ⟨hafter, done', hdone', hfar'⟩ := hround.blocked (hrounds.idle hidle) hnow hbefore
    refine ⟨hafter, done' ++ done, by rw [hdone', hdone, List.append_assoc], fun c hc => ?_⟩
    rcases List.mem_append.mp hc with hc | hc
    · exact hfar' c hc
    · exact hfar c hc

/-- None of the events has been done or projected, readable or not. -/
structure Starved (K : Finset UUID) (s t : World) : Prop where
  stillOpen : ∀ k ∈ K, ∃ r, t.outbox.table.get? k = some r ∧ r.status ≠ .completed
  commits : ∃ done, t.commits = done ++ s.commits ∧ ∀ c ∈ done, c.eventId ∉ K

/-- However often the worker polls, and whatever is raised, the exhausted event starves the batch
behind it. -/
theorem exhausted_blocks {n : Nat} (hidle : (s.workers w).stage = .idle)
    (hclock : s.outbox.clock ≤ start)
    (h : Blocking co start oldest K s.outbox.table)
    (htokens : s.outbox.leases.length + n * batchSize ≤ 2 ^ 128) :
    (∃ t, Rounds co Set.univ w start n s t) ∧
      ∀ t, Rounds co Set.univ w start n s t → Starved K s t := by
  refine ⟨?_, fun t hrounds => ?_⟩
  · obtain ⟨t, hrounds, _⟩ := exists_rounds co n Set.univ_nonempty hidle hclock htokens
    exact ⟨t, hrounds⟩
  · obtain ⟨hblocking, hcommits⟩ := hrounds.blocked hidle h
    exact ⟨hblocking.stored, hcommits⟩

end

/-- The unreadable mention has been tried 1022 times; the entity is younger. -/
def exhaustedFirst : List Action :=
  [.emit ⟨1, "entity", 2, .entityMentioned, [], .pending, 1022, none, 0, none, none, none⟩,
   .emit ⟨2, "entity", 2, .entityResolved,
      [("entity_id", .str "00000000-0000-0000-0000-000000000002"),
       ("entity_type", .str "person"), ("canonical_name", .str "Ada")],
      .pending, 0, none, 1, none, none, none⟩]

structure QueueView where
  eventId : UUID
  status : StatusText
  attempts : Nat
  createdAt : Instant
  availableAt : Instant
  readable : Bool
  deriving DecidableEq

def queueView (r : Event) : QueueView :=
  ⟨r.eventId, r.status, r.attempts, r.createdAt, r.availableAt, projects plainConversions r⟩

theorem blocking_of_view {table : OutboxTable JsonObject} (h : table.rows.map queueView =
    [⟨1, .pending, 1022, 0, 0, false⟩, ⟨2, .pending, 0, 1, 1, true⟩]) :
    Blocking plainConversions 1 1 {1, 2} table := by
  have hrow : ∀ k r, table.get? k = some r → r.eventId = k ∧
      (queueView r = ⟨1, .pending, 1022, 0, 0, false⟩ ∨
        queueView r = ⟨2, .pending, 0, 1, 1, true⟩) := by
    intro k r hr
    obtain ⟨hmem, hid⟩ := table.get?_some_iff.mp hr
    have hview : queueView r ∈ table.rows.map queueView := List.mem_map_of_mem hmem
    rw [h] at hview
    exact ⟨hid, by simpa using hview⟩
  have hstored : ∀ v ∈ table.rows.map queueView, ∃ r, table.get? v.eventId = some r ∧
      queueView r = v := by
    intro v hv
    obtain ⟨r, hr, rfl⟩ := List.mem_map.mp hv
    exact ⟨r, table.mem_rows_iff.mp hr, rfl⟩
  rw [h] at hstored
  obtain ⟨r₁, hr₁, hview₁⟩ := hstored _ (List.mem_cons_self)
  obtain ⟨r₂, hr₂, hview₂⟩ := hstored _ (List.mem_cons_of_mem _ List.mem_cons_self)
  simp only [queueView, QueueView.mk.injEq] at hrow hview₁ hview₂
  refine ⟨by decide, by decide, ⟨r₁, hr₁, by simp [hview₁], by simp [hview₁]⟩, ?_, ?_, ?_,
    Or.inl ?_⟩
  · intro k hk
    rcases Finset.mem_insert.mp hk with rfl | hk
    · exact ⟨r₁, hr₁, by simp [hview₁]⟩
    · obtain rfl := Finset.mem_singleton.mp hk
      exact ⟨r₂, hr₂, by simp [hview₂]⟩
  · intro r hr k _ hne r' hr'
    obtain ⟨_, hview | hview⟩ := hrow 1 r hr
    · obtain ⟨hid, hview' | hview'⟩ := hrow k r' hr'
      · exact absurd (hid.symm.trans hview'.1) hne
      · rw [hview.2.2.2.1, hview'.2.2.2.1]
        decide
    · obtain rfl : r₁ = r := Option.some.inj (hr₁.symm.trans hr)
      exact absurd (hview₁.1.symm.trans hview.1) (by decide)
  · intro k _ r _ k' hk' r' hr' _
    obtain ⟨hid, hview | hview⟩ := hrow k' r' hr'
    · exact absurd (by simp [← hid, hview.1]) hk'
    · exact absurd (by simp [← hid, hview.1]) hk'
  · intro k hk r hr
    obtain ⟨_, hview | hview⟩ := hrow k r hr <;> simp [hview]

theorem exhausted_blocks_entity :
    ∃ s, (worldSystem plainConversions []).run (worldSystem plainConversions []).start
        exhaustedFirst = some s ∧
      (∃ t, Rounds plainConversions Set.univ 0 1 1000 s t) ∧
        ∀ t, Rounds plainConversions Set.univ 0 1 1000 s t → Starved {1, 2} s t := by
  have hview : ((worldSystem plainConversions []).run (worldSystem plainConversions []).start
      exhaustedFirst).map (fun s => (decide ((s.workers 0).stage.event? = none), s.outbox.clock,
        s.outbox.leases.length, s.outbox.table.rows.map queueView)) =
      some (true, 0, 0,
        [⟨1, .pending, 1022, 0, 0, false⟩, ⟨2, .pending, 0, 1, 1, true⟩]) := by
    decide
  obtain ⟨s, hs, hfields⟩ := Option.map_eq_some_iff.mp hview
  simp only [Prod.mk.injEq, decide_eq_true_eq] at hfields
  obtain ⟨hstage, hclock, hleases, hrows⟩ := hfields
  refine ⟨s, hs, exhausted_blocks ?_ ?_ (blocking_of_view hrows) ?_⟩
  · cases hidle : (s.workers 0).stage with
    | idle => rfl
    | _ => simp [hidle, Stage.event?] at hstage
  · rw [hclock]
    decide
  · rw [hleases]
    decide

end GroundGraph.Worker
