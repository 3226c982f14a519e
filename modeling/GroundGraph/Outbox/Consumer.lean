import GroundGraph.Library.LabelledSystem
import GroundGraph.Outbox.Repository

/-! The other adapter over the outbox table, `infrastructure/postgres/outbox_consumer.py`:
claims without a lease, acknowledgements without a token. What it leaves in the table is
compared with what `OutboxEventStatus` and the readers of the table know.
-/

set_option autoImplicit false

namespace GroundGraph.Outbox

variable {P : Type}

/-- `OutboxEventStatus(text)`; `none` is its `ValueError`. -/
def OutboxEventStatus.ofText? : StatusText → Option OutboxEventStatus
  | .pending => some .pending
  | .claimed => some .claimed
  | .completed => some .completed
  | .failed => some .failed
  | .processing => none

theorem OutboxEventStatus.ofText?_isSome_iff {text : StatusText} :
    (OutboxEventStatus.ofText? text).isSome ↔ ∃ s : OutboxEventStatus, text = s.value := by
  constructor
  · cases text with
    | pending => exact fun _ => ⟨.pending, rfl⟩
    | claimed => exact fun _ => ⟨.claimed, rfl⟩
    | completed => exact fun _ => ⟨.completed, rfl⟩
    | failed => exact fun _ => ⟨.failed, rfl⟩
    | processing => exact fun h => by cases h
  · rintro ⟨s, rfl⟩
    cases s <;> rfl

def toDomain (row : OutboxRow P) : Option (OutboxEvent P) :=
  (OutboxEventStatus.ofText? row.status).map fun status =>
    { eventId := row.eventId
      aggregateType := row.aggregateType
      aggregateId := row.aggregateId
      eventType := row.eventType
      payload := row.payload
      status := status
      attempts := row.attempts
      lastError := row.lastError
      createdAt := row.createdAt
      claimedAt := row.claimedAt
      claimToken := row.claimToken
      completedAt := row.completedAt }

namespace OutboxConsumer

/-- `_sql_to_event`, which leaves the token out. -/
def sqlToEvent (row : OutboxRow P) : Option (OutboxEvent P) :=
  (OutboxEventStatus.ofText? row.status).map fun status =>
    { eventId := row.eventId
      aggregateType := row.aggregateType
      aggregateId := row.aggregateId
      eventType := row.eventType
      payload := row.payload
      status := status
      attempts := row.attempts
      lastError := row.lastError
      createdAt := row.createdAt
      claimedAt := row.claimedAt
      completedAt := row.completedAt }

/-- The `WHERE` clause of its `claim_batch`: no lease, no `available_at`. -/
def selectable (r : OutboxRow P) : Bool := decide (r.status = .pending)

def selectRows (t : OutboxTable P) (batchSize : Nat) (locked : UUID → Bool) :
    List (OutboxRow P) :=
  ((t.rows.filter fun r => selectable r && !locked r.eventId).insertionSort
    fun a b => a.createdAt ≤ b.createdAt).take batchSize

def processRow (now : Instant) (ids : List UUID) (r : OutboxRow P) : OutboxRow P :=
  if r.eventId ∈ ids then { r with status := .processing, claimedAt := some now } else r

theorem processRow_eventId (now : Instant) (ids : List UUID) (r : OutboxRow P) :
    (processRow now ids r).eventId = r.eventId := by
  unfold processRow
  split <;> rfl

/-- The table after the commit, and what is returned then: the updated rows as events. -/
def claimBatch (t : OutboxTable P) (now : Instant) (batchSize : Nat) (locked : UUID → Bool) :
    OutboxTable P × Option (List (OutboxEvent P)) :=
  let rows := selectRows t batchSize locked
  let ids := rows.map OutboxRow.eventId
  if rows = [] then (t, some [])
  else
    (t.modify (processRow now ids) (processRow_eventId now ids),
      (rows.map (processRow now ids)).mapM sqlToEvent)

def completeRow (now : Instant) (r : OutboxRow P) : OutboxRow P :=
  { r with status := .completed, completedAt := some now }

@[simp] theorem completeRow_eventId (now : Instant) (r : OutboxRow P) :
    (completeRow now r).eventId = r.eventId := rfl

/-- An UPDATE without a guard; a missing row is not noticed. -/
def markCompleted (t : OutboxTable P) (eventId : UUID) (now : Instant) : OutboxTable P :=
  t.modifyAt eventId (completeRow now) (completeRow_eventId now)

def failRow (error : List Char) (r : OutboxRow P) : OutboxRow P :=
  { r with
    status := .pending, attempts := r.attempts + 1, lastError := some error, claimedAt := none }

@[simp] theorem failRow_eventId (error : List Char) (r : OutboxRow P) :
    (failRow error r).eventId = r.eventId := rfl

/-- The text is stored whole. -/
def markFailed (t : OutboxTable P) (eventId : UUID) (error : List Char) :
    Except OutboxError (OutboxTable P) :=
  match t.get? eventId with
  | none => .ok t
  | some _ =>
    if Storable error then .ok (t.modifyAt eventId (failRow error) (failRow_eventId error))
    else .error .dataError

theorem mem_selectRows {t : OutboxTable P} {batchSize : Nat} {locked : UUID → Bool}
    {r : OutboxRow P} (h : r ∈ selectRows t batchSize locked) :
    r ∈ t.rows ∧ r.status = .pending := by
  have hfilter := (List.mem_insertionSort _).mp (List.mem_of_mem_take h)
  simp only [List.mem_filter, Bool.and_eq_true, selectable, decide_eq_true_eq] at hfilter
  exact ⟨hfilter.1, hfilter.2.1⟩

/-- Nothing it has claimed can be returned: the new status is no `OutboxEventStatus`. -/
theorem claimBatch_raises {t : OutboxTable P} {batchSize : Nat} {locked : UUID → Bool}
    (h : selectRows t batchSize locked ≠ []) (now : Instant) :
    (claimBatch t now batchSize locked).2 = none := by
  simp only [claimBatch, if_neg h]
  cases hrows : selectRows t batchSize locked with
  | nil => exact absurd hrows h
  | cons r rows => simp [processRow, sqlToEvent, OutboxEventStatus.ofText?]

end OutboxConsumer

/-! ## Interleavings -/

/-- Beside the table: the events taken by a `claim_batch` since their last
acknowledgement, and the events that were completed at some time. -/
structure ConsumerState (P : Type) where
  table : OutboxTable P
  unfinished : List UUID
  completed : List UUID

inductive ConsumerAction (P : Type) where
  | add (event : OutboxEvent P)
  | claimBatch (now : Instant) (batchSize : Nat) (locked : UUID → Bool)
  | markCompleted (eventId : UUID) (now : Instant)
  | markFailed (eventId : UUID) (error : List Char)

def acknowledged (unfinished : List UUID) (eventId : UUID) : List UUID :=
  unfinished.filter fun id => decide (id ≠ eventId)

def consumerStep (s : ConsumerState P) : ConsumerAction P → ConsumerState P
  | .add event =>
    match add s.table event with
    | .error _ => s
    | .ok t =>
      { s with
        table := t
        completed := if event.status = .completed then event.eventId :: s.completed
          else s.completed }
  | .claimBatch now batchSize locked =>
    { s with
      table := (OutboxConsumer.claimBatch s.table now batchSize locked).1
      unfinished := (OutboxConsumer.selectRows s.table batchSize locked).map OutboxRow.eventId ++
        s.unfinished }
  | .markCompleted eventId now =>
    { s with
      table := OutboxConsumer.markCompleted s.table eventId now
      unfinished := acknowledged s.unfinished eventId
      completed := if (s.table.get? eventId).isSome then eventId :: s.completed
        else s.completed }
  | .markFailed eventId error =>
    match OutboxConsumer.markFailed s.table eventId error with
    | .error _ => s
    | .ok t => { s with table := t, unfinished := acknowledged s.unfinished eventId }

def consumerSystem (P : Type) : LabelledSystem (ConsumerState P) (ConsumerAction P) :=
  ⟨⟨.empty, [], []⟩, fun s a => some (consumerStep s a)⟩

/-- At some time one of the two `claim_batch` takes the row. -/
def Claimable (r : OutboxRow P) : Prop :=
  OutboxConsumer.selectable r = true ∨ ∃ now, selectable now r = true

structure RefinesOutbox (s : ConsumerState P) : Prop where
  statuses : ∀ r ∈ s.table.rows, ∃ status : OutboxEventStatus, r.status = status.value
  loads : ∀ r ∈ s.table.rows, (OutboxConsumer.sqlToEvent r).isSome ∧ (toDomain r).isSome
  reclaimable : ∀ id ∈ s.unfinished, ∀ r, s.table.get? id = some r → Claimable r
  stays_completed : ∀ id ∈ s.completed, ∀ r, s.table.get? id = some r → r.status ≠ .pending

/-- No claim takes a row, and no failure is recorded for an event that is completed. -/
def Harmless (s : ConsumerState P) : ConsumerAction P → Prop
  | .claimBatch _ batchSize locked => OutboxConsumer.selectRows s.table batchSize locked = []
  | .markFailed eventId error =>
    Storable error → ∀ r, s.table.get? eventId = some r → r.status ≠ .completed
  | _ => True

theorem not_claimable_processing {r : OutboxRow P} (h : r.status = .processing) :
    ¬ Claimable r := by
  rintro (hc | ⟨now, hc⟩)
  · simp [OutboxConsumer.selectable, h] at hc
  · simp [selectable, h] at hc

/-- What holds however the calls come: the two records agree with the table. -/
structure ConsumerInv (s : ConsumerState P) : Prop where
  unfinished : ∀ id ∈ s.unfinished, ∃ r, s.table.get? id = some r ∧ r.status = .processing
  completed : ∀ id r, s.table.get? id = some r →
    (r.status = .completed → id ∈ s.completed) ∧
    (id ∈ s.completed → r.status = .completed ∨ r.status = .pending ∨ r.status = .processing)
  present : ∀ id ∈ s.completed, (s.table.get? id).isSome

theorem consumerInv_start : ConsumerInv (consumerSystem P).start where
  unfinished := fun _ h => by cases h
  completed := fun _ _ h => by simp [consumerSystem] at h
  present := fun _ h => by cases h

theorem value_eq_completed_iff {status : OutboxEventStatus} :
    status.value = .completed ↔ status = .completed := by cases status <;> simp [OutboxEventStatus.value]

theorem get?_claimBatch (t : OutboxTable P) (now : Instant) (batchSize : Nat)
    (locked : UUID → Bool) (k : UUID) :
    (OutboxConsumer.claimBatch t now batchSize locked).1.get? k =
      (t.get? k).map (OutboxConsumer.processRow now
        ((OutboxConsumer.selectRows t batchSize locked).map OutboxRow.eventId)) := by
  simp only [OutboxConsumer.claimBatch]
  split
  · rename_i hnone
    have hkeep : OutboxConsumer.processRow (P := P) now [] = fun r => r := by
      funext r
      simp [OutboxConsumer.processRow]
    rw [hnone, List.map_nil, hkeep, Option.map_id']
  · exact t.get?_modify _ (OutboxConsumer.processRow_eventId now _) k

theorem get?_markCompleted (t : OutboxTable P) (eventId : UUID) (now : Instant) (k : UUID) :
    (OutboxConsumer.markCompleted t eventId now).get? k =
      if k = eventId then (t.get? k).map (OutboxConsumer.completeRow now) else t.get? k :=
  t.get?_modifyAt eventId _ (OutboxConsumer.completeRow_eventId now) k

theorem get?_markFailed {t t' : OutboxTable P} {eventId : UUID} {error : List Char}
    (h : OutboxConsumer.markFailed t eventId error = .ok t') (id : UUID) :
    t'.get? id =
      if id = eventId then (t.get? id).map (OutboxConsumer.failRow error) else t.get? id := by
  unfold OutboxConsumer.markFailed at h
  split at h
  · rename_i hnone
    obtain rfl := Except.ok.inj h
    split
    · rename_i hid
      rw [hid, hnone, Option.map_none]
    · rfl
  · split at h
    · obtain rfl := Except.ok.inj h
      exact t.get?_modifyAt eventId _ (OutboxConsumer.failRow_eventId error) id
    · cases h

theorem markFailed_isOk {t : OutboxTable P} {eventId : UUID} {error : List Char} {r : OutboxRow P}
    (hr : t.get? eventId = some r) :
    (OutboxConsumer.markFailed t eventId error).isOk = true ↔ Storable error := by
  unfold OutboxConsumer.markFailed
  rw [hr]
  by_cases h : Storable error <;> simp [h, Except.isOk, Except.toBool]

theorem mem_acknowledged {unfinished : List UUID} {eventId id : UUID} :
    id ∈ acknowledged unfinished eventId ↔ id ∈ unfinished ∧ id ≠ eventId := by
  simp [acknowledged]

theorem get?_claimBatch_cases {t : OutboxTable P} (now : Instant) (batchSize : Nat)
    (locked : UUID → Bool) {k : UUID} {r : OutboxRow P} (h : t.get? k = some r) :
    ∃ r', (OutboxConsumer.claimBatch t now batchSize locked).1.get? k = some r' ∧
      ((k ∈ (OutboxConsumer.selectRows t batchSize locked).map OutboxRow.eventId ∧
          r'.status = .processing) ∨
        (k ∉ (OutboxConsumer.selectRows t batchSize locked).map OutboxRow.eventId ∧ r' = r)) := by
  rw [get?_claimBatch, h, Option.map_some]
  refine ⟨_, rfl, ?_⟩
  obtain ⟨hmem, rfl⟩ := t.get?_some_iff.mp h
  by_cases hsel : r.eventId ∈ (OutboxConsumer.selectRows t batchSize locked).map OutboxRow.eventId
  · exact Or.inl ⟨hsel, by simp only [OutboxConsumer.processRow, if_pos hsel]⟩
  · exact Or.inr ⟨hsel, by simp only [OutboxConsumer.processRow, if_neg hsel]⟩

theorem ConsumerInv.fresh {s : ConsumerState P} (h : ConsumerInv s) {event : OutboxEvent P}
    {t : OutboxTable P} (hins : s.table.insert? (rowOfEvent event) = some t) :
    event.eventId ∉ s.completed := by
  obtain ⟨hnew, _⟩ := KeyedTable.insert?_some_iff.mp hins
  have hnone : s.table.get? event.eventId = none := s.table.get?_none_iff.mpr hnew
  intro hmem
  have hpresent := h.present _ hmem
  rw [hnone] at hpresent
  cases hpresent

theorem ConsumerInv.add {s : ConsumerState P} (h : ConsumerInv s) {event : OutboxEvent P}
    {t : OutboxTable P} (hins : s.table.insert? (rowOfEvent event) = some t) :
    ConsumerInv { s with
      table := t
      completed := if event.status = .completed then event.eventId :: s.completed
        else s.completed } := by
  have hget : ∀ k, t.get? k = if k = event.eventId then some (rowOfEvent event)
      else s.table.get? k := KeyedTable.get?_insert? hins
  have hfresh := h.fresh hins
  refine ⟨?_, ?_, ?_⟩
  · intro k hk
    obtain ⟨r, hr, hstatus⟩ := h.unfinished k hk
    exact ⟨r, KeyedTable.get?_of_insert? hins hr, hstatus⟩
  · intro k r hr
    rw [hget] at hr
    by_cases hk : k = event.eventId
    · rw [if_pos hk] at hr
      obtain rfl := Option.some.inj hr
      subst hk
      by_cases hdone : event.status = .completed
      · simp [rowOfEvent, hdone, OutboxEventStatus.value]
      · simp [rowOfEvent, hdone, value_eq_completed_iff, hfresh]
    · rw [if_neg hk] at hr
      have hold := h.completed k r hr
      split
      · simpa [hk] using hold
      · exact hold
  · intro k hk
    by_cases hkey : k = event.eventId
    · rw [hget, if_pos hkey]
      rfl
    · have hmem : k ∈ s.completed := by
        split at hk
        · simpa [hkey] using hk
        · exact hk
      rw [hget, if_neg hkey]
      exact h.present k hmem

theorem ConsumerInv.claimBatch {s : ConsumerState P} (h : ConsumerInv s) (now : Instant)
    (batchSize : Nat) (locked : UUID → Bool) :
    ConsumerInv (consumerStep s (.claimBatch now batchSize locked)) := by
  refine ⟨?_, ?_, ?_⟩
  · intro k hk
    rcases List.mem_append.mp hk with hk | hk
    · obtain ⟨x, hx, rfl⟩ := List.mem_map.mp hk
      obtain ⟨r', hr', ⟨_, hstatus⟩ | ⟨hnot, _⟩⟩ := get?_claimBatch_cases now batchSize locked
        (s.table.mem_rows_iff.mp (OutboxConsumer.mem_selectRows hx).1)
      · exact ⟨r', hr', hstatus⟩
      · exact absurd hk hnot
    · obtain ⟨r, hr, hstatus⟩ := h.unfinished k hk
      obtain ⟨r', hr', ⟨_, hstatus'⟩ | ⟨_, rfl⟩⟩ :=
        get?_claimBatch_cases now batchSize locked hr
      · exact ⟨r', hr', hstatus'⟩
      · exact ⟨r', hr', hstatus⟩
  · intro k r hr
    obtain ⟨r₀, hr₀, _⟩ := Option.map_eq_some_iff.mp ((get?_claimBatch _ _ _ _ k).symm.trans hr)
    obtain ⟨r', hr', hcases⟩ := get?_claimBatch_cases now batchSize locked hr₀
    obtain rfl := Option.some.inj (hr.symm.trans hr')
    rcases hcases with ⟨_, hstatus⟩ | ⟨_, rfl⟩
    · simp [hstatus]
    · exact h.completed k r hr₀
  · intro k hk
    have hpresent := h.present k hk
    rw [consumerStep, get?_claimBatch, Option.isSome_map]
    exact hpresent

theorem ConsumerInv.markCompleted {s : ConsumerState P} (h : ConsumerInv s) (eventId : UUID)
    (now : Instant) : ConsumerInv (consumerStep s (.markCompleted eventId now)) := by
  refine ⟨?_, ?_, ?_⟩
  · intro k hk
    obtain ⟨hk, hne⟩ := mem_acknowledged.mp hk
    obtain ⟨r, hr, hstatus⟩ := h.unfinished k hk
    refine ⟨r, ?_, hstatus⟩
    rw [consumerStep, get?_markCompleted, if_neg hne]
    exact hr
  · intro k r hr
    simp only [consumerStep, get?_markCompleted] at hr ⊢
    by_cases hk : k = eventId
    · rw [if_pos hk, Option.map_eq_some_iff] at hr
      obtain ⟨r₀, hr₀, rfl⟩ := hr
      subst hk
      simp [hr₀, OutboxConsumer.completeRow]
    · rw [if_neg hk] at hr
      have hold := h.completed k r hr
      split
      · simpa [hk] using hold
      · exact hold
  · intro k hk
    simp only [consumerStep, get?_markCompleted] at hk ⊢
    have hpresent : (s.table.get? k).isSome := by
      split at hk
      · rename_i hsome
        rcases List.mem_cons.mp hk with rfl | hk
        · exact hsome
        · exact h.present k hk
      · exact h.present k hk
    split
    · simpa using hpresent
    · exact hpresent

theorem ConsumerInv.markFailed {s : ConsumerState P} (h : ConsumerInv s) (eventId : UUID)
    (error : List Char) : ConsumerInv (consumerStep s (.markFailed eventId error)) := by
  cases hfailed : OutboxConsumer.markFailed s.table eventId error with
  | error e => simpa only [consumerStep, hfailed] using h
  | ok t =>
    simp only [consumerStep, hfailed]
    refine ⟨?_, ?_, ?_⟩
    · intro k hk
      obtain ⟨hk, hne⟩ := mem_acknowledged.mp hk
      obtain ⟨r, hr, hstatus⟩ := h.unfinished k hk
      refine ⟨r, ?_, hstatus⟩
      rw [get?_markFailed hfailed, if_neg hne]
      exact hr
    · intro k r hr
      simp only [get?_markFailed hfailed] at hr
      split at hr
      · obtain ⟨r₀, _, rfl⟩ := Option.map_eq_some_iff.mp hr
        simp [OutboxConsumer.failRow]
      · exact h.completed k r hr
    · intro k hk
      simp only [get?_markFailed hfailed]
      split
      · simpa using h.present k hk
      · exact h.present k hk

theorem ConsumerInv.step {s : ConsumerState P} (h : ConsumerInv s) (a : ConsumerAction P) :
    ConsumerInv (consumerStep s a) := by
  cases a with
  | add event =>
    simp only [consumerStep]
    split
    · exact h
    · rename_i hadd
      exact h.add (add_ok_iff.mp hadd)
  | claimBatch now batchSize locked => exact h.claimBatch now batchSize locked
  | markCompleted eventId now => exact h.markCompleted eventId now
  | markFailed eventId error => exact h.markFailed eventId error

/-! ## When the table is one of the state machine -/

/-- No row is processing, and no event that was completed is pending. -/
def Clean (s : ConsumerState P) : Prop :=
  ∀ k r, s.table.get? k = some r →
    r.status ≠ .processing ∧ (k ∈ s.completed → r.status ≠ .pending)

theorem refinesOutbox_iff {s : ConsumerState P} (h : ConsumerInv s) :
    RefinesOutbox s ↔ Clean s := by
  constructor
  · intro hrefines k r hr
    refine ⟨?_, fun hk => hrefines.stays_completed k hk r hr⟩
    obtain ⟨status, hstatus⟩ := hrefines.statuses r (s.table.get?_some_iff.mp hr).1
    rw [hstatus]
    cases status <;> simp [OutboxEventStatus.value]
  · intro hclean
    have hknown : ∀ r ∈ s.table.rows, (OutboxEventStatus.ofText? r.status).isSome := by
      intro r hr
      have hne := (hclean _ r (s.table.mem_rows_iff.mp hr)).1
      cases hstatus : r.status with
      | processing => exact absurd hstatus hne
      | pending | claimed | completed | failed => rfl
    refine ⟨?_, ?_, ?_, fun k hk r hr => (hclean k r hr).2 hk⟩
    · exact fun r hr => OutboxEventStatus.ofText?_isSome_iff.mp (hknown r hr)
    · intro r hr
      simp [OutboxConsumer.sqlToEvent, toDomain, hknown r hr]
    · intro k hk r hr
      obtain ⟨r', hr', hstatus⟩ := h.unfinished k hk
      exact absurd hstatus (hclean k r' hr').1

theorem clean_claimBatch_iff {s : ConsumerState P} (hclean : Clean s) (now : Instant)
    (batchSize : Nat) (locked : UUID → Bool) :
    Clean (consumerStep s (.claimBatch now batchSize locked)) ↔
      OutboxConsumer.selectRows s.table batchSize locked = [] := by
  constructor
  · intro hafter
    by_contra hne
    obtain ⟨x, hx⟩ := List.exists_mem_of_ne_nil _ hne
    obtain ⟨r', hr', ⟨_, hstatus⟩ | ⟨hnot, _⟩⟩ := get?_claimBatch_cases now batchSize locked
      (s.table.mem_rows_iff.mp (OutboxConsumer.mem_selectRows hx).1)
    · exact (hafter _ r' hr').1 hstatus
    · exact hnot (List.mem_map_of_mem hx)
  · intro hnone k r hr
    simp only [consumerStep, OutboxConsumer.claimBatch, hnone, if_true] at hr ⊢
    exact hclean k r hr

/-- Of a clean table a completed event is completed still, so a failure reported for
it is what makes it pending. -/
theorem clean_markFailed_iff {s : ConsumerState P} (h : ConsumerInv s) (hclean : Clean s)
    (eventId : UUID) (error : List Char) :
    Clean (consumerStep s (.markFailed eventId error)) ↔
      (Storable error → ∀ r, s.table.get? eventId = some r → r.status ≠ .completed) := by
  constructor
  · intro hafter herror r hr hdone
    obtain ⟨t, ht⟩ : ∃ t, OutboxConsumer.markFailed s.table eventId error = .ok t := by
      have hok := (markFailed_isOk hr).mpr herror
      cases hfailed : OutboxConsumer.markFailed s.table eventId error with
      | error e =>
        rw [hfailed] at hok
        cases hok
      | ok t => exact ⟨t, rfl⟩
    simp only [consumerStep, ht] at hafter
    have hget : t.get? eventId = some (OutboxConsumer.failRow error r) := by
      rw [get?_markFailed ht, if_pos rfl, hr, Option.map_some]
    exact (hafter eventId _ hget).2 ((h.completed eventId r hr).1 hdone) rfl
  · intro hopen
    cases hfailed : OutboxConsumer.markFailed s.table eventId error with
    | error e => simpa only [consumerStep, hfailed] using hclean
    | ok t =>
      simp only [consumerStep, hfailed]
      intro k r hr
      rw [get?_markFailed hfailed] at hr
      split at hr
      · rename_i hk
        subst hk
        obtain ⟨r₀, hr₀, rfl⟩ := Option.map_eq_some_iff.mp hr
        have herror := (markFailed_isOk hr₀).mp (by rw [hfailed]; rfl)
        refine ⟨by simp [OutboxConsumer.failRow], fun hmem => ?_⟩
        obtain ⟨hprocessing, hpending⟩ := hclean k r₀ hr₀
        rcases (h.completed k r₀ hr₀).2 hmem with hstatus | hstatus | hstatus
        · exact absurd hstatus (hopen herror r₀ hr₀)
        · exact absurd hstatus (hpending hmem)
        · exact absurd hstatus hprocessing
      · exact hclean k r hr

theorem clean_markCompleted {s : ConsumerState P} (hclean : Clean s) (eventId : UUID)
    (now : Instant) : Clean (consumerStep s (.markCompleted eventId now)) := by
  intro k r hr
  simp only [consumerStep, get?_markCompleted] at hr ⊢
  split at hr
  · obtain ⟨r₀, _, rfl⟩ := Option.map_eq_some_iff.mp hr
    simp [OutboxConsumer.completeRow]
  · rename_i hk
    refine ⟨(hclean k r hr).1, fun hmem => (hclean k r hr).2 ?_⟩
    split at hmem
    · simpa [hk] using hmem
    · exact hmem

theorem clean_add {s : ConsumerState P} (h : ConsumerInv s) (hclean : Clean s)
    (event : OutboxEvent P) : Clean (consumerStep s (.add event)) := by
  simp only [consumerStep]
  split
  · exact hclean
  · rename_i t hadd
    have hins := add_ok_iff.mp hadd
    intro k r hr
    have hget : t.get? k = if k = event.eventId then some (rowOfEvent event)
        else s.table.get? k := KeyedTable.get?_insert? hins k
    rw [hget] at hr
    split at hr
    · rename_i hk
      obtain rfl := Option.some.inj hr
      have hvalue : (rowOfEvent event).status ≠ .processing := by
        cases hstatus : event.status <;> simp [rowOfEvent, hstatus, OutboxEventStatus.value]
      refine ⟨hvalue, fun hmem hpending => ?_⟩
      split at hmem
      · rename_i hdone
        simp [rowOfEvent, hdone, OutboxEventStatus.value] at hpending
      · exact h.fresh hins (hk ▸ hmem)
    · rename_i hk
      refine ⟨(hclean k r hr).1, fun hmem => (hclean k r hr).2 ?_⟩
      split at hmem
      · simpa [hk] using hmem
      · exact hmem

theorem clean_step_iff {s : ConsumerState P} (h : ConsumerInv s) (hclean : Clean s)
    (a : ConsumerAction P) : Clean (consumerStep s a) ↔ Harmless s a := by
  cases a with
  | add event => exact iff_of_true (clean_add h hclean event) trivial
  | claimBatch now batchSize locked => exact clean_claimBatch_iff hclean now batchSize locked
  | markCompleted eventId now => exact iff_of_true (clean_markCompleted hclean eventId now) trivial
  | markFailed eventId error => exact clean_markFailed_iff h hclean eventId error

/-- The table refines the state machine throughout a run exactly when no claim of the run
takes a row and no failure of it is reported for a completed event. -/
theorem refinesOutbox_throughout_iff (actions : List (ConsumerAction P)) :
    (∀ t ∈ (consumerSystem P).states (consumerSystem P).start actions, RefinesOutbox t) ↔
      (consumerSystem P).Along Harmless (consumerSystem P).start actions := by
  have hclean : Clean (consumerSystem P).start := fun k r hr => by cases hr
  refine (consumerSystem P).holds_throughout_iff (I := ConsumerInv) ?_ (fun s a => ⟨_, rfl⟩) ?_
    actions consumerInv_start ((refinesOutbox_iff consumerInv_start).mpr hclean)
  · intro s a t hs hstep
    obtain rfl := Option.some.inj hstep
    exact hs.step a
  · intro s a t hs hrefines hstep
    obtain rfl := Option.some.inj hstep
    rw [refinesOutbox_iff (hs.step a)]
    exact clean_step_iff hs ((refinesOutbox_iff hs).mp hrefines) a

def pendingEvent : OutboxEvent Unit :=
  { eventId := 1, aggregateType := "document", aggregateId := 2, eventType := .documentParsed
    payload := (), createdAt := 0 }

/-- One event is added, and claimed by a consumer that is never heard of again. -/
def claimAndDie : List (ConsumerAction Unit) :=
  [.add pendingEvent, .claimBatch 5 10 fun _ => false]

theorem not_refinesOutbox_claimAndDie :
    ¬ ∀ actions : List (ConsumerAction Unit),
      ∀ t ∈ (consumerSystem Unit).states (consumerSystem Unit).start actions, RefinesOutbox t := by
  intro h
  have hrun : (consumerSystem Unit).run (consumerSystem Unit).start claimAndDie =
      some (claimAndDie.foldl consumerStep (consumerSystem Unit).start) := rfl
  have hrefines := h claimAndDie _ ((consumerSystem Unit).mem_states_of_run hrun)
  have hunfinished : (claimAndDie.foldl consumerStep (consumerSystem Unit).start).unfinished =
      [1] := by decide
  have hrow : ((claimAndDie.foldl consumerStep (consumerSystem Unit).start).table.get? 1).map
      OutboxRow.status = some .processing := by decide
  obtain ⟨r, hr, hstatus⟩ := Option.map_eq_some_iff.mp hrow
  exact not_claimable_processing hstatus (hrefines.reclaimable 1 (by rw [hunfinished]; simp) r hr)

end GroundGraph.Outbox
