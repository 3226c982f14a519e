import GroundGraph.Library.Correspondence
import GroundGraph.Library.Iteration
import GroundGraph.Outbox.Backoff
import GroundGraph.Worker.Durability
import Mathlib.Data.Finset.Card

/-! One worker left alone: the passes of the loop in `OutboxGraphWorker.start` while nobody else
acts and neither database fails. What went wrong before (leases of workers that are gone, events
that were put back) is in the state that the pass starts from.
-/

set_option autoImplicit false

namespace GroundGraph.Worker

open GroundGraph.Knowledge GroundGraph.Neo4j GroundGraph.Outbox

/-- The clock at each point of a pass, and the text of what is raised there. -/
structure Conditions where
  now : World → Instant
  error : World → List Char

/-- What the worker does next. The row that it acknowledges is read as it is. -/
def nextAction (env : Conditions) (w : Nat) (s : World) : Option Action :=
  match (s.workers w).stage with
  | .idle => none
  | .claimed _ => some (.project w (env.now s) (env.error s))
  | .projected _ _ => some (.commitGraph w .ok (env.error s))
  | .graphCommitted event =>
    some (.complete w (s.outbox.table.get? event.eventId) (env.now s) .ok (env.error s))
  | .failed event _ => some (.fail w (s.outbox.table.get? event.eventId) (env.now s) .ok)

def serveStep (co : Conversions) (env : Conditions) (w : Nat) (s : World) : Option World :=
  (nextAction env w s).bind (worldStep co s)

/-- A pass: the poll at a time, with nothing locked, and then the batch. What is raised on the
way carries one of the texts. -/
inductive Round (co : Conversions) (texts : Set (List Char)) (w : Nat) (now : Instant) :
    World → World → Prop
  | mk {s ticked polled t : World} {uuid4 : UuidSource} {env : Conditions}
      (htexts : ∀ u, env.error u ∈ texts)
      (htick : worldStep co s (.tick now) = some ticked)
      (hpoll : worldStep co ticked (.poll w now (fun _ => false) uuid4 .ok) = some polled)
      (hserve : Iteration.Reaches (serveStep co env w) polled t)
      (hend : serveStep co env w t = none) : Round co texts w now s t

inductive Rounds (co : Conversions) (texts : Set (List Char)) (w : Nat) (start : Instant) :
    Nat → World → World → Prop
  | zero (s : World) : Rounds co texts w start 0 s s
  | succ {n : Nat} {s m t : World} {now : Instant} (h : Rounds co texts w start n s m)
      (hnow : start ≤ now) (hround : Round co texts w now m t) : Rounds co texts w start (n + 1) s t

/-- The texts that `mark_failed` can record. -/
def recordable : Set (List Char) := {text | Storable (text.take 512)}

def projects (co : Conversions) (r : Event) : Bool :=
  (projectEvent co (.empty []) 0 r.eventType r.payload).isOk

theorem nonempty_recordable : recordable.Nonempty := ⟨[], by simp [recordable, Storable]⟩

section
variable {co : Conversions} {env : Conditions} {texts : Set (List Char)} {w : Nat} {s t : World}

/-! ## Whether an event is read -/

theorem observedAtOfPayload_isSome (co : Conversions) (payload : JsonObject) (now now' : Instant) :
    (observedAtOfPayload co payload now).isSome = (observedAtOfPayload co payload now').isSome := by
  cases hcarries : carriesObservedAt payload with
  | true => rw [observedAtOfPayload_of_carries hcarries now now']
  | false =>
    rw [observedAtOfPayload_of_not_carries hcarries, observedAtOfPayload_of_not_carries hcarries]
    rfl

theorem factOfPayload_isOk (co : Conversions) (payload : JsonObject) (now now' : Instant) :
    (factOfPayload co payload now).isOk = (factOfPayload co payload now').isOk := by
  have hseen := observedAtOfPayload_isSome co payload now now'
  unfold factOfPayload
  cases factFieldsOfPayload co payload with
  | error e => rfl
  | ok fields =>
    cases hnow : observedAtOfPayload co payload now with
    | none =>
      rw [hnow] at hseen
      have hlater : observedAtOfPayload co payload now' = none :=
        Option.not_isSome_iff_eq_none.mp (by simp [← hseen])
      rw [hlater]
    | some a =>
      rw [hnow] at hseen
      obtain ⟨b, hb⟩ := Option.isSome_iff_exists.mp hseen.symm
      rw [hb]
      rfl

/-- Neither the graph nor the clock decides whether a projection raises. -/
theorem projectEvent_isOk (co : Conversions) (g : Graph) (now : Instant) (r : Event) :
    (projectEvent co g now r.eventType r.payload).isOk = projects co r := by
  unfold projects projectEvent
  cases r.eventType with
  | documentParsed | chunksCreated => rfl
  | entityMentioned => cases mentionOfPayload co r.payload <;> rfl
  | entityResolved => cases entityOfPayload co r.payload <;> rfl
  | factCandidate =>
    have hread := factOfPayload_isOk co r.payload now 0
    revert hread
    simp only
    cases factOfPayload co r.payload now with
    | error e => cases factOfPayload co r.payload 0 with
      | error e' => exact fun _ => rfl
      | ok f => exact fun h => by cases h
    | ok f => cases factOfPayload co r.payload 0 with
      | error e' => exact fun h => by cases h
      | ok f' => exact fun _ => rfl

theorem projectEvent_cases (g : Graph) (now : Instant) (r : Event) :
    (projects co r = true ∧ ∃ write, projectEvent co g now r.eventType r.payload = .ok write) ∨
      projects co r = false ∧ ∃ e, projectEvent co g now r.eventType r.payload = .error e := by
  rw [← projectEvent_isOk co g now r]
  cases projectEvent co g now r.eventType r.payload with
  | error e => exact Or.inr ⟨rfl, e, rfl⟩
  | ok write => exact Or.inl ⟨rfl, write, rfl⟩

structure Held (table : OutboxTable JsonObject) (e : Event) : Prop where
  stored : table.get? e.eventId = some e
  claimed : e.status = .claimed
  token : ∃ token, e.claimToken = some token

inductive Handled (co : Conversions) (e : Event) : Event → Prop
  | completed (h : projects co e = true) (now : Instant) : Handled co e (completeRow now e)
  | putBack (h : projects co e = false) (now : Instant) (error : List Char) :
      Handled co e (failRow now (backoffDelay e.attempts) error e)

def ProjectionCommit.action (c : ProjectionCommit) : GraphAction :=
  .project c.eventType c.payload c.now

/-- The events of the list are handled, the others left alone, and what was committed has been
projected one after the other. -/
structure Served (co : Conversions) (events : List Event) (s t : World) : Prop where
  handled : ∀ e ∈ events, ∃ r, t.outbox.table.get? e.eventId = some r ∧ Handled co e r
  others : ∀ k, k ∉ events.map OutboxRow.eventId →
    t.outbox.table.get? k = s.outbox.table.get? k
  commits : ∃ done : List ProjectionCommit, t.commits = done.reverse ++ s.commits ∧
    done.map ProjectionCommit.eventId = (events.filter (projects co)).map OutboxRow.eventId ∧
      (graphSystem co []).run s.graph (done.map ProjectionCommit.action) = some t.graph

def acknowledged (o : LeaseState JsonObject) (eventId token : UUID) (f : Event → Event)
    (hf : ∀ r, (f r).eventId = r.eventId) : LeaseState JsonObject :=
  { o with table := o.table.modifyAt eventId f hf, returned := token :: o.returned }

theorem completeEvent_of_held {o : LeaseState JsonObject} {e : Event} (h : Held o.table e)
    (now : Instant) : ∃ token, completeEvent o (o.table.get? e.eventId) e now =
      some (acknowledged o e.eventId token (completeRow now) (completeRow_eventId now)) := by
  obtain ⟨token, htoken⟩ := h.token
  have hholds : holdsClaim token e = true := by simp [holdsClaim, h.claimed, htoken]
  have hupdate : o.table.updateWhere e.eventId (holdsClaim token) (completeRow now)
      (completeRow_eventId now) = some _ :=
    KeyedTable.updateWhere_some_iff.mpr ⟨e, h.stored, hholds, rfl⟩
  have hdone : markCompleted o.table (some e) e.eventId token now =
      .ok (o.table.modifyAt e.eventId (completeRow now) (completeRow_eventId now)) := by
    unfold markCompleted
    rw [checkClaim_of_claimed h.claimed htoken]
    simp only [bind, Except.bind, hupdate]
    rfl
  refine ⟨token, ?_⟩
  simp [completeEvent, htoken, h.stored, hdone, acknowledged]

theorem failEvent_of_held {o : LeaseState JsonObject} {e : Event} (h : Held o.table e)
    (hattempts : e.attempts < 1023) {error : List Char} (herror : error ∈ recordable)
    (now : Instant) : ∃ token, failEvent o (o.table.get? e.eventId) e error now =
      some (acknowledged o e.eventId token (failRow now (backoffDelay e.attempts) error)
        (failRow_eventId now (backoffDelay e.attempts) error)) := by
  obtain ⟨token, htoken⟩ := h.token
  have hfailed := markFailed_of_attempts h.stored h.claimed htoken hattempts herror now
  refine ⟨token, ?_⟩
  simp [failEvent, htoken, h.stored, hfailed, acknowledged]

/-- From 1023 attempts on the event cannot be put back. -/
theorem failEvent_of_exhausted {o : LeaseState JsonObject} {e : Event} (h : Held o.table e)
    (hattempts : 1023 ≤ e.attempts) (error : List Char) (now : Instant) :
    failEvent o (o.table.get? e.eventId) e error now = none := by
  obtain ⟨token, htoken⟩ := h.token
  have hraised : markFailed o.table (some e) e.eventId token error now = .error .overflow :=
    markFailed_of_exhausted h.claimed htoken hattempts now
  simp [failEvent, htoken, h.stored, hraised]

theorem workers_setWorker (s : World) (w : Nat) (st : WorkerState) :
    (s.setWorker w st).workers w = st := by
  simp [World.setWorker]

theorem serveStep_idle (h : (s.workers w).stage = .idle) : serveStep co env w s = none := by
  simp [serveStep, nextAction, h]

theorem serveStep_claimed {e : Event} (h : (s.workers w).stage = .claimed e) :
    serveStep co env w s = project co s w (env.now s) (env.error s) := by
  simp [serveStep, nextAction, h, worldStep]

theorem serveStep_projected {e : Event} {c : ProjectionCommit}
    (h : (s.workers w).stage = .projected e c) : serveStep co env w s = some
      ({ s with graph := c.write.apply s.graph, commits := c :: s.commits }.setWorker w
        ⟨.graphCommitted e, (s.workers w).queue⟩) := by
  simp [serveStep, nextAction, h, worldStep, commitGraph]

theorem serveStep_graphCommitted {e : Event} (h : (s.workers w).stage = .graphCommitted e) :
    serveStep co env w s = complete s w (s.outbox.table.get? e.eventId) (env.now s) .ok
      (env.error s) := by
  simp [serveStep, nextAction, h, worldStep]

theorem serveStep_failed {e : Event} {error : List Char}
    (h : (s.workers w).stage = .failed e error) :
    serveStep co env w s = fail s w (s.outbox.table.get? e.eventId) (env.now s) .ok := by
  simp [serveStep, nextAction, h, worldStep]

theorem serve_projecting {e : Event} {queue : List Event}
    (hworker : s.workers w = ⟨.claimed e, queue⟩) (hheld : Held s.outbox.table e)
    (hprojects : projects co e = true) :
    ∃ t, Iteration.Reaches (serveStep co env w) s t ∧ t.workers w = takeNext queue ∧
      Served co [e] s t := by
  obtain ⟨_, write, hwrite⟩ | ⟨hnot, _⟩ := projectEvent_cases  s.graph (env.now s) e
  swap
  · rw [hprojects] at hnot
    cases hnot
  let c : ProjectionCommit :=
    ⟨e.eventId, e.eventType, e.payload, env.now s, s.commits.length, write⟩
  let projected := s.setWorker w ⟨.projected e c, queue⟩
  let committed := { projected with
    graph := write.apply s.graph, commits := c :: s.commits }.setWorker w
      ⟨.graphCommitted e, queue⟩
  have hproject : serveStep co env w s = some projected := by
    rw [serveStep_claimed (by rw [hworker])]
    simp [project, hworker, hwrite, projected, c]
  have hcommit : serveStep co env w projected = some committed := by
    have hstage : projected.workers w = ⟨.projected e c, queue⟩ := workers_setWorker _ _ _
    rw [serveStep_projected (by rw [hstage]), hstage]
    rfl
  obtain ⟨token, hdone⟩ := completeEvent_of_held (o := committed.outbox) hheld (env.now committed)
  let outbox := acknowledged committed.outbox e.eventId token (completeRow (env.now committed))
    (completeRow_eventId _)
  have hcomplete : serveStep co env w committed =
      some ({ committed with outbox := outbox }.setWorker w (takeNext queue)) := by
    have hstage : committed.workers w = ⟨.graphCommitted e, queue⟩ := workers_setWorker _ _ _
    rw [serveStep_graphCommitted (by rw [hstage])]
    simp only [complete, hstage, hdone, outbox]
  refine ⟨_, ((Iteration.Reaches.refl.tail hproject).tail hcommit).tail hcomplete,
    workers_setWorker _ _ _, ?_, ?_, [c], rfl, ?_, ?_⟩
  · intro e' he'
    obtain rfl := List.mem_singleton.mp he'
    refine ⟨completeRow (env.now committed) e', ?_, .completed hprojects _⟩
    simp only [World.setWorker, acknowledged, outbox]
    rw [KeyedTable.get?_modifyAt, if_pos rfl]
    exact congrArg (Option.map _) hheld.stored
  · intro k hk
    simp only [World.setWorker, acknowledged, outbox]
    rw [KeyedTable.get?_modifyAt, if_neg (by simpa using hk)]
    rfl
  · simp [hprojects, c]
  · refine (graphSystem co []).run_single ?_
    simp only [graphSystem, graphStep, ProjectionCommit.action, c, hwrite]
    rfl

theorem serve_failing {e : Event} {queue : List Event}
    (hworker : s.workers w = ⟨.claimed e, queue⟩) (hheld : Held s.outbox.table e)
    (hprojects : projects co e = false) (hattempts : e.attempts < 1023)
    (htexts : ∀ u, env.error u ∈ recordable) :
    ∃ t, Iteration.Reaches (serveStep co env w) s t ∧ t.workers w = takeNext queue ∧
      Served co [e] s t := by
  obtain ⟨hyes, _⟩ | ⟨_, error, herror⟩ := projectEvent_cases  s.graph (env.now s) e
  · rw [hprojects] at hyes
    cases hyes
  let failed := s.setWorker w ⟨.failed e (env.error s), queue⟩
  have hproject : serveStep co env w s = some failed := by
    rw [serveStep_claimed (by rw [hworker])]
    simp [project, hworker, herror, failed]
  obtain ⟨token, hback⟩ := failEvent_of_held (o := failed.outbox) hheld hattempts (htexts s)
    (env.now failed)
  let outbox := acknowledged failed.outbox e.eventId token
    (failRow (env.now failed) (backoffDelay e.attempts) (env.error s)) (failRow_eventId _ _ _)
  have hfail : serveStep co env w failed =
      some ({ failed with outbox := outbox }.setWorker w (takeNext queue)) := by
    have hstage : failed.workers w = ⟨.failed e (env.error s), queue⟩ := workers_setWorker _ _ _
    rw [serveStep_failed (by rw [hstage])]
    simp only [fail, hstage, hback, outbox]
  refine ⟨_, (Iteration.Reaches.refl.tail hproject).tail hfail, workers_setWorker _ _ _,
    ?_, ?_, [], rfl, ?_, rfl⟩
  · intro e' he'
    obtain rfl := List.mem_singleton.mp he'
    refine ⟨failRow (env.now failed) (backoffDelay e'.attempts) (env.error s) e', ?_,
      .putBack hprojects _ _⟩
    simp only [World.setWorker, acknowledged, outbox]
    rw [KeyedTable.get?_modifyAt, if_pos rfl]
    exact congrArg (Option.map _) hheld.stored
  · intro k hk
    simp only [World.setWorker, acknowledged, outbox]
    rw [KeyedTable.get?_modifyAt, if_neg (by simpa using hk)]
    rfl
  · simp [hprojects]

/-! ## A batch -/

theorem Served.trans {es es' : List Event} {m : World} (h : Served co es s m)
    (h' : Served co es' m t) (hnew : ∀ e ∈ es, e.eventId ∉ es'.map OutboxRow.eventId) :
    Served co (es ++ es') s t := by
  refine ⟨?_, ?_, ?_⟩
  · intro e he
    rcases List.mem_append.mp he with he | he
    · rw [h'.others _ (hnew e he)]
      exact h.handled e he
    · exact h'.handled e he
  · intro k hk
    simp only [List.map_append, List.mem_append, not_or] at hk
    rw [h'.others k hk.2, h.others k hk.1]
  · obtain ⟨done, hdone, hids, hrun⟩ := h.commits
    obtain ⟨done', hdone', hids', hrun'⟩ := h'.commits
    refine ⟨done ++ done', by simp [hdone, hdone'], by simp [hids, hids'], ?_⟩
    rw [List.map_append]
    exact (graphSystem co []).run_append_iff.mpr ⟨m.graph, hrun, hrun'⟩

theorem serve_queue {events : List Event} (hworker : s.workers w = takeNext events)
    (hheld : ∀ e ∈ events, Held s.outbox.table e)
    (hnodup : (events.map OutboxRow.eventId).Nodup)
    (hback : ∀ e ∈ events, projects co e = false →
      e.attempts < 1023 ∧ ∀ u, env.error u ∈ recordable) :
    ∃ t, Iteration.Reaches (serveStep co env w) s t ∧ t.workers w = idleWorker ∧
      Served co events s t := by
  induction events generalizing s with
  | nil =>
    exact ⟨s, .refl, hworker, by simp, fun _ _ => rfl, [], rfl, rfl, rfl⟩
  | cons e queue ih =>
    have hone : ∃ m, Iteration.Reaches (serveStep co env w) s m ∧
        m.workers w = takeNext queue ∧ Served co [e] s m := by
      have he := hheld e List.mem_cons_self
      cases hprojects : projects co e with
      | true => exact serve_projecting hworker he hprojects
      | false =>
        obtain ⟨hattempts, htexts⟩ := hback e List.mem_cons_self hprojects
        exact serve_failing hworker he hprojects hattempts htexts
    obtain ⟨m, hreach, hnext, hserved⟩ := hone
    obtain ⟨hnew, hrest⟩ := List.nodup_cons.mp hnodup
    have hkept : ∀ e' ∈ queue, Held m.outbox.table e' := by
      intro e' he'
      have hold := hheld e' (List.mem_cons_of_mem _ he')
      have hne : e'.eventId ∉ [e].map OutboxRow.eventId := by
        intro h
        exact hnew (List.mem_singleton.mp h ▸ List.mem_map_of_mem he')
      exact ⟨(hserved.others _ hne).trans hold.stored, hold.claimed, hold.token⟩
    obtain ⟨t, hreach', hidle, hserved'⟩ := ih hnext hkept hrest
      fun e' he' => hback e' (List.mem_cons_of_mem _ he')
    refine ⟨t, hreach.trans hreach', hidle, ?_⟩
    exact hserved.trans hserved' (by simpa using hnew)

theorem ends_of_step {m : World} (hstep : serveStep co env w s = some m)
    (h : ∃ t, Iteration.Reaches (serveStep co env w) m t ∧ (t.workers w).stage = .idle) :
    ∃ t, Iteration.Reaches (serveStep co env w) s t ∧ (t.workers w).stage = .idle := by
  obtain ⟨t, hreach, hidle⟩ := h
  exact ⟨t, hreach.head hstep, hidle⟩

theorem serve_ends_failed {e : Event} {error : List Char} {queue : List Event}
    (hworker : s.workers w = ⟨.failed e error, queue⟩)
    (hqueue : ∀ m : World, m.workers w = takeNext queue →
      ∃ t, Iteration.Reaches (serveStep co env w) m t ∧ (t.workers w).stage = .idle) :
    ∃ t, Iteration.Reaches (serveStep co env w) s t ∧ (t.workers w).stage = .idle := by
  have hstep : serveStep co env w s = _ := serveStep_failed (by rw [hworker])
  simp only [fail, hworker] at hstep
  split at hstep
  · exact ends_of_step hstep (hqueue _ (workers_setWorker _ _ _))
  · cases ‹CommitOutcome.ok = _›
  · cases ‹CommitOutcome.ok = _›
  · exact ends_of_step hstep ⟨_, .refl, by rw [workers_setWorker]; rfl⟩

theorem serve_ends_graphCommitted {e : Event} {queue : List Event}
    (hworker : s.workers w = ⟨.graphCommitted e, queue⟩)
    (hqueue : ∀ m : World, m.workers w = takeNext queue →
      ∃ t, Iteration.Reaches (serveStep co env w) m t ∧ (t.workers w).stage = .idle) :
    ∃ t, Iteration.Reaches (serveStep co env w) s t ∧ (t.workers w).stage = .idle := by
  have hstep : serveStep co env w s = _ := serveStep_graphCommitted (by rw [hworker])
  simp only [complete, hworker] at hstep
  split at hstep
  · exact ends_of_step hstep (hqueue _ (workers_setWorker _ _ _))
  · cases ‹CommitOutcome.ok = _›
  · cases ‹CommitOutcome.ok = _›
  · exact ends_of_step hstep (serve_ends_failed (workers_setWorker _ _ _) hqueue)

theorem serve_ends (events : List Event) (s : World) (hworker : s.workers w = takeNext events) :
    ∃ t, Iteration.Reaches (serveStep co env w) s t ∧ (t.workers w).stage = .idle := by
  induction events generalizing s with
  | nil => exact ⟨s, .refl, by rw [hworker]; rfl⟩
  | cons e queue ih =>
    have hclaimed : serveStep co env w s = _ := serveStep_claimed (e := e) (by rw [hworker]; rfl)
    simp only [project, hworker, takeNext] at hclaimed
    split at hclaimed
    · rename_i write _
      let c : ProjectionCommit :=
        ⟨e.eventId, e.eventType, e.payload, env.now s, s.commits.length, write⟩
      let projected := s.setWorker w ⟨.projected e c, queue⟩
      have hstage : projected.workers w = ⟨.projected e c, queue⟩ := workers_setWorker _ _ _
      have hcommit : serveStep co env w projected = _ :=
        serveStep_projected (e := e) (c := c) (by rw [hstage])
      refine ends_of_step hclaimed (ends_of_step hcommit ?_)
      refine serve_ends_graphCommitted (e := e) ?_ ih
      rw [workers_setWorker, hstage]
    · exact ends_of_step hclaimed (serve_ends_failed (workers_setWorker _ _ _) ih)

/-! ## A pass -/

def selected (table : OutboxTable JsonObject) (now : Instant) : List Event :=
  selectRows table now batchSize fun _ => false

def ClaimedFrom (now : Instant) (r e : Event) : Prop :=
  ∃ token, e = claimRow now workerId leaseDurationSeconds token r

theorem ClaimedFrom.eventId {now : Instant} {r e : Event} (h : ClaimedFrom now r e) :
    e.eventId = r.eventId := by
  obtain ⟨token, rfl⟩ := h
  rfl

theorem ClaimedFrom.projects {now : Instant} {r e : Event} (h : ClaimedFrom now r e) :
    Worker.projects co e = Worker.projects co r := by
  obtain ⟨token, rfl⟩ := h
  rfl

theorem ClaimedFrom.ids {now : Instant} {rows events : List Event}
    (h : List.Forall₂ (ClaimedFrom now) rows events) :
    events.map OutboxRow.eventId = rows.map OutboxRow.eventId :=
  Correspondence.map_eq h fun _ _ _ hclaimed => hclaimed.eventId

theorem ClaimedFrom.projected_ids {now : Instant} {rows events : List Event}
    (h : List.Forall₂ (ClaimedFrom now) rows events) :
    (events.filter (Worker.projects co)).map OutboxRow.eventId =
      (rows.filter (Worker.projects co)).map OutboxRow.eventId :=
  Correspondence.filter_map_eq h (fun _ _ hclaimed => hclaimed.projects)
    fun _ _ hclaimed => hclaimed.eventId

/-- After a poll: the rows that were selected are held, the others are as they were. -/
structure Polled (w : Nat) (now : Instant) (s t : World) (events : List Event) : Prop where
  worker : t.workers w = takeNext events
  claimed : List.Forall₂ (ClaimedFrom now) (selected s.outbox.table now) events
  held : ∀ e ∈ events, Held t.outbox.table e
  others : ∀ k, k ∉ events.map OutboxRow.eventId →
    t.outbox.table.get? k = s.outbox.table.get? k
  graph : t.graph = s.graph
  commits : t.commits = s.commits
  clock : t.outbox.clock = s.outbox.clock
  leases : ∃ granted : List Lease, t.outbox.leases = granted.reverse ++ s.outbox.leases ∧
    granted.map Lease.eventId = events.map OutboxRow.eventId

theorem claimed_zip (now : Instant) (rows : List Event) (tokens : List UUID)
    (hlen : tokens.length = rows.length) : List.Forall₂ (ClaimedFrom now) rows
      ((rows.zip tokens).map fun c => claimRow now workerId leaseDurationSeconds c.2 c.1) := by
  induction rows generalizing tokens with
  | nil => exact .nil
  | cons r rows ih =>
    cases tokens with
    | nil => cases hlen
    | cons token tokens => exact .cons ⟨token, rfl⟩ (ih tokens (by simpa using hlen))

theorem poll_polled {now : Instant} {uuid4 : UuidSource} (hidle : (s.workers w).stage = .idle)
    (h : worldStep co s (.poll w now (fun _ => false) uuid4 .ok) = some t) :
    ∃ events, Polled w now s t events := by
  simp only [worldStep, poll, hidle, reduceCtorEq, if_false, leaseStep] at h
  split at h
  · cases h
  · rename_i o ho
    simp only [Option.ite_none_right_eq_some, Option.some.injEq] at ho
    obtain ⟨_, rfl⟩ := ho
    simp only [if_true, Option.some.injEq] at h
    obtain rfl := h
    have hdraws : (uuid4.draws (selected s.outbox.table now).length).length =
        (selected s.outbox.table now).length := by simp [UuidSource.draws]
    have hclaimed := claimed_zip now (selected s.outbox.table now) _ hdraws
    have hids := ClaimedFrom.ids hclaimed
    have hnodup : ((drawTokens (selected s.outbox.table now) uuid4).map Prod.fst).Nodup := by
      rw [drawTokens_fst]
      exact selectRows_nodup _ _ _ _
    refine ⟨_, workers_setWorker _ _ _, hclaimed, ?_, ?_, rfl, rfl, rfl, ?_⟩
    · intro e he
      obtain ⟨⟨r, token⟩, hzip, rfl⟩ := List.mem_map.mp he
      have hmem := (mem_selectRows (List.of_mem_zip hzip).1).1
      have hdrawn : (r.eventId, token) ∈ drawTokens (selected s.outbox.table now) uuid4 := by
        rw [drawTokens, List.zip_map_left]
        exact List.mem_map_of_mem hzip
      refine ⟨?_, rfl, token, rfl⟩
      simp only [World.setWorker, claimBatch]
      rw [claimRow_eventId]
      refine (get?_claimRows_of_mem _ _ _ _ hnodup hdrawn).trans ?_
      rw [s.outbox.table.mem_rows_iff.mp hmem, Option.map_some]
    · intro k hk
      simp only [World.setWorker, claimBatch]
      refine get?_claimRows_of_not_mem _ _ _ _ _ ?_
      rw [drawTokens_fst]
      change k ∉ (selected s.outbox.table now).map OutboxRow.eventId
      rw [← hids]
      exact hk
    · refine ⟨(drawTokens (selected s.outbox.table now) uuid4).map
        (leaseOf now leaseDurationSeconds), rfl, ?_⟩
      have hfst : Lease.eventId ∘ leaseOf now leaseDurationSeconds = Prod.fst := rfl
      rw [List.map_map, hfst, drawTokens_fst]
      exact hids.symm

structure Ticked (now : Instant) (s t : World) : Prop where
  forward : s.outbox.clock ≤ now
  clock : t.outbox.clock = now
  table : t.outbox.table = s.outbox.table
  leases : t.outbox.leases = s.outbox.leases
  graph : t.graph = s.graph
  workers : t.workers = s.workers
  commits : t.commits = s.commits

theorem tick_ticked {now : Instant} (h : worldStep co s (.tick now) = some t) :
    Ticked now s t := by
  obtain ⟨o, ho, rfl⟩ := Option.map_eq_some_iff.mp h
  simp only [leaseStep, Option.ite_none_right_eq_some, Option.some.injEq] at ho
  obtain ⟨hle, rfl⟩ := ho
  exact ⟨hle, rfl, rfl, rfl, rfl, rfl, rfl⟩

theorem idle_of_serveStep_none (h : serveStep co env w s = none) :
    (s.workers w).stage = .idle := by
  cases hstage : (s.workers w).stage with
  | idle => rfl
  | claimed e =>
    rw [serveStep_claimed hstage] at h
    simp only [project, hstage] at h
    split at h
    · cases h
    · cases h
  | projected e c =>
    rw [serveStep_projected hstage] at h
    cases h
  | graphCommitted e =>
    rw [serveStep_graphCommitted hstage] at h
    simp only [complete, hstage] at h
    split at h <;> cases h
  | failed e error =>
    rw [serveStep_failed hstage] at h
    simp only [fail, hstage] at h
    split at h <;> cases h

theorem Round.idle {now : Instant} (h : Round co texts w now s t) : (t.workers w).stage = .idle := by
  cases h with
  | mk _ _ _ _ hend => exact idle_of_serveStep_none hend

theorem completeEvent_leases {o o' : LeaseState JsonObject} {seen : Option Event} {e : Event}
    {now : Instant} (h : completeEvent o seen e now = some o') :
    o'.clock = o.clock ∧ o'.leases = o.leases := by
  unfold completeEvent at h
  split at h
  · cases h
  · split at h
    · obtain rfl := Option.some.inj h
      exact ⟨rfl, rfl⟩
    · cases h

theorem failEvent_leases {o o' : LeaseState JsonObject} {seen : Option Event} {e : Event}
    {error : List Char} {now : Instant} (h : failEvent o seen e error now = some o') :
    o'.clock = o.clock ∧ o'.leases = o.leases := by
  unfold failEvent at h
  split at h
  · cases h
  · split at h
    · obtain rfl := Option.some.inj h
      exact ⟨rfl, rfl⟩
    · cases h

theorem serveStep_leases (h : serveStep co env w s = some t) :
    t.outbox.clock = s.outbox.clock ∧ t.outbox.leases = s.outbox.leases := by
  cases hstage : (s.workers w).stage with
  | idle =>
    rw [serveStep_idle hstage] at h
    cases h
  | claimed e =>
    rw [serveStep_claimed hstage] at h
    simp only [project, hstage] at h
    split at h
    · obtain rfl := Option.some.inj h
      exact ⟨rfl, rfl⟩
    · obtain rfl := Option.some.inj h
      exact ⟨rfl, rfl⟩
  | projected e c =>
    rw [serveStep_projected hstage] at h
    obtain rfl := Option.some.inj h
    exact ⟨rfl, rfl⟩
  | graphCommitted e =>
    rw [serveStep_graphCommitted hstage] at h
    simp only [complete, hstage] at h
    split at h
    · obtain rfl := Option.some.inj h
      exact completeEvent_leases ‹_›
    · cases ‹CommitOutcome.ok = _›
    · cases ‹CommitOutcome.ok = _›
    · obtain rfl := Option.some.inj h
      exact ⟨rfl, rfl⟩
  | failed e error =>
    rw [serveStep_failed hstage] at h
    simp only [fail, hstage] at h
    split at h
    · obtain rfl := Option.some.inj h
      exact failEvent_leases ‹_›
    · cases ‹CommitOutcome.ok = _›
    · cases ‹CommitOutcome.ok = _›
    · obtain rfl := Option.some.inj h
      exact ⟨rfl, rfl⟩

/-- A pass leaves the clock where it polled, and grants leases for its batch. -/
theorem Round.leases {now : Instant} (h : Round co texts w now s t)
    (hidle : (s.workers w).stage = .idle) : t.outbox.clock = now ∧
      ∃ granted : List Lease, t.outbox.leases = granted.reverse ++ s.outbox.leases ∧
        granted.map Lease.eventId = (selected s.outbox.table now).map OutboxRow.eventId := by
  cases h with
  | @mk ticked polled _ _ env _ htick hpoll hserve _ =>
    have hticked := tick_ticked htick
    obtain ⟨events, hpolled⟩ := poll_polled (by rw [hticked.workers]; exact hidle) hpoll
    obtain ⟨hclock, hleases⟩ := hserve.preserves
      (fun u => u.outbox.clock = polled.outbox.clock ∧ u.outbox.leases = polled.outbox.leases)
      (fun u v hu huv => ⟨(serveStep_leases huv).1.trans hu.1, (serveStep_leases huv).2.trans hu.2⟩)
      ⟨rfl, rfl⟩
    refine ⟨hclock.trans (hpolled.clock.trans hticked.clock), ?_⟩
    obtain ⟨granted, hgranted, hids⟩ := hpolled.leases
    refine ⟨granted, ?_, ?_⟩
    · rw [hleases, hgranted, hticked.leases]
    · rw [hids, ClaimedFrom.ids hpolled.claimed, hticked.table]

theorem selected_length_le (table : OutboxTable JsonObject) (now : Instant) :
    (selected table now).length ≤ batchSize := by
  simp [selected, selectRows]

theorem Round.leases_length {now : Instant} (h : Round co texts w now s t)
    (hidle : (s.workers w).stage = .idle) :
    t.outbox.leases.length ≤ s.outbox.leases.length + batchSize := by
  obtain ⟨_, granted, hgranted, hids⟩ := h.leases hidle
  have hlength := congrArg List.length hids
  have hbatch := selected_length_le s.outbox.table now
  simp only [List.length_map] at hlength
  rw [hgranted, List.length_append, List.length_reverse]
  omega

/-- What a pass does to the outbox and to the graph when every event that does not project
can be put back. -/
structure Passed (co : Conversions) (now : Instant) (s t : World) : Prop where
  handled : ∀ r ∈ selected s.outbox.table now, ∃ e r', ClaimedFrom now r e ∧
    t.outbox.table.get? r.eventId = some r' ∧ Handled co e r'
  others : ∀ k, k ∉ (selected s.outbox.table now).map OutboxRow.eventId →
    t.outbox.table.get? k = s.outbox.table.get? k
  commits : ∃ done : List ProjectionCommit, t.commits = done.reverse ++ s.commits ∧
    done.map ProjectionCommit.eventId =
      ((selected s.outbox.table now).filter (projects co)).map OutboxRow.eventId ∧
        (graphSystem co []).run s.graph (done.map ProjectionCommit.action) = some t.graph
  leases : ∃ granted : List Lease, t.outbox.leases = granted.reverse ++ s.outbox.leases ∧
    granted.map Lease.eventId = (selected s.outbox.table now).map OutboxRow.eventId

theorem Round.passed {now : Instant} (h : Round co texts w now s t)
    (hidle : (s.workers w).stage = .idle)
    (hback : ∀ r ∈ selected s.outbox.table now, projects co r = false →
      r.attempts < 1022 ∧ texts ⊆ recordable) : Passed co now s t := by
  have hleases := (h.leases hidle).2
  cases h with
  | @mk ticked polled _ _ env htexts htick hpoll hserve hend =>
    have hticked := tick_ticked htick
    obtain ⟨events, hpolled⟩ := poll_polled (by rw [hticked.workers]; exact hidle) hpoll
    have hclaimed := hpolled.claimed
    rw [hticked.table] at hclaimed
    have hids := ClaimedFrom.ids hclaimed
    have hnodup : (events.map OutboxRow.eventId).Nodup := by
      rw [hids]
      exact selectRows_nodup _ _ _ _
    have hfew : ∀ e ∈ events, projects co e = false →
        e.attempts < 1023 ∧ ∀ u, env.error u ∈ recordable := by
      intro e he hnot
      obtain ⟨r, hr, hfrom⟩ := Correspondence.exists_left_of_mem hclaimed he
      obtain ⟨hold, hrecordable⟩ := hback r hr (hfrom.projects.symm.trans hnot)
      obtain ⟨token, rfl⟩ := hfrom
      exact ⟨Nat.succ_lt_succ hold, fun u => hrecordable (htexts u)⟩
    obtain ⟨e, hreach, hstop, hserved⟩ :=
      serve_queue hpolled.worker hpolled.held hnodup hfew
    have hstopped : serveStep co env w e = none := serveStep_idle (by rw [hstop]; rfl)
    obtain rfl := hserve.end_unique hend hreach hstopped
    refine ⟨?_, ?_, ?_, hleases⟩
    · intro r hr
      obtain ⟨e, he, hfrom⟩ := Correspondence.exists_right_of_mem hclaimed hr
      obtain ⟨r', hr', hhandled⟩ := hserved.handled e he
      rw [hfrom.eventId] at hr'
      exact ⟨e, r', hfrom, hr', hhandled⟩
    · intro k hk
      rw [← hids] at hk
      rw [hserved.others k hk, hpolled.others k hk, hticked.table]
    · obtain ⟨done, hdone, hdoneIds, hrun⟩ := hserved.commits
      rw [hpolled.commits, hticked.commits] at hdone
      rw [hpolled.graph, hticked.graph] at hrun
      exact ⟨done, hdone, hdoneIds.trans (ClaimedFrom.projected_ids hclaimed), hrun⟩

/-- A pass is never cut short: all it needs is tokens for what it selects. -/
theorem exists_round (htexts : texts.Nonempty) {now : Instant} {uuid4 : UuidSource}
    (hidle : (s.workers w).stage = .idle) (hclock : s.outbox.clock ≤ now)
    (hfresh : FreshTokens s.outbox uuid4 (selected s.outbox.table now).length) :
    ∃ t, Round co texts w now s t := by
  obtain ⟨text, htext⟩ := htexts
  let env : Conditions := ⟨fun _ => now, fun _ => text⟩
  let ticked : World := { s with outbox := { s.outbox with clock := now } }
  have htick : worldStep co s (.tick now) = some ticked := by
    simp [worldStep, leaseStep, hclock, ticked]
  have htokens : now ≤ ticked.outbox.clock ∧ FreshTokens ticked.outbox uuid4
      (selectRows ticked.outbox.table now batchSize fun _ => false).length := ⟨le_rfl, hfresh⟩
  have hpoll : ∃ polled,
      worldStep co ticked (.poll w now (fun _ => false) uuid4 .ok) = some polled := by
    have hstage : (ticked.workers w).stage = .idle := hidle
    simp only [worldStep, poll, hstage, reduceCtorEq, if_false, leaseStep, if_pos htokens, if_true]
    exact ⟨_, rfl⟩
  obtain ⟨polled, hpolled⟩ := hpoll
  obtain ⟨events, hspec⟩ := poll_polled (s := ticked) hidle hpolled
  obtain ⟨t, hreach, hstop⟩ : ∃ t, Iteration.Reaches (serveStep co env w) polled t ∧
    (t.workers w).stage = .idle := serve_ends events polled hspec.worker
  exact ⟨t, .mk (fun _ => htext) htick hpolled hreach (serveStep_idle hstop)⟩

theorem run_of_serves {polled : World} (h : Iteration.Reaches (serveStep co env w) polled t)
    (chunks : List UUID) : ∃ as, (worldSystem co chunks).run polled as = some t := by
  induction h with
  | refl => exact ⟨[], rfl⟩
  | tail _ hstep ih =>
    obtain ⟨as, has⟩ := ih
    obtain ⟨a, _, ha⟩ := Option.bind_eq_some_iff.mp hstep
    exact ⟨as ++ [a], (worldSystem co chunks).run_append_iff.mpr
      ⟨_, has, (worldSystem co chunks).run_single ha⟩⟩

/-- As long as there are values for it, `uuid4()` can draw tokens that nobody has used. -/
theorem exists_freshTokens (o : LeaseState JsonObject) (n : Nat)
    (h : o.leases.length + n ≤ 2 ^ 128) : ∃ uuid4, FreshTokens o uuid4 n := by
  let used := (o.leases.map fun l => l.token.toNat).toFinset
  have hused : used.card ≤ o.leases.length :=
    (List.toFinset_card_le _).trans (by rw [List.length_map])
  have hfree : n ≤ (Finset.range (2 ^ 128) \ used).card := by
    have hle := Finset.le_card_sdiff used (Finset.range (2 ^ 128))
    rw [Finset.card_range] at hle
    omega
  obtain ⟨tokens, hsub, hcard⟩ := Finset.exists_subset_card_eq hfree
  let uuid4 : UuidSource := fun i => BitVec.ofNat 128 (tokens.toList.getD i 0)
  have hlen : tokens.toList.length = n := by rw [Finset.length_toList, hcard]
  have hdraws : uuid4.draws n = tokens.toList.map (BitVec.ofNat 128) := by
    refine List.ext_getElem (by simp [UuidSource.draws, hlen]) fun i hi hi' => ?_
    have hlt : i < tokens.toList.length := by simpa using hi'
    simp [UuidSource.draws, uuid4, List.getElem?_eq_getElem hlt]
  have hsmall : ∀ i ∈ tokens, i < 2 ^ 128 := fun i hi =>
    Finset.mem_range.mp (Finset.mem_sdiff.mp (hsub hi)).1
  refine ⟨uuid4, ?_, ?_⟩
  · rw [UuidSource.FreshUpTo, hdraws]
    refine tokens.nodup_toList.map_on fun i hi j hj hij => ?_
    have hval := congrArg BitVec.toNat hij
    simp only [BitVec.toNat_ofNat] at hval
    rwa [Nat.mod_eq_of_lt (hsmall i (Finset.mem_toList.mp hi)),
      Nat.mod_eq_of_lt (hsmall j (Finset.mem_toList.mp hj))] at hval
  · intro l hl hmem
    rw [hdraws] at hmem
    obtain ⟨i, hi, heq⟩ := List.mem_map.mp hmem
    have hnew := (Finset.mem_sdiff.mp (hsub (Finset.mem_toList.mp hi))).2
    refine hnew (List.mem_toFinset.mpr (List.mem_map.mpr ⟨l, hl, ?_⟩))
    have hval := congrArg BitVec.toNat heq
    simp only [BitVec.toNat_ofNat] at hval
    rw [Nat.mod_eq_of_lt (hsmall i (Finset.mem_toList.mp hi))] at hval
    exact hval.symm

/-- The passes are runs of the system. -/
theorem Rounds.reachable {start : Instant} {n : Nat} {chunks : List UUID}
    (hs : (worldSystem co chunks).Reachable s) (h : Rounds co texts w start n s t) :
    (worldSystem co chunks).Reachable t := by
  induction h with
  | zero => exact hs
  | @succ _ _ _ _ now _ _ hround ih =>
    cases hround with
    | @mk ticked polled _ uuid4 _ _ htick hpoll hserve _ =>
      have htick : (worldSystem co chunks).step _ (.tick now) = some ticked := htick
      have hpoll : (worldSystem co chunks).step ticked
        (.poll w now (fun _ => false) uuid4 .ok) = some polled := hpoll
      obtain ⟨as, hrun⟩ := run_of_serves hserve chunks
      have hticked := (ih hs).run _ ((worldSystem co chunks).run_single htick)
      have hpolled := hticked.run _ ((worldSystem co chunks).run_single hpoll)
      exact hpolled.run _ hrun

theorem Rounds.idle {start : Instant} {n : Nat} (h : Rounds co texts w start n s t)
    (hidle : (s.workers w).stage = .idle) : (t.workers w).stage = .idle := by
  cases h with
  | zero => exact hidle
  | succ _ _ hround => exact hround.idle

/-- There is no limit to the passes but the supply of tokens. -/
theorem exists_rounds (co : Conversions) {start : Instant} (n : Nat) (htexts : texts.Nonempty)
    (hidle : (s.workers w).stage = .idle) (hclock : s.outbox.clock ≤ start)
    (htokens : s.outbox.leases.length + n * batchSize ≤ 2 ^ 128) :
    ∃ t, Rounds co texts w start n s t ∧ t.outbox.clock ≤ start ∧
      t.outbox.leases.length ≤ s.outbox.leases.length + n * batchSize := by
  induction n with
  | zero => exact ⟨s, .zero s, hclock, by omega⟩
  | succ n ih =>
    rw [Nat.succ_mul] at htokens
    obtain ⟨m, hrounds, hbefore, hleases⟩ := ih (by omega)
    have hbatch := selected_length_le m.outbox.table start
    obtain ⟨uuid4, hfresh⟩ := exists_freshTokens m.outbox (selected m.outbox.table start).length
      (by omega)
    have hwaits := hrounds.idle hidle
    obtain ⟨t, hround⟩ : ∃ t, Round co texts w start m t :=
      exists_round htexts hwaits hbefore hfresh
    have hend := (hround.leases hwaits).1
    have hgranted := hround.leases_length hwaits
    refine ⟨t, hrounds.succ le_rfl hround, hend.le, ?_⟩
    rw [Nat.succ_mul]
    omega

end

end GroundGraph.Worker
