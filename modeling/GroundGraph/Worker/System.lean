import GroundGraph.Neo4j.Projection
import GroundGraph.Outbox.Lease

/-! The graph workers between the two databases: `OutboxGraphWorker.start` and
`_process_event` in `outbox_graph_projector.py`, with the unit of work of Neo4j.

Any number of workers run; each action is one of the points where the worker waits
for a database, with every way in which that can end.
-/

set_option autoImplicit false

namespace GroundGraph.Worker

open GroundGraph.Knowledge GroundGraph.Neo4j GroundGraph.Outbox

def batchSize : Nat := 100

def workerId : String := "graph-projector"

def leaseDurationSeconds : Int := 30

abbrev Event := OutboxRow JsonObject

/-- A committed Neo4j transaction of the worker. `seen` is the number of such
transactions that had committed when its query ran. -/
structure ProjectionCommit where
  eventId : UUID
  eventType : OutboxEventType
  payload : JsonObject
  now : Instant
  seen : Nat
  write : GraphWrite

/-- Where `_process_event` stands with its event. -/
inductive Stage where
  | idle
  | claimed (event : Event)
  | projected (event : Event) (transaction : ProjectionCommit)
  | graphCommitted (event : Event)
  | failed (event : Event) (error : List Char)

structure WorkerState where
  stage : Stage
  /-- The rest of the batch. -/
  queue : List Event

structure World where
  outbox : LeaseState JsonObject
  graph : Graph
  workers : Nat → WorkerState
  /-- Newest first. -/
  commits : List ProjectionCommit

/-- How a commit ends: as it should, with its effect but an exception all the
same, or without effect. -/
inductive CommitOutcome where
  | ok | unacknowledged | raised
  deriving DecidableEq, Repr

inductive Action where
  | tick (now : Instant)
  | emit (event : OutboxEvent JsonObject)
  | poll (worker : Nat) (now : Instant) (locked : UUID → Bool) (uuid4 : UuidSource)
      (outcome : CommitOutcome)
  | project (worker : Nat) (now : Instant) (error : List Char)
  | projectRaises (worker : Nat) (error : List Char)
  | commitGraph (worker : Nat) (outcome : CommitOutcome) (error : List Char)
  | complete (worker : Nat) (seen : Option Event) (now : Instant) (outcome : CommitOutcome)
      (error : List Char)
  | fail (worker : Nat) (seen : Option Event) (now : Instant) (outcome : CommitOutcome)
  | crash (worker : Nat)

def idleWorker : WorkerState := ⟨.idle, []⟩

def takeNext : List Event → WorkerState
  | [] => idleWorker
  | event :: queue => ⟨.claimed event, queue⟩

def World.setWorker (s : World) (w : Nat) (state : WorkerState) : World :=
  { s with workers := fun i => if i = w then state else s.workers i }

def completeEvent (o : LeaseState JsonObject) (seen : Option Event) (event : Event)
    (now : Instant) : Option (LeaseState JsonObject) :=
  match event.claimToken with
  | none => none
  | some token =>
    match markCompleted o.table seen event.eventId token now with
    | .ok t => some { o with table := t, returned := token :: o.returned }
    | .error _ => none

def failEvent (o : LeaseState JsonObject) (seen : Option Event) (event : Event)
    (error : List Char) (now : Instant) : Option (LeaseState JsonObject) :=
  match event.claimToken with
  | none => none
  | some token =>
    match markFailed o.table seen event.eventId token error now with
    | .ok t => some { o with table := t, returned := token :: o.returned }
    | .error _ => none

/-- Claiming commits before anything is projected. -/
def poll (s : World) (w : Nat) (now : Instant) (locked : UUID → Bool) (uuid4 : UuidSource)
    (outcome : CommitOutcome) : Option World :=
  match (s.workers w).stage with
  | .idle =>
    if outcome = .raised then some s
    else
      match leaseStep s.outbox
        (.claimBatch now batchSize workerId leaseDurationSeconds locked uuid4) with
      | none => none
      | some o =>
        let events := (claimBatch s.outbox.table now batchSize workerId leaseDurationSeconds
          locked uuid4).2
        let s := { s with outbox := o }
        if outcome = .ok then some (s.setWorker w (takeNext events)) else some s
  | _ => none

/-- The query runs inside the open transaction. -/
def project (co : Conversions) (s : World) (w : Nat) (now : Instant) (error : List Char) :
    Option World :=
  match (s.workers w).stage with
  | .claimed event =>
    match projectEvent co s.graph now event.eventType event.payload with
    | .ok write =>
      some (s.setWorker w ⟨.projected event
        ⟨event.eventId, event.eventType, event.payload, now, s.commits.length, write⟩,
        (s.workers w).queue⟩)
    | .error _ => some (s.setWorker w ⟨.failed event error, (s.workers w).queue⟩)
  | _ => none

/-- Anything else that raises before the commit: the transaction is rolled back. -/
def projectRaises (s : World) (w : Nat) (error : List Char) : Option World :=
  match (s.workers w).stage with
  | .claimed event => some (s.setWorker w ⟨.failed event error, (s.workers w).queue⟩)
  | .projected event _ => some (s.setWorker w ⟨.failed event error, (s.workers w).queue⟩)
  | _ => none

def commitGraph (s : World) (w : Nat) (outcome : CommitOutcome) (error : List Char) :
    Option World :=
  match (s.workers w).stage with
  | .projected event transaction =>
    let failed := (⟨.failed event error, (s.workers w).queue⟩ : WorkerState)
    let committed := { s with
      graph := transaction.write.apply s.graph
      commits := transaction :: s.commits }
    match outcome with
    | .ok => some (committed.setWorker w ⟨.graphCommitted event, (s.workers w).queue⟩)
    | .unacknowledged => some (committed.setWorker w failed)
    | .raised => some (s.setWorker w failed)
  | _ => none

def complete (s : World) (w : Nat) (seen : Option Event) (now : Instant)
    (outcome : CommitOutcome) (error : List Char) : Option World :=
  match (s.workers w).stage with
  | .graphCommitted event =>
    let failed := (⟨.failed event error, (s.workers w).queue⟩ : WorkerState)
    match completeEvent s.outbox seen event now, outcome with
    | some o, .ok => some ({ s with outbox := o }.setWorker w (takeNext (s.workers w).queue))
    | some o, .unacknowledged => some ({ s with outbox := o }.setWorker w failed)
    | some _, .raised => some (s.setWorker w failed)
    | none, _ => some (s.setWorker w failed)
  | _ => none

/-- What `mark_failed` raises leaves the loop over the batch. -/
def fail (s : World) (w : Nat) (seen : Option Event) (now : Instant) (outcome : CommitOutcome) :
    Option World :=
  match (s.workers w).stage with
  | .failed event error =>
    match failEvent s.outbox seen event error now, outcome with
    | some o, .ok => some ({ s with outbox := o }.setWorker w (takeNext (s.workers w).queue))
    | some o, .unacknowledged => some ({ s with outbox := o }.setWorker w idleWorker)
    | some _, .raised => some (s.setWorker w idleWorker)
    | none, _ => some (s.setWorker w idleWorker)
  | _ => none

def worldStep (co : Conversions) (s : World) : Action → Option World
  | .tick now => (leaseStep s.outbox (.tick now)).map fun o => { s with outbox := o }
  | .emit event => (leaseStep s.outbox (.add event)).map fun o => { s with outbox := o }
  | .poll w now locked uuid4 outcome => poll s w now locked uuid4 outcome
  | .project w now error => project co s w now error
  | .projectRaises w error => projectRaises s w error
  | .commitGraph w outcome error => commitGraph s w outcome error
  | .complete w seen now outcome error => complete s w seen now outcome error
  | .fail w seen now outcome => fail s w seen now outcome
  | .crash w => some (s.setWorker w idleWorker)

def worldSystem (co : Conversions) (chunks : List UUID) : LabelledSystem World Action where
  start := ⟨(leaseSystem JsonObject).start, .empty chunks, fun _ => idleWorker, []⟩
  step := worldStep co

def replay (chunks : List UUID) : List ProjectionCommit → Graph
  | [] => .empty chunks
  | c :: cs => c.write.apply (replay chunks cs)

def firstCommits (commits : List ProjectionCommit) (n : Nat) : List ProjectionCommit :=
  commits.drop (commits.length - n)

theorem firstCommits_cons {commits : List ProjectionCommit} {n : Nat} (h : n ≤ commits.length)
    (c : ProjectionCommit) : firstCommits (c :: commits) n = firstCommits commits n := by
  have hlen : (c :: commits).length - n = (commits.length - n) + 1 := by
    simp only [List.length_cons]
    omega
  rw [firstCommits, hlen, List.drop_succ_cons, firstCommits]

theorem firstCommits_length (commits : List ProjectionCommit) :
    firstCommits commits commits.length = commits := by
  simp [firstCommits]

end GroundGraph.Worker
