import GroundGraph.Identifiers
import GroundGraph.Library.KeyedTable
import Mathlib.Data.List.Sort

/-! The transactional outbox: `domain/evidence.py` and
`infrastructure/postgres/outbox_repository.py`.

Each method of the repository is one function on the committed table. The
assumption behind that is the database's: `SELECT … FOR UPDATE SKIP LOCKED` and
a guarded `UPDATE` are atomic.
-/

set_option autoImplicit false

namespace GroundGraph.Outbox

inductive OutboxEventType where
  | documentParsed | chunksCreated | entityMentioned | entityResolved | factCandidate
  deriving DecidableEq, Repr

inductive OutboxEventStatus where
  | pending | claimed | completed | failed
  deriving DecidableEq, Repr

/-- Texts the code writes into the `status` column. The last one is no value of
`OutboxEventStatus`; only the older consumer adapter writes it. -/
inductive StatusText where
  | pending | claimed | completed | failed | processing
  deriving DecidableEq, Repr

def OutboxEventStatus.value : OutboxEventStatus → StatusText
  | .pending => .pending
  | .claimed => .claimed
  | .completed => .completed
  | .failed => .failed

structure OutboxEvent (P : Type) where
  eventId : UUID
  aggregateType : String
  aggregateId : UUID
  eventType : OutboxEventType
  payload : P
  status : OutboxEventStatus := .pending
  attempts : Nat := 0
  lastError : Option (List Char) := none
  createdAt : Instant
  claimedAt : Option Instant := none
  claimToken : Option UUID := none
  completedAt : Option Instant := none

/-- One row of the `outbox` table. A claim token is the hexadecimal form of a
`uuid4()`; only its identity is used. -/
structure OutboxRow (P : Type) where
  eventId : UUID
  aggregateType : String
  aggregateId : UUID
  eventType : OutboxEventType
  payload : P
  status : StatusText
  attempts : Nat
  lastError : Option (List Char)
  availableAt : Instant
  createdAt : Instant
  claimedBy : Option String
  claimToken : Option UUID
  claimedAt : Option Instant
  leaseExpiresAt : Option Instant
  completedAt : Option Instant

abbrev OutboxTable (P : Type) := KeyedTable (OutboxRow.eventId (P := P))

/-- The exceptions of the repository, with the texts of its `ValueError`s as
names. `overflow` is the `OverflowError` of `2.0 ** n` past the double range,
`dataError` what the database answers to a text that it cannot store. -/
inductive OutboxError where
  | eventNotFound | invalidClaimToken | notInClaimedState | claimLost | overflow | dataError
  | duplicateKey
  deriving DecidableEq, Repr

variable {P : Type}

/-- The row `add` inserts; token, claimant and lease are left to the column
defaults. -/
def rowOfEvent (e : OutboxEvent P) : OutboxRow P where
  eventId := e.eventId
  aggregateType := e.aggregateType
  aggregateId := e.aggregateId
  eventType := e.eventType
  payload := e.payload
  status := e.status.value
  attempts := e.attempts
  lastError := e.lastError
  availableAt := e.createdAt
  createdAt := e.createdAt
  claimedBy := none
  claimToken := none
  claimedAt := e.claimedAt
  leaseExpiresAt := none
  completedAt := e.completedAt

def add (t : OutboxTable P) (e : OutboxEvent P) : Except OutboxError (OutboxTable P) :=
  match t.insert? (rowOfEvent e) with
  | some t' => .ok t'
  | none => .error .duplicateKey

/-- `lease_expires_at <= now`; a comparison with NULL selects nothing. -/
def leaseExpired (now : Instant) : Option Instant → Bool
  | none => false
  | some t => decide (t ≤ now)

/-- The two `WHERE` clauses of `claim_batch`. -/
def selectable (now : Instant) (r : OutboxRow P) : Bool :=
  (decide (r.status = .pending) ||
    (decide (r.status = .claimed) && leaseExpired now r.leaseExpiresAt)) &&
  decide (r.availableAt ≤ now)

/-- Rows another transaction holds are skipped; the rest is ordered by creation
and limited. -/
def selectRows (t : OutboxTable P) (now : Instant) (batchSize : Nat) (locked : UUID → Bool) :
    List (OutboxRow P) :=
  ((t.rows.filter fun r => selectable now r && !locked r.eventId).insertionSort
    fun a b => a.createdAt ≤ b.createdAt).take batchSize

def claimRow (now : Instant) (workerId : String) (lease : Int) (token : UUID)
    (r : OutboxRow P) : OutboxRow P :=
  { r with
    status := .claimed
    claimedBy := some workerId
    claimToken := some token
    claimedAt := some now
    leaseExpiresAt := some (now + 1000000 * lease)
    attempts := r.attempts + 1 }

@[simp] theorem claimRow_eventId (now : Instant) (workerId : String) (lease : Int) (token : UUID)
    (r : OutboxRow P) : (claimRow now workerId lease token r).eventId = r.eventId := rfl

def claimRows (now : Instant) (workerId : String) (lease : Int) :
    OutboxTable P → List (UUID × UUID) → OutboxTable P
  | t, [] => t
  | t, (eventId, token) :: rest =>
    claimRows now workerId lease
      (t.modifyAt eventId (claimRow now workerId lease token)
        (claimRow_eventId now workerId lease token)) rest

/-- Event ids of the selected rows with the tokens drawn for them, in order. -/
def drawTokens (rows : List (OutboxRow P)) (uuid4 : UuidSource) : List (UUID × UUID) :=
  (rows.map OutboxRow.eventId).zip (uuid4.draws rows.length)

/-- Returns the new table and what each claimed event is returned with. -/
def claimBatch (t : OutboxTable P) (now : Instant) (batchSize : Nat) (workerId : String)
    (lease : Int) (locked : UUID → Bool) (uuid4 : UuidSource) :
    OutboxTable P × List (OutboxRow P) :=
  let rows := selectRows t now batchSize locked
  let claims := drawTokens rows uuid4
  (claimRows now workerId lease t claims,
    (rows.zip (uuid4.draws rows.length)).map fun c => claimRow now workerId lease c.2 c.1)

/-- The reads both acknowledgements start with; `seen` is the row that
`session.get` returned, which may already be out of date. -/
def checkClaim (seen : Option (OutboxRow P)) (token : UUID) : Except OutboxError (OutboxRow P) :=
  match seen with
  | none => .error .eventNotFound
  | some row =>
    if row.claimToken ≠ some token then .error .invalidClaimToken
    else if row.status ≠ .claimed then .error .notInClaimedState
    else .ok row

/-- `WHERE status = 'claimed' AND claim_token = …`, next to the event id. -/
def holdsClaim (token : UUID) (r : OutboxRow P) : Bool :=
  decide (r.status = .claimed) && decide (r.claimToken = some token)

def completeRow (now : Instant) (r : OutboxRow P) : OutboxRow P :=
  { r with status := .completed, completedAt := some now, leaseExpiresAt := none }

@[simp] theorem completeRow_eventId (now : Instant) (r : OutboxRow P) :
    (completeRow now r).eventId = r.eventId := rfl

def markCompleted (t : OutboxTable P) (seen : Option (OutboxRow P)) (eventId token : UUID)
    (now : Instant) : Except OutboxError (OutboxTable P) := do
  let _ ← checkClaim seen token
  match t.updateWhere eventId (holdsClaim token) (completeRow now) (completeRow_eventId now) with
  | some t' => pure t'
  | none => throw .claimLost

/-- `min(3600.0, 2.0 ** (attempts + 1))`. The power is a double: it raises from
`2.0 ** 1024` on, before `min` sees it. -/
def backoffSeconds (attempts : Nat) : Except OutboxError Nat :=
  if attempts + 1 < 1024 then .ok (min 3600 (2 ^ (attempts + 1))) else .error .overflow

def failRow (now : Instant) (delay : Nat) (error : List Char) (r : OutboxRow P) : OutboxRow P :=
  { r with
    status := .pending
    lastError := some (error.take 512)
    claimedBy := none
    claimToken := none
    claimedAt := none
    leaseExpiresAt := none
    availableAt := now + seconds delay }

@[simp] theorem failRow_eventId (now : Instant) (delay : Nat) (error : List Char)
    (r : OutboxRow P) : (failRow now delay error r).eventId = r.eventId := rfl

/-- A `Text` column of PostgreSQL holds every text without U+0000. -/
def Storable (text : List Char) : Prop := '\x00' ∉ text

instance (text : List Char) : Decidable (Storable text) := inferInstanceAs (Decidable (¬ _))

/-- The delay is computed from the row that was read, before the statement is sent. -/
def markFailed (t : OutboxTable P) (seen : Option (OutboxRow P)) (eventId token : UUID)
    (error : List Char) (now : Instant) : Except OutboxError (OutboxTable P) := do
  let row ← checkClaim seen token
  let delay ← backoffSeconds row.attempts
  if ¬ Storable (error.take 512) then throw .dataError
  match t.updateWhere eventId (holdsClaim token) (failRow now delay error)
    (failRow_eventId now delay error) with
  | some t' => pure t'
  | none => throw .claimLost

theorem add_ok_iff {t t' : OutboxTable P} {e : OutboxEvent P} :
    add t e = .ok t' ↔ t.insert? (rowOfEvent e) = some t' := by
  unfold add
  cases h : t.insert? (rowOfEvent e) <;> simp

theorem markCompleted_ok {t t' : OutboxTable P} {seen : Option (OutboxRow P)}
    {eventId token : UUID} {now : Instant}
    (h : markCompleted t seen eventId token now = .ok t') :
    ∃ r, t.get? eventId = some r ∧ r.status = .claimed ∧ r.claimToken = some token ∧
      t' = t.modifyAt eventId (completeRow now) (completeRow_eventId now) := by
  unfold markCompleted at h
  cases hc : checkClaim seen token with
  | error e => simp [hc, bind, Except.bind] at h
  | ok row =>
    simp only [hc, bind, Except.bind] at h
    split at h
    · rename_i u hu
      obtain ⟨r, hr, hp, rfl⟩ := KeyedTable.updateWhere_some_iff.mp hu
      simp only [holdsClaim, Bool.and_eq_true, decide_eq_true_eq] at hp
      exact ⟨r, hr, hp.1, hp.2, (Except.ok.inj h).symm⟩
    · cases h

theorem markFailed_ok {t t' : OutboxTable P} {seen : Option (OutboxRow P)}
    {eventId token : UUID} {error : List Char} {now : Instant}
    (h : markFailed t seen eventId token error now = .ok t') :
    ∃ r delay, t.get? eventId = some r ∧ r.status = .claimed ∧ r.claimToken = some token ∧
      t' = t.modifyAt eventId (failRow now delay error) (failRow_eventId now delay error) := by
  unfold markFailed at h
  cases hc : checkClaim seen token with
  | error e => simp [hc, bind, Except.bind] at h
  | ok row =>
    cases hb : backoffSeconds row.attempts with
    | error e => simp [hc, hb, bind, Except.bind] at h
    | ok delay =>
      by_cases herror : Storable (error.take 512)
      · simp only [hc, hb, herror, not_true, if_false, bind, Except.bind, pure, Except.pure] at h
        split at h
        · rename_i u hu
          obtain ⟨r, hr, hp, rfl⟩ := KeyedTable.updateWhere_some_iff.mp hu
          simp only [holdsClaim, Bool.and_eq_true, decide_eq_true_eq] at hp
          exact ⟨r, delay, hr, hp.1, hp.2, (Except.ok.inj h).symm⟩
        · cases h
      · simp [hc, hb, herror, bind, Except.bind, throw, throwThe, MonadExceptOf.throw] at h

theorem mem_selectRows {t : OutboxTable P} {now : Instant} {n : Nat} {locked : UUID → Bool}
    {r : OutboxRow P} (h : r ∈ selectRows t now n locked) :
    r ∈ t.rows ∧ selectable now r = true := by
  have hsorted := List.mem_of_mem_take h
  have hfilter := (List.mem_insertionSort _).mp hsorted
  simp only [List.mem_filter, Bool.and_eq_true] at hfilter
  exact ⟨hfilter.1, hfilter.2.1⟩

theorem selectRows_nodup (t : OutboxTable P) (now : Instant) (n : Nat) (locked : UUID → Bool) :
    ((selectRows t now n locked).map OutboxRow.eventId).Nodup := by
  have hfilter : ((t.rows.filter fun r => selectable now r && !locked r.eventId).map
      OutboxRow.eventId).Nodup :=
    t.unique.sublist (List.filter_sublist.map _)
  have hsort := (List.perm_insertionSort (fun a b => a.createdAt ≤ b.createdAt)
    (t.rows.filter fun r => selectable now r && !locked r.eventId)).map OutboxRow.eventId
  exact (hsort.nodup_iff.mpr hfilter).sublist ((List.take_sublist _ _).map _)

end GroundGraph.Outbox
