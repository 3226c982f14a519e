import GroundGraph.Library.LabelledSystem
import GroundGraph.Outbox.Repository

/-! Lease safety of the outbox over every interleaving of committed calls. The
state carries, next to the clock and the table, the record of what was added,
which leases were granted and which tokens were given back; the code has no such
record, it only lets the properties be stated.
-/

set_option autoImplicit false

namespace GroundGraph.Outbox

structure Lease where
  eventId : UUID
  token : UUID
  expiresAt : Instant
  deriving DecidableEq

structure LeaseState (P : Type) where
  clock : Instant
  table : OutboxTable P
  added : List (OutboxEvent P)
  /-- Newest first. -/
  leases : List Lease
  /-- Tokens used up by an acknowledgement that went through. -/
  returned : List UUID

inductive LeaseAction (P : Type) where
  | tick (now : Instant)
  | add (event : OutboxEvent P)
  | claimBatch (now : Instant) (batchSize : Nat) (workerId : String) (lease : Int)
      (locked : UUID → Bool) (uuid4 : UuidSource)
  | markCompleted (seen : Option (OutboxRow P)) (eventId token : UUID) (now : Instant)
  | markFailed (seen : Option (OutboxRow P)) (eventId token : UUID) (error : List Char)
      (now : Instant)

variable {P : Type}

def leaseOf (now : Instant) (lease : Int) (claim : UUID × UUID) : Lease :=
  ⟨claim.1, claim.2, now + 1000000 * lease⟩

/-- The draws of one `claim_batch` are distinct and unlike every earlier token. -/
def FreshTokens (s : LeaseState P) (uuid4 : UuidSource) (n : Nat) : Prop :=
  uuid4.FreshUpTo n ∧ ∀ l ∈ s.leases, l.token ∉ uuid4.draws n

instance (s : LeaseState P) (uuid4 : UuidSource) (n : Nat) : Decidable (FreshTokens s uuid4 n) :=
  inferInstanceAs (Decidable (_ ∧ _))

/-- One committed call, or the passing of time. A call that raises commits
nothing. `now` is read before the statement runs, so it may lag the clock. -/
def leaseStep (s : LeaseState P) : LeaseAction P → Option (LeaseState P)
  | .tick now => if s.clock ≤ now then some { s with clock := now } else none
  | .add event =>
    if event.status = .pending then
      match add s.table event with
      | .ok t => some { s with table := t, added := event :: s.added }
      | .error _ => some s
    else none
  | .claimBatch now batchSize workerId lease locked uuid4 =>
    let rows := selectRows s.table now batchSize locked
    if now ≤ s.clock ∧ FreshTokens s uuid4 rows.length then
      some { s with
        table := (claimBatch s.table now batchSize workerId lease locked uuid4).1
        leases := ((drawTokens rows uuid4).map (leaseOf now lease)).reverse ++ s.leases }
    else none
  | .markCompleted seen eventId token now =>
    match markCompleted s.table seen eventId token now with
    | .ok t => some { s with table := t, returned := token :: s.returned }
    | .error _ => some s
  | .markFailed seen eventId token error now =>
    match markFailed s.table seen eventId token error now with
    | .ok t => some { s with table := t, returned := token :: s.returned }
    | .error _ => some s

def leaseSystem (P : Type) : LabelledSystem (LeaseState P) (LeaseAction P) where
  start := ⟨0, .empty, [], [], []⟩
  step := leaseStep

/-- Everything a step can be. An acknowledgement goes through on a row that was
claimed under its token. -/
inductive LeaseEffect (s : LeaseState P) : LeaseAction P → LeaseState P → Prop
  | raised (a : LeaseAction P) : LeaseEffect s a s
  | ticked {now : Instant} (hle : s.clock ≤ now) :
      LeaseEffect s (.tick now) { s with clock := now }
  | added {event : OutboxEvent P} {t : OutboxTable P} (hpending : event.status = .pending)
      (hins : s.table.insert? (rowOfEvent event) = some t) :
      LeaseEffect s (.add event) { s with table := t, added := event :: s.added }
  | granted {now : Instant} {batchSize : Nat} {workerId : String} {lease : Int}
      {locked : UUID → Bool} {uuid4 : UuidSource} (hnow : now ≤ s.clock)
      (hfresh : FreshTokens s uuid4 (selectRows s.table now batchSize locked).length) :
      LeaseEffect s (.claimBatch now batchSize workerId lease locked uuid4)
        { s with
          table := (claimBatch s.table now batchSize workerId lease locked uuid4).1
          leases := ((drawTokens (selectRows s.table now batchSize locked) uuid4).map
            (leaseOf now lease)).reverse ++ s.leases }
  | completed {seen : Option (OutboxRow P)} {eventId token : UUID} {now : Instant}
      {r : OutboxRow P} (hget : s.table.get? eventId = some r) (hclaimed : r.status = .claimed)
      (htoken : r.claimToken = some token) :
      LeaseEffect s (.markCompleted seen eventId token now)
        { s with
          table := s.table.modifyAt eventId (completeRow now) (completeRow_eventId now)
          returned := token :: s.returned }
  | failed {seen : Option (OutboxRow P)} {eventId token : UUID} {error : List Char}
      {now : Instant} {delay : Nat} {r : OutboxRow P} (hget : s.table.get? eventId = some r)
      (hclaimed : r.status = .claimed) (htoken : r.claimToken = some token) :
      LeaseEffect s (.markFailed seen eventId token error now)
        { s with
          table := s.table.modifyAt eventId (failRow now delay error)
            (failRow_eventId now delay error)
          returned := token :: s.returned }

theorem leaseStep_effect {s s' : LeaseState P} {a : LeaseAction P} (h : leaseStep s a = some s') :
    LeaseEffect s a s' := by
  cases a with
  | tick now =>
    simp only [leaseStep, Option.ite_none_right_eq_some, Option.some.injEq] at h
    obtain ⟨hle, rfl⟩ := h
    exact .ticked hle
  | add event =>
    simp only [leaseStep, Option.ite_none_right_eq_some] at h
    obtain ⟨hpending, h⟩ := h
    split at h
    · rename_i t ht
      obtain rfl := Option.some.inj h
      exact .added hpending (add_ok_iff.mp ht)
    · obtain rfl := Option.some.inj h
      exact .raised _
  | claimBatch now batchSize workerId lease locked uuid4 =>
    simp only [leaseStep, Option.ite_none_right_eq_some, Option.some.injEq] at h
    obtain ⟨⟨hnow, hfresh⟩, rfl⟩ := h
    exact .granted hnow hfresh
  | markCompleted seen eventId token now =>
    simp only [leaseStep] at h
    split at h
    · rename_i t ht
      obtain ⟨r, hget, hclaimed, htoken, rfl⟩ := markCompleted_ok ht
      obtain rfl := Option.some.inj h
      exact .completed hget hclaimed htoken
    · obtain rfl := Option.some.inj h
      exact .raised _
  | markFailed seen eventId token error now =>
    simp only [leaseStep] at h
    split at h
    · rename_i t ht
      obtain ⟨r, delay, hget, hclaimed, htoken, rfl⟩ := markFailed_ok ht
      obtain rfl := Option.some.inj h
      exact .failed hget hclaimed htoken
    · obtain rfl := Option.some.inj h
      exact .raised _

def Lease.Live (s : LeaseState P) (l : Lease) : Prop :=
  s.clock < l.expiresAt ∧ l.token ∉ s.returned

def newest (s : LeaseState P) (eventId : UUID) : Option Lease :=
  s.leases.find? fun l => decide (l.eventId = eventId)

def claimCount (s : LeaseState P) (eventId : UUID) : Nat :=
  s.leases.countP fun l => decide (l.eventId = eventId)

/-! The invariant: the row of an event and the leases granted on it agree. -/

structure RowInv (s : LeaseState P) (r : OutboxRow P) : Prop where
  status : r.status = .pending ∨ r.status = .claimed ∨ r.status = .completed
  claimed : r.status = .claimed → ∃ l, newest s r.eventId = some l ∧
    r.claimToken = some l.token ∧ r.leaseExpiresAt = some l.expiresAt ∧ r.claimedAt.isSome
  token : ∀ t, r.claimToken = some t → ∃ l, newest s r.eventId = some l ∧ l.token = t
  live : ∀ l ∈ s.leases, l.eventId = r.eventId → l.Live s →
    r.status = .claimed ∧ r.claimToken = some l.token
  attempts : ∃ e ∈ s.added, e.eventId = r.eventId ∧
    r.attempts = e.attempts + claimCount s r.eventId

structure LeaseInv (s : LeaseState P) : Prop where
  tokens : (s.leases.map Lease.token).Nodup
  known : ∀ l ∈ s.leases, l.eventId ∈ s.table.rows.map OutboxRow.eventId
  returned : ∀ t ∈ s.returned, t ∈ s.leases.map Lease.token
  rows : ∀ eventId r, s.table.get? eventId = some r → RowInv s r

theorem newest_some {s : LeaseState P} {eventId : UUID} {l : Lease}
    (h : newest s eventId = some l) : l ∈ s.leases ∧ l.eventId = eventId :=
  ⟨List.mem_of_find?_eq_some h, by simpa using List.find?_some h⟩

theorem LeaseInv.eq_of_token {s : LeaseState P} (hi : LeaseInv s) {l m : Lease}
    (hl : l ∈ s.leases) (hm : m ∈ s.leases) (h : l.token = m.token) : l = m :=
  List.inj_on_of_nodup_map hi.tokens hl hm h

theorem claimCount_eq_zero {s : LeaseState P} {eventId : UUID}
    (h : ∀ l ∈ s.leases, l.eventId ≠ eventId) : claimCount s eventId = 0 := by
  rw [claimCount, List.countP_eq_zero]
  intro l hl
  simpa using h l hl

theorem get?_eventId {t : OutboxTable P} {eventId : UUID} {r : OutboxRow P}
    (h : t.get? eventId = some r) : r.eventId = eventId :=
  (t.get?_some_iff.mp h).2

theorem isSome_iff_mem_eventIds {t : OutboxTable P} {eventId : UUID} :
    eventId ∈ t.rows.map OutboxRow.eventId ↔ (t.get? eventId).isSome := by
  rw [← not_iff_not, ← t.get?_none_iff]
  simp

theorem mem_eventIds_modifyAt {t : OutboxTable P} {eventId k : UUID}
    {f : OutboxRow P → OutboxRow P} (hf : ∀ r, (f r).eventId = r.eventId) :
    k ∈ (t.modifyAt eventId f hf).rows.map OutboxRow.eventId ↔
      k ∈ t.rows.map OutboxRow.eventId := by
  rw [isSome_iff_mem_eventIds, isSome_iff_mem_eventIds, KeyedTable.get?_modifyAt]
  split <;> simp

/-! Steps that leave the leases alone: the clock and the acknowledgements. A
lease that is live afterwards was live before. -/

theorem Lease.Live.mono {s s' : LeaseState P} {l : Lease} (h : l.Live s')
    (hclock : s.clock ≤ s'.clock) (hret : ∀ t ∈ s.returned, t ∈ s'.returned) : l.Live s :=
  ⟨lt_of_le_of_lt hclock h.1, fun hm => h.2 (hret _ hm)⟩

theorem RowInv.mono {s s' : LeaseState P} {r : OutboxRow P} (hr : RowInv s r)
    (hleases : s'.leases = s.leases) (hadded : ∀ e ∈ s.added, e ∈ s'.added)
    (hclock : s.clock ≤ s'.clock) (hret : ∀ t ∈ s.returned, t ∈ s'.returned) : RowInv s' r where
  status := hr.status
  claimed := by simpa only [newest, hleases] using hr.claimed
  token := by simpa only [newest, hleases] using hr.token
  live := by
    intro l hl he hlive
    exact hr.live l (hleases ▸ hl) he (hlive.mono hclock hret)
  attempts := by
    obtain ⟨e, he, hid, hcount⟩ := hr.attempts
    refine ⟨e, hadded e he, hid, ?_⟩
    simpa only [claimCount, hleases] using hcount

theorem tick_inv {s : LeaseState P} {now : Instant} (hi : LeaseInv s) (h : s.clock ≤ now) :
    LeaseInv { s with clock := now } where
  tokens := hi.tokens
  known := hi.known
  returned := hi.returned
  rows := fun eventId r hr =>
    (hi.rows eventId r hr).mono rfl (fun _ he => he) h (fun _ ht => ht)

theorem add_inv {s : LeaseState P} {event : OutboxEvent P} {t : OutboxTable P} (hi : LeaseInv s)
    (hpending : event.status = .pending) (h : s.table.insert? (rowOfEvent event) = some t) :
    LeaseInv { s with table := t, added := event :: s.added } := by
  obtain ⟨hnew, rfl⟩ := KeyedTable.insert?_some_iff.mp h
  have hnone : ∀ l ∈ s.leases, l.eventId ≠ event.eventId := by
    intro l hl he
    have hmem := hi.known l hl
    rw [he] at hmem
    exact hnew hmem
  refine ⟨hi.tokens, ?_, hi.returned, ?_⟩
  · intro l hl
    simp only [KeyedTable.rows_append, List.map_append, List.mem_append]
    exact Or.inl (hi.known l hl)
  · intro eventId r hr
    rw [KeyedTable.get?_append] at hr
    split at hr
    · -- the new row: nobody has claimed it yet
      obtain rfl := Option.some.inj hr
      refine ⟨?_, ?_, ?_, ?_, ?_⟩
      · simp [rowOfEvent, hpending, OutboxEventStatus.value]
      · simp [rowOfEvent, hpending, OutboxEventStatus.value]
      · simp [rowOfEvent]
      · intro l hl he
        exact absurd he (hnone l hl)
      · refine ⟨event, by simp, rfl, ?_⟩
        have hzero := claimCount_eq_zero hnone
        exact (congrArg (event.attempts + ·) hzero).symm
    · exact (hi.rows eventId r hr).mono rfl (fun e he => List.mem_cons_of_mem _ he) le_rfl
        (fun _ ht => ht)

theorem acknowledge_inv {s : LeaseState P} {eventId token : UUID} {r : OutboxRow P}
    {f : OutboxRow P → OutboxRow P} (hf : ∀ r, (f r).eventId = r.eventId) (hi : LeaseInv s)
    (hget : s.table.get? eventId = some r) (htoken : r.claimToken = some token)
    (hstatus : (f r).status = .pending ∨ (f r).status = .completed)
    (hold : (f r).claimToken = some token ∨ (f r).claimToken = none)
    (hattempts : (f r).attempts = r.attempts) :
    LeaseInv { s with table := s.table.modifyAt eventId f hf, returned := token :: s.returned } := by
  have hrow := hi.rows eventId r hget
  have hnot : (f r).status ≠ .claimed := by
    rcases hstatus with h | h <;> simp [h]
  refine ⟨hi.tokens, ?_, ?_, ?_⟩
  · intro l hl
    exact (mem_eventIds_modifyAt hf).mpr (hi.known l hl)
  · intro t ht
    rcases List.mem_cons.mp ht with rfl | ht
    · obtain ⟨l, hl, rfl⟩ := hrow.token t htoken
      exact List.mem_map_of_mem (newest_some hl).1
    · exact hi.returned t ht
  · intro k x hx
    rw [KeyedTable.get?_modifyAt] at hx
    split at hx
    · rename_i hk
      subst hk
      rw [hget, Option.map_some] at hx
      obtain rfl := Option.some.inj hx
      refine ⟨?_, fun h => absurd h hnot, ?_, ?_, ?_⟩
      · rcases hstatus with h | h <;> simp [h]
      · intro t ht
        rw [hf]
        rcases hold with h | h
        · exact hrow.token t (htoken.trans (h.symm.trans ht))
        · rw [h] at ht
          cases ht
      · -- a live lease would carry the token that was just given back
        intro l hl he hlive
        have hbefore : l.Live s := ⟨hlive.1, fun hm => hlive.2 (List.mem_cons_of_mem _ hm)⟩
        have hsame := (hrow.live l hl (he.trans (hf r)) hbefore).2
        obtain rfl : token = l.token := Option.some.inj (htoken.symm.trans hsame)
        exact absurd (List.mem_cons_self) hlive.2
      · obtain ⟨e, he, hid, hcount⟩ := hrow.attempts
        refine ⟨e, he, hid.trans (hf r).symm, ?_⟩
        rw [hattempts, hcount, hf]
        rfl
    · exact (hi.rows k x hx).mono rfl (fun _ he => he) le_rfl
        (fun _ ht => List.mem_cons_of_mem _ ht)

/-! Granting leases: one selected row at a time, then the whole batch. -/

def grant (now : Instant) (workerId : String) (lease : Int) (s : LeaseState P)
    (claim : UUID × UUID) : LeaseState P :=
  { s with
    table := s.table.modifyAt claim.1 (claimRow now workerId lease claim.2)
      (claimRow_eventId now workerId lease claim.2)
    leases := leaseOf now lease claim :: s.leases }

theorem get?_grant (now : Instant) (workerId : String) (lease : Int) (s : LeaseState P)
    (claim : UUID × UUID) (k : UUID) :
    (grant now workerId lease s claim).table.get? k =
      if k = claim.1 then (s.table.get? k).map (claimRow now workerId lease claim.2)
      else s.table.get? k :=
  s.table.get?_modifyAt claim.1 (claimRow now workerId lease claim.2)
    (claimRow_eventId now workerId lease claim.2) k

theorem newest_grant (now : Instant) (workerId : String) (lease : Int) (s : LeaseState P)
    (claim : UUID × UUID) (k : UUID) :
    newest (grant now workerId lease s claim) k =
      if claim.1 = k then some (leaseOf now lease claim) else newest s k := by
  by_cases h : claim.1 = k
  · simp [newest, grant, leaseOf, h]
  · simp [newest, grant, leaseOf, h]

theorem claimCount_grant (now : Instant) (workerId : String) (lease : Int) (s : LeaseState P)
    (claim : UUID × UUID) (k : UUID) :
    claimCount (grant now workerId lease s claim) k =
      claimCount s k + if claim.1 = k then 1 else 0 := by
  by_cases h : claim.1 = k
  · simp [claimCount, grant, leaseOf, h]
  · simp [claimCount, grant, leaseOf, h]

theorem selectable_iff {now : Instant} {r : OutboxRow P} :
    selectable now r = true ↔
      (r.status = .pending ∨ (r.status = .claimed ∧ ∃ t, r.leaseExpiresAt = some t ∧ t ≤ now)) ∧
      r.availableAt ≤ now := by
  cases h : r.leaseExpiresAt <;> simp [selectable, leaseExpired, h]

theorem LeaseInv.not_live_of_selectable {s : LeaseState P} (hi : LeaseInv s) {now : Instant}
    (hnow : now ≤ s.clock) {eventId : UUID} {r : OutboxRow P}
    (hget : s.table.get? eventId = some r) (hsel : selectable now r = true) {l : Lease}
    (hl : l ∈ s.leases) (he : l.eventId = eventId) : ¬ l.Live s := by
  intro hlive
  have hrow := hi.rows eventId r hget
  obtain ⟨hclaimed, htoken⟩ := hrow.live l hl (he.trans (get?_eventId hget).symm) hlive
  obtain ⟨hst | ⟨_, t, hexp, hle⟩, _⟩ := selectable_iff.mp hsel
  · rw [hclaimed] at hst
    cases hst
  · obtain ⟨m, hm, hmtok, hmexp, _⟩ := hrow.claimed hclaimed
    have hml : m = l := by
      apply hi.eq_of_token (newest_some hm).1 hl
      exact Option.some.inj (hmtok.symm.trans htoken)
    subst hml
    obtain rfl : m.expiresAt = t := Option.some.inj (hmexp.symm.trans hexp)
    exact absurd hlive.1 (not_lt.mpr (hle.trans hnow))

theorem LeaseInv.grant_claimed {s : LeaseState P} (hi : LeaseInv s) {now : Instant}
    {workerId : String} {lease : Int} {eventId token : UUID} {r : OutboxRow P}
    (hnow : now ≤ s.clock) (hget : s.table.get? eventId = some r)
    (hsel : selectable now r = true) :
    RowInv (grant now workerId lease s (eventId, token))
      (claimRow now workerId lease token r) := by
  have hid : r.eventId = eventId := get?_eventId hget
  refine ⟨by simp [claimRow], ?_, ?_, ?_, ?_⟩
  · intro _
    exact ⟨leaseOf now lease (eventId, token), by simp [newest_grant, claimRow, hid],
      rfl, rfl, rfl⟩
  · intro t ht
    obtain rfl : token = t := by simpa [claimRow] using ht
    exact ⟨leaseOf now lease (eventId, token), by simp [newest_grant, claimRow, hid], rfl⟩
  · intro l hl he hlive
    rcases List.mem_cons.mp hl with rfl | hl
    · exact ⟨rfl, rfl⟩
    · exact absurd hlive (hi.not_live_of_selectable hnow hget hsel hl (he.trans hid))
  · obtain ⟨e, he, heid, hcount⟩ := (hi.rows eventId r hget).attempts
    refine ⟨e, he, heid, ?_⟩
    rw [claimCount_grant]
    simp only [claimRow, hid, if_true] at hcount ⊢
    omega

theorem RowInv.grant_other {s : LeaseState P} {x : OutboxRow P} (hrow : RowInv s x)
    {now : Instant} {workerId : String} {lease : Int} {eventId token : UUID}
    (hne : ¬ eventId = x.eventId) :
    RowInv (grant now workerId lease s (eventId, token)) x := by
  refine ⟨hrow.status, ?_, ?_, ?_, ?_⟩
  · simpa only [newest_grant, if_neg hne] using hrow.claimed
  · simpa only [newest_grant, if_neg hne] using hrow.token
  · intro l hl he hlive
    rcases List.mem_cons.mp hl with rfl | hl
    · exact absurd he hne
    · exact hrow.live l hl he hlive
  · obtain ⟨e, he, heid, hcount⟩ := hrow.attempts
    refine ⟨e, he, heid, ?_⟩
    rw [claimCount_grant, if_neg hne]
    exact hcount

theorem grant_inv {s : LeaseState P} (hi : LeaseInv s) {now : Instant} {workerId : String}
    {lease : Int} {claim : UUID × UUID} {r : OutboxRow P} (hnow : now ≤ s.clock)
    (hget : s.table.get? claim.1 = some r) (hsel : selectable now r = true)
    (hfresh : claim.2 ∉ s.leases.map Lease.token) :
    LeaseInv (grant now workerId lease s claim) := by
  obtain ⟨eventId, token⟩ := claim
  refine ⟨?_, ?_, ?_, ?_⟩
  · simpa [grant, leaseOf] using ⟨by simpa using hfresh, hi.tokens⟩
  · intro l hl
    refine (mem_eventIds_modifyAt (claimRow_eventId now workerId lease token)).mpr ?_
    rcases List.mem_cons.mp hl with rfl | hl
    · exact isSome_iff_mem_eventIds.mpr (by simp [leaseOf, hget])
    · exact hi.known l hl
  · intro t ht
    exact List.mem_cons_of_mem _ (hi.returned t ht)
  · intro k x hx
    rw [get?_grant] at hx
    by_cases hk : k = eventId
    · subst hk
      rw [if_pos rfl, hget, Option.map_some] at hx
      obtain rfl := Option.some.inj hx
      exact hi.grant_claimed hnow hget hsel
    · rw [if_neg hk] at hx
      have hid : x.eventId = k := get?_eventId hx
      exact (hi.rows k x hx).grant_other fun h => hk (hid ▸ h.symm)

theorem foldl_grant_inv {now : Instant} {workerId : String} {lease : Int}
    (claims : List (UUID × UUID)) {s : LeaseState P} (hi : LeaseInv s) (hnow : now ≤ s.clock)
    (hsel : ∀ c ∈ claims, ∃ r, s.table.get? c.1 = some r ∧ selectable now r = true)
    (hids : (claims.map Prod.fst).Nodup) (htokens : (claims.map Prod.snd).Nodup)
    (hfresh : ∀ c ∈ claims, c.2 ∉ s.leases.map Lease.token) :
    LeaseInv (claims.foldl (grant now workerId lease) s) := by
  induction claims generalizing s with
  | nil => exact hi
  | cons c rest ih =>
    obtain ⟨r, hget, hr⟩ := hsel c List.mem_cons_self
    obtain ⟨hcid, hids⟩ := List.nodup_cons.mp hids
    obtain ⟨hctok, htokens⟩ := List.nodup_cons.mp htokens
    have hnext : LeaseInv (grant now workerId lease s c) :=
      grant_inv hi hnow hget hr (hfresh c List.mem_cons_self)
    refine ih hnext hnow ?_ hids htokens ?_
    · intro d hd
      obtain ⟨x, hx, hxsel⟩ := hsel d (List.mem_cons_of_mem _ hd)
      have hne : d.1 ≠ c.1 := fun h => hcid (h ▸ List.mem_map_of_mem hd)
      refine ⟨x, ?_, hxsel⟩
      rw [get?_grant, if_neg hne]
      exact hx
    · intro d hd hmem
      simp only [grant, List.map_cons, List.mem_cons] at hmem
      rcases hmem with heq | hmem
      · exact hctok (by
          have : d.2 = c.2 := heq
          exact this ▸ List.mem_map_of_mem hd)
      · exact hfresh d (List.mem_cons_of_mem _ hd) hmem

theorem foldl_grant_eq (now : Instant) (workerId : String) (lease : Int)
    (claims : List (UUID × UUID)) (s : LeaseState P) :
    claims.foldl (grant now workerId lease) s =
      { s with
        table := claimRows now workerId lease s.table claims
        leases := (claims.map (leaseOf now lease)).reverse ++ s.leases } := by
  induction claims generalizing s with
  | nil => rfl
  | cons c rest ih => simp [ih, grant, claimRows]

theorem drawTokens_fst (rows : List (OutboxRow P)) (uuid4 : UuidSource) :
    (drawTokens rows uuid4).map Prod.fst = rows.map OutboxRow.eventId := by
  simp [drawTokens, List.map_fst_zip, UuidSource.draws]

theorem drawTokens_snd (rows : List (OutboxRow P)) (uuid4 : UuidSource) :
    (drawTokens rows uuid4).map Prod.snd = uuid4.draws rows.length := by
  simp [drawTokens, List.map_snd_zip, UuidSource.draws]

theorem claimBatch_inv {s : LeaseState P} (hi : LeaseInv s) {now : Instant} {batchSize : Nat}
    {workerId : String} {lease : Int} {locked : UUID → Bool} {uuid4 : UuidSource}
    (hnow : now ≤ s.clock)
    (hfresh : FreshTokens s uuid4 (selectRows s.table now batchSize locked).length) :
    LeaseInv { s with
      table := (claimBatch s.table now batchSize workerId lease locked uuid4).1
      leases := ((drawTokens (selectRows s.table now batchSize locked) uuid4).map
        (leaseOf now lease)).reverse ++ s.leases } := by
  have hfold := foldl_grant_eq now workerId lease
    (drawTokens (selectRows s.table now batchSize locked) uuid4) s
  simp only [claimBatch]
  rw [← hfold]
  apply foldl_grant_inv _ hi hnow
  · intro c hc
    have hid : c.1 ∈ (selectRows s.table now batchSize locked).map OutboxRow.eventId := by
      rw [← drawTokens_fst _ uuid4]
      exact List.mem_map_of_mem hc
    obtain ⟨r, hr, hrid⟩ := List.mem_map.mp hid
    obtain ⟨hmem, hsel⟩ := mem_selectRows hr
    exact ⟨r, s.table.get?_some_iff.mpr ⟨hmem, hrid⟩, hsel⟩
  · rw [drawTokens_fst]
    exact selectRows_nodup s.table now batchSize locked
  · rw [drawTokens_snd]
    exact hfresh.1
  · intro c hc hmem
    obtain ⟨l, hl, hltok⟩ := List.mem_map.mp hmem
    refine hfresh.2 l hl ?_
    rw [hltok, ← drawTokens_snd]
    exact List.mem_map_of_mem hc

theorem leaseStep_inv (s : LeaseState P) (a : LeaseAction P) (s' : LeaseState P)
    (hi : LeaseInv s) (h : leaseStep s a = some s') : LeaseInv s' := by
  cases leaseStep_effect h with
  | raised => exact hi
  | ticked hle => exact tick_inv hi hle
  | added hpending hins => exact add_inv hi hpending hins
  | granted hnow hfresh => exact claimBatch_inv hi hnow hfresh
  | completed hget _ htoken =>
    exact acknowledge_inv _ hi hget htoken (Or.inr rfl) (Or.inl htoken) rfl
  | failed hget _ htoken =>
    exact acknowledge_inv _ hi hget htoken (Or.inl rfl) (Or.inr rfl) rfl

theorem start_inv : LeaseInv (leaseSystem P).start :=
  ⟨by simp [leaseSystem], by simp [leaseSystem], by simp [leaseSystem],
    by simp [leaseSystem]⟩

theorem reachable_inv {s : LeaseState P} (hs : (leaseSystem P).Reachable s) : LeaseInv s :=
  (leaseSystem P).reachable_invariant start_inv leaseStep_inv hs

end GroundGraph.Outbox
