import GroundGraph.Outbox.Lease

/-! What the lease invariant gives: no step rewrites a completed row, no two
leases on one event are live together, a superseded token is powerless, and every
unfinished row can be claimed again.
-/

set_option autoImplicit false

namespace GroundGraph.Outbox

variable {P : Type}

theorem get?_claimRows_of_not_mem (now : Instant) (workerId : String) (lease : Int)
    (claims : List (UUID × UUID)) (t : OutboxTable P) {k : UUID}
    (hk : k ∉ claims.map Prod.fst) :
    (claimRows now workerId lease t claims).get? k = t.get? k := by
  induction claims generalizing t with
  | nil => rfl
  | cons c rest ih =>
    simp only [List.map_cons, List.mem_cons, not_or] at hk
    rw [claimRows, ih _ hk.2, KeyedTable.get?_modifyAt, if_neg hk.1]

theorem get?_modifyAt_of_claimed {t : OutboxTable P} {k eventId : UUID} {r x : OutboxRow P}
    {f : OutboxRow P → OutboxRow P} (hf : ∀ r, (f r).eventId = r.eventId)
    (hget : t.get? k = some r) (hr : r.status = .completed) (hx : t.get? eventId = some x)
    (hclaimed : x.status = .claimed) : (t.modifyAt eventId f hf).get? k = some r := by
  have hne : k ≠ eventId := by
    rintro rfl
    obtain rfl : r = x := Option.some.inj (hget.symm.trans hx)
    simp [hr] at hclaimed
  rw [KeyedTable.get?_modifyAt, if_neg hne]
  exact hget

theorem leaseStep_completed {s s' : LeaseState P} {a : LeaseAction P}
    (h : leaseStep s a = some s') {k : UUID} {r : OutboxRow P} (hget : s.table.get? k = some r)
    (hr : r.status = .completed) : s'.table.get? k = some r := by
  cases leaseStep_effect h with
  | raised => exact hget
  | ticked _ => exact hget
  | added _ hins => exact KeyedTable.get?_of_insert? hins hget
  | @granted now batchSize workerId lease locked uuid4 _ _ =>
    -- a completed row is not selected
    have hk : k ∉ (drawTokens (selectRows s.table now batchSize locked) uuid4).map Prod.fst := by
      rw [drawTokens_fst]
      intro hmem
      obtain ⟨x, hx, rfl⟩ := List.mem_map.mp hmem
      obtain ⟨hxrows, hxsel⟩ := mem_selectRows hx
      have hxr : x = r := by
        rw [KeyedTable.mem_rows_iff, hget] at hxrows
        exact (Option.some.inj hxrows).symm
      subst hxr
      rcases (selectable_iff.mp hxsel).1 with hst | ⟨hst, _⟩ <;> simp [hr] at hst
    exact (get?_claimRows_of_not_mem now workerId lease _ s.table hk).trans hget
  | @completed _ eventId _ now _ hx hclaimed _ =>
    exact get?_modifyAt_of_claimed (completeRow_eventId now) hget hr hx hclaimed
  | @failed _ eventId _ error now delay _ hx hclaimed _ =>
    exact get?_modifyAt_of_claimed (failRow_eventId now delay error) hget hr hx hclaimed

theorem run_completed {s s' : LeaseState P} {as : List (LeaseAction P)}
    (h : (leaseSystem P).run s as = some s') {k : UUID} {r : OutboxRow P}
    (hget : s.table.get? k = some r) (hr : r.status = .completed) :
    s'.table.get? k = some r :=
  (leaseSystem P).run_preserves (I := fun u => u.table.get? k = some r)
    (fun _ _ _ hu hstep => leaseStep_completed hstep hu hr) hget h

def GrantedBefore (s : LeaseState P) (l m : Lease) : Prop :=
  ∃ i j : Nat, j < i ∧ s.leases[i]? = some l ∧ s.leases[j]? = some m

theorem LeaseInv.newest_ne {s : LeaseState P} (hi : LeaseInv s) {l m : Lease}
    (h : GrantedBefore s l m) (he : l.eventId = m.eventId) : newest s l.eventId ≠ some l := by
  obtain ⟨i, j, hji, hl, hm⟩ := h
  intro hnew
  obtain ⟨_, n, hn, hnl, hfirst⟩ := List.find?_eq_some_iff_getElem.mp hnew
  have hnodup : s.leases.Nodup := hi.tokens.of_map
  obtain ⟨hilt, hil⟩ := List.getElem?_eq_some_iff.mp hl
  obtain ⟨hjlt, hjm⟩ := List.getElem?_eq_some_iff.mp hm
  have hni : n = i := (List.Nodup.getElem_inj_iff hnodup).mp (hnl.trans hil.symm)
  have hskip := hfirst j (by omega)
  simp [hjm, he] at hskip

/-- Parts (a) to (f) of lease safety, for one reachable state. -/
structure LeaseSafe (s : LeaseState P) : Prop where
  completed_absorbing : ∀ r ∈ s.table.rows, r.status = .completed →
    ∀ as t, (leaseSystem P).run s as = some t → r ∈ t.table.rows
  live_unique : ∀ l ∈ s.leases, ∀ m ∈ s.leases, l.eventId = m.eventId →
    l.Live s → m.Live s → l = m
  superseded : ∀ l m, GrantedBefore s l m → l.eventId = m.eventId → ∀ seen error now,
    (∃ e, markCompleted s.table seen l.eventId l.token now = .error e) ∧
    (∃ e, markFailed s.table seen l.eventId l.token error now = .error e)
  claimed_fields : ∀ r ∈ s.table.rows, r.status = .claimed →
    r.claimToken.isSome ∧ r.claimedAt.isSome ∧ r.leaseExpiresAt.isSome
  attempts_exact : ∀ r ∈ s.table.rows, ∃ e ∈ s.added, e.eventId = r.eventId ∧
    r.attempts = e.attempts + claimCount s r.eventId
  claimable_again : ∀ r ∈ s.table.rows, r.status ≠ .completed →
    ∃ t, s.clock ≤ t ∧ ∀ now, t ≤ now → selectable now r = true

theorem LeaseInv.token_of_held {s : LeaseState P} (hi : LeaseInv s) {l m : Lease}
    (h : GrantedBefore s l m) (he : l.eventId = m.eventId) {r : OutboxRow P}
    (hget : s.table.get? l.eventId = some r) : r.claimToken ≠ some l.token := by
  intro htoken
  obtain ⟨n, hn, hntok⟩ := (hi.rows _ r hget).token _ htoken
  rw [get?_eventId hget] at hn
  obtain ⟨i, j, _, hl, _⟩ := id h
  have hnl : n = l := hi.eq_of_token (newest_some hn).1 (List.mem_of_getElem? hl) hntok
  exact hi.newest_ne h he (hnl ▸ hn)

theorem LeaseInv.claimable {s : LeaseState P} (hi : LeaseInv s) {r : OutboxRow P}
    (hr : r ∈ s.table.rows) (hne : r.status ≠ .completed) :
    ∃ t, s.clock ≤ t ∧ ∀ now, t ≤ now → selectable now r = true := by
  have hrow := hi.rows _ r (s.table.mem_rows_iff.mp hr)
  rcases hrow.status with hst | hst | hst
  · refine ⟨max s.clock r.availableAt, le_max_left _ _, fun now hnow => ?_⟩
    exact selectable_iff.mpr ⟨Or.inl hst, (le_max_right _ _).trans hnow⟩
  · obtain ⟨l, _, _, hexp, _⟩ := hrow.claimed hst
    refine ⟨max s.clock (max r.availableAt l.expiresAt), le_max_left _ _, fun now hnow => ?_⟩
    have hboth := (le_max_right _ _).trans hnow
    exact selectable_iff.mpr ⟨Or.inr ⟨hst, l.expiresAt, hexp, (le_max_right _ _).trans hboth⟩,
      (le_max_left _ _).trans hboth⟩
  · exact absurd hst hne

theorem outbox_lease_safe {s : LeaseState P} (hs : (leaseSystem P).Reachable s) : LeaseSafe s := by
  have hi := reachable_inv hs
  refine ⟨?_, ?_, ?_, ?_, ?_, fun r hr hne => hi.claimable hr hne⟩
  · intro r hr hst as t ht
    have hget := run_completed ht (s.table.mem_rows_iff.mp hr) hst
    exact (t.table.get?_some_iff.mp hget).1
  · intro l hl m hm he hlive hmlive
    obtain ⟨r, hget⟩ := Option.isSome_iff_exists.mp (isSome_iff_mem_eventIds.mp (hi.known l hl))
    have hid := get?_eventId hget
    have hltok := ((hi.rows _ r hget).live l hl hid.symm hlive).2
    have hmtok := ((hi.rows _ r hget).live m hm (he.symm.trans hid.symm) hmlive).2
    exact hi.eq_of_token hl hm (Option.some.inj (hltok.symm.trans hmtok))
  · intro l m hlm he seen error now
    constructor
    · cases h : markCompleted s.table seen l.eventId l.token now with
      | error e => exact ⟨e, rfl⟩
      | ok t =>
        obtain ⟨r, hget, _, htok, _⟩ := markCompleted_ok h
        exact absurd htok (hi.token_of_held hlm he hget)
    · cases h : markFailed s.table seen l.eventId l.token error now with
      | error e => exact ⟨e, rfl⟩
      | ok t =>
        obtain ⟨r, _, hget, _, htok, _⟩ := markFailed_ok h
        exact absurd htok (hi.token_of_held hlm he hget)
  · intro r hr hst
    obtain ⟨l, _, htok, hexp, hat⟩ := (hi.rows _ r (s.table.mem_rows_iff.mp hr)).claimed hst
    exact ⟨by simp [htok], hat, by simp [hexp]⟩
  · intro r hr
    exact (hi.rows _ r (s.table.mem_rows_iff.mp hr)).attempts

/-- One event is claimed, outlives its lease and is claimed again. -/
def lateReport : List (LeaseAction Unit) :=
  [.add ⟨1, "fact", 7, .factCandidate, (), .pending, 0, none, 0, none, none, none⟩,
   .tick 5,
   .claimBatch 5 10 "a" 30 (fun _ => false) (fun n => BitVec.ofNat 128 (n + 100)),
   .tick 40000000,
   .claimBatch 40000000 10 "b" 30 (fun _ => false) (fun n => BitVec.ofNat 128 (n + 200)),
   .tick 41000000]

theorem outbox_lease_safe_lateReport :
    ∃ s, (leaseSystem Unit).run (leaseSystem Unit).start lateReport = some s ∧
      s.leases.map Lease.token = [200, 100] ∧ LeaseSafe s := by
  have hrun : ((leaseSystem Unit).run (leaseSystem Unit).start lateReport).isSome := by decide
  obtain ⟨s, hs⟩ := Option.isSome_iff_exists.mp hrun
  have htokens : ((leaseSystem Unit).run (leaseSystem Unit).start lateReport).map
      (fun s => s.leases.map Lease.token) = some [200, 100] := by decide
  rw [hs] at htokens
  exact ⟨s, hs, Option.some.inj htokens, outbox_lease_safe ⟨lateReport, hs⟩⟩

end GroundGraph.Outbox
