import GroundGraph.Outbox.LeaseSafety

/-! The delay after a failure. `attempts` grows with every claim, and no run makes it smaller,
so neither does the delay; the power it is computed with leaves the doubles after 1023 claims.
A failure whose text the database cannot store is not recorded either.
-/

set_option autoImplicit false

namespace GroundGraph.Outbox

variable {P : Type}

def backoffDelay (attempts : Nat) : Nat := min 3600 (2 ^ (attempts + 1))

theorem backoffDelay_le (attempts : Nat) : backoffDelay attempts ≤ 3600 := Nat.min_le_left _ _

theorem backoffDelay_mono {m n : Nat} (h : m ≤ n) : backoffDelay m ≤ backoffDelay n := by
  have hpow : 2 ^ (m + 1) ≤ 2 ^ (n + 1) := Nat.pow_le_pow_right (by omega) (by omega)
  unfold backoffDelay
  omega

theorem backoffSeconds_ok_iff {attempts delay : Nat} :
    backoffSeconds attempts = .ok delay ↔ attempts < 1023 ∧ backoffDelay attempts = delay := by
  unfold backoffSeconds
  by_cases h : attempts < 1023
  · have hlt : attempts + 1 < 1024 := by omega
    simp [h, hlt, backoffDelay]
  · have hge : ¬ attempts + 1 < 1024 := by omega
    simp [h, hge]

def NeverFewer (t t' : OutboxTable P) : Prop :=
  ∀ k r, t.get? k = some r → ∃ r', t'.get? k = some r' ∧ r.attempts ≤ r'.attempts

theorem NeverFewer.refl (t : OutboxTable P) : NeverFewer t t := fun _ r hr => ⟨r, hr, le_rfl⟩

theorem NeverFewer.trans {t u v : OutboxTable P} (h : NeverFewer t u) (h' : NeverFewer u v) :
    NeverFewer t v := by
  intro k r hr
  obtain ⟨r', hr', hle⟩ := h k r hr
  obtain ⟨r'', hr'', hle'⟩ := h' k r' hr'
  exact ⟨r'', hr'', hle.trans hle'⟩

theorem NeverFewer.modifyAt (t : OutboxTable P) (eventId : UUID) {f : OutboxRow P → OutboxRow P}
    (hf : ∀ r, (f r).eventId = r.eventId) (hle : ∀ r, r.attempts ≤ (f r).attempts) :
    NeverFewer t (t.modifyAt eventId f hf) := by
  intro k r hr
  rw [KeyedTable.get?_modifyAt, hr]
  split
  · exact ⟨f r, rfl, hle r⟩
  · exact ⟨r, rfl, le_rfl⟩

theorem NeverFewer.claimRows (now : Instant) (workerId : String) (lease : Int)
    (claims : List (UUID × UUID)) (t : OutboxTable P) :
    NeverFewer t (claimRows now workerId lease t claims) := by
  induction claims generalizing t with
  | nil => exact .refl t
  | cons c rest ih =>
    have hone : NeverFewer t (t.modifyAt c.1 (claimRow now workerId lease c.2)
        (claimRow_eventId now workerId lease c.2)) :=
      .modifyAt t c.1 _ fun r => Nat.le_succ r.attempts
    exact hone.trans (ih _)

theorem leaseStep_neverFewer {s s' : LeaseState P} {a : LeaseAction P}
    (h : leaseStep s a = some s') : NeverFewer s.table s'.table := by
  cases leaseStep_effect h with
  | raised => exact .refl _
  | ticked _ => exact .refl _
  | added _ hins => exact fun k r hr => ⟨r, KeyedTable.get?_of_insert? hins hr, le_rfl⟩
  | granted _ _ => exact .claimRows _ _ _ _ _
  | @completed _ eventId _ now _ _ _ _ =>
    exact .modifyAt _ eventId (completeRow_eventId now) fun _ => le_rfl
  | @failed _ eventId _ error now delay _ _ _ _ =>
    exact .modifyAt _ eventId (failRow_eventId now delay error) fun _ => le_rfl

theorem run_neverFewer {s s' : LeaseState P} {as : List (LeaseAction P)}
    (h : (leaseSystem P).run s as = some s') : NeverFewer s.table s'.table :=
  (leaseSystem P).run_relates (I := fun _ => True)
    (R := fun u v => NeverFewer u.table v.table) (fun u => .refl u.table)
    (fun _ _ _ huv hvw => huv.trans hvw) (fun _ _ _ _ _ => trivial)
    (fun _ _ _ _ hstep => leaseStep_neverFewer hstep) trivial h

/-- The row of a failed event: pending again, without a lease, and due after the delay. -/
structure Released (now : Instant) (error : List Char) (r r' : OutboxRow P) : Prop where
  status : r'.status = .pending
  unclaimed : r'.claimedBy = none ∧ r'.claimToken = none ∧ r'.claimedAt = none ∧
    r'.leaseExpiresAt = none
  availableAt : r'.availableAt = now + seconds (min 3600 (2 ^ (r.attempts + 1)))
  lastError : r'.lastError = some (error.take 512)

/-- Failing the event with this text works, and no later failure of it waits for less, or for
over an hour. -/
structure BacksOff (s : LeaseState P) (eventId token : UUID) (r : OutboxRow P)
    (error : List Char) : Prop where
  released : ∀ now, ∃ t r', markFailed s.table (some r) eventId token error now = .ok t ∧
    t.get? eventId = some r' ∧ Released now error r r'
  never_sooner : ∀ as s' r', (leaseSystem P).run s as = some s' →
    s'.table.get? eventId = some r' → backoffDelay r.attempts ≤ backoffDelay r'.attempts
  capped : backoffDelay r.attempts ≤ 3600

section
variable {s : LeaseState P} {eventId token : UUID} {r : OutboxRow P} {error : List Char}

theorem checkClaim_of_claimed (hclaimed : r.status = .claimed)
    (htoken : r.claimToken = some token) : checkClaim (some r) token = .ok r := by
  simp [checkClaim, hclaimed, htoken]

theorem markFailed_of_attempts (hget : s.table.get? eventId = some r)
    (hclaimed : r.status = .claimed) (htoken : r.claimToken = some token)
    (hattempts : r.attempts < 1023) (herror : Storable (error.take 512)) (now : Instant) :
    markFailed s.table (some r) eventId token error now =
      .ok (s.table.modifyAt eventId (failRow now (backoffDelay r.attempts) error)
        (failRow_eventId now (backoffDelay r.attempts) error)) := by
  have hdelay : backoffSeconds r.attempts = .ok (backoffDelay r.attempts) :=
    backoffSeconds_ok_iff.mpr ⟨hattempts, rfl⟩
  have hholds : holdsClaim token r = true := by simp [holdsClaim, hclaimed, htoken]
  have hupdate : s.table.updateWhere eventId (holdsClaim token)
      (failRow now (backoffDelay r.attempts) error)
      (failRow_eventId now (backoffDelay r.attempts) error) = some _ :=
    KeyedTable.updateWhere_some_iff.mpr ⟨r, hget, hholds, rfl⟩
  unfold markFailed
  rw [checkClaim_of_claimed hclaimed htoken]
  simp only [bind, Except.bind, hdelay, herror, not_true, if_false, pure, Except.pure, hupdate]

theorem markFailed_of_exhausted {t : OutboxTable P} (hclaimed : r.status = .claimed)
    (htoken : r.claimToken = some token) (hattempts : 1023 ≤ r.attempts) (now : Instant) :
    markFailed t (some r) eventId token error now = .error .overflow := by
  have hover : backoffSeconds r.attempts = .error .overflow := by
    have hge : ¬ r.attempts + 1 < 1024 := by omega
    simp [backoffSeconds, hge]
  unfold markFailed
  rw [checkClaim_of_claimed hclaimed htoken]
  simp only [bind, Except.bind, hover]

theorem markFailed_of_not_storable {t : OutboxTable P} (hclaimed : r.status = .claimed)
    (htoken : r.claimToken = some token) (hattempts : r.attempts < 1023)
    (herror : ¬ Storable (error.take 512)) (now : Instant) :
    markFailed t (some r) eventId token error now = .error .dataError := by
  have hdelay : backoffSeconds r.attempts = .ok (backoffDelay r.attempts) :=
    backoffSeconds_ok_iff.mpr ⟨hattempts, rfl⟩
  unfold markFailed
  rw [checkClaim_of_claimed hclaimed htoken]
  simp only [bind, Except.bind, hdelay, herror, not_false_eq_true, if_true]
  rfl

theorem backsOff_iff_attempts (hget : s.table.get? eventId = some r)
    (hclaimed : r.status = .claimed) (htoken : r.claimToken = some token) :
    BacksOff s eventId token r error ↔ r.attempts < 1023 ∧ Storable (error.take 512) := by
  constructor
  · intro h
    obtain ⟨t, _, ht, _⟩ := h.released 0
    rcases Nat.lt_or_ge r.attempts 1023 with hattempts | hattempts
    · refine ⟨hattempts, ?_⟩
      by_contra herror
      rw [markFailed_of_not_storable hclaimed htoken hattempts herror] at ht
      cases ht
    · rw [markFailed_of_exhausted hclaimed htoken hattempts] at ht
      cases ht
  · rintro ⟨hattempts, herror⟩
    refine ⟨?_, ?_, backoffDelay_le r.attempts⟩
    · intro now
      refine ⟨_, failRow now (backoffDelay r.attempts) error r,
        markFailed_of_attempts hget hclaimed htoken hattempts herror now, ?_, ?_⟩
      · rw [KeyedTable.get?_modifyAt, if_pos rfl, hget, Option.map_some]
      · exact ⟨rfl, ⟨rfl, rfl, rfl, rfl⟩, rfl, rfl⟩
    · intro as s' r' hrun hget'
      obtain ⟨r'', hr'', hle⟩ := run_neverFewer hrun eventId r hget
      obtain rfl : r'' = r' := Option.some.inj (hr''.symm.trans hget')
      exact backoffDelay_mono hle

theorem backsOff_iff (hs : (leaseSystem P).Reachable s) (hget : s.table.get? eventId = some r)
    (hclaimed : r.status = .claimed) (htoken : r.claimToken = some token) :
    (BacksOff s eventId token r error ↔ r.attempts < 1023 ∧ Storable (error.take 512)) ∧
      ∃ e ∈ s.added, e.eventId = eventId ∧ r.attempts = e.attempts + claimCount s eventId := by
  refine ⟨backsOff_iff_attempts hget hclaimed htoken, ?_⟩
  have hattempts := ((reachable_inv hs).rows eventId r hget).attempts
  rwa [get?_eventId hget] at hattempts

end

/-- An event whose lease ran out twice, claimed for the third time. -/
def thirdClaim : List (LeaseAction Unit) :=
  [.add ⟨1, "fact", 7, .factCandidate, (), .pending, 0, none, 0, none, none, none⟩,
   .claimBatch 0 10 "a" 30 (fun _ => false) (fun n => BitVec.ofNat 128 (n + 100)),
   .tick 40000000,
   .claimBatch 40000000 10 "a" 30 (fun _ => false) (fun n => BitVec.ofNat 128 (n + 200)),
   .tick 80000000,
   .claimBatch 80000000 10 "b" 30 (fun _ => false) (fun n => BitVec.ofNat 128 (n + 300))]

theorem backsOff_thirdClaim :
    ∃ s r, (leaseSystem Unit).run (leaseSystem Unit).start thirdClaim = some s ∧
      s.table.get? 1 = some r ∧ r.attempts = 3 ∧ BacksOff s 1 300 r "no such entity".toList := by
  have hview : ((leaseSystem Unit).run (leaseSystem Unit).start thirdClaim).bind (fun s =>
      (s.table.get? 1).map fun r => (r.status, r.claimToken, r.attempts)) =
        some (.claimed, some 300, 3) := by decide
  obtain ⟨s, hs, hrow⟩ := Option.bind_eq_some_iff.mp hview
  obtain ⟨r, hget, hfields⟩ := Option.map_eq_some_iff.mp hrow
  simp only [Prod.mk.injEq] at hfields
  obtain ⟨hclaimed, htoken, hattempts⟩ := hfields
  refine ⟨s, r, hs, hget, hattempts, ?_⟩
  exact (backsOff_iff ⟨thirdClaim, hs⟩ hget hclaimed htoken).1.mpr ⟨by omega, by decide⟩

def othersLocked (eventId k : UUID) : Bool := decide (k ≠ eventId)

theorem selectRows_alone {t : OutboxTable P} {eventId : UUID} {r : OutboxRow P} {now : Instant}
    (hget : t.get? eventId = some r) (hsel : selectable now r = true) :
    selectRows t now 1 (othersLocked eventId) = [r] := by
  have hid := get?_eventId hget
  have hfilter : (t.rows.filter fun x => selectable now x && !othersLocked eventId x.eventId) =
      [r] := by
    refine t.filter_eq_singleton hget (by simp [hsel, hid, othersLocked]) fun x hx => ?_
    simp only [othersLocked, Bool.and_eq_true, Bool.not_eq_true', decide_eq_false_iff_not,
      not_not] at hx
    exact hx.2
  unfold selectRows
  rw [hfilter]
  rfl

theorem claim_again {s : LeaseState P} (hs : (leaseSystem P).Reachable s) (token : UUID)
    {eventId : UUID} {r : OutboxRow P} (hget : s.table.get? eventId = some r)
    (hne : r.status ≠ .completed)
    (hfresh : ∀ l ∈ s.leases, l.token ≠ token) :
    ∃ s' r', (leaseSystem P).Reachable s' ∧ s'.added = s.added ∧
      s'.leases.map Lease.token = token :: s.leases.map Lease.token ∧
      s'.table.get? eventId = some r' ∧ r'.status = .claimed ∧ r'.claimToken = some token ∧
      r'.attempts = r.attempts + 1 := by
  have hmem := (s.table.get?_some_iff.mp hget).1
  obtain ⟨t, hle, hsel⟩ := (reachable_inv hs).claimable hmem hne
  have hrows := selectRows_alone hget (hsel t le_rfl)
  have htick : (leaseSystem P).step s (.tick t) = some { s with clock := t } := by
    simp [leaseSystem, leaseStep, hle]
  have htokens : FreshTokens { s with clock := t } (fun _ => token) 1 := by
    refine ⟨by simp [UuidSource.FreshUpTo, UuidSource.draws], fun l hl => ?_⟩
    simpa [UuidSource.draws] using hfresh l hl
  have hclaim : (leaseSystem P).step { s with clock := t }
      (.claimBatch t 1 "worker" 30 (othersLocked eventId) fun _ => token) =
      some { s with
        clock := t
        table := s.table.modifyAt eventId (claimRow t "worker" 30 token)
          (claimRow_eventId t "worker" 30 token)
        leases := leaseOf t 30 (eventId, token) :: s.leases } := by
    simp [leaseSystem, leaseStep, claimBatch, hrows, htokens, drawTokens, UuidSource.draws,
      claimRows, get?_eventId hget]
  have hrun := (leaseSystem P).run_cons_iff.mpr ⟨_, htick, (leaseSystem P).run_single hclaim⟩
  refine ⟨_, claimRow t "worker" 30 token r, hs.run (leaseSystem P) hrun, rfl, rfl, ?_, rfl, rfl,
    rfl⟩
  rw [KeyedTable.get?_modifyAt, if_pos rfl, hget, Option.map_some]

def newEvent : OutboxEvent Unit :=
  ⟨1, "fact", 7, .factCandidate, (), .pending, 0, none, 0, none, none, none⟩

theorem claimed_times (n : Nat) (hn : n < 2 ^ 128) :
    ∃ s r, (leaseSystem Unit).Reachable s ∧ s.added = [newEvent] ∧
      s.leases.map Lease.token = ((List.range (n + 1)).map (BitVec.ofNat 128)).reverse ∧
      s.table.get? 1 = some r ∧ r.status = .claimed ∧ r.claimToken = some (BitVec.ofNat 128 n) ∧
      r.attempts = n + 1 := by
  induction n with
  | zero =>
    have hadd : ((leaseSystem Unit).run (leaseSystem Unit).start [.add newEvent]).map (fun s =>
        (s.added, s.leases, (s.table.get? 1))) = some ([newEvent], [], some (rowOfEvent newEvent)) :=
      rfl
    obtain ⟨s, hs, hview⟩ := Option.map_eq_some_iff.mp hadd
    simp only [Prod.mk.injEq] at hview
    obtain ⟨hadded, hleases, hget⟩ := hview
    obtain ⟨s', r', hs', hadded', htokens, hget', hclaimed, htoken, hattempts⟩ :=
      claim_again ⟨[.add newEvent], hs⟩ (BitVec.ofNat 128 0) hget (by decide)
        (by simp [hleases])
    exact ⟨s', r', hs', hadded'.trans hadded, by simpa [hleases] using htokens, hget', hclaimed,
      htoken, hattempts⟩
  | succ n ih =>
    obtain ⟨s, r, hs, hadded, hleases, hget, hclaimed, _, hattempts⟩ := ih (by omega)
    have hfresh : ∀ l ∈ s.leases, l.token ≠ BitVec.ofNat 128 (n + 1) := by
      intro l hl heq
      have hmem : l.token ∈ s.leases.map Lease.token := List.mem_map_of_mem hl
      rw [hleases, heq, List.mem_reverse] at hmem
      obtain ⟨i, hi, hsame⟩ := List.mem_map.mp hmem
      have hval := congrArg BitVec.toNat hsame
      have hlt := List.mem_range.mp hi
      simp only [BitVec.toNat_ofNat] at hval
      rw [Nat.mod_eq_of_lt (by omega), Nat.mod_eq_of_lt hn] at hval
      omega
    obtain ⟨s', r', hs', hadded', htokens, hget', hclaimed', htoken', hattempts'⟩ :=
      claim_again hs _ hget (by simp [hclaimed]) hfresh
    refine ⟨s', r', hs', hadded'.trans hadded, ?_, hget', hclaimed', htoken', by omega⟩
    rw [htokens, hleases, List.range_succ (n := n + 1)]
    simp

theorem not_backsOff_claimed :
    ¬ ∀ s, (leaseSystem Unit).Reachable s → (∀ e ∈ s.added, e.attempts = 0) →
      ∀ eventId token r, s.table.get? eventId = some r → r.status = .claimed →
        r.claimToken = some token → ∀ error, BacksOff s eventId token r error := by
  intro h
  obtain ⟨s, r, hs, hadded, _, hget, hclaimed, htoken, hattempts⟩ := claimed_times 1022 (by omega)
  have hzero : ∀ e ∈ s.added, e.attempts = 0 := by
    intro e he
    rw [hadded, List.mem_singleton] at he
    rw [he]
    rfl
  have hsmall := (backsOff_iff_attempts hget hclaimed htoken).mp
    (h s hs hzero 1 _ r hget hclaimed htoken [])
  omega

end GroundGraph.Outbox
