import GroundGraph.Outbox.LeaseSafety

/-! What no call on the outbox touches: the type and the payload of an event. Only
`mark_completed` makes a row completed.
-/

set_option autoImplicit false

namespace GroundGraph.Outbox

variable {P : Type}

structure SameEvent (r r' : OutboxRow P) : Prop where
  eventId : r'.eventId = r.eventId
  eventType : r'.eventType = r.eventType
  payload : r'.payload = r.payload

theorem SameEvent.refl (r : OutboxRow P) : SameEvent r r := ⟨rfl, rfl, rfl⟩

theorem SameEvent.trans {r r' r'' : OutboxRow P} (h : SameEvent r r') (h' : SameEvent r' r'') :
    SameEvent r r'' :=
  ⟨h'.eventId.trans h.eventId, h'.eventType.trans h.eventType, h'.payload.trans h.payload⟩

theorem sameEvent_claimRow (now : Instant) (workerId : String) (lease : Int) (token : UUID)
    (r : OutboxRow P) : SameEvent r (claimRow now workerId lease token r) := ⟨rfl, rfl, rfl⟩

theorem get?_modifyAt_sameEvent {t : OutboxTable P} (eventId : UUID)
    {f : OutboxRow P → OutboxRow P} (hf : ∀ r, (f r).eventId = r.eventId)
    (hsame : ∀ r, SameEvent r (f r)) {k : UUID} {r : OutboxRow P} (h : t.get? k = some r) :
    ∃ r', (t.modifyAt eventId f hf).get? k = some r' ∧ SameEvent r r' ∧
      (r' = r ∨ k = eventId ∧ r' = f r) := by
  rw [KeyedTable.get?_modifyAt]
  by_cases hk : k = eventId
  · rw [if_pos hk, h, Option.map_some]
    exact ⟨f r, rfl, hsame r, Or.inr ⟨hk, rfl⟩⟩
  · rw [if_neg hk, h]
    exact ⟨r, rfl, .refl r, Or.inl rfl⟩

theorem get?_claimRows (now : Instant) (workerId : String) (lease : Int)
    (claims : List (UUID × UUID)) (t : OutboxTable P) {k : UUID} {r : OutboxRow P}
    (h : t.get? k = some r) :
    ∃ r', (claimRows now workerId lease t claims).get? k = some r' ∧ SameEvent r r' ∧
      (r'.status = .completed → r.status = .completed) := by
  induction claims generalizing t r with
  | nil => exact ⟨r, h, .refl r, fun hc => hc⟩
  | cons c claims ih =>
    obtain ⟨m, hm, hsame, hcase⟩ := get?_modifyAt_sameEvent c.1
      (claimRow_eventId now workerId lease c.2)
      (sameEvent_claimRow now workerId lease c.2) h
    obtain ⟨r', hr', hsame', hcompleted⟩ := ih _ hm
    refine ⟨r', hr', hsame.trans hsame', fun hc => ?_⟩
    rcases hcase with rfl | ⟨_, rfl⟩
    · exact hcompleted hc
    · have hclaimed := hcompleted hc
      simp [claimRow] at hclaimed

theorem get?_claimRows_none (now : Instant) (workerId : String) (lease : Int)
    (claims : List (UUID × UUID)) (t : OutboxTable P) {k : UUID} (h : t.get? k = none) :
    (claimRows now workerId lease t claims).get? k = none := by
  induction claims generalizing t with
  | nil => exact h
  | cons c claims ih =>
    refine ih _ ?_
    rw [KeyedTable.get?_modifyAt, h]
    simp

theorem get?_claimRows_of_mem (now : Instant) (workerId : String) (lease : Int)
    {claims : List (UUID × UUID)} (t : OutboxTable P) (hnodup : (claims.map Prod.fst).Nodup)
    {k token : UUID} (hk : (k, token) ∈ claims) :
    (claimRows now workerId lease t claims).get? k =
      (t.get? k).map (claimRow now workerId lease token) := by
  induction claims generalizing t with
  | nil => cases hk
  | cons c claims ih =>
    obtain ⟨hnew, hrest⟩ := List.nodup_cons.mp hnodup
    rcases List.mem_cons.mp hk with rfl | hk
    · rw [claimRows, get?_claimRows_of_not_mem _ _ _ _ _ hnew, KeyedTable.get?_modifyAt, if_pos rfl]
    · have hne : k ≠ c.1 := fun h => hnew (h ▸ List.mem_map_of_mem hk)
      rw [claimRows, ih _ hrest hk, KeyedTable.get?_modifyAt, if_neg hne]

theorem leaseStep_row {s s' : LeaseState P} {a : LeaseAction P} (h : leaseStep s a = some s')
    {k : UUID} {r : OutboxRow P} (hr : s.table.get? k = some r) :
    ∃ r', s'.table.get? k = some r' ∧ SameEvent r r' ∧
      (r'.status = .completed → r.status = .completed ∨
        ∃ seen token now, a = .markCompleted seen k token now) := by
  cases leaseStep_effect h with
  | raised => exact ⟨r, hr, .refl r, Or.inl⟩
  | ticked _ => exact ⟨r, hr, .refl r, Or.inl⟩
  | added _ hins => exact ⟨r, KeyedTable.get?_of_insert? hins hr, .refl r, Or.inl⟩
  | @granted now _ workerId lease _ _ _ _ =>
    obtain ⟨r', hr', hsame, hcompleted⟩ := get?_claimRows now workerId lease _ s.table hr
    exact ⟨r', hr', hsame, fun hc => Or.inl (hcompleted hc)⟩
  | @completed seen eventId token now _ _ _ _ =>
    obtain ⟨r', hr', hsame, hcase⟩ := get?_modifyAt_sameEvent eventId
      (completeRow_eventId now) (fun _ => ⟨rfl, rfl, rfl⟩) hr
    refine ⟨r', hr', hsame, fun hc => ?_⟩
    rcases hcase with rfl | ⟨rfl, _⟩
    · exact Or.inl hc
    · exact Or.inr ⟨seen, token, now, rfl⟩
  | @failed _ eventId _ error now delay _ _ _ _ =>
    obtain ⟨r', hr', hsame, hcase⟩ := get?_modifyAt_sameEvent eventId
      (failRow_eventId now delay error) (fun _ => ⟨rfl, rfl, rfl⟩) hr
    refine ⟨r', hr', hsame, fun hc => ?_⟩
    rcases hcase with rfl | ⟨_, rfl⟩
    · exact Or.inl hc
    · simp [failRow] at hc

theorem leaseStep_new_row {s s' : LeaseState P} {a : LeaseAction P} (h : leaseStep s a = some s')
    {k : UUID} {r' : OutboxRow P} (hr' : s'.table.get? k = some r')
    (hnone : s.table.get? k = none) : r'.status = .pending := by
  cases leaseStep_effect h with
  | raised =>
    rw [hnone] at hr'
    cases hr'
  | ticked _ =>
    rw [hnone] at hr'
    cases hr'
  | added hpending hins =>
    simp only at hr'
    rw [KeyedTable.get?_insert? hins] at hr'
    split at hr'
    · obtain rfl := Option.some.inj hr'
      simp [rowOfEvent, hpending, OutboxEventStatus.value]
    · rw [hnone] at hr'
      cases hr'
  | granted _ _ =>
    simp only [claimBatch] at hr'
    rw [get?_claimRows_none _ _ _ _ _ hnone] at hr'
    cases hr'
  | completed _ _ _ =>
    rw [KeyedTable.get?_modifyAt, hnone] at hr'
    simp at hr'
  | failed _ _ _ =>
    rw [KeyedTable.get?_modifyAt, hnone] at hr'
    simp at hr'

theorem leaseStep_origin {s s' : LeaseState P} {a : LeaseAction P} (h : leaseStep s a = some s')
    {r' : OutboxRow P} (hr' : r' ∈ s'.table.rows) :
    (∃ r ∈ s.table.rows, SameEvent r r') ∨ ∃ e, a = .add e ∧ r' = rowOfEvent e := by
  have hget' := s'.table.mem_rows_iff.mp hr'
  cases hget : s.table.get? r'.eventId with
  | some r =>
    obtain ⟨x, hx, hsame, _⟩ := leaseStep_row h hget
    obtain rfl : x = r' := Option.some.inj (hx.symm.trans hget')
    exact Or.inl ⟨r, (s.table.get?_some_iff.mp hget).1, hsame⟩
  | none =>
    cases leaseStep_effect h with
    | raised =>
      rw [hget] at hget'
      cases hget'
    | ticked _ =>
      rw [hget] at hget'
      cases hget'
    | @added e _ _ hins =>
      simp only at hget'
      rw [KeyedTable.get?_insert? hins] at hget'
      split at hget'
      · exact Or.inr ⟨e, rfl, (Option.some.inj hget').symm⟩
      · rw [hget] at hget'
        cases hget'
    | granted _ _ =>
      simp only [claimBatch] at hget'
      rw [get?_claimRows_none _ _ _ _ _ hget] at hget'
      cases hget'
    | completed _ _ _ =>
      rw [KeyedTable.get?_modifyAt, hget] at hget'
      simp at hget'
    | failed _ _ _ =>
      rw [KeyedTable.get?_modifyAt, hget] at hget'
      simp at hget'

end GroundGraph.Outbox
