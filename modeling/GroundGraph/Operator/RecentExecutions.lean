import GroundGraph.Library.Correspondence
import GroundGraph.Operator.TenantIsolation

/-! `list_recent_executions` of `api/operator.py`. The store limits the runs of all tenants, the
endpoint then picks those of the operator's own.
-/

set_option autoImplicit false

namespace GroundGraph.Operator

open GroundGraph.Execution

/-- `started_at DESC` does not put the second in front; a missing time comes first. -/
def StartsNoEarlier : Option Instant → Option Instant → Prop
  | none, _ => True
  | some _, none => False
  | some a, some b => b ≤ a

/-- A result of `ORDER BY started_at DESC`; rows with one time come in any order. -/
structure RecentOrder (runs : RunTable) where
  rows : List RunRow
  perm : rows.Perm runs.rows
  sorted : rows.Pairwise fun a b => StartsNoEarlier a.startedAt b.startedAt

/-- `Query(default=20, ge=1, le=100)`. -/
structure ListLimit where
  value : Nat := 20
  ge : 1 ≤ value := by decide
  le : value ≤ 100 := by decide

def listRecentRuns {runs : RunTable} (order : RecentOrder runs) (limit : Nat) :
    Except ExecutionError (List ExecutionRun) :=
  (order.rows.take limit).mapM sqlRunToDomain

/-- An exception of the store is answered with an empty list, one of a summary is not caught. -/
def listRecentExecutions (db : OperatorDb) (call : Call) (order : RecentOrder db.runs)
    (limit : ListLimit) : Except HttpError (List ExecutionRunSummary) :=
  if call.fails then .ok []
  else
    match listRecentRuns order limit.value with
    | .error _ => .ok []
    | .ok runs => (runs.filter fun run => !call.foreign run.tenantId).mapM (summaryAnswer call)

theorem listRecentExecutions_cases {db : OperatorDb} {call : Call} {order : RecentOrder db.runs}
    {limit : ListLimit} {answer : List ExecutionRunSummary}
    (h : listRecentExecutions db call order limit = .ok answer) :
    answer = [] ∨ ∃ runs, call.fails = false ∧ listRecentRuns order limit.value = .ok runs ∧
      (runs.filter fun run => !call.foreign run.tenantId).mapM (summaryAnswer call) =
        .ok answer := by
  unfold listRecentExecutions at h
  split at h
  · exact Or.inl (Except.ok.inj h).symm
  · rename_i hfails
    split at h
    · exact Or.inl (Except.ok.inj h).symm
    · rename_i runs hread
      exact Or.inr ⟨runs, by simpa using hfails, hread, h⟩

def Readable (row : RunRow) : Prop :=
  ∃ status, ExecutionRunStatus.ofValue? row.status = some status ∧
    (status.isTerminal = true → row.finishedAt.isSome = true)

/-- The values of the row have the types of the fields of a summary. -/
structure Presentable (row : RunRow) : Prop where
  started : row.startedAt.isSome = true
  question : (textOrNone (JsonObject.find "question" row.input)).isSome = true
  answer : (textOrNone (JsonObject.find "answer" row.output)).isSome = true
  warnings : (texts (listAt "warnings" row.output)).isSome = true
  claims : (jsonLength (listAt "claims" row.output)).isSome = true
  citations : (jsonLength (listAt "citations" row.output)).isSome = true

structure ReadAs (row : RunRow) (run : ExecutionRun) : Prop where
  runId : run.runId = row.runId
  tenantId : run.tenantId = row.tenantId
  input : run.input = row.input
  output : run.output = row.output
  startedAt : run.startedAt = row.startedAt

theorem sqlRunToDomain_readAs {row : RunRow} {run : ExecutionRun}
    (h : sqlRunToDomain row = .ok run) : ReadAs row run := by
  unfold sqlRunToDomain at h
  split at h
  · cases h
  · simp only [snapshot_toPy, bind, Except.bind] at h
    split at h
    · obtain rfl := Except.ok.inj h
      exact ⟨rfl, rfl, rfl, rfl, rfl⟩
    · cases h

theorem sqlRunToDomain_ok_iff {row : RunRow} :
    (∃ run, sqlRunToDomain row = .ok run) ↔ Readable row := by
  unfold sqlRunToDomain Readable
  cases hstatus : ExecutionRunStatus.ofValue? row.status with
  | none => simp [throw, throwThe, MonadExceptOf.throw]
  | some status =>
    simp only [snapshot_toPy, bind, Except.bind, Option.some.injEq, exists_eq_left']
    split
    · rename_i hterminal
      exact iff_of_true ⟨_, rfl⟩ hterminal
    · rename_i hterminal
      refine iff_of_false ?_ hterminal
      rintro ⟨run, hrun⟩
      cases hrun

def Shows (row : RunRow) (s : ExecutionRunSummary) : Prop :=
  s.runId = row.runId ∧ row.startedAt = some s.startedAt

theorem summarize_isSome_iff (url : Option (List Char)) {row : RunRow} {run : ExecutionRun}
    (h : ReadAs row run) : (summarize url run).isSome ↔ Presentable row := by
  unfold summarize
  rw [h.input, h.output, h.startedAt]
  constructor
  · intro hsome
    obtain ⟨s, hs⟩ := Option.isSome_iff_exists.mp hsome
    simp only [bind, Option.bind_eq_some_iff] at hs
    obtain ⟨claims, hclaims, citations, hcitations, started, hstarted, question, hquestion, answer,
      hanswer, warnings, hwarnings, _⟩ := hs
    constructor <;> simp [*]
  · rintro ⟨hstarted, hquestion, hanswer, hwarnings, hclaims, hcitations⟩
    rw [Option.isSome_iff_exists] at hstarted hquestion hanswer hwarnings hclaims hcitations
    obtain ⟨started, hstarted⟩ := hstarted
    obtain ⟨question, hquestion⟩ := hquestion
    obtain ⟨answer, hanswer⟩ := hanswer
    obtain ⟨warnings, hwarnings⟩ := hwarnings
    obtain ⟨claims, hclaims⟩ := hclaims
    obtain ⟨citations, hcitations⟩ := hcitations
    simp [hstarted, hquestion, hanswer, hwarnings, hclaims, hcitations]

theorem summaryAnswer_ok_iff {call : Call} {row : RunRow} {run : ExecutionRun}
    (h : ReadAs row run) : (∃ s, summaryAnswer call run = .ok s) ↔ Presentable row := by
  rw [← summarize_isSome_iff (traceUrl call run.runId) h]
  unfold summaryAnswer
  cases summarize (traceUrl call run.runId) run <;> simp

theorem summarize_shows {url : Option (List Char)} {row : RunRow} {run : ExecutionRun}
    {s : ExecutionRunSummary} (h : ReadAs row run) (hs : summarize url run = some s) :
    Shows row s := by
  simp only [summarize, bind, Option.bind_eq_some_iff] at hs
  obtain ⟨_, _, _, _, started, hstarted, _, _, _, _, _, _, hs⟩ := hs
  obtain rfl := Option.some.inj hs
  exact ⟨h.runId, h.startedAt.symm.trans hstarted⟩

theorem summaryAnswer_shows {call : Call} {row : RunRow} {run : ExecutionRun}
    {s : ExecutionRunSummary} (h : ReadAs row run) (hs : summaryAnswer call run = .ok s) :
    Shows row s := by
  unfold summaryAnswer at hs
  split at hs
  · cases hs
  · rename_i s' hsummary
    obtain rfl := Except.ok.inj hs
    exact summarize_shows h hsummary

section
variable {α : Type} (p : α → Bool) (l : List α) (n : Nat)

theorem filter_take_isPrefix : (l.take n).filter p <+: l.filter p := by
  conv_rhs => rw [← List.take_append_drop n l, List.filter_append]
  exact List.prefix_append _ _

theorem length_filter_take_iff :
    ((l.take n).filter p).length = min n (l.filter p).length ↔
      (∀ x ∈ l.take n, p x = true) ∨ ∀ x ∈ l.drop n, ¬ p x = true := by
  have hsplit : (l.filter p).length = ((l.take n).filter p).length + ((l.drop n).filter p).length := by
    conv_lhs => rw [← List.take_append_drop n l, List.filter_append, List.length_append]
  have htake : (l.take n).length = min n l.length := List.length_take
  have hle : ((l.take n).filter p).length ≤ (l.take n).length := List.length_filter_le _ _
  have hdrop : (l.drop n).length = l.length - n := List.length_drop
  have hdrople : ((l.drop n).filter p).length ≤ (l.drop n).length := List.length_filter_le _ _
  rw [← List.filter_eq_nil_iff, ← List.length_eq_zero_iff, ← List.filter_eq_self]
  constructor
  · intro hlength
    by_cases hfull : (l.take n).filter p = l.take n
    · exact Or.inl hfull
    · right
      have hlt : ((l.take n).filter p).length < (l.take n).length := by
        rcases Nat.lt_or_ge ((l.take n).filter p).length (l.take n).length with hlt | hge
        · exact hlt
        · exact absurd (List.filter_sublist.eq_of_length_le hge) hfull
      omega
  · rintro (hall | hnone)
    · rw [hall] at hsplit ⊢
      omega
    · omega

end

def tenantRuns (db : OperatorDb) (tenant : String) : List RunRow :=
  db.runs.rows.filter fun row => decide (row.tenantId = tenant)

/-- The answer shows the `min(limit, c)` most recently started of these `c` runs, latest first. -/
structure MostRecent (own : List RunRow) (limit : Nat) (answer : List ExecutionRunSummary) :
    Prop where
  length : answer.length = min limit own.length
  shown : ∀ s ∈ answer, ∃ row ∈ own, Shows row s
  distinct : (answer.map ExecutionRunSummary.runId).Nodup
  latest_first : answer.Pairwise fun a b => b.startedAt ≤ a.startedAt
  most_recent : ∀ row ∈ own, row.runId ∉ answer.map ExecutionRunSummary.runId →
    ∀ s ∈ answer, ∃ t, row.startedAt = some t ∧ t ≤ s.startedAt

theorem mostRecent_of_isPrefix {own ordered shown : List RunRow}
    {answer : List ExecutionRunSummary} {limit : Nat} (hperm : ordered.Perm own)
    (hids : (own.map RunRow.runId).Nodup)
    (hsorted : ordered.Pairwise fun a b => StartsNoEarlier a.startedAt b.startedAt)
    (hfront : shown <+: ordered) (hshows : List.Forall₂ Shows shown answer) :
    MostRecent own limit answer ↔ shown.length = min limit own.length := by
  obtain ⟨rest, hrest⟩ := hfront
  have hanswerIds : answer.map ExecutionRunSummary.runId = shown.map RunRow.runId :=
    Correspondence.map_eq hshows fun _ _ _ h => h.1
  have hstarts : answer.map (fun s => some s.startedAt) = shown.map RunRow.startedAt :=
    Correspondence.map_eq hshows fun _ _ _ h => h.2.symm
  have hmem : ∀ row, row ∈ own ↔ row ∈ shown ∨ row ∈ rest := by
    intro row
    rw [← hperm.mem_iff, ← hrest, List.mem_append]
  rw [← hrest, List.pairwise_append] at hsorted
  constructor
  · intro h
    exact hshows.length_eq.trans h.length
  · intro hlength
    refine ⟨hshows.length_eq.symm.trans hlength, ?_, ?_, ?_, ?_⟩
    · intro s hs
      obtain ⟨row, hrow, hshown⟩ := Correspondence.exists_left_of_mem hshows hs
      exact ⟨row, (hmem row).mpr (Or.inl hrow), hshown⟩
    · rw [hanswerIds]
      have hordered : (ordered.map RunRow.runId).Nodup := (hperm.map _).nodup_iff.mpr hids
      rw [← hrest, List.map_append] at hordered
      exact hordered.of_append_left
    · have hpairs : (shown.map RunRow.startedAt).Pairwise StartsNoEarlier :=
        List.pairwise_map.mpr hsorted.1
      rw [← hstarts] at hpairs
      exact List.pairwise_map.mp hpairs
    · intro row hrow hnot s hs
      rw [hanswerIds] at hnot
      have hlater : row ∈ rest := ((hmem row).mp hrow).resolve_left
        fun hin => hnot (List.mem_map_of_mem hin)
      obtain ⟨x, hx, hshown⟩ := Correspondence.exists_left_of_mem hshows hs
      have horder := hsorted.2.2 x hx row hlater
      rw [hshown.2] at horder
      cases hstarted : row.startedAt with
      | none => simp [StartsNoEarlier, hstarted] at horder
      | some t => exact ⟨t, rfl, by simpa [StartsNoEarlier, hstarted] using horder⟩

def RecentOrder.top {runs : RunTable} (order : RecentOrder runs) (limit : ListLimit) : List RunRow :=
  order.rows.take limit.value

/-- All goes well with the rows that the limit lets through, and it cuts off no run of the
tenant in favour of another tenant's. -/
structure ShowsAll (db : OperatorDb) (call : Call) (order : RecentOrder db.runs)
    (limit : ListLimit) : Prop where
  answers : call.fails = false
  readable : ∀ row ∈ order.top limit, Readable row
  presentable : ∀ row ∈ order.top limit, row.tenantId = call.operator.tenantId → Presentable row
  fits : (∀ row ∈ order.top limit, row.tenantId = call.operator.tenantId) ∨
    ∀ row ∈ order.rows.drop limit.value, row.tenantId ≠ call.operator.tenantId

section
variable {db : OperatorDb} {call : Call} {order : RecentOrder db.runs} {limit : ListLimit}
  {runs : List ExecutionRun} {answer : List ExecutionRunSummary}

/-- `run.tenant_id == operator.tenant_id`. -/
def ownRow (call : Call) (row : RunRow) : Bool := decide (row.tenantId = call.operator.tenantId)

theorem not_foreign_iff (hlocal : call.operator.isGlobal = false) {tenantId : String} :
    (!call.foreign tenantId) = true ↔ tenantId = call.operator.tenantId := by
  rw [Bool.not_eq_true', mem_of_not_foreign hlocal]

theorem read_rows (hread : listRecentRuns order limit.value = .ok runs) :
    List.Forall₂ (fun row run => sqlRunToDomain row = .ok run) (order.top limit) runs :=
  Correspondence.of_mapM hread

theorem read_own (hlocal : call.operator.isGlobal = false)
    (hread : listRecentRuns order limit.value = .ok runs) :
    List.Forall₂ (fun row run => sqlRunToDomain row = .ok run)
      ((order.top limit).filter (ownRow call))
      (runs.filter fun run => !call.foreign run.tenantId) := by
  refine List.rel_filter ?_ (read_rows hread)
  intro row run h
  change ownRow call row = true ↔ (!call.foreign run.tenantId) = true
  rw [not_foreign_iff hlocal, (sqlRunToDomain_readAs h).tenantId]
  simp [ownRow]

theorem shown_own (hlocal : call.operator.isGlobal = false)
    (hread : listRecentRuns order limit.value = .ok runs)
    (hanswer : (runs.filter fun run => !call.foreign run.tenantId).mapM (summaryAnswer call) =
      .ok answer) :
    List.Forall₂ Shows ((order.top limit).filter (ownRow call)) answer :=
  Correspondence.trans (read_own hlocal hread) (Correspondence.of_mapM hanswer)
    fun _ _ _ hone hsummary => summaryAnswer_shows (sqlRunToDomain_readAs hone) hsummary

theorem mostRecent_shown_iff (hlocal : call.operator.isGlobal = false)
    (hread : listRecentRuns order limit.value = .ok runs)
    (hanswer : (runs.filter fun run => !call.foreign run.tenantId).mapM (summaryAnswer call) =
      .ok answer) :
    MostRecent (tenantRuns db call.operator.tenantId) limit.value answer ↔
      (∀ row ∈ order.top limit, row.tenantId = call.operator.tenantId) ∨
        ∀ row ∈ order.rows.drop limit.value, row.tenantId ≠ call.operator.tenantId := by
  have hperm : (order.rows.filter (ownRow call)).Perm (tenantRuns db call.operator.tenantId) :=
    order.perm.filter _
  have hids : ((tenantRuns db call.operator.tenantId).map RunRow.runId).Nodup :=
    db.runs.unique.sublist (List.filter_sublist.map _)
  rw [mostRecent_of_isPrefix hperm hids (order.sorted.filter _)
    (filter_take_isPrefix (ownRow call) order.rows limit.value) (shown_own hlocal hread hanswer),
    ← hperm.length_eq]
  have hlength := length_filter_take_iff (ownRow call) order.rows limit.value
  simpa only [ownRow, decide_eq_true_eq, RecentOrder.top] using hlength

theorem mostRecent_nil (limit : Nat) : MostRecent [] limit [] :=
  ⟨by simp, by simp, by simp, by simp, by simp⟩

theorem listRecentExecutions_of_none (hlocal : call.operator.isGlobal = false)
    (hnone : tenantRuns db call.operator.tenantId = []) :
    listRecentExecutions db call order limit = .ok [] := by
  unfold listRecentExecutions
  split
  · rfl
  · split
    · rfl
    · rename_i runs hread
      have hown : (order.top limit).filter (ownRow call) = [] := by
        have hall : order.rows.filter (ownRow call) = [] :=
          List.perm_nil.mp (hnone ▸ order.perm.filter (ownRow call))
        rw [List.filter_eq_nil_iff] at hall ⊢
        exact fun row hrow => hall row (List.mem_of_mem_take hrow)
      have hshown := read_own hlocal hread
      rw [hown, List.forall₂_nil_left_iff] at hshown
      rw [hshown]
      rfl

theorem showsAll_of_mostRecent (hlocal : call.operator.isGlobal = false)
    (hfails : call.fails = false) (hread : listRecentRuns order limit.value = .ok runs)
    (hanswer : (runs.filter fun run => !call.foreign run.tenantId).mapM (summaryAnswer call) =
      .ok answer)
    (hmost : MostRecent (tenantRuns db call.operator.tenantId) limit.value answer) :
    ShowsAll db call order limit := by
  refine ⟨hfails, ?_, ?_, (mostRecent_shown_iff hlocal hread hanswer).mp hmost⟩
  · intro row hrow
    obtain ⟨run, _, hrun⟩ := Correspondence.exists_right_of_mem (read_rows hread) hrow
    exact sqlRunToDomain_ok_iff.mp ⟨run, hrun⟩
  · intro row hrow hown
    have hin : row ∈ (order.top limit).filter (ownRow call) :=
      List.mem_filter.mpr ⟨hrow, by simpa [ownRow] using hown⟩
    obtain ⟨run, hmem, hrun⟩ := Correspondence.exists_right_of_mem (read_own hlocal hread) hin
    exact (summaryAnswer_ok_iff (sqlRunToDomain_readAs hrun)).mp
      (Correspondence.mapM_ok_iff.mp ⟨answer, hanswer⟩ run hmem)

theorem ShowsAll.complete (h : ShowsAll db call order limit)
    (hlocal : call.operator.isGlobal = false) :
    ∃ answer, listRecentExecutions db call order limit = .ok answer ∧
      MostRecent (tenantRuns db call.operator.tenantId) limit.value answer := by
  obtain ⟨runs, hread⟩ : ∃ runs, listRecentRuns order limit.value = .ok runs :=
    Correspondence.mapM_ok_iff.mpr fun row hrow => sqlRunToDomain_ok_iff.mpr (h.readable row hrow)
  have hsummaries : ∀ run ∈ runs.filter (fun run => !call.foreign run.tenantId),
      ∃ s, summaryAnswer call run = .ok s := by
    intro run hrun
    obtain ⟨row, hrow, hone⟩ := Correspondence.exists_left_of_mem (read_own hlocal hread) hrun
    obtain ⟨htop, hown⟩ := List.mem_filter.mp hrow
    exact (summaryAnswer_ok_iff (sqlRunToDomain_readAs hone)).mpr
      (h.presentable row htop (by simpa [ownRow] using hown))
  obtain ⟨answer, hanswer⟩ := Correspondence.mapM_ok_iff.mpr hsummaries
  refine ⟨answer, ?_, (mostRecent_shown_iff hlocal hread hanswer).mpr h.fits⟩
  simp only [listRecentExecutions, h.answers, hread, hanswer]
  rfl

theorem listRecentExecutions_complete_iff (call : Call) (hlocal : call.operator.isGlobal = false)
    (db : OperatorDb) (order : RecentOrder db.runs) (limit : ListLimit) :
    (∃ answer, listRecentExecutions db call order limit = .ok answer ∧
        MostRecent (tenantRuns db call.operator.tenantId) limit.value answer) ↔
      tenantRuns db call.operator.tenantId = [] ∨ ShowsAll db call order limit := by
  by_cases hnone : tenantRuns db call.operator.tenantId = []
  · refine iff_of_true ⟨[], listRecentExecutions_of_none hlocal hnone, ?_⟩ (Or.inl hnone)
    rw [hnone]
    exact mostRecent_nil limit.value
  rw [or_iff_right hnone]
  constructor
  · rintro ⟨answer, hanswer, hmost⟩
    rcases listRecentExecutions_cases hanswer with rfl | ⟨runs, hfails, hread, hsummaries⟩
    · have hlength := hmost.length
      have hpos := List.length_pos_iff.mpr hnone
      have hge := limit.ge
      simp only [List.length_nil] at hlength
      omega
    · exact showsAll_of_mostRecent hlocal hfails hread hsummaries hmost
  · intro h
    exact h.complete hlocal

end

def ownRun : RunRow := { foreignRow with runId := 2, tenantId := "t", startedAt := some (-1) }

def twoTenants : OperatorDb := { emptyDb with runs := ⟨[foreignRow, ownRun], by decide⟩ }

def foreignFirst : RecentOrder twoTenants.runs :=
  ⟨[foreignRow, ownRun], .refl _, by simp [StartsNoEarlier, foreignRow, ownRun]⟩

theorem listRecentExecutions_complete_sample :
    ∃ answer, listRecentExecutions twoTenants localCall foreignFirst {} = .ok answer ∧
      MostRecent (tenantRuns twoTenants "t") 20 answer := by
  refine (listRecentExecutions_complete_iff localCall rfl twoTenants foreignFirst {}).mpr (Or.inr ?_)
  have hrows : ∀ row ∈ foreignFirst.top {}, row = foreignRow ∨ row = ownRun := by
    intro row hrow
    simpa [foreignFirst, RecentOrder.top] using hrow
  refine ⟨rfl, ?_, ?_, Or.inr (by simp [foreignFirst])⟩
  · intro row hrow
    rcases hrows row hrow with rfl | rfl
    · exact ⟨.pending, rfl, fun h => by cases h⟩
    · exact ⟨.pending, rfl, fun h => by cases h⟩
  · intro row hrow _
    rcases hrows row hrow with rfl | rfl
    · exact ⟨rfl, rfl, rfl, rfl, rfl, rfl⟩
    · exact ⟨rfl, rfl, rfl, rfl, rfl, rfl⟩

theorem not_listRecentExecutions_complete :
    ¬ ∀ (call : Call) (db : OperatorDb) (order : RecentOrder db.runs) (limit : ListLimit),
      call.operator.isGlobal = false →
        ∃ answer, listRecentExecutions db call order limit = .ok answer ∧
          MostRecent (tenantRuns db call.operator.tenantId) limit.value answer := by
  intro h
  obtain ⟨answer, hanswer, hmost⟩ := h localCall twoTenants foreignFirst ⟨1, by decide, by decide⟩ rfl
  obtain rfl : [] = answer := Except.ok.inj hanswer
  exact absurd hmost.length (by decide)

end GroundGraph.Operator
