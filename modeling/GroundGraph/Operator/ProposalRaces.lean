import GroundGraph.Library.LabelledSystem
import GroundGraph.Operator.Proposals
import Mathlib.Data.List.Chain

/-! Requests that move one proposal at the same time. Each reads the record, checks what
it read and commits an UPDATE that names the primary key only; other requests may come
between any two of these steps.
-/

set_option autoImplicit false

namespace GroundGraph.Operator

/-- One `transition_proposal` call whose target status is a known one. -/
structure TransitionCall where
  operator : OperatorIdentity
  request : ProposalTransitionRequest
  target : ProposalStatus

inductive InFlight where
  | loaded (call : TransitionCall) (record : Proposal)
  | checked (record : Proposal) (assignment : Assignment)

/-- `committed` lists every status the row has had, newest first. -/
structure RaceState where
  record : Proposal
  inFlight : Nat → Option InFlight
  committed : List ProposalStatus

inductive RaceStep where
  | load (id : Nat) (operator : OperatorIdentity) (request : ProposalTransitionRequest)
  | check (id : Nat) (evaluationRuns : UUID → Option String) (now : Instant)
  | commit (id : Nat) (now : Instant)
  | abandon (id : Nat)

def RaceState.put (s : RaceState) (id : Nat) (f : Option InFlight) : RaceState :=
  { s with inFlight := fun j => if j = id then f else s.inFlight j }

/-- A step of a request that is not at that point does nothing. -/
def raceStep (s : RaceState) : RaceStep → RaceState
  | .load id operator request =>
    match s.inFlight id, ProposalStatus.ofText? request.targetStatus with
    | none, some target => s.put id (some (.loaded ⟨operator, request, target⟩ s.record))
    | _, _ => s
  | .check id evaluationRuns now =>
    match s.inFlight id with
    | some (.loaded call record) =>
      match checkTransition evaluationRuns now call.operator call.request call.target record with
      | .error _ => s.put id none
      | .ok assignment => s.put id (some (.checked record assignment))
    | _ => s
  | .commit id now =>
    match s.inFlight id with
    | some (.checked _ assignment) =>
      { s.put id none with
        record := assignment.write now s.record
        committed := assignment.target :: s.committed }
    | _ => s
  | .abandon id => s.put id none

def raceStart (record : Proposal) : RaceState :=
  { record := record, inFlight := fun _ => none, committed := [record.status] }

def raceSystem (record : Proposal) : LabelledSystem RaceState RaceStep :=
  ⟨raceStart record, fun s a => some (raceStep s a)⟩

/-- The committed statuses are a path of `VALID_TRANSITIONS`, a final status is the last
of them, and at most one final status is among them. -/
structure TransitionsSafe (s : RaceState) : Prop where
  path : s.committed.IsChain fun b a => validTransition a b = true
  final_last : ∀ later x earlier, s.committed = later ++ x :: earlier → x.isFinal = true →
    later = []
  final_once : s.committed.countP ProposalStatus.isFinal ≤ 1

def CommitsFresh (s : RaceState) : RaceStep → Prop
  | .commit id _ => ∀ record assignment, s.inFlight id = some (.checked record assignment) →
      record.status = s.record.status
  | _ => True

/-- Whatever was checked was a transition from the status that was read. -/
structure RaceInv (s : RaceState) : Prop where
  current : ∃ earlier, s.committed = s.record.status :: earlier
  checked : ∀ id record assignment, s.inFlight id = some (.checked record assignment) →
    validTransition record.status assignment.target = true

theorem raceInv_start (record : Proposal) : RaceInv (raceStart record) :=
  ⟨⟨[], rfl⟩, fun _ _ _ h => by cases h⟩

theorem RaceInv.put {s : RaceState} (h : RaceInv s) (id : Nat) {f : Option InFlight}
    (hf : ∀ record assignment, f = some (.checked record assignment) →
      validTransition record.status assignment.target = true) : RaceInv (s.put id f) := by
  refine ⟨h.current, ?_⟩
  intro j record assignment hj
  by_cases hid : j = id
  · exact hf record assignment (by simpa [RaceState.put, hid] using hj)
  · exact h.checked j record assignment (by simpa [RaceState.put, hid] using hj)

theorem RaceInv.step {s : RaceState} (h : RaceInv s) (a : RaceStep) : RaceInv (raceStep s a) := by
  cases a with
  | load id operator request =>
    simp only [raceStep]
    split
    · exact h.put id fun _ _ heq => by cases heq
    · exact h
  | check id evaluationRuns now =>
    simp only [raceStep]
    split
    · rename_i call record _
      split
      · exact h.put id fun _ _ heq => by cases heq
      · rename_i hcheck
        refine h.put id fun _ _ heq => ?_
        cases heq
        exact (checkTransition_ok hcheck).2.2
    · exact h
  | commit id now =>
    simp only [raceStep]
    split
    · have hput : RaceInv (s.put id none) := h.put id fun _ _ heq => by cases heq
      exact ⟨⟨s.committed, by simp⟩, hput.checked⟩
    · exact h
  | abandon id => exact h.put id fun _ _ heq => by cases heq

theorem countP_isFinal_tail {l : List ProposalStatus}
    (hpath : l.IsChain fun b a => validTransition a b = true) :
    l.tail.countP ProposalStatus.isFinal = 0 := by
  induction l with
  | nil => rfl
  | cons b l ih =>
    cases l with
    | nil => rfl
    | cons a l =>
      rw [List.isChain_cons_cons] at hpath
      have hrest := ih hpath.2
      simp only [List.tail_cons] at hrest ⊢
      rw [List.countP_cons_of_neg, hrest]
      simp [not_isFinal_of_validTransition hpath.1]

theorem transitionsSafe_iff (s : RaceState) :
    TransitionsSafe s ↔ s.committed.IsChain fun b a => validTransition a b = true := by
  refine ⟨TransitionsSafe.path, fun hpath => ⟨hpath, ?_, ?_⟩⟩
  · intro later x earlier heq hfinal
    rw [heq, List.isChain_append] at hpath
    cases hlast : later.getLast? with
    | none => exact List.getLast?_eq_none_iff.mp hlast
    | some b =>
      have hedge := hpath.2.2 b hlast x rfl
      rw [not_isFinal_of_validTransition hedge] at hfinal
      cases hfinal
  · have hzero := countP_isFinal_tail hpath
    cases hlist : s.committed with
    | nil => simp
    | cons b l =>
      rw [hlist, List.tail_cons] at hzero
      rw [List.countP_cons, hzero]
      split <;> simp

/-- A stale commit is no edge of the table, since each status has one predecessor. -/
theorem transitionsSafe_step {s : RaceState} (h : RaceInv s) (hsafe : TransitionsSafe s)
    (a : RaceStep) : TransitionsSafe (raceStep s a) ↔ CommitsFresh s a := by
  rw [transitionsSafe_iff] at hsafe ⊢
  cases a with
  | load id operator request =>
    simp only [raceStep, CommitsFresh, iff_true]
    split <;> exact hsafe
  | check id evaluationRuns now =>
    simp only [raceStep, CommitsFresh, iff_true]
    split
    · split <;> exact hsafe
    · exact hsafe
  | commit id now =>
    simp only [raceStep, CommitsFresh]
    split
    · rename_i record assignment hchecked
      have hedge := h.checked id record assignment hchecked
      obtain ⟨earlier, hcommitted⟩ := h.current
      have hextend : ((assignment.target :: s.committed).IsChain fun b a =>
          validTransition a b = true) ↔ validTransition s.record.status assignment.target = true := by
        rw [hcommitted] at hsafe ⊢
        rw [List.isChain_cons_cons]
        exact and_iff_left hsafe
      rw [hextend]
      constructor
      · intro hcurrent record' assignment' hsame
        rw [hchecked] at hsame
        cases hsame
        exact validTransition_source_unique hedge hcurrent
      · intro hfresh
        rw [← hfresh record assignment hchecked]
        exact hedge
    · rename_i hnone
      simp only [hsafe, true_iff]
      intro record assignment hchecked
      exact absurd hchecked (hnone record assignment)
  | abandon id => exact iff_of_true hsafe trivial

theorem transitionsSafe_start (record : Proposal) : TransitionsSafe (raceStart record) := by
  rw [transitionsSafe_iff]
  exact List.IsChain.singleton _

/-- Whatever status the proposal starts with: the committed statuses stay a path exactly
as long as every commit finds the status its request read. -/
theorem transitionsSafe_throughout_iff (record : Proposal) (steps : List RaceStep) :
    (∀ t ∈ (raceSystem record).states (raceStart record) steps, TransitionsSafe t) ↔
      (raceSystem record).Along CommitsFresh (raceStart record) steps := by
  refine (raceSystem record).holds_throughout_iff (I := RaceInv) ?_ (fun s a => ⟨_, rfl⟩) ?_ steps
    (raceInv_start record) (transitionsSafe_start record)
  · intro s a t hs hstep
    obtain rfl := Option.some.inj hstep
    exact hs.step a
  · intro s a t hs hsafe hstep
    obtain rfl := Option.some.inj hstep
    exact transitionsSafe_step hs hsafe a

def canaryProposal : Proposal :=
  { proposalId := 1, tenantId := "t", status := .canary, baselineConfig := []
    proposalConfig := [], createdAt := 0, updatedAt := 0 }

/-- One operator promotes and another rolls back, both having read CANARY. -/
def promoteAndRollBack : List RaceStep :=
  [.load 0 ⟨"alice", "t", false⟩
      { targetStatus := "PROMOTED", deploymentResult := some [("ok", .bool true)] },
   .load 1 ⟨"bob", "t", false⟩ { targetStatus := "ROLLED_BACK" },
   .check 0 (fun _ => none) 1, .check 1 (fun _ => none) 1, .commit 0 2, .commit 1 3]

theorem not_transitionsSafe_promoteAndRollBack :
    ¬ ∀ (record : Proposal) (steps : List RaceStep),
      ∀ t ∈ (raceSystem record).states (raceStart record) steps, TransitionsSafe t := by
  intro h
  have hrun : (raceSystem canaryProposal).run (raceStart canaryProposal) promoteAndRollBack =
      some (promoteAndRollBack.foldl raceStep (raceStart canaryProposal)) := rfl
  have hsafe := h canaryProposal promoteAndRollBack _
    ((raceSystem canaryProposal).mem_states_of_run hrun)
  have hcommitted : (promoteAndRollBack.foldl raceStep (raceStart canaryProposal)).committed =
      [.rolledBack, .promoted, .canary] := by decide
  have honce := hsafe.final_once
  rw [hcommitted] at honce
  exact absurd honce (by decide)

end GroundGraph.Operator
