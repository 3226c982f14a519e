import GroundGraph.Json
import Mathlib.Data.List.Infix

/-! `OpenAIEmbeddingProvider`: `infrastructure/openai/embedding_provider.py`. The texts are sent in
batches, and a batch whose call raises is sent again, a bounded number of times.
-/

set_option autoImplicit false

namespace GroundGraph.Retrieval

structure EmbeddingConfig where
  model : List Char := "text-embedding-3-small".toList
  dimensions : Int := 1536
  batchSize : Int := 100
  maxRetries : Int := 3

/-- The arguments of `embeddings.create`. -/
structure EmbeddingRequest where
  input : List (List Char)
  model : List Char
  dimensions : Option Int

/-- A call for the batch with this number, or a wait between two calls. -/
inductive EmbedEvent where
  | called (batch : Nat) (failed : Bool)
  | slept (seconds : Nat)
  deriving DecidableEq, Repr

inductive EmbedError where
  | runtimeError (text : String)
  | valueError (text : String)
  | indexError
  deriving DecidableEq, Repr

/-- The client sees all that happened before, so calls can fail in any pattern; `none` is an
exception. -/
structure OpenAIEmbeddingProvider where
  config : EmbeddingConfig := {}
  create : List EmbedEvent → EmbeddingRequest → Option (List (List PyFloat))

/-- `range(0, stop, step)` for a step that is not zero. -/
def rangeBy (stop : Nat) (step : Int) : List Nat :=
  if step ≤ 0 then []
  else (List.range ((stop + step.toNat - 1) / step.toNat)).map fun i => i * step.toNat

namespace OpenAIEmbeddingProvider

variable (p : OpenAIEmbeddingProvider)

def supportsDimensions : Bool := "text-embedding-3".toList.isPrefixOf p.config.model

def request (texts : List (List Char)) : EmbeddingRequest where
  input := texts
  model := p.config.model
  dimensions := if p.supportsDimensions then some p.config.dimensions else none

def failure : EmbedError :=
  .runtimeError ("Embedding failed after " ++ toString (p.config.maxRetries + 1) ++ " attempts")

/-- `_embed_batch_with_retry` from an attempt on. The seconds are whole, as they double from one
up to thirty. -/
def embedBatchWithRetry (batch : Nat) (texts : List (List Char)) (attempt delay : Nat)
    (log : List EmbedEvent) : Except EmbedError (List (List PyFloat)) × List EmbedEvent :=
  if (attempt : Int) ≤ p.config.maxRetries then
    match p.create log (p.request texts) with
    | some vectors => (.ok vectors, log ++ [.called batch false])
    | none =>
      if p.config.maxRetries ≤ attempt then (.error p.failure, log ++ [.called batch true])
      else
        embedBatchWithRetry batch texts (attempt + 1) (min (delay * 2) 30)
          (log ++ [.called batch true, .slept delay])
  else (.error p.failure, log)
termination_by (p.config.maxRetries + 1 - attempt).toNat

def batches (texts : List (List Char)) : Except EmbedError (List (List (List Char))) :=
  if p.config.batchSize = 0 then .error (.valueError "range() arg 3 must not be zero")
  else
    .ok ((rangeBy texts.length p.config.batchSize).map fun i =>
      (texts.drop i).take p.config.batchSize.toNat)

def embedBatches (n : Nat) (all : List (List PyFloat)) (log : List EmbedEvent) :
    List (List (List Char)) → Except EmbedError (List (List PyFloat)) × List EmbedEvent
  | [] => (.ok all, log)
  | texts :: rest =>
    match p.embedBatchWithRetry n texts 0 1 log with
    | (.ok vectors, log) => embedBatches (n + 1) (all ++ vectors) log rest
    | (.error e, log) => (.error e, log)

def embed (texts : List (List Char)) : Except EmbedError (List (List PyFloat)) × List EmbedEvent :=
  if texts = [] then (.ok [], [])
  else
    match p.batches texts with
    | .ok batches => p.embedBatches 0 [] [] batches
    | .error e => (.error e, [])

def embedOne (text : List Char) : Except EmbedError (List PyFloat) :=
  match (p.embed [text]).1 with
  | .ok [] => .error .indexError
  | .ok (vector :: _) => .ok vector
  | .error e => .error e

end OpenAIEmbeddingProvider

theorem take_slices {α : Type} (xs : List α) (size n : Nat) :
    ((List.range n).map fun i => (xs.drop (i * size)).take size).flatten = xs.take (n * size) := by
  induction n with
  | zero => simp
  | succ n ih =>
    rw [List.range_succ, List.map_append, List.flatten_append, ih, Nat.succ_mul, List.take_add]
    simp

theorem flatten_slices {α : Type} (xs : List α) {step : Int} (hstep : 1 ≤ step) :
    ((rangeBy xs.length step).map fun i => (xs.drop i).take step.toNat).flatten = xs := by
  have hsize : 0 < step.toNat := by omega
  have hcover : xs.length ≤ (xs.length + step.toNat - 1) / step.toNat * step.toNat := by
    have hdiv := Nat.div_add_mod (xs.length + step.toNat - 1) step.toNat
    have hmod := Nat.mod_lt (xs.length + step.toNat - 1) hsize
    rw [Nat.mul_comm] at hdiv
    omega
  rw [rangeBy, if_neg (by omega), List.map_map]
  exact (take_slices xs step.toNat _).trans (List.take_of_length_le hcover)

/-- The outcomes of the calls for a batch, `true` where the call failed. -/
def attempts (batch : Nat) (log : List EmbedEvent) : List Bool :=
  log.filterMap fun
    | .called b failed => if b = batch then some failed else none
    | .slept _ => none

@[simp] theorem attempts_append (batch : Nat) (log log' : List EmbedEvent) :
    attempts batch (log ++ log') = attempts batch log ++ attempts batch log' :=
  List.filterMap_append

def GaveUp (p : OpenAIEmbeddingProvider) (outcomes : List Bool) : Prop :=
  List.replicate (p.config.maxRetries.toNat + 1) true <:+: outcomes

def OpenAIEmbeddingProvider.batch (p : OpenAIEmbeddingProvider) (texts : List (List Char))
    (i : Nat) : List (List Char) :=
  (texts.drop (i * p.config.batchSize.toNat)).take p.config.batchSize.toNat

/-- Each call among the events is what the client, with everything before it on record, answers
to the request for the batch. -/
def Answered (p : OpenAIEmbeddingProvider) (batchOf : Nat → List (List Char)) :
    List EmbedEvent → List EmbedEvent → Prop
  | _, [] => True
  | log, event :: events =>
    (∀ i failed, event = .called i failed →
      failed = (p.create log (p.request (batchOf i))).isNone) ∧
    Answered p batchOf (log ++ [event]) events

section
variable {p : OpenAIEmbeddingProvider} {vectorOf : List Char → List PyFloat}
  {batchOf : Nat → List (List Char)}

theorem answered_append {log events later : List EmbedEvent} :
    Answered p batchOf log (events ++ later) ↔
      Answered p batchOf log events ∧ Answered p batchOf (log ++ events) later := by
  induction events generalizing log with
  | nil => simp [Answered]
  | cons event events ih => simp [Answered, ih, and_assoc]

theorem answered_called {log : List EmbedEvent} {i : Nat} {failed : Bool}
    (h : failed = (p.create log (p.request (batchOf i))).isNone) :
    Answered p batchOf log [.called i failed] := by
  refine ⟨fun j f hevent => ?_, trivial⟩
  injection hevent with hi hf
  rw [← hi, ← hf, h]

theorem answered_slept (log : List EmbedEvent) (seconds : Nat) :
    Answered p batchOf log [.slept seconds] :=
  ⟨fun _ _ hevent => (by cases hevent), trivial⟩

theorem not_gaveUp_of_count {outcomes : List Bool}
    (h : outcomes.count true ≤ p.config.maxRetries.toNat) : ¬ GaveUp p outcomes := by
  intro hgave
  have hcount := hgave.sublist.count_le true
  rw [List.count_replicate_self] at hcount
  omega

/-- What the calls for one batch add to the log, with `k` more of them after this one. -/
structure Tried (p : OpenAIEmbeddingProvider) (batchOf : Nat → List (List Char))
    (log : List EmbedEvent) (batch k : Nat) (events : List EmbedEvent)
    (vectors : List (List PyFloat)) (result : Except EmbedError (List (List PyFloat))) : Prop where
  answered : Answered p batchOf log events
  other : ∀ i, i ≠ batch → attempts i events = []
  outcome : result = .ok vectors ∧
      (∃ j ≤ k, attempts batch events = List.replicate j true ++ [false]) ∨
    result = .error p.failure ∧ attempts batch events = List.replicate (k + 1) true

/-- A failed call and a wait come before the calls that are left. -/
theorem Tried.retried {log : List EmbedEvent} {batch k delay : Nat} {events : List EmbedEvent}
    {vectors : List (List PyFloat)} {result : Except EmbedError (List (List PyFloat))}
    (hcall : p.create log (p.request (batchOf batch)) = none)
    (h : Tried p batchOf (log ++ [.called batch true, .slept delay]) batch k events vectors
      result) :
    Tried p batchOf log batch (k + 1) (.called batch true :: .slept delay :: events) vectors
      result := by
  have hother : ∀ i, i ≠ batch → attempts i (.called batch true :: .slept delay :: events) =
      attempts i events := by
    intro i hi
    simp [attempts, Ne.symm hi]
  have hbatch : attempts batch (.called batch true :: .slept delay :: events) =
      true :: attempts batch events := by
    simp [attempts]
  refine ⟨?_, fun i hi => (hother i hi).trans (h.other i hi), ?_⟩
  · have hfailed : Answered p batchOf log [.called batch true] :=
      answered_called (by rw [hcall]; rfl)
    have hboth : Answered p batchOf log ([.called batch true] ++ [.slept delay]) :=
      answered_append.mpr ⟨hfailed, answered_slept _ _⟩
    have hall : Answered p batchOf log ([.called batch true] ++ [.slept delay] ++ events) :=
      answered_append.mpr ⟨hboth, h.answered⟩
    exact hall
  · rw [hbatch]
    rcases h.outcome with ⟨hok, j, hj, hev⟩ | ⟨herror, hev⟩
    · exact Or.inl ⟨hok, j + 1, by omega, by rw [hev]; rfl⟩
    · exact Or.inr ⟨herror, by rw [hev]; rfl⟩

/-- The call that goes through, or the last that may be made. -/
theorem Tried.ended {log : List EmbedEvent} {batch k : Nat} {failed : Bool}
    {vectors : List (List PyFloat)} {result : Except EmbedError (List (List PyFloat))}
    (hcall : failed = (p.create log (p.request (batchOf batch))).isNone)
    (h : result = .ok vectors ∧ failed = false ∨
      result = .error p.failure ∧ failed = true ∧ k = 0) :
    Tried p batchOf log batch k [.called batch failed] vectors result := by
  refine ⟨answered_called hcall, fun i hi => by simp [attempts, Ne.symm hi], ?_⟩
  rcases h with ⟨hok, rfl⟩ | ⟨herror, rfl, rfl⟩
  · exact Or.inl ⟨hok, 0, Nat.zero_le k, by simp [attempts]⟩
  · exact Or.inr ⟨herror, by simp [attempts]⟩

theorem embedBatchWithRetry_tried
    (hreply : ∀ log req vectors, p.create log req = some vectors → vectors = req.input.map vectorOf)
    {k attempt : Nat} (hk : p.config.maxRetries = attempt + k) {batch : Nat}
    {texts : List (List Char)} (hbatch : batchOf batch = texts) (delay : Nat)
    (log : List EmbedEvent) :
    ∃ events, (p.embedBatchWithRetry batch texts attempt delay log).2 = log ++ events ∧
      Tried p batchOf log batch k events (texts.map vectorOf)
        (p.embedBatchWithRetry batch texts attempt delay log).1 := by
  subst hbatch
  induction k generalizing attempt delay log with
  | zero =>
    rw [OpenAIEmbeddingProvider.embedBatchWithRetry, if_pos (by omega)]
    cases hcall : p.create log (p.request (batchOf batch)) with
    | some vectors =>
      obtain rfl := hreply _ _ _ hcall
      exact ⟨_, rfl, .ended (by rw [hcall]; rfl) (Or.inl ⟨rfl, rfl⟩)⟩
    | none =>
      simp only
      rw [if_pos (by omega)]
      exact ⟨_, rfl, .ended (by rw [hcall]; rfl) (Or.inr ⟨rfl, rfl, rfl⟩)⟩
  | succ k ih =>
    rw [OpenAIEmbeddingProvider.embedBatchWithRetry, if_pos (by omega)]
    cases hcall : p.create log (p.request (batchOf batch)) with
    | some vectors =>
      obtain rfl := hreply _ _ _ hcall
      exact ⟨_, rfl, .ended (by rw [hcall]; rfl) (Or.inl ⟨rfl, rfl⟩)⟩
    | none =>
      simp only
      rw [if_neg (by omega)]
      have hleft : p.config.maxRetries = ((attempt + 1 : Nat) : Int) + k := by omega
      obtain ⟨events, hlog, htried⟩ := ih hleft (min (delay * 2) 30)
        (log ++ [.called batch true, .slept delay])
      exact ⟨_, by rw [hlog, List.append_assoc]; rfl, htried.retried hcall⟩

structure TriedAll (p : OpenAIEmbeddingProvider) (batchOf : Nat → List (List Char))
    (log : List EmbedEvent) (n count : Nat) (events : List EmbedEvent)
    (vectors : List (List PyFloat)) (result : Except EmbedError (List (List PyFloat))) : Prop where
  answered : Answered p batchOf log events
  earlier : ∀ i < n, attempts i events = []
  bounded : ∀ i, (attempts i events).length ≤ p.config.maxRetries.toNat + 1
  outcome : result = .ok vectors ∧ (∀ i, ¬ GaveUp p (attempts i events)) ∧
      (∀ i, n ≤ i → i < n + count → false ∈ attempts i events) ∨
    result = .error p.failure ∧ ∃ i, GaveUp p (attempts i events)

/-- A batch that went through has no more calls, and the calls after it are for later batches. -/
theorem Tried.andLater {log : List EmbedEvent} {n count : Nat} {events later : List EmbedEvent}
    {first vectors : List (List PyFloat)} {result : Except EmbedError (List (List PyFloat))}
    (hfirst : Tried p batchOf log n p.config.maxRetries.toNat events first (.ok first))
    (hlater : TriedAll p batchOf (log ++ events) (n + 1) count later vectors result) :
    TriedAll p batchOf log n (count + 1) (events ++ later) vectors result := by
  obtain ⟨j, hj, hev⟩ : ∃ j ≤ p.config.maxRetries.toNat,
      attempts n events = List.replicate j true ++ [false] := by
    rcases hfirst.outcome with ⟨-, hev⟩ | ⟨herror, -⟩
    · exact hev
    · cases herror
  have hown : attempts n (events ++ later) = attempts n events := by
    rw [attempts_append, hlater.earlier n (by omega), List.append_nil]
  have hother : ∀ i, i ≠ n → attempts i (events ++ later) = attempts i later := by
    intro i hi
    rw [attempts_append, hfirst.other i hi, List.nil_append]
  have hthrough : ¬ GaveUp p (attempts n events) := by
    refine not_gaveUp_of_count ?_
    rw [hev, List.count_append, List.count_replicate_self]
    simpa using hj
  refine ⟨answered_append.mpr ⟨hfirst.answered, hlater.answered⟩, ?_, ?_, ?_⟩
  · intro i hi
    rw [hother i hi.ne]
    exact hlater.earlier i (by omega)
  · intro i
    by_cases hi : i = n
    · subst hi
      rw [hown, hev]
      simpa using hj
    · rw [hother i hi]
      exact hlater.bounded i
  · rcases hlater.outcome with ⟨hok, hnone, hserved⟩ | ⟨herror, i, hgave⟩
    · refine Or.inl ⟨hok, fun i => ?_, fun i hle hlt => ?_⟩
      · by_cases hi : i = n
        · subst hi
          rwa [hown]
        · rw [hother i hi]
          exact hnone i
      · by_cases hi : i = n
        · subst hi
          rw [hown, hev]
          simp
        · rw [hother i hi]
          exact hserved i (by omega) (by omega)
    · refine Or.inr ⟨herror, i, ?_⟩
      have hi : i ≠ n := by
        rintro rfl
        rw [hlater.earlier i (by omega)] at hgave
        exact absurd hgave (not_gaveUp_of_count (Nat.zero_le _))
      rwa [hother i hi]

theorem Tried.gaveUp {log : List EmbedEvent} {n count : Nat} {events : List EmbedEvent}
    {first vectors : List (List PyFloat)}
    (h : Tried p batchOf log n p.config.maxRetries.toNat events first (.error p.failure)) :
    TriedAll p batchOf log n count events vectors (.error p.failure) := by
  have hev : attempts n events = List.replicate (p.config.maxRetries.toNat + 1) true := by
    rcases h.outcome with ⟨hok, -⟩ | ⟨-, hev⟩
    · cases hok
    · exact hev
  refine ⟨h.answered, fun i hi => h.other i hi.ne, ?_, Or.inr ⟨rfl, n, ?_⟩⟩
  · intro i
    by_cases hi : i = n
    · rw [hi, hev, List.length_replicate]
    · rw [h.other i hi]
      exact Nat.zero_le _
  · rw [hev]
    exact List.infix_rfl

theorem embedBatches_tried (hretries : 0 ≤ p.config.maxRetries)
    (hreply : ∀ log req vectors, p.create log req = some vectors → vectors = req.input.map vectorOf)
    (n : Nat) (all : List (List PyFloat)) (log : List EmbedEvent)
    (batches : List (List (List Char)))
    (hbatches : ∀ i texts, batches[i]? = some texts → batchOf (n + i) = texts) :
    ∃ events, (p.embedBatches n all log batches).2 = log ++ events ∧
      TriedAll p batchOf log n batches.length events (all ++ batches.flatten.map vectorOf)
        (p.embedBatches n all log batches).1 := by
  induction batches generalizing n all log with
  | nil =>
    refine ⟨[], (List.append_nil log).symm, trivial, fun _ _ => rfl, fun _ => Nat.zero_le _,
      Or.inl ⟨?_, fun i => not_gaveUp_of_count (Nat.zero_le _), fun i hle hlt => ?_⟩⟩
    · simp [OpenAIEmbeddingProvider.embedBatches]
    · rw [List.length_nil] at hlt
      omega
  | cons texts rest ih =>
    have hleft : p.config.maxRetries = (0 : Nat) + p.config.maxRetries.toNat := by omega
    obtain ⟨events, hlog, htried⟩ :=
      embedBatchWithRetry_tried hreply hleft (hbatches 0 texts rfl) 1 log
    rw [OpenAIEmbeddingProvider.embedBatches]
    rcases hrun : p.embedBatchWithRetry n texts 0 1 log with ⟨result, log'⟩
    rw [Nat.add_zero, hrun] at hlog htried
    obtain rfl : log' = log ++ events := hlog
    rcases htried.outcome with ⟨rfl, -⟩ | ⟨rfl, -⟩
    · have hrest : ∀ i texts, rest[i]? = some texts → batchOf (n + 1 + i) = texts := by
        intro i texts hi
        have hnext := hbatches (i + 1) texts hi
        rwa [← Nat.add_assoc, Nat.add_right_comm] at hnext
      obtain ⟨later, hlog', hlater⟩ :=
        ih (n + 1) (all ++ texts.map vectorOf) (log ++ events) hrest
      refine ⟨events ++ later, by rw [hlog', List.append_assoc], htried.andLater ?_⟩
      rw [List.flatten_cons, List.map_append, ← List.append_assoc]
      exact hlater
    · exact ⟨events, rfl, htried.gaveUp⟩

theorem length_rangeBy {stop i : Nat} {step : Int} (hstep : 1 ≤ step)
    (hi : i * step.toNat < stop) : i < (rangeBy stop step).length := by
  have hsize : 0 < step.toNat := by omega
  rw [rangeBy, if_neg (by omega), List.length_map, List.length_range]
  refine (Nat.le_div_iff_mul_le hsize).mpr ?_
  rw [Nat.succ_mul]
  omega

theorem embed_tried (hbatch : 1 ≤ p.config.batchSize) (hretries : 0 ≤ p.config.maxRetries)
    (hreply : ∀ log req vectors, p.create log req = some vectors → vectors = req.input.map vectorOf)
    (texts : List (List Char)) :
    TriedAll p (p.batch texts) [] 0 (rangeBy texts.length p.config.batchSize).length
      (p.embed texts).2 (texts.map vectorOf) (p.embed texts).1 := by
  by_cases hnil : texts = []
  · subst hnil
    refine ⟨trivial, fun _ _ => rfl, fun _ => Nat.zero_le _,
      Or.inl ⟨rfl, fun i => not_gaveUp_of_count (Nat.zero_le _), fun i _ hlt => ?_⟩⟩
    have hempty : (rangeBy 0 p.config.batchSize).length = 0 := by
      have hdiv : (0 + p.config.batchSize.toNat - 1) / p.config.batchSize.toNat = 0 :=
        Nat.div_eq_of_lt (by omega)
      rw [rangeBy, if_neg (by omega), hdiv]
      rfl
    rw [List.length_nil, hempty] at hlt
    omega
  · rw [OpenAIEmbeddingProvider.embed, if_neg hnil, OpenAIEmbeddingProvider.batches,
      if_neg (by omega)]
    have hslices : ∀ i slice, ((rangeBy texts.length p.config.batchSize).map fun i =>
        (texts.drop i).take p.config.batchSize.toNat)[i]? = some slice →
          p.batch texts (0 + i) = slice := by
      intro i slice hi
      rw [rangeBy, if_neg (by omega), List.map_map, List.getElem?_map] at hi
      obtain ⟨j, hj, rfl⟩ := Option.map_eq_some_iff.mp hi
      obtain ⟨_, rfl⟩ := List.getElem?_eq_some_iff.mp hj
      simp [OpenAIEmbeddingProvider.batch]
    obtain ⟨events, hlog, hall⟩ := embedBatches_tried hretries hreply 0 [] [] _ hslices
    rw [flatten_slices texts hbatch, List.length_map] at hall
    simp only
    rw [hlog]
    exact hall

/-- The vectors of all texts in their order, or nothing where a batch failed too often. The log of
the calls is true to the client, and a result takes a call that went through for every batch. -/
theorem embed_map (hbatch : 1 ≤ p.config.batchSize) (hretries : 0 ≤ p.config.maxRetries)
    (hreply : ∀ log req vectors, p.create log req = some vectors → vectors = req.input.map vectorOf)
    (texts : List (List Char)) :
    ((p.embed texts).1 = .ok (texts.map vectorOf) ∨ (p.embed texts).1 = .error p.failure) ∧
      ((p.embed texts).1 = .ok (texts.map vectorOf) ↔
        ∀ i, ¬ GaveUp p (attempts i (p.embed texts).2)) ∧
      (∀ i, (attempts i (p.embed texts).2).length ≤ p.config.maxRetries.toNat + 1) ∧
      Answered p (p.batch texts) [] (p.embed texts).2 ∧
      ((p.embed texts).1 = .ok (texts.map vectorOf) →
        ∀ i, i * p.config.batchSize.toNat < texts.length →
          false ∈ attempts i (p.embed texts).2) := by
  have hall := embed_tried hbatch hretries hreply texts
  refine ⟨hall.outcome.imp And.left And.left, ⟨?_, ?_⟩, hall.bounded, hall.answered, ?_⟩
  · intro hok
    rcases hall.outcome with ⟨-, hnone, -⟩ | ⟨herror, -⟩
    · exact hnone
    · rw [hok] at herror
      cases herror
  · intro hnone
    rcases hall.outcome with ⟨hok, -⟩ | ⟨-, i, hgave⟩
    · exact hok
    · exact absurd hgave (hnone i)
  · intro hok i hi
    rcases hall.outcome with ⟨-, -, hserved⟩ | ⟨herror, -⟩
    · exact hserved i (Nat.zero_le i) (by rw [Nat.zero_add]; exact length_rangeBy hbatch hi)
    · rw [hok] at herror
      cases herror

/-- A text goes through at the second attempt: the client answers after a wait only. -/
def secondTime : OpenAIEmbeddingProvider where
  config := { batchSize := 1, maxRetries := 1 }
  create := fun log req =>
    if log.getLast? = some (.slept 1) then
      some (req.input.map fun text => [BitVec.ofNat 64 text.length])
    else none

theorem embed_map_secondTime :
    let run := secondTime.embed ["a".toList, "bc".toList, "a".toList]
    let vectors : List (List PyFloat) := [[1], [2], [1]]
    (run.1 = .ok vectors ∨ run.1 = .error secondTime.failure) ∧
      (run.1 = .ok vectors ↔ ∀ i, ¬ GaveUp secondTime (attempts i run.2)) ∧
      (∀ i, (attempts i run.2).length ≤ 2) ∧
      Answered secondTime (secondTime.batch ["a".toList, "bc".toList, "a".toList]) [] run.2 ∧
      (run.1 = .ok vectors → ∀ i, i * 1 < 3 → false ∈ attempts i run.2) :=
  @embed_map secondTime (fun text => [BitVec.ofNat 64 text.length]) (by decide)
    (by decide)
    (by
      intro log req vectors h
      unfold secondTime at h
      simp only at h
      split at h
      · exact (Option.some.inj h).symm
      · cases h)
    ["a".toList, "bc".toList, "a".toList]

theorem embedOne_map (hbatch : 1 ≤ p.config.batchSize) (hretries : 0 ≤ p.config.maxRetries)
    (hreply : ∀ log req vectors, p.create log req = some vectors → vectors = req.input.map vectorOf)
    (text : List Char) :
    p.embedOne text = .ok (vectorOf text) ∨ p.embedOne text = .error p.failure := by
  unfold OpenAIEmbeddingProvider.embedOne
  rcases (embed_tried hbatch hretries hreply [text]).outcome with ⟨hok, -⟩ | ⟨herror, -⟩
  · rw [hok]
    exact Or.inl rfl
  · rw [herror]
    exact Or.inr rfl

end

end GroundGraph.Retrieval
