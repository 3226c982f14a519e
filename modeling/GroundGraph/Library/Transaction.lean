import Mathlib.Data.List.Basic

/-! Computations in a database session. Any step may fail; a failure ends the computation
and leaves the pending state as the steps before it made it. A unit of work keeps that
state when its body returns and the commit goes through, and drops it otherwise.
-/

set_option autoImplicit false

theorem Except.bind_ok_iff {ε α β : Type} {x : Except ε α} {f : α → Except ε β} {b : β} :
    (x >>= f) = .ok b ↔ ∃ a, x = .ok a ∧ f a = .ok b := by
  cases x with
  | error e => simp [bind, Except.bind]
  | ok a => simp [bind, Except.bind]

theorem Except.bind_error_iff {ε α β : Type} {x : Except ε α} {f : α → Except ε β} {e : ε} :
    (x >>= f) = .error e ↔ x = .error e ∨ ∃ a, x = .ok a ∧ f a = .error e := by
  cases x with
  | error e' => simp [bind, Except.bind]
  | ok a => simp [bind, Except.bind]

inductive Ending (ε σ α : Type) where
  | returned (result : α) (state : σ)
  | raised (error : ε) (state : σ)

def Ending.state {ε σ α : Type} : Ending ε σ α → σ
  | .returned _ s => s
  | .raised _ s => s

/-- `ι` names the steps, and the first argument says which of them fail and how. -/
def Transaction (ι ε σ α : Type) : Type := (ι → Option ε) → σ → Ending ε σ α

namespace Transaction

variable {ι ε σ α β : Type}

def noFaults : ι → Option ε := fun _ => none

def bind (x : Transaction ι ε σ α) (f : α → Transaction ι ε σ β) : Transaction ι ε σ β :=
  fun faults s =>
    match x faults s with
    | .returned a t => f a faults t
    | .raised e t => .raised e t

instance : Monad (Transaction ι ε σ) where
  pure a := fun _ s => .returned a s
  bind := bind

def raise (e : ε) : Transaction ι ε σ α := fun _ s => .raised e s

/-- A step that reads and writes the pending state, or raises by itself. -/
def perform (i : ι) (f : σ → Except ε (α × σ)) : Transaction ι ε σ α := fun faults s =>
  match faults i with
  | some e => .raised e s
  | none =>
    match f s with
    | .error e => .raised e s
    | .ok (a, t) => .returned a t

def query (i : ι) (f : σ → Except ε α) : Transaction ι ε σ α :=
  perform i fun s => (f s).map fun a => (a, s)

def write (i : ι) (f : σ → σ) : Transaction ι ε σ Unit := perform i fun s => .ok ((), f s)

def failing (faults : ι → Option ε) (i : ι) (r : Except ε α) : Except ε α :=
  match faults i with
  | some e => .error e
  | none => r

/-- What `Except` says, as a step that touches no state. -/
def attempt (i : ι) (r : Except ε α) : Transaction ι ε σ α := query i fun _ => r

def forEach (f : α → Transaction ι ε σ Unit) : List α → Transaction ι ε σ Unit
  | [] => pure ()
  | a :: as => do
    f a
    forEach f as

/-- `async with uow:` around a body. A commit that raises is taken to have had no effect. -/
def unitOfWork (commit : ι) (body : Transaction ι ε σ α) (faults : ι → Option ε) (s : σ) :
    σ × Except ε α :=
  match body faults s with
  | .raised e _ => (s, .error e)
  | .returned a t =>
    match faults commit with
    | some e => (s, .error e)
    | none => (t, .ok a)

variable {faults : ι → Option ε} {s t : σ}

theorem pure_returned_iff {a b : α} :
    (pure a : Transaction ι ε σ α) faults s = .returned b t ↔ a = b ∧ s = t := by
  constructor
  · intro h
    cases h
    exact ⟨rfl, rfl⟩
  · rintro ⟨rfl, rfl⟩
    rfl

theorem pure_apply (a : α) : (pure a : Transaction ι ε σ α) faults s = .returned a s := rfl

theorem query_noFaults (i : ι) (f : σ → Except ε α) :
    query i f noFaults s =
      match f s with
      | .ok a => .returned a s
      | .error e => .raised e s := by
  cases hf : f s <;> simp [query, perform, noFaults, hf, Except.map]

theorem bind_apply (x : Transaction ι ε σ α) (f : α → Transaction ι ε σ β) :
    (x >>= f) faults s =
      match x faults s with
      | .returned a t => f a faults t
      | .raised e t => .raised e t := rfl

theorem bind_returned_iff {x : Transaction ι ε σ α} {f : α → Transaction ι ε σ β} {b : β} :
    (x >>= f) faults s = .returned b t ↔
      ∃ a m, x faults s = .returned a m ∧ f a faults m = .returned b t := by
  rw [bind_apply]
  cases hx : x faults s with
  | returned a m => simp
  | raised e m => simp

theorem perform_returned_iff {i : ι} {f : σ → Except ε (α × σ)} {a : α} :
    perform i f faults s = .returned a t ↔ faults i = none ∧ f s = .ok (a, t) := by
  unfold perform
  cases hfault : faults i with
  | some e => simp
  | none =>
    cases hf : f s with
    | error e => simp
    | ok r => simp [Prod.ext_iff]

theorem query_returned_iff {i : ι} {f : σ → Except ε α} {a : α} :
    query i f faults s = .returned a t ↔ faults i = none ∧ f s = .ok a ∧ t = s := by
  rw [query, perform_returned_iff]
  cases hf : f s with
  | error e => simp [Except.map]
  | ok b => simp [Except.map, eq_comm]

theorem attempt_returned_iff {i : ι} {r : Except ε α} {a : α} :
    (attempt i r : Transaction ι ε σ α) faults s = .returned a t ↔
      faults i = none ∧ r = .ok a ∧ t = s := query_returned_iff

theorem write_returned_iff {i : ι} {f : σ → σ} {u : Unit} :
    (write i f : Transaction ι ε σ Unit) faults s = .returned u t ↔ faults i = none ∧ t = f s := by
  rw [write, perform_returned_iff]
  simp [eq_comm]

theorem failing_ok_iff {i : ι} {r : Except ε α} {a : α} :
    failing faults i r = .ok a ↔ faults i = none ∧ r = .ok a := by
  unfold failing
  cases hfault : faults i with
  | some e => simp
  | none => simp

@[simp] theorem failing_noFaults (i : ι) (r : Except ε α) : failing noFaults i r = r := rfl

theorem unitOfWork_cases (commit : ι) (body : Transaction ι ε σ α) (faults : ι → Option ε) (s : σ) :
    (∃ e, unitOfWork commit body faults s = (s, .error e)) ∨
      ∃ a t, body faults s = .returned a t ∧ faults commit = none ∧
        unitOfWork commit body faults s = (t, .ok a) := by
  unfold unitOfWork
  cases hbody : body faults s with
  | raised e t => exact Or.inl ⟨e, rfl⟩
  | returned a t =>
    cases hcommit : faults commit with
    | some e => exact Or.inl ⟨e, rfl⟩
    | none => exact Or.inr ⟨a, t, rfl, rfl, rfl⟩

theorem unitOfWork_ok_iff {commit : ι} {body : Transaction ι ε σ α} {a : α} :
    unitOfWork commit body faults s = (t, .ok a) ↔
      body faults s = .returned a t ∧ faults commit = none := by
  unfold unitOfWork
  cases hbody : body faults s with
  | raised e m => simp
  | returned b m =>
    cases hcommit : faults commit with
    | some e => simp
    | none => simp [and_comm]

def Reads (x : Transaction ι ε σ α) (s : σ) : Prop := ∃ a, x noFaults s = .returned a s

theorem reads_pure (a : α) (s : σ) : Reads (pure a : Transaction ι ε σ α) s := ⟨a, rfl⟩

theorem reads_query {i : ι} {f : σ → Except ε α} (h : ∃ a, f s = .ok a) : Reads (query i f) s := by
  obtain ⟨a, ha⟩ := h
  exact ⟨a, query_returned_iff.mpr ⟨rfl, ha, rfl⟩⟩

theorem Reads.bind {x : Transaction ι ε σ α} {f : α → Transaction ι ε σ β} (hx : Reads x s)
    (hf : ∀ a, x noFaults s = .returned a s → Reads (f a) s) : Reads (x >>= f) s := by
  obtain ⟨a, ha⟩ := hx
  obtain ⟨b, hb⟩ := hf a ha
  exact ⟨b, bind_returned_iff.mpr ⟨a, s, ha, hb⟩⟩

/-! Pre- and postconditions: from a state with `P` the computation returns with `Q` or
raises with `R`, whatever fails. -/

def Triple (P : σ → Prop) (x : Transaction ι ε σ α) (Q : α → σ → Prop) (R : σ → Prop) : Prop :=
  ∀ faults s, P s →
    match x faults s with
    | .returned a t => Q a t
    | .raised _ t => R t

variable {P : σ → Prop} {Q : α → σ → Prop} {Q' : β → σ → Prop} {R : σ → Prop}

theorem Triple.state {x : Transaction ι ε σ α} (h : Triple P x Q R) (hQ : ∀ a s, Q a s → R s)
    (faults : ι → Option ε) {s : σ} (hs : P s) : R (x faults s).state := by
  have hx := h faults s hs
  cases hend : x faults s with
  | returned a t =>
    rw [hend] at hx
    exact hQ a t hx
  | raised e t =>
    rw [hend] at hx
    exact hx

theorem Triple.returned {x : Transaction ι ε σ α} (h : Triple P x Q R) {a : α} (hs : P s)
    (hx : x faults s = .returned a t) : Q a t := by
  have hend := h faults s hs
  rw [hx] at hend
  exact hend

theorem Triple.anyRaised {x : Transaction ι ε σ α} (h : Triple P x Q R) :
    Triple P x Q fun _ => True := by
  intro faults s hs
  have hx := h faults s hs
  cases hend : x faults s with
  | returned a t =>
    rw [hend] at hx
    exact hx
  | raised e t => trivial

theorem triple_pure {a : α} (h : ∀ s, P s → Q a s) :
    Triple P (pure a : Transaction ι ε σ α) Q R := fun _ s hs => h s hs

theorem triple_bind {x : Transaction ι ε σ α} {f : α → Transaction ι ε σ β}
    (hx : Triple P x Q R) (hf : ∀ a, Triple (Q a) (f a) Q' R) : Triple P (x >>= f) Q' R := by
  intro faults s hs
  have hend := hx faults s hs
  rw [bind_apply]
  cases heq : x faults s with
  | returned a t =>
    rw [heq] at hend
    exact hf a faults t hend
  | raised e t =>
    rw [heq] at hend
    exact hend

theorem triple_perform {i : ι} {f : σ → Except ε (α × σ)} (hR : ∀ s, P s → R s)
    (h : ∀ s a t, P s → f s = .ok (a, t) → Q a t) : Triple P (perform i f) Q R := by
  intro faults s hs
  unfold perform
  cases faults i with
  | some e => exact hR s hs
  | none =>
    cases hf : f s with
    | error e => exact hR s hs
    | ok r => exact h s r.1 r.2 hs hf

theorem triple_write {i : ι} {f : σ → σ} {Q : Unit → σ → Prop} (hR : ∀ s, P s → R s)
    (h : ∀ s, P s → Q () (f s)) : Triple P (write i f : Transaction ι ε σ Unit) Q R := by
  refine triple_perform hR fun s a t hs hf => ?_
  obtain ⟨_, rfl⟩ := Prod.mk.inj (Except.ok.inj hf)
  exact h s hs

theorem Triple.unitOfWork {body : Transaction ι ε σ α} (h : Triple P body Q R)
    (hQ : ∀ a t, Q a t → P t) (commit : ι) (faults : ι → Option ε) {s : σ} (hs : P s) :
    P (unitOfWork commit body faults s).1 := by
  rcases unitOfWork_cases commit body faults s with ⟨e, heq⟩ | ⟨a, t, hbody, _, heq⟩
  · rw [heq]
    exact hs
  · have hend := h faults s hs
    rw [hbody] at hend
    rw [heq]
    exact hQ a t hend

end Transaction
