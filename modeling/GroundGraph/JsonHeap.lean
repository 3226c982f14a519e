import GroundGraph.Json
import GroundGraph.Library.KeyedTable
import Mathlib.Data.Finset.Card

/-! `validate_json_value` of `domain/types.py` on objects with identities: lists and dicts refer to
each other in any way, and the set `seen` holds those that are open on the way down.
-/

set_option autoImplicit false

namespace GroundGraph.JsonHeap

/-- What holds no other object; `other` is an instance of any further type. -/
inductive Leaf where
  | none
  | bool (b : Bool)
  | int (i : Int)
  | float (x : PyFloat)
  | str (s : String)
  | other (typeName : String)
  deriving DecidableEq

/-- A value: a leaf, or the list or dict with this identity. -/
inductive HeapValue where
  | leaf (l : Leaf)
  | ref (id : Nat)
  deriving DecidableEq

/-- A key of a dict that is no string is known by its type and what tells it from others. -/
inductive HeapKey where
  | str (s : String)
  | other (typeName : String) (tag : Nat)
  deriving DecidableEq

abbrev HeapDict := KeyedTable (Prod.fst : HeapKey × HeapValue → HeapKey)

inductive Container where
  | list (items : List HeapValue)
  | dict (entries : HeapDict)

def Container.values : Container → List HeapValue
  | .list items => items
  | .dict entries => entries.rows.map Prod.snd

def Container.isDict : Container → Bool
  | .list _ => false
  | .dict _ => true

def HeapValue.Within (size : Nat) : HeapValue → Prop
  | .leaf _ => True
  | .ref id => id < size

/-- The lists and dicts there are, each at its identity. All references lead to one of them. -/
structure PyHeap where
  containers : List Container
  closed : ∀ c ∈ containers, ∀ v ∈ c.values, v.Within containers.length

def PyHeap.size (heap : PyHeap) : Nat := heap.containers.length

abbrev PyHeap.Value (heap : PyHeap) := { v : HeapValue // v.Within heap.size }

/-- The objects, new ones at the end, and `seen`. -/
structure ValidateState where
  objects : List Container
  seen : Finset Nat

abbrev Outcome (α : Type) := Except JsonError α × ValidateState

def andThen {α β : Type} (step : Option (Outcome α))
    (next : α → ValidateState → Option (Outcome β)) : Option (Outcome β) :=
  match step with
  | none => none
  | some (.error e, st) => some (.error e, st)
  | some (.ok a, st) => next a st

/-- `seen.add(object_id)`. -/
def ValidateState.add (st : ValidateState) (id : Nat) : ValidateState :=
  { st with seen := insert id st.seen }

/-- `finally: seen.discard(object_id)`. -/
def discarding {α : Type} (id : Nat) (step : Option (Outcome α)) : Option (Outcome α) :=
  step.map fun outcome => (outcome.1, { outcome.2 with seen := outcome.2.seen.erase id })

def ValidateState.create (st : ValidateState) (c : Container) : Option (Outcome HeapValue) :=
  some (.ok (.ref st.objects.length), { st with objects := st.objects ++ [c] })

def validateLeaf : Leaf → Except JsonError HeapValue
  | .float x => if x.nonFinite then .error .nonFiniteFloat else .ok (.leaf (.float x))
  | .other typeName => .error (.notJson typeName)
  | l => .ok (.leaf l)

/-- `[_validate(item, seen) for item in lst]`. -/
def validateEach (validate : HeapValue → ValidateState → Option (Outcome HeapValue)) :
    List HeapValue → ValidateState → Option (Outcome (List HeapValue))
  | [], st => some (.ok [], st)
  | item :: rest, st =>
    andThen (validate item st) fun value st =>
      andThen (validateEach validate rest st) fun values st => some (.ok (value :: values), st)

def validateMapping (validate : HeapValue → ValidateState → Option (Outcome HeapValue)) :
    List (HeapKey × HeapValue) → HeapDict → ValidateState → Option (Outcome HeapDict)
  | [], result, st => some (.ok result, st)
  | (.other typeName _, _) :: _, _, st => some (.error (.keyNotStr typeName), st)
  | (.str k, v) :: rest, result, st =>
    andThen (validate v st) fun value st =>
      validateMapping validate rest (result.upsert (.str k, value)) st

/-- The bodies of the two `try` blocks. -/
def validateContainer (validate : HeapValue → ValidateState → Option (Outcome HeapValue)) :
    Container → ValidateState → Option (Outcome HeapValue)
  | .list items, st =>
    andThen (validateEach validate items st) fun values st => st.create (.list values)
  | .dict entries, st =>
    andThen (validateMapping validate entries.rows .empty st) fun result st =>
      st.create (.dict result)

def Container.cycleError : Container → JsonError
  | .list _ => .listCycle
  | .dict _ => .dictCycle

/-- `_validate`. A step down into a list or dict takes one of the fuel; `none` is a walk that is
not at its end. -/
def validate (fuel : Nat) (value : HeapValue) (st : ValidateState) : Option (Outcome HeapValue) :=
  match value with
  | .leaf l => some (validateLeaf l, st)
  | .ref id =>
    match st.objects[id]? with
    | none => none
    | some c =>
      if id ∈ st.seen then some (.error c.cycleError, st)
      else
        match fuel with
        | 0 => none
        | fuel + 1 => discarding id (validateContainer (validate fuel) c (st.add id))

def validateJsonValue (heap : PyHeap) (fuel : Nat) (root : heap.Value) :
    Option (Outcome HeapValue) :=
  validate fuel root ⟨heap.containers, ∅⟩

/-! ## What a value stands for -/

mutual

/-- Among the objects the value stands for the JSON value, through containers whose identity is at
least `low`. -/
def Denotes (objects : List Container) (low : Nat) : HeapValue → JsonValue → Prop
  | v, .null => v = .leaf .none
  | v, .bool b => v = .leaf (.bool b)
  | v, .int i => v = .leaf (.int i)
  | v, .float x _ => v = .leaf (.float x)
  | v, .str s => v = .leaf (.str s)
  | v, .list js => ∃ id items, v = .ref id ∧ low ≤ id ∧ objects[id]? = some (.list items) ∧
      DenoteItems objects low items js
  | v, .dict js => ∃ id entries, v = .ref id ∧ low ≤ id ∧ objects[id]? = some (.dict entries) ∧
      DenoteEntries objects low entries.rows js

def DenoteItems (objects : List Container) (low : Nat) : List HeapValue → List JsonValue → Prop
  | items, [] => items = []
  | items, j :: js => ∃ v rest, items = v :: rest ∧ Denotes objects low v j ∧
      DenoteItems objects low rest js

def DenoteEntries (objects : List Container) (low : Nat) :
    List (HeapKey × HeapValue) → List (String × JsonValue) → Prop
  | rows, [] => rows = []
  | rows, (k, j) :: js => ∃ v rest, rows = (.str k, v) :: rest ∧ Denotes objects low v j ∧
      DenoteEntries objects low rest js

end

section
variable {objects objects' : List Container} {low low' : Nat}

theorem getElem?_of_isPrefix {α : Type} {l l' : List α} (h : l <+: l') {i : Nat} {a : α}
    (ha : l[i]? = some a) : l'[i]? = some a := by
  obtain ⟨rest, rfl⟩ := h
  obtain ⟨hi, _⟩ := List.getElem?_eq_some_iff.mp ha
  rw [List.getElem?_append_left hi, ha]

mutual

theorem Denotes.mono (h : objects <+: objects') (hlow : low' ≤ low) {v : HeapValue} {j : JsonValue}
    (hv : Denotes objects low v j) : Denotes objects' low' v j := by
  cases j with
  | null => exact hv
  | bool b => exact hv
  | int i => exact hv
  | float x hx => exact hv
  | str s => exact hv
  | list js =>
    obtain ⟨id, items, rfl, hid, hget, hitems⟩ := hv
    exact ⟨id, items, rfl, Nat.le_trans hlow hid, getElem?_of_isPrefix h hget, hitems.mono h hlow⟩
  | dict js =>
    obtain ⟨id, entries, rfl, hid, hget, hentries⟩ := hv
    exact ⟨id, entries, rfl, Nat.le_trans hlow hid, getElem?_of_isPrefix h hget,
      hentries.mono h hlow⟩

theorem DenoteItems.mono (h : objects <+: objects') (hlow : low' ≤ low) {items : List HeapValue}
    {js : List JsonValue} (hitems : DenoteItems objects low items js) :
    DenoteItems objects' low' items js := by
  cases js with
  | nil => exact hitems
  | cons j js =>
    obtain ⟨v, rest, rfl, hv, hrest⟩ := hitems
    exact ⟨v, rest, rfl, hv.mono h hlow, hrest.mono h hlow⟩

theorem DenoteEntries.mono (h : objects <+: objects') (hlow : low' ≤ low)
    {rows : List (HeapKey × HeapValue)} {js : List (String × JsonValue)}
    (hrows : DenoteEntries objects low rows js) : DenoteEntries objects' low' rows js := by
  cases js with
  | nil => exact hrows
  | cons entry js =>
    obtain ⟨k, j⟩ := entry
    obtain ⟨v, rest, rfl, hv, hrest⟩ := hrows
    exact ⟨v, rest, rfl, hv.mono h hlow, hrest.mono h hlow⟩

end

end

/-! ## The values unfolded -/

def Leaf.toPy : Leaf → PyValue
  | .none => .none
  | .bool b => .bool b
  | .int i => .int i
  | .float x => .float x
  | .str s => .str s
  | .other typeName => .other typeName

def HeapKey.toPy : HeapKey → String ⊕ String
  | .str s => .inl s
  | .other typeName _ => .inr typeName

def Container.toPy (tree : HeapValue → PyValue) : Container → PyValue
  | .list items => .list (items.map tree)
  | .dict entries => .dict (entries.rows.map fun e => (e.1.toPy, tree e.2))

/-- The tree that the walk sees: a container on the path is a back reference. -/
def PyHeap.unfold (heap : PyHeap) (fuel : Nat) (path : Finset Nat) (value : HeapValue) : PyValue :=
  match value with
  | .leaf l => l.toPy
  | .ref id =>
    match heap.containers[id]? with
    | none => .other ""
    | some c =>
      if id ∈ path then .backReference c.isDict
      else
        match fuel with
        | 0 => .backReference c.isDict
        | fuel + 1 => c.toPy (heap.unfold fuel (insert id path))

/-! ## The walk validates the tree -/

theorem validateItems_cons (v : PyValue) (vs : List PyValue) :
    validateItems (v :: vs) = (GroundGraph.validateJsonValue v).bind fun j =>
      (validateItems vs).bind fun js => .ok (j :: js) := by
  rw [validateItems]
  cases GroundGraph.validateJsonValue v with
  | error e => rfl
  | ok j => cases validateItems vs <;> rfl

theorem validateEntries_cons (k : String) (v : PyValue) (vs : List ((String ⊕ String) × PyValue)) :
    validateEntries ((.inl k, v) :: vs) = (GroundGraph.validateJsonValue v).bind fun j =>
      (validateEntries vs).bind fun js => .ok ((k, j) :: js) := by
  rw [validateEntries]
  cases GroundGraph.validateJsonValue v with
  | error e => rfl
  | ok j => cases validateEntries vs <;> rfl

section
variable {α β γ δ : Type}

/-- Both fail with the same error, or what they return belongs together. -/
def Agree (R : α → β → Prop) : Except JsonError α → Except JsonError β → Prop
  | .error e, .error e' => e = e'
  | .ok a, .ok b => R a b
  | _, _ => False

theorem Agree.isOk_iff {R : α → β → Prop} {x : Except JsonError α} {y : Except JsonError β}
    (h : Agree R x y) : (∃ a, x = .ok a) ↔ ∃ b, y = .ok b := by
  cases x <;> cases y
  · simp
  · cases h
  · cases h
  · simp

theorem Agree.exists_of_ok {R : α → β → Prop} {a : α} {y : Except JsonError β}
    (h : Agree R (.ok a) y) : ∃ b, y = .ok b ∧ R a b := by
  cases y with
  | error e => cases h
  | ok b => exact ⟨b, rfl, h⟩

/-- The step comes to its end, leaves `seen` as it was, changes no object that was there, and does
what is expected. -/
def Refines (R : List Container → α → β → Prop) (st : ValidateState) (step : Option (Outcome α))
    (expected : Except JsonError β) : Prop :=
  ∃ outcome st', step = some (outcome, st') ∧ st'.seen = st.seen ∧ st.objects <+: st'.objects ∧
    Agree (R st'.objects) outcome expected

variable {R : List Container → α → β → Prop} {S : List Container → γ → δ → Prop}
  {st : ValidateState}

theorem Refines.error (e : JsonError) :
    Refines R st (some (.error e, st)) (.error e) :=
  ⟨.error e, st, rfl, rfl, List.prefix_refl _, rfl⟩

theorem Refines.ok {a : α} {b : β} (h : R st.objects a b) :
    Refines R st (some (.ok a, st)) (.ok b) :=
  ⟨.ok a, st, rfl, rfl, List.prefix_refl _, h⟩

theorem Refines.andThen {step : Option (Outcome α)} {expected : Except JsonError β}
    {next : α → ValidateState → Option (Outcome γ)} {f : β → Except JsonError δ}
    (h : Refines R st step expected)
    (hnext : ∀ a b st', st'.seen = st.seen → st.objects <+: st'.objects → R st'.objects a b →
      Refines S st' (next a st') (f b)) :
    Refines S st (andThen step next) (expected.bind f) := by
  obtain ⟨outcome, st', rfl, hseen, hobjects, hagree⟩ := h
  cases outcome with
  | error e =>
    cases expected with
    | error e' => exact ⟨.error e, st', rfl, hseen, hobjects, hagree⟩
    | ok b => cases hagree
  | ok a =>
    cases expected with
    | error e' => cases hagree
    | ok b =>
      obtain ⟨outcome, st'', hstep, hseen', hobjects', hagree'⟩ :=
        hnext a b st' hseen hobjects hagree
      exact ⟨outcome, st'', hstep, hseen'.trans hseen, hobjects.trans hobjects', hagree'⟩

theorem Refines.imp {step : Option (Outcome α)} {expected : Except JsonError β} {f : β → δ}
    {R' : List Container → α → δ → Prop} (h : Refines R st step expected)
    (himp : ∀ objects a b, st.objects <+: objects → R objects a b → R' objects a (f b)) :
    Refines R' st step (expected.bind fun b => .ok (f b)) := by
  obtain ⟨outcome, st', rfl, hseen, hobjects, hagree⟩ := h
  refine ⟨outcome, st', rfl, hseen, hobjects, ?_⟩
  cases outcome <;> cases expected
  · exact hagree
  · cases hagree
  · cases hagree
  · exact himp _ _ _ hobjects hagree

theorem Refines.discarding {id : Nat} {step : Option (Outcome α)} {expected : Except JsonError β}
    (hid : id ∉ st.seen) (h : Refines R (st.add id) step expected) :
    Refines R st (discarding id step) expected := by
  obtain ⟨outcome, st', rfl, hseen, hobjects, hagree⟩ := h
  refine ⟨outcome, _, rfl, ?_, hobjects, hagree⟩
  show st'.seen.erase id = st.seen
  rw [hseen]
  exact Finset.erase_insert hid

end

section
variable {heap : PyHeap} {fuel : Nat} {path : Finset Nat}

/-- The objects of the heap are still there, and `seen` is the path. -/
structure OnPath (heap : PyHeap) (path : Finset Nat) (st : ValidateState) : Prop where
  kept : heap.containers <+: st.objects
  seen : st.seen = path

theorem OnPath.step {st st' : ValidateState} (h : OnPath heap path st) (hseen : st'.seen = st.seen)
    (hobjects : st.objects <+: st'.objects) : OnPath heap path st' :=
  ⟨h.kept.trans hobjects, hseen.trans h.seen⟩

variable {check : HeapValue → ValidateState → Option (Outcome HeapValue)}
  {tree : HeapValue → PyValue}

theorem validateEach_refines {items : List HeapValue}
    (hcheck : ∀ v ∈ items, ∀ st, OnPath heap path st →
      Refines (fun objects => Denotes objects heap.size) st (check v st)
        (GroundGraph.validateJsonValue (tree v)))
    {st : ValidateState} (hst : OnPath heap path st) :
    Refines (fun objects => DenoteItems objects heap.size) st (validateEach check items st)
      (validateItems (items.map tree)) := by
  induction items generalizing st with
  | nil => exact .ok rfl
  | cons v rest ih =>
    obtain ⟨hv, hrest⟩ := List.forall_mem_cons.mp hcheck
    rw [List.map_cons, validateItems_cons]
    refine (hv st hst).andThen fun value j st' hseen hobjects hvalue => ?_
    refine (ih hrest (hst.step hseen hobjects)).andThen fun values js st'' _ hobjects' hvalues => ?_
    exact .ok ⟨value, values, rfl, hvalue.mono hobjects' (Nat.le_refl _), hvalues⟩

theorem validateMapping_refines {entries : List (HeapKey × HeapValue)}
    (hcheck : ∀ e ∈ entries, ∀ st, OnPath heap path st →
      Refines (fun objects => Denotes objects heap.size) st (check e.2 st)
        (GroundGraph.validateJsonValue (tree e.2)))
    {result : HeapDict} (hkeys : ((result.rows ++ entries).map Prod.fst).Nodup)
    {st : ValidateState} (hst : OnPath heap path st) :
    Refines
      (fun objects (d : HeapDict) js => ∃ rows, d.rows = result.rows ++ rows ∧
        DenoteEntries objects heap.size rows js)
      st (validateMapping check entries result st)
      (validateEntries (entries.map fun e => (e.1.toPy, tree e.2))) := by
  induction entries generalizing result st with
  | nil => exact .ok ⟨[], (List.append_nil _).symm, rfl⟩
  | cons e rest ih =>
    obtain ⟨hv, hrest⟩ := List.forall_mem_cons.mp hcheck
    obtain ⟨key, v⟩ := e
    cases key with
    | other typeName tag => exact .error _
    | str k =>
      have hnew : HeapKey.str k ∉ result.rows.map Prod.fst := by
        rw [List.map_append, List.nodup_append] at hkeys
        intro hmem
        exact hkeys.2.2 _ hmem _ List.mem_cons_self rfl
      rw [List.map_cons, HeapKey.toPy, validateEntries_cons]
      refine (hv st hst).andThen fun value j st' hseen hobjects hvalue => ?_
      have hrows : (result.upsert (.str k, value)).rows = result.rows ++ [(.str k, value)] := by
        rw [KeyedTable.upsert, dif_neg hnew]
        rfl
      have hkeys' : (((result.upsert (.str k, value)).rows ++ rest).map Prod.fst).Nodup := by
        rw [hrows]
        simpa using hkeys
      refine (ih hrest hkeys' (hst.step hseen hobjects)).imp fun objects d js hobjects' hd => ?_
      obtain ⟨rows, hd, hrest'⟩ := hd
      refine ⟨(.str k, value) :: rows, ?_, value, rows, rfl, hvalue.mono hobjects' (Nat.le_refl _),
        hrest'⟩
      rw [hd, hrows, List.append_assoc]
      rfl

theorem validateLeaf_refines (l : Leaf) (st : ValidateState) :
    Refines (fun objects => Denotes objects heap.size) st (some (validateLeaf l, st))
      (GroundGraph.validateJsonValue l.toPy) := by
  cases l with
  | float x =>
    cases hx : x.nonFinite with
    | true => simpa [validateLeaf, Leaf.toPy, GroundGraph.validateJsonValue, hx] using .error _
    | false =>
      rw [validateLeaf, hx, Leaf.toPy, GroundGraph.validateJsonValue, dif_pos hx]
      exact .ok rfl
  | other typeName => exact .error _
  | none => exact .ok rfl
  | bool b => exact .ok rfl
  | int i => exact .ok rfl
  | str s => exact .ok rfl

theorem create_refines {st : ValidateState} {c : Container} {j : JsonValue}
    (hc : Denotes (st.objects ++ [c]) heap.size (.ref st.objects.length) j) :
    Refines (fun objects => Denotes objects heap.size) st (st.create c) (.ok j) :=
  ⟨.ok (.ref st.objects.length), _, rfl, rfl, List.prefix_append _ _, hc⟩

theorem validateJsonValue_list (vs : List PyValue) :
    GroundGraph.validateJsonValue (.list vs) =
      (validateItems vs).bind fun js => .ok (.list js) := by
  rw [GroundGraph.validateJsonValue]
  cases validateItems vs <;> rfl

theorem validateJsonValue_dict (vs : List ((String ⊕ String) × PyValue)) :
    GroundGraph.validateJsonValue (.dict vs) =
      (validateEntries vs).bind fun js => .ok (.dict js) := by
  rw [GroundGraph.validateJsonValue]
  cases validateEntries vs <;> rfl

theorem validateContainer_refines {c : Container}
    (hcheck : ∀ v ∈ c.values, ∀ st, OnPath heap path st →
      Refines (fun objects => Denotes objects heap.size) st (check v st)
        (GroundGraph.validateJsonValue (tree v)))
    {st : ValidateState} (hst : OnPath heap path st) :
    Refines (fun objects => Denotes objects heap.size) st (validateContainer check c st)
      (GroundGraph.validateJsonValue (c.toPy tree)) := by
  cases c with
  | list items =>
    rw [validateContainer, Container.toPy, validateJsonValue_list]
    refine (validateEach_refines hcheck hst).andThen fun values js st' hseen hobjects hvalues => ?_
    have hsize := (hst.step hseen hobjects).kept.length_le
    exact create_refines ⟨_, values, rfl, hsize, by simp,
      hvalues.mono (List.prefix_append _ _) (Nat.le_refl _)⟩
  | dict entries =>
    rw [validateContainer, Container.toPy, validateJsonValue_dict]
    have hentries : ∀ e ∈ entries.rows, ∀ st, OnPath heap path st →
        Refines (fun objects => Denotes objects heap.size) st (check e.2 st)
          (GroundGraph.validateJsonValue (tree e.2)) := fun e he =>
      hcheck e.2 (List.mem_map_of_mem he)
    have hkeys : (((.empty : HeapDict).rows ++ entries.rows).map Prod.fst).Nodup := entries.unique
    have hloop := validateMapping_refines hentries hkeys hst
    refine hloop.andThen fun result js st' hseen hobjects hresult => ?_
    obtain ⟨rows, hrows, hdenote⟩ := hresult
    obtain rfl : result.rows = rows := hrows
    have hsize := (hst.step hseen hobjects).kept.length_le
    exact create_refines ⟨_, result, rfl, hsize, by simp,
      hdenote.mono (List.prefix_append _ _) (Nat.le_refl _)⟩

theorem PyHeap.exists_container (heap : PyHeap) {id : Nat} (hid : id < heap.size) :
    ∃ c, heap.containers[id]? = some c ∧ ∀ v ∈ c.values, v.Within heap.size :=
  ⟨_, List.getElem?_eq_getElem hid, heap.closed _ (List.getElem_mem hid)⟩

theorem seen_refines {id : Nat} (hid : id < heap.size) (hmem : id ∈ path) {st : ValidateState}
    (hst : OnPath heap path st) :
    Refines (fun objects => Denotes objects heap.size) st (validate fuel (.ref id) st)
      (GroundGraph.validateJsonValue (heap.unfold fuel path (.ref id))) := by
  obtain ⟨c, hget, _⟩ := heap.exists_container hid
  have hseen : id ∈ st.seen := hst.seen ▸ hmem
  unfold validate PyHeap.unfold
  simp only [hget, getElem?_of_isPrefix hst.kept hget, hseen, hmem, if_true]
  cases c with
  | list items => exact .error _
  | dict entries => exact .error _

/-- As many steps down as there are containers off the path are enough. -/
theorem validate_refines {fuel : Nat} {path : Finset Nat} (hpath : path ⊆ Finset.range heap.size)
    (hfuel : heap.size ≤ fuel + path.card) {v : HeapValue} (hv : v.Within heap.size)
    {st : ValidateState} (hst : OnPath heap path st) :
    Refines (fun objects => Denotes objects heap.size) st (validate fuel v st)
      (GroundGraph.validateJsonValue (heap.unfold fuel path v)) := by
  induction fuel generalizing path v st with
  | zero =>
    cases v with
    | leaf l => exact validateLeaf_refines l st
    | ref id =>
      have hall : path = Finset.range heap.size :=
        Finset.eq_of_subset_of_card_le hpath (by rw [Finset.card_range]; omega)
      have hmem : id ∈ path := by
        rw [hall]
        exact Finset.mem_range.mpr hv
      exact seen_refines hv hmem hst
  | succ fuel ih =>
    cases v with
    | leaf l => exact validateLeaf_refines l st
    | ref id =>
      by_cases hmem : id ∈ path
      · exact seen_refines hv hmem hst
      · obtain ⟨c, hget, hwithin⟩ := heap.exists_container hv
        have hseen : id ∉ st.seen := hst.seen ▸ hmem
        have hcard := Finset.card_insert_of_notMem hmem
        unfold validate PyHeap.unfold
        simp only [hget, getElem?_of_isPrefix hst.kept hget, hseen, hmem, if_false]
        have hadd : OnPath heap (insert id path) (st.add id) :=
          ⟨hst.kept, congrArg (insert id) hst.seen⟩
        refine Refines.discarding hseen (validateContainer_refines (fun w hw st' hst' => ?_) hadd)
        have hpath' := Finset.insert_subset (Finset.mem_range.mpr hv) hpath
        exact ih hpath' (by omega) (hwithin w hw) hst'

end

end GroundGraph.JsonHeap
