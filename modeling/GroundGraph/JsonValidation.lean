import GroundGraph.JsonHeap
import GroundGraph.Library.PathWalk
import GroundGraph.Library.Transaction

/-! What `validate_json_value` accepts among objects with identities: finite JSON. Containers may be
shared, and what is returned is built of new ones.
-/

set_option autoImplicit false

namespace GroundGraph.JsonHeap

open Relation PathWalk

/-! ## The end of the walk does not depend on the fuel -/

/-- Where `p` has a result, `q` has the same. -/
def Settles {α : Type} (p q : Option α) : Prop := ∀ a, p = some a → q = some a

section
variable {α β : Type}

theorem Settles.refl (p : Option α) : Settles p p := fun _ h => h

theorem Settles.andThen {p q : Option (Outcome α)} {f g : α → ValidateState → Option (Outcome β)}
    (h : Settles p q) (hnext : ∀ a st, Settles (f a st) (g a st)) :
    Settles (andThen p f) (andThen q g) := by
  intro b hb
  cases p with
  | none => cases hb
  | some outcome =>
    rw [h outcome rfl]
    obtain ⟨result, st⟩ := outcome
    cases result with
    | error e => exact hb
    | ok a => exact hnext a st b hb

theorem Settles.discarding {p q : Option (Outcome α)} (id : Nat) (h : Settles p q) :
    Settles (discarding id p) (discarding id q) := by
  intro a ha
  obtain ⟨outcome, hp, rfl⟩ := Option.map_eq_some_iff.mp ha
  rw [JsonHeap.discarding, h outcome hp]
  rfl

variable {f g : HeapValue → ValidateState → Option (Outcome HeapValue)}

theorem validateEach_settles (h : ∀ v st, Settles (f v st) (g v st)) (items : List HeapValue)
    (st : ValidateState) : Settles (validateEach f items st) (validateEach g items st) := by
  induction items generalizing st with
  | nil => exact .refl _
  | cons v rest ih =>
    exact (h v st).andThen fun value st' => (ih st').andThen fun _ _ => .refl _

theorem validateMapping_settles (h : ∀ v st, Settles (f v st) (g v st))
    (entries : List (HeapKey × HeapValue)) (result : HeapDict) (st : ValidateState) :
    Settles (validateMapping f entries result st) (validateMapping g entries result st) := by
  induction entries generalizing result st with
  | nil => exact .refl _
  | cons e rest ih =>
    obtain ⟨key, v⟩ := e
    cases key with
    | other typeName tag => exact .refl _
    | str k => exact (h v st).andThen fun value st' => ih _ st'

theorem validateContainer_settles (h : ∀ v st, Settles (f v st) (g v st)) (c : Container)
    (st : ValidateState) : Settles (validateContainer f c st) (validateContainer g c st) := by
  cases c with
  | list items => exact (validateEach_settles h items st).andThen fun _ _ => .refl _
  | dict entries =>
    exact (validateMapping_settles h entries.rows .empty st).andThen fun _ _ => .refl _

end

theorem validate_settles (fuel : Nat) (v : HeapValue) (st : ValidateState) :
    Settles (validate fuel v st) (validate (fuel + 1) v st) := by
  induction fuel generalizing v st with
  | zero =>
    cases v with
    | leaf l => exact .refl _
    | ref id =>
      intro a ha
      unfold validate at ha ⊢
      cases hget : st.objects[id]? with
      | none => simp [hget] at ha
      | some c =>
        by_cases hseen : id ∈ st.seen
        · simpa [hget, hseen] using ha
        · simp [hget, hseen] at ha
  | succ fuel ih =>
    cases v with
    | leaf l => exact .refl _
    | ref id =>
      intro a ha
      unfold validate at ha ⊢
      cases hget : st.objects[id]? with
      | none => simp [hget] at ha
      | some c =>
        by_cases hseen : id ∈ st.seen
        · simpa [hget, hseen] using ha
        · simp only [hget, hseen, if_false] at ha ⊢
          exact (validateContainer_settles ih c _).discarding id a ha

theorem validate_settles_le {fuel fuel' : Nat} (hle : fuel ≤ fuel') (v : HeapValue)
    (st : ValidateState) : Settles (validate fuel v st) (validate fuel' v st) := by
  induction hle with
  | refl => exact .refl _
  | step _ ih => exact fun a ha => validate_settles _ v st a (ih a ha)

/-! ## Finite JSON -/

def HeapValue.ref? : HeapValue → Option Nat
  | .leaf _ => none
  | .ref id => some id

def references (objects : List Container) (id : Nat) : List Nat :=
  match objects[id]? with
  | none => []
  | some c => c.values.filterMap HeapValue.ref?

def Reaches (objects : List Container) (root : HeapValue) (id : Nat) : Prop :=
  ∃ a, root = .ref a ∧ ReflTransGen (Leads (references objects)) a id

def ReachesValue (objects : List Container) (root v : HeapValue) : Prop :=
  v = root ∨ ∃ id c, Reaches objects root id ∧ objects[id]? = some c ∧ v ∈ c.values

/-- A string, integer, boolean, finite float or `None`. -/
def Leaf.isJson : Leaf → Bool
  | .float x => !x.nonFinite
  | .other _ => false
  | _ => true

def HeapKey.isStr : HeapKey → Bool
  | .str _ => true
  | .other _ _ => false

/-- Of what can be reached no container is reachable from itself, all leaves are JSON, and all keys
are strings. -/
structure FiniteJson (objects : List Container) (root : HeapValue) : Prop where
  acyclic : ∀ id, Reaches objects root id → ¬ TransGen (Leads (references objects)) id id
  leaves : ∀ l, ReachesValue objects root (.leaf l) → l.isJson = true
  keys : ∀ id entries, Reaches objects root id → objects[id]? = some (.dict entries) →
    ∀ e ∈ entries.rows, e.1.isStr = true

def Container.keysOk : Container → Bool
  | .list _ => true
  | .dict entries => entries.rows.all fun e => e.1.isStr

def HeapValue.leafOk : HeapValue → Bool
  | .leaf l => l.isJson
  | .ref _ => true

def containerOk (objects : List Container) (id : Nat) : Bool :=
  match objects[id]? with
  | none => false
  | some c => c.keysOk && c.values.all HeapValue.leafOk

section
variable {heap : PyHeap} {fuel : Nat} {path : Finset Nat} {tree : HeapValue → PyValue}

theorem validateItems_isOk_iff (vs : List PyValue) :
    (∃ js, validateItems vs = .ok js) ↔ ∀ v ∈ vs, ∃ j, GroundGraph.validateJsonValue v = .ok j := by
  induction vs with
  | nil => simp [validateItems]
  | cons v vs ih =>
    rw [validateItems_cons, List.forall_mem_cons, ← ih]
    cases GroundGraph.validateJsonValue v <;> cases validateItems vs <;> simp [Except.bind]

theorem validateEntries_isOk_iff (tree : HeapValue → PyValue) (es : List (HeapKey × HeapValue)) :
    (∃ js, validateEntries (es.map fun e => (e.1.toPy, tree e.2)) = .ok js) ↔
      (∀ e ∈ es, e.1.isStr = true) ∧
        ∀ e ∈ es, ∃ j, GroundGraph.validateJsonValue (tree e.2) = .ok j := by
  induction es with
  | nil => simp [validateEntries]
  | cons e es ih =>
    obtain ⟨key, v⟩ := e
    rw [List.map_cons, List.forall_mem_cons, List.forall_mem_cons]
    cases key with
    | other typeName tag => simp [HeapKey.toPy, validateEntries, HeapKey.isStr]
    | str k =>
      rw [HeapKey.toPy, validateEntries_cons]
      cases GroundGraph.validateJsonValue (tree v) with
      | error e => simp [Except.bind]
      | ok j =>
        rw [show (HeapKey.str k).isStr = true from rfl]
        simp only [true_and, Except.ok.injEq, exists_eq', ← ih]
        cases validateEntries (es.map fun e => (e.1.toPy, tree e.2)) <;> simp [Except.bind]

theorem container_isOk_iff {c : Container} {good : HeapValue → Prop}
    (h : ∀ v ∈ c.values, (∃ j, GroundGraph.validateJsonValue (tree v) = .ok j) ↔ good v) :
    (∃ j, GroundGraph.validateJsonValue (c.toPy tree) = .ok j) ↔
      c.keysOk = true ∧ ∀ v ∈ c.values, good v := by
  rw [← forall₂_congr h]
  cases c with
  | list items =>
    have hitems := validateItems_isOk_iff (items.map tree)
    rw [List.forall_mem_map] at hitems
    rw [Container.toPy, validateJsonValue_list, Container.keysOk, eq_self, true_and]
    refine Iff.trans ?_ hitems
    cases validateItems (items.map tree) <;> simp [Except.bind]
  | dict entries =>
    have hentries := validateEntries_isOk_iff tree entries.rows
    rw [Container.toPy, validateJsonValue_dict, Container.keysOk, List.all_eq_true, Container.values,
      List.forall_mem_map]
    refine Iff.trans ?_ hentries
    cases validateEntries (entries.rows.map fun e => (e.1.toPy, tree e.2)) <;> simp [Except.bind]

theorem validateLeaf_isOk_iff (l : Leaf) :
    (∃ j, GroundGraph.validateJsonValue l.toPy = .ok j) ↔ l.isJson = true := by
  cases l with
  | float x =>
    cases hx : x.nonFinite <;>
      simp [Leaf.toPy, GroundGraph.validateJsonValue, Leaf.isJson, hx]
  | _ => simp [Leaf.toPy, GroundGraph.validateJsonValue, Leaf.isJson]

def Passes (objects : List Container) (fuel : Nat) (path : Finset Nat) : HeapValue → Prop
  | .leaf l => l.isJson = true
  | .ref id => clear (references objects) (containerOk objects) fuel path id = true

theorem forall_passes_iff (objects : List Container) (values : List HeapValue) :
    (∀ v ∈ values, Passes objects fuel path v) ↔
      (∀ v ∈ values, v.leafOk = true) ∧ ∀ id ∈ values.filterMap HeapValue.ref?,
        clear (references objects) (containerOk objects) fuel path id = true := by
  constructor
  · intro h
    constructor
    · intro v hv
      cases v with
      | leaf l => exact h _ hv
      | ref id => rfl
    · intro id hid
      obtain ⟨v, hv, href⟩ := List.mem_filterMap.mp hid
      cases v with
      | leaf l => cases href
      | ref id' =>
        obtain rfl := Option.some.inj href
        exact h _ hv
  · rintro ⟨hleaves, hrefs⟩ v hv
    cases v with
    | leaf l => exact hleaves _ hv
    | ref id => exact hrefs id (List.mem_filterMap.mpr ⟨_, hv, rfl⟩)

theorem unfold_isOk_iff {v : HeapValue} (hv : v.Within heap.size) :
    (∃ j, GroundGraph.validateJsonValue (heap.unfold fuel path v) = .ok j) ↔
      Passes heap.containers fuel path v := by
  induction fuel generalizing path v with
  | zero =>
    cases v with
    | leaf l => exact validateLeaf_isOk_iff l
    | ref id =>
      obtain ⟨c, hget, _⟩ := heap.exists_container hv
      unfold PyHeap.unfold
      simp [hget, GroundGraph.validateJsonValue, Passes, clear]
  | succ fuel ih =>
    cases v with
    | leaf l => exact validateLeaf_isOk_iff l
    | ref id =>
      obtain ⟨c, hget, hwithin⟩ := heap.exists_container hv
      unfold PyHeap.unfold
      by_cases hmem : id ∈ path
      · simp [hget, hmem, GroundGraph.validateJsonValue, Passes, clear]
      · simp only [hget, hmem, if_false]
        rw [container_isOk_iff fun w hw => ih (hwithin w hw), forall_passes_iff, Passes, clear]
        simp only [hmem, not_false_eq_true, decide_true, Bool.true_and, containerOk, references, hget,
          Bool.and_eq_true, List.all_eq_true, and_assoc]

theorem references_eq {c : Container} {id : Nat} {objects : List Container}
    (hget : objects[id]? = some c) : references objects id = c.values.filterMap HeapValue.ref? := by
  rw [references, hget]

theorem mem_references_iff {objects : List Container} {id id' : Nat} :
    id' ∈ references objects id ↔ ∃ c, objects[id]? = some c ∧ HeapValue.ref id' ∈ c.values := by
  cases hget : objects[id]? with
  | none => simp [references, hget]
  | some c =>
    rw [references_eq hget, List.mem_filterMap]
    constructor
    · rintro ⟨v, hv, href⟩
      cases v with
      | leaf l => cases href
      | ref a =>
        obtain rfl := Option.some.inj href
        exact ⟨c, rfl, hv⟩
    · rintro ⟨c', hc, hmem⟩
      obtain rfl := Option.some.inj hc
      exact ⟨_, hmem, rfl⟩

/-- References stay in the heap. -/
theorem references_within (heap : PyHeap) : ∀ id ∈ Finset.range heap.size,
    ∀ id' ∈ references heap.containers id, id' ∈ Finset.range heap.size := by
  intro id hid id' hid'
  obtain ⟨c, hget, hmem⟩ := mem_references_iff.mp hid'
  exact Finset.mem_range.mpr (heap.closed c (List.mem_of_getElem? hget) _ hmem)

theorem containerOk_iff {objects : List Container} {id : Nat} {c : Container}
    (hget : objects[id]? = some c) :
    containerOk objects id = true ↔ c.keysOk = true ∧ ∀ v ∈ c.values, v.leafOk = true := by
  simp [containerOk, hget]

theorem reaches_leaf {objects : List Container} {l : Leaf} {id : Nat}
    (h : Reaches objects (.leaf l) id) : False := by
  obtain ⟨a, ha, _⟩ := h
  cases ha

theorem reaches_ref_iff {objects : List Container} {a id : Nat} :
    Reaches objects (.ref a) id ↔ ReflTransGen (Leads (references objects)) a id := by
  constructor
  · rintro ⟨b, hb, h⟩
    obtain rfl := HeapValue.ref.inj hb
    exact h
  · intro h
    exact ⟨a, rfl, h⟩

theorem within_of_reaches {root : HeapValue} (hroot : root.Within heap.size) {id : Nat}
    (h : Reaches heap.containers root id) : id < heap.size := by
  obtain ⟨a, rfl, hreach⟩ := h
  induction hreach with
  | refl => exact hroot
  | tail _ hstep ih =>
    exact Finset.mem_range.mp (references_within heap _ (Finset.mem_range.mpr ih) _ hstep)

theorem finiteJson_leaf_iff (l : Leaf) :
    FiniteJson heap.containers (.leaf l) ↔ l.isJson = true := by
  constructor
  · intro h
    exact h.leaves l (.inl rfl)
  · intro hl
    refine ⟨fun id h => (reaches_leaf h).elim, ?_, fun id _ h => (reaches_leaf h).elim⟩
    rintro l' (hroot | ⟨id, c, h, _⟩)
    · obtain rfl := HeapValue.leaf.inj hroot
      exact hl
    · exact (reaches_leaf h).elim

theorem finiteJson_iff_passes {root : HeapValue} (hroot : root.Within heap.size) :
    FiniteJson heap.containers root ↔ Passes heap.containers heap.size ∅ root := by
  cases root with
  | leaf l => exact finiteJson_leaf_iff l
  | ref a =>
    rw [Passes, clear_iff (references_within heap) (Finset.mem_range.mpr hroot)
      (Finset.empty_subset _) (by simp)]
    constructor
    · intro h w hw
      have hreach := reaches_ref_iff.mpr hw
      obtain ⟨c, hget, _⟩ := heap.exists_container (within_of_reaches hroot hreach)
      refine ⟨Finset.notMem_empty w, (containerOk_iff hget).mpr ⟨?_, ?_⟩, h.acyclic w hreach⟩
      · cases c with
        | list items => rfl
        | dict entries => exact List.all_eq_true.mpr (h.keys w entries hreach hget)
      · intro v hv
        cases v with
        | leaf l => exact h.leaves l (.inr ⟨w, c, hreach, hget, hv⟩)
        | ref id => rfl
    · intro h
      refine ⟨fun id hid => (h id (reaches_ref_iff.mp hid)).2.2, ?_, ?_⟩
      · rintro l (hleaf | ⟨id, c, hid, hget, hmem⟩)
        · cases hleaf
        · exact ((containerOk_iff hget).mp (h id (reaches_ref_iff.mp hid)).2.1).2 _ hmem
      · intro id entries hid hget
        exact List.all_eq_true.mp ((containerOk_iff hget).mp (h id (reaches_ref_iff.mp hid)).2.1).1

/-! ## What is returned -/

section
variable {objects : List Container} {low : Nat}

theorem denoteItems_of_ok {items : List HeapValue} {js : List JsonValue}
    (hitems : ∀ v ∈ items, ∀ j, GroundGraph.validateJsonValue (tree v) = .ok j →
      Denotes objects low v j)
    (h : validateItems (items.map tree) = .ok js) : DenoteItems objects low items js := by
  induction items generalizing js with
  | nil =>
    obtain rfl := Except.ok.inj h
    rfl
  | cons v rest ih =>
    obtain ⟨hv, hrest⟩ := List.forall_mem_cons.mp hitems
    rw [List.map_cons, validateItems_cons] at h
    obtain ⟨j, hj, h⟩ := Except.bind_ok_iff.mp h
    obtain ⟨js', hjs, h⟩ := Except.bind_ok_iff.mp h
    obtain rfl := Except.ok.inj h
    exact ⟨v, rest, rfl, hv j hj, ih hrest hjs⟩

theorem denoteEntries_of_ok {rows : List (HeapKey × HeapValue)} {js : List (String × JsonValue)}
    (hrows : ∀ e ∈ rows, ∀ j, GroundGraph.validateJsonValue (tree e.2) = .ok j →
      Denotes objects low e.2 j)
    (h : validateEntries (rows.map fun e => (e.1.toPy, tree e.2)) = .ok js) :
    DenoteEntries objects low rows js := by
  induction rows generalizing js with
  | nil =>
    obtain rfl := Except.ok.inj h
    rfl
  | cons e rest ih =>
    obtain ⟨hv, hrest⟩ := List.forall_mem_cons.mp hrows
    obtain ⟨key, v⟩ := e
    cases key with
    | other typeName tag => cases h
    | str k =>
      rw [List.map_cons, HeapKey.toPy, validateEntries_cons] at h
      obtain ⟨j, hj, h⟩ := Except.bind_ok_iff.mp h
      obtain ⟨js', hjs, h⟩ := Except.bind_ok_iff.mp h
      obtain rfl := Except.ok.inj h
      exact ⟨v, rest, rfl, hv j hj, ih hrest hjs⟩

end

theorem denotes_of_leaf_ok {objects : List Container} {low : Nat} {l : Leaf} {j : JsonValue}
    (h : GroundGraph.validateJsonValue l.toPy = .ok j) : Denotes objects low (.leaf l) j := by
  cases l with
  | float x =>
    rw [Leaf.toPy, GroundGraph.validateJsonValue] at h
    split at h
    · obtain rfl := Except.ok.inj h
      rfl
    · cases h
  | other typeName => cases h
  | _ =>
    obtain rfl := Except.ok.inj h
    rfl

theorem denotes_of_unfold {v : HeapValue} (hv : v.Within heap.size) {j : JsonValue}
    (h : GroundGraph.validateJsonValue (heap.unfold fuel path v) = .ok j) :
    Denotes heap.containers 0 v j := by
  induction fuel generalizing path v j with
  | zero =>
    cases v with
    | leaf l => exact denotes_of_leaf_ok h
    | ref id =>
      obtain ⟨c, hget, _⟩ := heap.exists_container hv
      unfold PyHeap.unfold at h
      simp [hget, GroundGraph.validateJsonValue] at h
  | succ fuel ih =>
    cases v with
    | leaf l => exact denotes_of_leaf_ok h
    | ref id =>
      obtain ⟨c, hget, hwithin⟩ := heap.exists_container hv
      unfold PyHeap.unfold at h
      by_cases hmem : id ∈ path
      · simp [hget, hmem, GroundGraph.validateJsonValue] at h
      · simp only [hget, hmem, if_false] at h
        cases c with
        | list items =>
          rw [Container.toPy, validateJsonValue_list] at h
          obtain ⟨js, hjs, h⟩ := Except.bind_ok_iff.mp h
          obtain rfl := Except.ok.inj h
          exact ⟨id, items, rfl, Nat.zero_le id, hget,
            denoteItems_of_ok (fun w hw j => ih (hwithin w hw)) hjs⟩
        | dict entries =>
          rw [Container.toPy, validateJsonValue_dict] at h
          obtain ⟨js, hjs, h⟩ := Except.bind_ok_iff.mp h
          obtain rfl := Except.ok.inj h
          exact ⟨id, entries, rfl, Nat.zero_le id, hget, denoteEntries_of_ok
            (fun e he j => ih (hwithin e.2 (List.mem_map_of_mem he))) hjs⟩

end

section
variable {objects : List Container} {low : Nat}

theorem exists_of_denoteItems {items : List HeapValue} {js : List JsonValue}
    (h : DenoteItems objects low items js) : ∀ v ∈ items, ∃ j, Denotes objects low v j := by
  induction js generalizing items with
  | nil =>
    obtain rfl : items = [] := h
    exact List.forall_mem_nil _
  | cons j js ih =>
    obtain ⟨v, rest, rfl, hv, hrest⟩ := h
    exact List.forall_mem_cons.mpr ⟨⟨j, hv⟩, ih hrest⟩

theorem exists_of_denoteEntries {rows : List (HeapKey × HeapValue)}
    {js : List (String × JsonValue)} (h : DenoteEntries objects low rows js) :
    ∀ e ∈ rows, ∃ j, Denotes objects low e.2 j := by
  induction js generalizing rows with
  | nil =>
    obtain rfl : rows = [] := h
    exact List.forall_mem_nil _
  | cons entry js ih =>
    obtain ⟨v, rest, rfl, hv, hrest⟩ := h
    exact List.forall_mem_cons.mpr ⟨⟨entry.2, hv⟩, ih hrest⟩

/-- A container that stands for something is not below `low`, and neither is what it refers to. -/
theorem Denotes.ref {id : Nat} {j : JsonValue} (h : Denotes objects low (.ref id) j) :
    low ≤ id ∧ ∀ id' ∈ references objects id, ∃ j', Denotes objects low (.ref id') j' := by
  cases j with
  | list js =>
    obtain ⟨a, items, ha, hlow, hget, hitems⟩ := h
    obtain rfl := HeapValue.ref.inj ha
    refine ⟨hlow, fun id' hid' => ?_⟩
    obtain ⟨c, hc, hmem⟩ := mem_references_iff.mp hid'
    obtain rfl := Option.some.inj (hget.symm.trans hc)
    exact exists_of_denoteItems hitems _ hmem
  | dict js =>
    obtain ⟨a, entries, ha, hlow, hget, hentries⟩ := h
    obtain rfl := HeapValue.ref.inj ha
    refine ⟨hlow, fun id' hid' => ?_⟩
    obtain ⟨c, hc, hmem⟩ := mem_references_iff.mp hid'
    obtain rfl := Option.some.inj (hget.symm.trans hc)
    obtain ⟨e, he, heq⟩ := List.mem_map.mp hmem
    rw [← heq]
    exact exists_of_denoteEntries hentries e he
  | null => cases h
  | bool b => cases h
  | int i => cases h
  | float x hx => cases h
  | str s => cases h

theorem Denotes.low_le {v : HeapValue} {j : JsonValue} (h : Denotes objects low v j) {id : Nat}
    (hreach : Reaches objects v id) : low ≤ id := by
  obtain ⟨a, rfl, hreach⟩ := hreach
  have hstands : ∃ j', Denotes objects low (.ref id) j' := by
    induction hreach with
    | refl => exact ⟨j, h⟩
    | tail _ hstep ih =>
      obtain ⟨j', hj'⟩ := ih
      exact hj'.ref.2 _ hstep
  obtain ⟨j', hj'⟩ := hstands
  exact hj'.ref.1

end

/-- The value stands for the JSON value that the root stands for, by containers that were not there,
and what was there has not changed. -/
structure FreshCopy (heap : PyHeap) (root : HeapValue) (objects : List Container)
    (value : HeapValue) : Prop where
  same : ∃ j, Denotes heap.containers 0 root j ∧ Denotes objects 0 value j
  fresh : ∀ id, Reaches objects value id → heap.size ≤ id
  kept : heap.containers <+: objects

/-- For every heap and every value of it: the validation comes to an end, with the same result
for any fuel that is as much as there are containers; it succeeds for finite JSON only; and what it
returns is a copy. The calls nest as deep as the value does, which is taken to be within the
recursion limit of the interpreter. -/
theorem validateJsonValue_finiteJson (heap : PyHeap) (root : heap.Value) :
    ∃ outcome st,
      (∀ fuel, heap.size ≤ fuel → validateJsonValue heap fuel root = some (outcome, st)) ∧
        ((∃ value, outcome = .ok value) ↔ FiniteJson heap.containers root) ∧
        ∀ value, outcome = .ok value → FreshCopy heap root st.objects value := by
  have hstart : OnPath heap ∅ ⟨heap.containers, ∅⟩ := ⟨List.prefix_refl _, rfl⟩
  have hwalk : Refines (fun objects => Denotes objects heap.size) ⟨heap.containers, ∅⟩
      (validate heap.size root ⟨heap.containers, ∅⟩)
      (GroundGraph.validateJsonValue (heap.unfold heap.size ∅ root)) :=
    validate_refines (Finset.empty_subset _) (Nat.le_add_right _ _) root.property hstart
  obtain ⟨outcome, st, hrun, _, hkept, hagree⟩ := hwalk
  refine ⟨outcome, st, fun fuel hfuel => validate_settles_le hfuel _ _ _ hrun, ?_, ?_⟩
  · rw [finiteJson_iff_passes root.property, ← unfold_isOk_iff root.property]
    exact hagree.isOk_iff
  · rintro value rfl
    obtain ⟨j, hj, hvalue⟩ := hagree.exists_of_ok
    exact ⟨⟨j, denotes_of_unfold root.property hj,
      hvalue.mono (List.prefix_refl _) (Nat.zero_le _)⟩, fun id => hvalue.low_le, hkept⟩

def sharedList : PyHeap where
  containers := [.list [.ref 1, .ref 1], .list [.leaf (.int 7)]]
  closed := by simp [Container.values, HeapValue.Within]

example : (validateJsonValue sharedList 2 ⟨.ref 0, Nat.zero_lt_two⟩).map Prod.fst =
    some (.ok (.ref 4)) := rfl

end GroundGraph.JsonHeap
