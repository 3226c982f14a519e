import GroundGraph.Versioning.IndexVersions

/-! Publishing an index version: `create`, then `deactivate_previous` with the new id. The
unique index on the active rows is checked in between, when the previous version is still
active.
-/

set_option autoImplicit false

namespace GroundGraph.Versioning

def publish (t : IndexTable) (n : NewIndexVersion) : Except VersionError IndexTable :=
  match create t n with
  | .error e => .error e
  | .ok (versionId, t') => .ok (deactivatePrevious t' n.indexName versionId)

def IndexTable.rowsOf (t : IndexTable) (indexName : List Char) : List IndexVersion :=
  t.table.rows.filter fun r => decide (r.indexName = indexName)

/-- The new version is the only active one of its index, no other index is touched, and it is
what `resolve_active` returns whatever happens to the other indexes. -/
structure Published (t t' : IndexTable) (n : NewIndexVersion) : Prop where
  active : ∃ r, t'.activeOf n.indexName = [r] ∧ r.versionId = n.versionId
  others : ∀ name ≠ n.indexName, t'.rowsOf name = t.rowsOf name
  resolves : ∀ calls t'', (∀ c ∈ calls, c.indexName ≠ n.indexName) →
    indexSystem.run t' calls = some t'' →
    (resolveActive t'' n.indexName).map IndexVersionInfo.versionId = some n.versionId

def Publishes (t : IndexTable) (n : NewIndexVersion) : Prop :=
  ∃ t', publish t n = .ok t' ∧ Published t t' n

/-- No version of the index is active yet, and the arguments fit their columns. -/
structure Publishable (t : IndexTable) (n : NewIndexVersion) : Prop where
  noneActive : t.activeOf n.indexName = []
  indexName : varchar 100 n.indexName = some n.indexName
  version : ∃ v, varchar 50 n.version = some v ∧
    ∀ r ∈ t.table.rows, r.indexName = n.indexName → r.version ≠ v
  embeddingModel : (varchar 100 n.embeddingModel).isSome = true
  chunkerVersion : (varchar 50 n.chunkerVersion).isSome = true
  embeddingDimensions : integer n.embeddingDimensions = true

theorem activeOf_eq_nil_iff {t : IndexTable} {name : List Char} :
    t.activeOf name = [] ↔
      name ∉ (t.table.rows.filter IndexVersion.isActive).map IndexVersion.indexName := by
  simp only [IndexTable.activeOf, List.filter_eq_nil_iff, IndexVersion.activeIn, List.mem_map,
    List.mem_filter, not_exists, not_and, Bool.and_eq_true, decide_eq_true_eq]
  constructor
  · intro h r hr hname
    exact h r hr.1 hname hr.2
  · intro h r hr hname hactive
    exact h r ⟨hr, hactive⟩ hname

/-- The active rows of another index do not notice a call, once there are any: a row whose
name is cut to theirs would be refused. -/
theorem activeOf_step {t t' : IndexTable} {c : IndexCall} {name : List Char}
    (hname : c.indexName ≠ name) (hactive : t.activeOf name ≠ [])
    (h : indexStep t c = some t') : t'.activeOf name = t.activeOf name := by
  cases c with
  | create n =>
    simp only [indexStep] at h
    split at h
    · rename_i versionId t'' hcreate
      obtain rfl := Option.some.inj h
      obtain ⟨row, _, hins, _⟩ := create_ok_iff.mp hcreate
      obtain ⟨hadmits, hrows⟩ := insert?_some_iff.mp hins
      have hne : row.indexName ≠ name := by
        rintro rfl
        exact hactive (activeOf_eq_nil_iff.mpr hadmits.2.2)
      simp [IndexTable.activeOf, hrows, IndexVersion.activeIn, hne]
    · obtain rfl := Option.some.inj h
      rfl
  | deactivatePrevious indexName keepVersion =>
    obtain rfl := Option.some.inj h
    simp only [IndexCall.indexName] at hname
    simp only [IndexTable.activeOf, deactivatePrevious, KeyedTable.rows_modify, List.filter_map]
    have hsame : IndexVersion.activeIn name ∘ IndexVersion.deactivatedUnless indexName keepVersion =
        IndexVersion.activeIn name := by
      funext r
      by_cases hr : r.indexName = name
      · have hrn : r.indexName ≠ indexName := fun h => hname (h.symm.trans hr)
        simp [IndexVersion.activeIn, deactivatedUnless_isActive, hrn]
      · simp [IndexVersion.activeIn, hr]
    rw [hsame]
    conv_rhs => rw [← List.map_id (t.table.rows.filter (IndexVersion.activeIn name))]
    apply List.map_congr_left
    intro r hr
    have hrname : r.indexName = name := by
      have hin := (List.mem_filter.mp hr).2
      simp only [IndexVersion.activeIn, Bool.and_eq_true, decide_eq_true_eq] at hin
      exact hin.1
    have hne : ¬ (r.indexName = indexName ∧ r.versionId ≠ keepVersion) := by
      rintro ⟨heq, _⟩
      exact hname (heq.symm.trans hrname)
    simp [IndexVersion.deactivatedUnless, hne]

theorem activeOf_run {name : List Char} {calls : List IndexCall} {t t' : IndexTable}
    (hnames : ∀ c ∈ calls, c.indexName ≠ name) (hactive : t.activeOf name ≠ [])
    (h : indexSystem.run t calls = some t') : t'.activeOf name = t.activeOf name := by
  induction calls generalizing t with
  | nil =>
    obtain rfl : t = t' := by simpa using h
    rfl
  | cons c calls ih =>
    obtain ⟨m, hm, ht⟩ := indexSystem.run_cons_iff.mp h
    have hstep : m.activeOf name = t.activeOf name :=
      activeOf_step (hnames c List.mem_cons_self) hactive hm
    rw [← hstep] at hactive ⊢
    exact ih (fun c hc => hnames c (List.mem_cons_of_mem _ hc)) hactive ht

theorem resolveActive_of_activeOf {t : IndexTable} {name : List Char} {r : IndexVersion}
    (h : t.activeOf name = [r]) : resolveActive t name = some r.info := by
  simp [resolveActive, h]

theorem publish_ok {t t' : IndexTable} {n : NewIndexVersion} (h : publish t n = .ok t') :
    ∃ row, n.row? = some row ∧ t.Admits row ∧
      t'.table.rows = (t.table.rows ++ [row]).map
        (IndexVersion.deactivatedUnless n.indexName row.versionId) := by
  unfold publish at h
  split at h
  · cases h
  · rename_i versionId t₁ hcreate
    obtain ⟨row, hrow, hins, rfl⟩ := create_ok_iff.mp hcreate
    obtain ⟨hadmits, hrows⟩ := insert?_some_iff.mp hins
    obtain rfl := Except.ok.inj h
    refine ⟨row, hrow, hadmits, ?_⟩
    rw [← hrows]
    rfl

theorem publish_of_admits {t : IndexTable} {n : NewIndexVersion} {row : IndexVersion}
    (hrow : n.row? = some row) (hadmits : t.Admits row) : ∃ t', publish t n = .ok t' := by
  refine ⟨deactivatePrevious (t.append row hadmits) n.indexName row.versionId, ?_⟩
  simp [publish, create, hrow, IndexTable.insert?, hadmits]

theorem Published.row_indexName {t t' : IndexTable} {n : NewIndexVersion} {row : IndexVersion}
    (h : Published t t' n) (hrow : n.row? = some row) (hadmits : t.Admits row)
    (hrows : t'.table.rows = (t.table.rows ++ [row]).map
      (IndexVersion.deactivatedUnless n.indexName row.versionId)) :
    row.indexName = n.indexName := by
  obtain ⟨r, hactive, hid⟩ := h.active
  have hmem : r ∈ t'.activeOf n.indexName := by simp [hactive]
  simp only [IndexTable.activeOf, List.mem_filter, IndexVersion.activeIn, Bool.and_eq_true,
    decide_eq_true_eq, hrows, List.mem_map] at hmem
  obtain ⟨⟨x, hx, rfl⟩, hname, _⟩ := hmem
  rw [deactivatedUnless_versionId] at hid
  rw [deactivatedUnless_indexName] at hname
  rcases List.mem_append.mp hx with hx | hx
  · have hrowid : row.versionId = n.versionId := (row?_some_iff.mp hrow).2.2.2.2.2.2.1
    refine absurd ?_ hadmits.1
    exact List.mem_map.mpr ⟨x, hx, hid.trans hrowid.symm⟩
  · rw [← List.mem_singleton.mp hx]
    exact hname

theorem activeOf_published {rows : List IndexVersion} {row : IndexVersion} {name : List Char}
    (hnone : rows.filter (IndexVersion.activeIn name) = []) (hname : row.indexName = name)
    (hactive : row.isActive = true) :
    ((rows ++ [row]).map (IndexVersion.deactivatedUnless name row.versionId)).filter
      (IndexVersion.activeIn name) = [row] := by
  have hold : (rows.map (IndexVersion.deactivatedUnless name row.versionId)).filter
      (IndexVersion.activeIn name) = [] := by
    rw [List.filter_eq_nil_iff] at hnone ⊢
    intro r hr
    obtain ⟨x, hx, rfl⟩ := List.mem_map.mp hr
    have hx' := hnone x hx
    simp only [IndexVersion.activeIn, deactivatedUnless_indexName, deactivatedUnless_isActive,
      Bool.and_eq_true, decide_eq_true_eq, not_and] at hx' ⊢
    intro hxname hxactive
    exact absurd hxactive (hx' hxname)
  have hkept : row.deactivatedUnless name row.versionId = row := by
    simp [IndexVersion.deactivatedUnless]
  rw [List.map_append, List.filter_append, hold, List.map_singleton, hkept]
  simp [IndexVersion.activeIn, hname, hactive]

theorem rowsOf_published {rows : List IndexVersion} {row : IndexVersion} {name other : List Char}
    (hname : row.indexName = name) (hother : other ≠ name) :
    ((rows ++ [row]).map (IndexVersion.deactivatedUnless name row.versionId)).filter
      (fun r => decide (r.indexName = other)) =
    rows.filter fun r => decide (r.indexName = other) := by
  have hfun : (fun r : IndexVersion => decide (r.indexName = other)) ∘
      IndexVersion.deactivatedUnless name row.versionId =
      fun r => decide (r.indexName = other) := by
    funext r
    simp
  have hrow : ¬ row.indexName = other := fun h => hother (h.symm.trans hname)
  have hlast : [row].filter (fun r => decide (r.indexName = other)) = [] := by simp [hrow]
  rw [List.filter_map, hfun, List.filter_append, hlast, List.append_nil]
  conv_rhs => rw [← List.map_id (rows.filter fun r => decide (r.indexName = other))]
  apply List.map_congr_left
  intro r hr
  have hne : ¬ (r.indexName = name ∧ r.versionId ≠ row.versionId) := by
    rintro ⟨heq, _⟩
    exact hother ((of_decide_eq_true (List.mem_filter.mp hr).2).symm.trans heq)
  simp [IndexVersion.deactivatedUnless, hne]

theorem publishable_of_publishes {t : IndexTable} {n : NewIndexVersion} (h : Publishes t n) :
    Publishable t n := by
  obtain ⟨t', hpublish, hpublished⟩ := h
  obtain ⟨row, hrow, hadmits, hrows⟩ := publish_ok hpublish
  have hname := hpublished.row_indexName hrow hadmits hrows
  obtain ⟨hindex, hversion, hmodel, hchunker, hdims, _⟩ := row?_some_iff.mp hrow
  refine ⟨?_, ?_, ⟨row.version, hversion, ?_⟩, ?_, ?_, hdims⟩
  · rw [activeOf_eq_nil_iff, ← hname]
    exact hadmits.2.2
  · rw [hindex, hname]
  · intro r hr hrname hrversion
    refine hadmits.2.1 (List.mem_map.mpr ⟨r, hr, ?_⟩)
    simp only [IndexVersion.label, hrname, hrversion, hname]
  · rw [hmodel, Option.isSome_some]
  · rw [hchunker, Option.isSome_some]

theorem publishes_of_publishable {t : IndexTable} {n : NewIndexVersion}
    (hid : n.versionId ∉ t.table.rows.map IndexVersion.versionId) (h : Publishable t n) :
    Publishes t n := by
  obtain ⟨version, hversion, hfresh⟩ := h.version
  obtain ⟨model, hmodel⟩ := Option.isSome_iff_exists.mp h.embeddingModel
  obtain ⟨chunker, hchunker⟩ := Option.isSome_iff_exists.mp h.chunkerVersion
  let row : IndexVersion :=
    ⟨n.versionId, n.indexName, version, model, n.embeddingDimensions, chunker, true, n.createdAt⟩
  have hrow : n.row? = some row :=
    row?_some_iff.mpr ⟨h.indexName, hversion, hmodel, hchunker, h.embeddingDimensions, rfl, rfl,
      rfl, rfl⟩
  have hlabel : row.label ∉ t.table.rows.map IndexVersion.label := by
    intro hmem
    obtain ⟨r, hr, heq⟩ := List.mem_map.mp hmem
    obtain ⟨hrname, hrversion⟩ := Prod.mk.inj heq
    exact hfresh r hr hrname hrversion
  have hadmits : t.Admits row := ⟨hid, hlabel, activeOf_eq_nil_iff.mp h.noneActive⟩
  obtain ⟨t', hpublish⟩ := publish_of_admits hrow hadmits
  obtain ⟨row', hrow', _, hrows⟩ := publish_ok hpublish
  obtain rfl : row = row' := Option.some.inj (hrow.symm.trans hrow')
  have hactive : t'.activeOf n.indexName = [row] := by
    rw [IndexTable.activeOf, hrows]
    exact activeOf_published h.noneActive rfl rfl
  refine ⟨t', hpublish, ⟨row, hactive, rfl⟩, ?_, ?_⟩
  · intro name hname
    rw [IndexTable.rowsOf, hrows]
    exact rowsOf_published rfl hname
  · intro calls t'' hnames hrun
    have hlater := activeOf_run hnames (by simp [hactive]) hrun
    rw [resolveActive_of_activeOf (hlater.trans hactive)]
    rfl

/-- A publication does what it should exactly for an index that has no active version, with
arguments that fit their columns; `uuid4()` draws an id that no version has. -/
theorem publishes_iff (t : IndexTable) (n : NewIndexVersion)
    (hid : n.versionId ∉ t.table.rows.map IndexVersion.versionId) :
    Publishes t n ↔ Publishable t n :=
  ⟨publishable_of_publishes, publishes_of_publishable hid⟩

def indexV1 : NewIndexVersion :=
  ⟨"main".toList, "v1".toList, "embed".toList, 3, "1".toList, 1, 0⟩

def indexV2 : NewIndexVersion :=
  ⟨"main".toList, "v2".toList, "embed".toList, 3, "1".toList, 2, 1⟩

/-- The first version is no longer active, and another index has an active one. -/
def firstRetired : IndexTable where
  table :=
    { rows := [⟨1, "main".toList, "v1".toList, "embed".toList, 3, "1".toList, false, 0⟩,
        ⟨3, "notes".toList, "v1".toList, "embed".toList, 3, "1".toList, true, 0⟩]
      unique := by decide }
  nameVersion := by decide
  active := by decide

theorem publishes_iff_first : Publishes firstRetired indexV2 := by
  refine (publishes_iff firstRetired indexV2 (by decide)).mpr ?_
  exact ⟨by decide, by decide, ⟨"v2".toList, by decide, by decide⟩, by decide, by decide, by decide⟩

/-- The second version of an index is refused. -/
theorem not_publication : ¬ ∀ t, indexSystem.Reachable t → ∀ n : NewIndexVersion,
    n.versionId ∉ t.table.rows.map IndexVersion.versionId →
    (∀ r ∈ t.table.rows, r.indexName = n.indexName → r.version ≠ n.version) →
    Publishes t n := by
  intro h
  obtain ⟨t, ht⟩ := indexStep_total .empty (.create indexV1)
  have hactive : (indexStep .empty (.create indexV1)).map
      (fun t => (t.activeOf indexV2.indexName).length) = some 1 := by decide
  have hrows : (indexStep .empty (.create indexV1)).map
      (fun t => t.table.rows.map fun r => (r.versionId, r.version)) =
      some [(1, "v1".toList)] := by decide
  rw [ht] at hactive hrows
  have hone : t.table.rows.map (fun r => (r.versionId, r.version)) = [(1, "v1".toList)] :=
    Option.some.inj hrows
  have hpublishes : Publishes t indexV2 := by
    refine h t ⟨[.create indexV1], indexSystem.run_single ht⟩ indexV2 ?_ ?_
    · have hids : t.table.rows.map IndexVersion.versionId = [1] := by
        simpa [List.map_map, Function.comp_def] using congrArg (List.map Prod.fst) hone
      rw [hids]
      decide
    · intro r hr _
      have hmem := List.mem_map_of_mem (f := fun r : IndexVersion => (r.versionId, r.version)) hr
      rw [hone, List.mem_singleton] at hmem
      rw [(Prod.mk.inj hmem).2]
      decide
  have hnone := (publishable_of_publishes hpublishes).noneActive
  simp [hnone] at hactive

end GroundGraph.Versioning
