import GroundGraph.Identifiers
import GroundGraph.Library.KeyedTable
import GroundGraph.Library.LabelledSystem
import Mathlib.Data.List.Sort

/-! Index versions: `IndexVersionRepository` of `version_records.py`, the table of `models.py`
with its constraints, and `index_version_resolver.py`.
-/

set_option autoImplicit false

namespace GroundGraph.Versioning

structure IndexVersion where
  versionId : UUID
  indexName : List Char
  version : List Char
  embeddingModel : List Char
  embeddingDimensions : Int
  chunkerVersion : List Char
  isActive : Bool := true
  createdAt : Instant
  deriving DecidableEq

def IndexVersion.label (r : IndexVersion) : List Char × List Char := (r.indexName, r.version)

def IndexVersion.activeIn (indexName : List Char) (r : IndexVersion) : Bool :=
  decide (r.indexName = indexName) && r.isActive

/-- `index_versions`: the primary key, `uq_index_name_version`, and `ix_index_versions_active`,
which is unique among the active rows only. -/
structure IndexTable where
  table : KeyedTable IndexVersion.versionId
  nameVersion : (table.rows.map IndexVersion.label).Nodup
  active : ((table.rows.filter IndexVersion.isActive).map IndexVersion.indexName).Nodup

def IndexTable.empty : IndexTable := ⟨.empty, List.nodup_nil, List.nodup_nil⟩

/-- What a `VARCHAR(n)` column keeps of a text: blanks in excess are cut off, anything else in
excess is an error, and so is a NUL. -/
def varchar (n : Nat) (text : List Char) : Option (List Char) :=
  if '\x00' ∈ text then none
  else if text.length ≤ n then some text
  else if (text.drop n).all (fun c => decide (c = ' ')) then some (text.take n)
  else none

def integer (i : Int) : Bool := decide (-2147483648 ≤ i ∧ i ≤ 2147483647)

inductive VersionError where
  | dataError
  | integrityError
  deriving DecidableEq, Repr

/-- The arguments of `create`, with the id and the time that the row gets. -/
structure NewIndexVersion where
  indexName : List Char
  version : List Char
  embeddingModel : List Char
  embeddingDimensions : Int
  chunkerVersion : List Char
  versionId : UUID
  createdAt : Instant

def NewIndexVersion.row? (n : NewIndexVersion) : Option IndexVersion := do
  let indexName ← varchar 100 n.indexName
  let version ← varchar 50 n.version
  let embeddingModel ← varchar 100 n.embeddingModel
  let chunkerVersion ← varchar 50 n.chunkerVersion
  if integer n.embeddingDimensions then
    some
      { versionId := n.versionId
        indexName := indexName
        version := version
        embeddingModel := embeddingModel
        embeddingDimensions := n.embeddingDimensions
        chunkerVersion := chunkerVersion
        createdAt := n.createdAt }
  else none

theorem nodup_concat {α : Type} {l : List α} {a : α} (hl : l.Nodup) (ha : a ∉ l) :
    (l ++ [a]).Nodup := by
  rw [← List.concat_eq_append]
  exact hl.concat ha

/-- The three constraints let a row in that is active. -/
def IndexTable.Admits (t : IndexTable) (r : IndexVersion) : Prop :=
  r.versionId ∉ t.table.rows.map IndexVersion.versionId ∧
    r.label ∉ t.table.rows.map IndexVersion.label ∧
    r.indexName ∉ (t.table.rows.filter IndexVersion.isActive).map IndexVersion.indexName

instance (t : IndexTable) (r : IndexVersion) : Decidable (t.Admits r) :=
  inferInstanceAs (Decidable (_ ∧ _ ∧ _))

def IndexTable.append (t : IndexTable) (r : IndexVersion) (h : t.Admits r) : IndexTable where
  table := t.table.append r h.1
  nameVersion := by
    simpa using nodup_concat t.nameVersion h.2.1
  active := by
    rw [KeyedTable.rows_append, List.filter_append, List.map_append]
    cases hr : r.isActive with
    | true => simpa [hr] using nodup_concat t.active h.2.2
    | false => simpa [hr] using t.active

def IndexTable.insert? (t : IndexTable) (r : IndexVersion) : Option IndexTable :=
  if h : t.Admits r then some (t.append r h) else none

def create (t : IndexTable) (n : NewIndexVersion) : Except VersionError (UUID × IndexTable) :=
  match n.row? with
  | none => .error .dataError
  | some row =>
    match t.insert? row with
    | none => .error .integrityError
    | some t => .ok (row.versionId, t)

def IndexVersion.deactivatedUnless (indexName : List Char) (keepVersion : UUID)
    (r : IndexVersion) : IndexVersion :=
  if r.indexName = indexName ∧ r.versionId ≠ keepVersion then { r with isActive := false } else r

section Deactivated

variable (indexName : List Char) (keepVersion : UUID) (r : IndexVersion)

@[simp] theorem deactivatedUnless_versionId :
    (r.deactivatedUnless indexName keepVersion).versionId = r.versionId := by
  unfold IndexVersion.deactivatedUnless
  split <;> rfl

@[simp] theorem deactivatedUnless_indexName :
    (r.deactivatedUnless indexName keepVersion).indexName = r.indexName := by
  unfold IndexVersion.deactivatedUnless
  split <;> rfl

@[simp] theorem deactivatedUnless_label :
    (r.deactivatedUnless indexName keepVersion).label = r.label := by
  unfold IndexVersion.deactivatedUnless
  split <;> rfl

theorem deactivatedUnless_isActive :
    (r.deactivatedUnless indexName keepVersion).isActive =
      (r.isActive && !decide (r.indexName = indexName ∧ r.versionId ≠ keepVersion)) := by
  unfold IndexVersion.deactivatedUnless
  split
  · rename_i h
    simp [h]
  · rename_i h
    simp only [h, decide_false, Bool.not_false, Bool.and_true]

end Deactivated

theorem filter_active_deactivated (indexName : List Char) (keepVersion : UUID)
    (rows : List IndexVersion) :
    ((rows.map (IndexVersion.deactivatedUnless indexName keepVersion)).filter
        IndexVersion.isActive).map IndexVersion.indexName =
      (rows.filter ((IndexVersion.isActive) ∘
        IndexVersion.deactivatedUnless indexName keepVersion)).map IndexVersion.indexName := by
  rw [List.filter_map, List.map_map]
  exact List.map_congr_left fun r _ => deactivatedUnless_indexName indexName keepVersion r

def deactivatePrevious (t : IndexTable) (indexName : List Char) (keepVersion : UUID) :
    IndexTable where
  table := t.table.modify (IndexVersion.deactivatedUnless indexName keepVersion)
    (deactivatedUnless_versionId indexName keepVersion)
  nameVersion := by
    have hlabels : (IndexVersion.label ∘ IndexVersion.deactivatedUnless indexName keepVersion) =
        IndexVersion.label := funext (deactivatedUnless_label indexName keepVersion)
    rw [KeyedTable.rows_modify, List.map_map, hlabels]
    exact t.nameVersion
  active := by
    rw [KeyedTable.rows_modify, filter_active_deactivated]
    refine List.Nodup.sublist ?_ t.active
    apply List.Sublist.map
    apply List.monotone_filter_right
    intro r hr
    simp only [Function.comp, deactivatedUnless_isActive, Bool.and_eq_true] at hr
    exact hr.1

structure IndexVersionInfo where
  versionId : UUID
  indexName : List Char
  embeddingModel : List Char
  embeddingDimensions : Int
  isActive : Bool
  deriving DecidableEq

def IndexVersion.info (r : IndexVersion) : IndexVersionInfo :=
  ⟨r.versionId, r.indexName, r.embeddingModel, r.embeddingDimensions, r.isActive⟩

def IndexTable.activeOf (t : IndexTable) (indexName : List Char) : List IndexVersion :=
  t.table.rows.filter (IndexVersion.activeIn indexName)

/-- `resolve_active`: `ORDER BY created_at DESC LIMIT 1`. -/
def resolveActive (t : IndexTable) (indexName : List Char) : Option IndexVersionInfo :=
  ((t.activeOf indexName).insertionSort fun a b => b.createdAt ≤ a.createdAt).head?.map
    IndexVersion.info

inductive IndexCall where
  | create (n : NewIndexVersion)
  | deactivatePrevious (indexName : List Char) (keepVersion : UUID)

def IndexCall.indexName : IndexCall → List Char
  | .create n => n.indexName
  | .deactivatePrevious indexName _ => indexName

/-- Each call in a transaction of its own; one that raises leaves the table as it was. -/
def indexStep (t : IndexTable) : IndexCall → Option IndexTable
  | .create n =>
    match create t n with
    | .ok (_, t') => some t'
    | .error _ => some t
  | .deactivatePrevious indexName keepVersion => some (deactivatePrevious t indexName keepVersion)

def indexSystem : LabelledSystem IndexTable IndexCall where
  start := .empty
  step := indexStep

theorem insert?_some_iff {t t' : IndexTable} {r : IndexVersion} :
    t.insert? r = some t' ↔ t.Admits r ∧ t'.table.rows = t.table.rows ++ [r] := by
  unfold IndexTable.insert?
  split
  · rename_i h
    constructor
    · intro heq
      obtain rfl := Option.some.inj heq
      exact ⟨h, rfl⟩
    · rintro ⟨_, hrows⟩
      obtain ⟨⟨rows, hunique⟩, hname, hactive⟩ := t'
      simp only at hrows
      subst hrows
      rfl
  · rename_i h
    simp [h]

theorem create_ok_iff {t t' : IndexTable} {n : NewIndexVersion} {versionId : UUID} :
    create t n = .ok (versionId, t') ↔
      ∃ row, n.row? = some row ∧ t.insert? row = some t' ∧ row.versionId = versionId := by
  unfold create
  cases hrow : n.row? with
  | none => simp
  | some row =>
    cases hins : t.insert? row with
    | none => simp [hins]
    | some t'' => simp [hins, Prod.ext_iff, and_comm]

theorem row?_some_iff {n : NewIndexVersion} {row : IndexVersion} :
    n.row? = some row ↔
      varchar 100 n.indexName = some row.indexName ∧ varchar 50 n.version = some row.version ∧
      varchar 100 n.embeddingModel = some row.embeddingModel ∧
      varchar 50 n.chunkerVersion = some row.chunkerVersion ∧
      integer n.embeddingDimensions = true ∧ row.embeddingDimensions = n.embeddingDimensions ∧
      row.versionId = n.versionId ∧ row.isActive = true ∧ row.createdAt = n.createdAt := by
  obtain ⟨versionId, indexName, version, embeddingModel, dimensions, chunker, isActive, createdAt⟩ := row
  simp only [NewIndexVersion.row?, bind, Option.bind_eq_some_iff, Option.ite_none_right_eq_some,
    Option.some.injEq, IndexVersion.mk.injEq]
  constructor
  · rintro ⟨a, ha, b, hb, c, hc, d, hd, hint, rfl, rfl, rfl, rfl, rfl, rfl, rfl, rfl⟩
    exact ⟨ha, hb, hc, hd, hint, rfl, rfl, rfl, rfl⟩
  · rintro ⟨ha, hb, hc, hd, hint, rfl, rfl, rfl, rfl⟩
    exact ⟨_, ha, _, hb, _, hc, _, hd, hint, rfl, rfl, rfl, rfl, rfl, rfl, rfl, rfl⟩

theorem indexStep_total (t : IndexTable) (c : IndexCall) : ∃ t', indexStep t c = some t' := by
  cases c with
  | create n =>
    cases h : create t n with
    | ok r => exact ⟨r.2, by simp [indexStep, h]⟩
    | error e => exact ⟨t, by simp [indexStep, h]⟩
  | deactivatePrevious indexName keepVersion => exact ⟨_, rfl⟩

end GroundGraph.Versioning
