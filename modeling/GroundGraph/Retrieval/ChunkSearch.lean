import GroundGraph.Json
import GroundGraph.Library.KeyedTable
import GroundGraph.Library.PyText
import GroundGraph.Retrieval.Domain

/-! The two retrievers over PostgreSQL, `infrastructure/postgres/vector_retriever.py` and
`keyword_retriever.py`. Distances, ranks and the text match are the database's; the order
they give is a permutation of the rows that the `WHERE` clause admits.
-/

set_option autoImplicit false

namespace GroundGraph.Retrieval

structure ChunkRow where
  chunkId : UUID
  sourceId : UUID
  documentId : UUID
  versionId : UUID
  content : List Char
  currentVersionId : Option UUID
  isActive : Bool
  tenantId : String
  allowedPrincipals : List String

structure ChunkEmbedding where
  chunkId : UUID
  indexVersionId : UUID

structure ChunkStore where
  chunks : KeyedTable ChunkRow.chunkId
  embeddings : KeyedTable (fun e : ChunkEmbedding => (e.chunkId, e.indexVersionId))
  /-- Active index versions, newest first. -/
  activeIndexes : List UUID

structure RetrievedChunk where
  chunkId : UUID
  sourceId : UUID
  documentId : Option UUID := none
  versionId : Option UUID := none
  content : List Char
  vectorScore : Option PyFloat := none
  keywordScore : Option PyFloat := none
  allowedPrincipals : List String

structure RankOrder (ρ : Type) where
  arrange : List ρ → List ρ
  perm : ∀ rows, (arrange rows).Perm rows

structure ChunkFilter where
  tenantId : String
  allowedPrincipals : Option (List String) := none
  sourceIds : Option (List UUID) := none

/-- `&&` of two arrays. -/
def overlap (a b : List String) : Bool := a.any fun x => decide (x ∈ b)

@[simp] theorem overlap_singleton (a : List String) (p : String) :
    overlap a [p] = decide (p ∈ a) := by
  rw [Bool.eq_iff_iff]
  simp [overlap]

def principalsCondition (wanted : Option (List String)) (acl : List String) : Bool :=
  match wanted with
  | none => true
  | some principals => overlap acl principals

def sourceCondition (wanted : Option (List UUID)) (sourceId : UUID) : Bool :=
  match wanted with
  | none => true
  | some ids => decide (sourceId ∈ ids)

/-- The conditions that both retrievers put together. -/
def ChunkFilter.admits (q : ChunkFilter) (r : ChunkRow) : Bool :=
  r.isActive && decide (r.tenantId = q.tenantId) &&
    decide (r.currentVersionId = some r.versionId) &&
    principalsCondition q.allowedPrincipals r.allowedPrincipals &&
    sourceCondition q.sourceIds r.sourceId

/-- `_get_active_index_version`. -/
def ChunkStore.activeIndex (store : ChunkStore) (indexVersionId : Option UUID) : Option UUID :=
  match indexVersionId with
  | some id => store.activeIndexes.find? fun active => decide (active = id)
  | none => store.activeIndexes.head?

def ChunkStore.embedded (store : ChunkStore) : List (ChunkEmbedding × ChunkRow) :=
  store.embeddings.rows.filterMap fun e => (store.chunks.get? e.chunkId).map fun r => (e, r)

def toRetrieved (vectorScore keywordScore : Option PyFloat) (r : ChunkRow) : RetrievedChunk :=
  ⟨r.chunkId, r.sourceId, some r.documentId, some r.versionId, r.content, vectorScore, keywordScore,
    r.allowedPrincipals⟩

def vectorAdmits (q : ChunkFilter) (active : UUID) (row : ChunkEmbedding × ChunkRow) : Bool :=
  decide (row.1.indexVersionId = active) && q.admits row.2

/-- `search_with_content`; `none` is the `ValueError` of a missing tenant. -/
def searchWithContent (store : ChunkStore) (distance : ChunkEmbedding → PyFloat)
    (order : RankOrder (ChunkEmbedding × ChunkRow)) (topK : Nat) (q : ChunkFilter)
    (indexVersionId : Option UUID) : Option (List RetrievedChunk) :=
  if q.tenantId = "" then none
  else
    match store.activeIndex indexVersionId with
    | none => some []
    | some active =>
      some (((order.arrange (store.embedded.filter (vectorAdmits q active))).take topK).map
        fun row => toRetrieved (some (distance row.1)) none row.2)

def keywordAdmits (q : ChunkFilter) (isMatch : List Char → Bool) (r : ChunkRow) : Bool :=
  isMatch r.content && q.admits r

/-- `PostgresKeywordRetriever.search`; `isMatch` is the text match against the query. -/
def keywordSearch (store : ChunkStore) (isMatch : List Char → Bool) (rank : ChunkRow → PyFloat)
    (order : RankOrder ChunkRow) (query : List Char) (topK : Nat) (q : ChunkFilter) :
    List RetrievedChunk :=
  if PyText.strip query = [] then []
  else ((order.arrange (store.chunks.rows.filter (keywordAdmits q isMatch))).take topK).map
    fun r => toRetrieved none (some (rank r)) r

theorem mem_embedded {store : ChunkStore} {e : ChunkEmbedding} {r : ChunkRow} :
    (e, r) ∈ store.embedded ↔ e ∈ store.embeddings.rows ∧
      store.chunks.get? e.chunkId = some r := by
  simp only [ChunkStore.embedded, List.mem_filterMap, Option.map_eq_some_iff, Prod.mk.injEq]
  constructor
  · rintro ⟨e', he', r', hr', rfl, rfl⟩
    exact ⟨he', hr'⟩
  · rintro ⟨he, hr⟩
    exact ⟨e, he, r, hr, rfl, rfl⟩

theorem searchWithContent_admitted {store : ChunkStore} {distance : ChunkEmbedding → PyFloat}
    {order : RankOrder (ChunkEmbedding × ChunkRow)} {topK : Nat} {q : ChunkFilter}
    {indexVersionId : Option UUID} {found : List RetrievedChunk}
    (hfound : searchWithContent store distance order topK q indexVersionId = some found)
    {c : RetrievedChunk} (hc : c ∈ found) :
    ∃ r ∈ store.chunks.rows, q.admits r = true ∧ ∃ score, c = toRetrieved (some score) none r := by
  unfold searchWithContent at hfound
  split at hfound
  · cases hfound
  · split at hfound
    · cases Option.some.inj hfound
      cases hc
    · cases Option.some.inj hfound
      obtain ⟨⟨e, r⟩, hrow, rfl⟩ := List.mem_map.mp hc
      have hmem := List.mem_filter.mp ((order.perm _).mem_iff.mp (List.mem_of_mem_take hrow))
      have hchunk := (mem_embedded.mp hmem.1).2
      have hadmits := hmem.2
      simp only [vectorAdmits, Bool.and_eq_true] at hadmits
      exact ⟨r, (store.chunks.get?_some_iff.mp hchunk).1, hadmits.2, _, rfl⟩

theorem keywordSearch_admitted {store : ChunkStore} {isMatch : List Char → Bool}
    {rank : ChunkRow → PyFloat} {order : RankOrder ChunkRow} {query : List Char} {topK : Nat}
    {q : ChunkFilter} {c : RetrievedChunk}
    (hc : c ∈ keywordSearch store isMatch rank order query topK q) :
    ∃ r ∈ store.chunks.rows, q.admits r = true ∧ ∃ score, c = toRetrieved none (some score) r := by
  unfold keywordSearch at hc
  split at hc
  · cases hc
  · obtain ⟨r, hrow, rfl⟩ := List.mem_map.mp hc
    have hmem := List.mem_filter.mp ((order.perm _).mem_iff.mp (List.mem_of_mem_take hrow))
    have hadmits := hmem.2
    simp only [keywordAdmits, Bool.and_eq_true] at hadmits
    exact ⟨r, hmem.1, hadmits.2, _, rfl⟩

/-! With the limit not reached, exactly the admitted rows are returned. -/

theorem mem_take_arrange {ρ : Type} (order : RankOrder ρ) {rows : List ρ} {topK : Nat}
    (hlimit : rows.length ≤ topK) {row : ρ} :
    row ∈ (order.arrange rows).take topK ↔ row ∈ rows := by
  have hperm := order.perm rows
  rw [List.take_of_length_le (by rw [hperm.length_eq]; exact hlimit)]
  exact hperm.mem_iff

theorem searchWithContent_returns_iff {store : ChunkStore} {distance : ChunkEmbedding → PyFloat}
    {order : RankOrder (ChunkEmbedding × ChunkRow)} {topK : Nat} {q : ChunkFilter}
    {indexVersionId active : UUID} {r : ChunkRow}
    (htenant : q.tenantId ≠ "") (hactive : store.activeIndex (some indexVersionId) = some active)
    (hlimit : (store.embedded.filter (vectorAdmits q active)).length ≤ topK)
    (hstored : store.chunks.get? r.chunkId = some r)
    (hembedded : ∃ e ∈ store.embeddings.rows, e.chunkId = r.chunkId ∧ e.indexVersionId = active) :
    (∃ found, searchWithContent store distance order topK q (some indexVersionId) = some found ∧
      ∃ c ∈ found, c.chunkId = r.chunkId) ↔ q.admits r = true := by
  simp only [searchWithContent, if_neg htenant, hactive, Option.some.injEq, exists_eq_left',
    List.mem_map]
  constructor
  · rintro ⟨c, ⟨⟨e, r'⟩, hmem, rfl⟩, hid⟩
    rw [mem_take_arrange order hlimit, List.mem_filter, mem_embedded] at hmem
    obtain ⟨⟨_, hget⟩, hadmits⟩ := hmem
    have hkey := (store.chunks.get?_some_iff.mp hget).1
    obtain rfl := store.chunks.eq_of_mem hkey (store.chunks.get?_some_iff.mp hstored).1 hid
    simp only [vectorAdmits, Bool.and_eq_true] at hadmits
    exact hadmits.2
  · intro hadmits
    obtain ⟨e, he, hchunk, hindex⟩ := hembedded
    refine ⟨_, ⟨(e, r), ?_, rfl⟩, rfl⟩
    rw [mem_take_arrange order hlimit, List.mem_filter, mem_embedded]
    exact ⟨⟨he, by rw [hchunk]; exact hstored⟩, by simp [vectorAdmits, hindex, hadmits]⟩

theorem keywordSearch_returns_iff {store : ChunkStore} {isMatch : List Char → Bool}
    {rank : ChunkRow → PyFloat} {order : RankOrder ChunkRow} {query : List Char} {topK : Nat}
    {q : ChunkFilter} {r : ChunkRow} (hquery : PyText.strip query ≠ [])
    (hlimit : (store.chunks.rows.filter (keywordAdmits q isMatch)).length ≤ topK)
    (hstored : store.chunks.get? r.chunkId = some r) (hmatch : isMatch r.content = true) :
    (∃ c ∈ keywordSearch store isMatch rank order query topK q, c.chunkId = r.chunkId) ↔
      q.admits r = true := by
  simp only [keywordSearch, if_neg hquery, List.mem_map]
  have hrow := (store.chunks.get?_some_iff.mp hstored).1
  constructor
  · rintro ⟨c, ⟨r', hmem, rfl⟩, hid⟩
    rw [mem_take_arrange order hlimit, List.mem_filter] at hmem
    obtain rfl := store.chunks.eq_of_mem hmem.1 hrow hid
    have hadmits := hmem.2
    simp only [keywordAdmits, Bool.and_eq_true] at hadmits
    exact hadmits.2
  · intro hadmits
    refine ⟨_, ⟨r, ?_, rfl⟩, rfl⟩
    rw [mem_take_arrange order hlimit, List.mem_filter]
    exact ⟨hrow, by simp [keywordAdmits, hmatch, hadmits]⟩

end GroundGraph.Retrieval
