import GroundGraph.Json
import GroundGraph.Identifiers

/-! Document contracts: `domain/documents.py`. -/

set_option autoImplicit false

namespace GroundGraph.Ingestion

structure SourceDescriptor where
  sourceId : UUID
  uri : String
  tenantId : String
  allowedPrincipals : List String := []
  isActive : Bool := true
  deactivatedAt : Option Instant := none
  tenantId_nonempty : tenantId ≠ ""

/-- One version of a document; `checksum` is the hexadecimal SHA-256 of the file. -/
structure ParsedDocument where
  documentId : UUID
  versionId : UUID
  sourceId : UUID
  sourceLocator : String
  title : List Char
  mediaType : String
  checksum : List Char
  content : List Char
  metadata : JsonObject := []
  effectiveAt : Option Instant := none

inductive IngestionCheckpointStatus where
  | persisted | failed
  deriving DecidableEq, Repr

structure CheckpointKey where
  sourceId : UUID
  canonicalLocator : String
  contentChecksum : List Char
  deriving DecidableEq

structure IngestionCheckpoint where
  checkpointId : UUID
  key : CheckpointKey
  status : IngestionCheckpointStatus
  documentId : Option UUID := none
  versionId : Option UUID := none
  errorMessage : Option String := none
  createdAt : Instant
  updatedAt : Instant
  completedAt : Option Instant := none

/-- A unit of text for retrieval; the access list is that of its source when the chunk
was made. -/
structure Chunk where
  chunkId : UUID
  documentId : UUID
  versionId : UUID
  ordinal : Nat
  headingPath : List (List Char) := []
  content : List Char
  tokenCount : Nat
  checksum : List Char
  startLocator : Option (List Char) := none
  endLocator : Option (List Char) := none
  allowedPrincipals : List String := []
  chunkerVersion : List Char := "v1".toList
  configurationHash : List Char := []

end GroundGraph.Ingestion
