import GroundGraph.Answering.AnsweredFiles
import GroundGraph.Answering.Generate
import GroundGraph.Answering.Grounding
import GroundGraph.Answering.Provenance
import GroundGraph.Answering.QueryGraph
import GroundGraph.Answering.ValidatorSoundness
import GroundGraph.Api.Authentication
import GroundGraph.Api.QueryAnswers
import GroundGraph.Api.QueryClosure
import GroundGraph.Api.QueryRun
import GroundGraph.Api.QueryService
import GroundGraph.Api.Replay
import GroundGraph.Api.ReplayVersions
import GroundGraph.Api.Separation
import GroundGraph.Execution.StoreSafety
import GroundGraph.Extraction.Bands
import GroundGraph.Extraction.EmittedFacts
import GroundGraph.Extraction.EntityResolver
import GroundGraph.Extraction.FactExtractor
import GroundGraph.Extraction.LlmExtractor
import GroundGraph.Extraction.NameSimilarity
import GroundGraph.Extraction.Resolution
import GroundGraph.Extraction.Tolerance
import GroundGraph.Extraction.Workflow
import GroundGraph.Ingestion.Catalogue
import GroundGraph.Ingestion.ChunkBoundaries
import GroundGraph.Ingestion.ChunkCoverage
import GroundGraph.Ingestion.ChunkLocators
import GroundGraph.Ingestion.ChunkProgress
import GroundGraph.Ingestion.ChunkSize
import GroundGraph.Ingestion.CodeParsers
import GroundGraph.Ingestion.CurrentVersion
import GroundGraph.Ingestion.DocumentStore
import GroundGraph.Ingestion.DocxParser
import GroundGraph.Ingestion.HeadingAgreement
import GroundGraph.Ingestion.HeadingPath
import GroundGraph.Ingestion.HtmlParser
import GroundGraph.Ingestion.Idempotency
import GroundGraph.Ingestion.IngestEffects
import GroundGraph.Ingestion.IngestRuns
import GroundGraph.Ingestion.LineMap
import GroundGraph.Ingestion.ListItems
import GroundGraph.Ingestion.LiveChunks
import GroundGraph.Ingestion.PdfParser
import GroundGraph.Ingestion.ProtectedBlocks
import GroundGraph.Ingestion.ProtectedRanges
import GroundGraph.Ingestion.Register
import GroundGraph.Ingestion.Report
import GroundGraph.Ingestion.Rollback
import GroundGraph.Ingestion.SectionPartition
import GroundGraph.Ingestion.Service
import GroundGraph.Ingestion.SourceRegistry
import GroundGraph.Ingestion.StoredFiles
import GroundGraph.Ingestion.TableCoverage
import GroundGraph.Json
import GroundGraph.JsonHeap
import GroundGraph.JsonValidation
import GroundGraph.Knowledge.Payload
import GroundGraph.Library.AtomicRegister
import GroundGraph.Library.EdgeTraversal
import GroundGraph.Library.FindOrCreate
import GroundGraph.Library.FirstPerKey
import GroundGraph.Library.FixedDigits
import GroundGraph.Library.GuardedHistory
import GroundGraph.Library.IsoDatetime
import GroundGraph.Library.LabelledSystem
import GroundGraph.Library.OptionalBounds
import GroundGraph.Library.PathWalk
import GroundGraph.Library.Slices
import GroundGraph.Library.StableSort
import GroundGraph.Library.Tally
import GroundGraph.Library.Transaction
import GroundGraph.Neo4j.NodeGraph
import GroundGraph.Neo4j.Nodes
import GroundGraph.Neo4j.Projection
import GroundGraph.Neo4j.Redelivery
import GroundGraph.Neo4j.Repository
import GroundGraph.Neo4j.RoundTrip
import GroundGraph.Neo4j.Supersession
import GroundGraph.Neo4j.UnitOfWork
import GroundGraph.Operator.ProposalAudit
import GroundGraph.Operator.ProposalRaces
import GroundGraph.Operator.Proposals
import GroundGraph.Operator.RecentExecutions
import GroundGraph.Operator.RunView
import GroundGraph.Operator.TenantIsolation
import GroundGraph.Outbox.Backoff
import GroundGraph.Outbox.Consumer
import GroundGraph.Outbox.Events
import GroundGraph.Outbox.LeaseSafety
import GroundGraph.Retrieval.AclAgreement
import GroundGraph.Retrieval.Backing
import GroundGraph.Retrieval.Candidates
import GroundGraph.Retrieval.ChunkSearch
import GroundGraph.Retrieval.CurrentFacts
import GroundGraph.Retrieval.DeactivatedSources
import GroundGraph.Retrieval.Embedding
import GroundGraph.Retrieval.EvidencePassed
import GroundGraph.Retrieval.Exposure
import GroundGraph.Retrieval.FusedEvidence
import GroundGraph.Retrieval.Fusion
import GroundGraph.Retrieval.FusionAgreement
import GroundGraph.Retrieval.FusionFormula
import GroundGraph.Retrieval.GraphAgreement
import GroundGraph.Retrieval.GraphFusion
import GroundGraph.Retrieval.GraphMerge
import GroundGraph.Retrieval.Hybrid
import GroundGraph.Retrieval.HybridFusion
import GroundGraph.Retrieval.IndexCompatibility
import GroundGraph.Retrieval.MethodLabels
import GroundGraph.Retrieval.PredicateFilter
import GroundGraph.Retrieval.PrivateView
import GroundGraph.Retrieval.ReaderSlice
import GroundGraph.Retrieval.RemovedContent
import GroundGraph.Retrieval.Reranker
import GroundGraph.Retrieval.SearchedFiles
import GroundGraph.Retrieval.SourceDiversity
import GroundGraph.Retrieval.TraversalBounds
import GroundGraph.Security.Sanitized
import GroundGraph.Versioning.IndexVersions
import GroundGraph.Versioning.Publication
import GroundGraph.Worker.Blocking
import GroundGraph.Worker.Delivery
import GroundGraph.Worker.Draining
import GroundGraph.Worker.Order
import GroundGraph.Worker.Rounds
