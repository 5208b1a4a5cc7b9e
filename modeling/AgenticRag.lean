import AgenticRag.Lib.Machine
import AgenticRag.Lib.Slots
import AgenticRag.Lib.Table
import AgenticRag.Lib.Simulation
import AgenticRag.Lib.Totals
import AgenticRag.Lib.Slices
import AgenticRag.Lib.Joins
import AgenticRag.Lib.Results
import AgenticRag.Lib.OrderBy
import AgenticRag.Lib.Query
import AgenticRag.Lib.TwoRuns
import AgenticRag.Lib.Traced
import AgenticRag.Lib.Trims
import AgenticRag.Lib.Paging
import AgenticRag.Lib.Parts
import AgenticRag.Lib.Programs
import AgenticRag.Lib.Pool
import AgenticRag.Lib.Fragments
import AgenticRag.Python.Text
import AgenticRag.Python.Uuid
import AgenticRag.Python.Objects
import AgenticRag.Python.Dict
import AgenticRag.Python.Utf8
import AgenticRag.Python.Json
import AgenticRag.Python.JsonLoads
import AgenticRag.Python.IntText
import AgenticRag.Db.Models
import AgenticRag.Db.Repositories
import AgenticRag.Db.Access
import AgenticRag.Db.MembershipScope
import AgenticRag.Db.KnowledgeBases
import AgenticRag.Ingestion.Embeddings
import AgenticRag.Ingestion.VectorStore
import AgenticRag.Ingestion.DocumentParsing
import AgenticRag.Ingestion.TextNormalization
import AgenticRag.Ingestion.NormalForm
import AgenticRag.Ingestion.Chunking
import AgenticRag.Ingestion.Storage
import AgenticRag.Ingestion.ChunkWindows
import AgenticRag.Ingestion.ChunkCoverage
import AgenticRag.Ingestion.ChunkProgress
import AgenticRag.Retrieval.Domain
import AgenticRag.Retrieval.DenseResult
import AgenticRag.Retrieval.Service
import AgenticRag.Retrieval.Postgres
import AgenticRag.Retrieval.Hybrid
import AgenticRag.Retrieval.Composition
import AgenticRag.Retrieval.FinalSnapshot
import AgenticRag.Retrieval.Noninterference
import AgenticRag.Retrieval.Fusion
import AgenticRag.Retrieval.Ranking
import AgenticRag.Retrieval.FusionMonotone
import AgenticRag.Retrieval.FailClosed
import AgenticRag.Retrieval.BlankQueries
import AgenticRag.Retrieval.CanonicalQuery
import AgenticRag.Retrieval.ChromaDecoding
import AgenticRag.Ingestion.OllamaEmbeddings
import AgenticRag.Ingestion.EmbeddingClosed
import AgenticRag.Ingestion.PointwiseEmbedding
import AgenticRag.Ingestion.ChromaVectorStore
import AgenticRag.Ingestion.StoreSimulation
import AgenticRag.Retrieval.ChromaClosed
import AgenticRag.Retrieval.BodyStream
import AgenticRag.Retrieval.ChromaAdapter
import AgenticRag.Retrieval.ProbeSafety
import AgenticRag.Retrieval.ProbeTasks
import AgenticRag.Retrieval.QueryCourse
import AgenticRag.Retrieval.ProbeReplay
import AgenticRag.Retrieval.QueryEnds
import AgenticRag.Security.Authorization
import AgenticRag.Security.Authentication
import AgenticRag.Security.SessionMachine
import AgenticRag.Security.Revocation
import AgenticRag.Services.Processing
import AgenticRag.Services.Writes
import AgenticRag.Services.Lifecycle
import AgenticRag.Services.LifecycleMachine
import AgenticRag.Services.BoundedOvertaking
import AgenticRag.Services.StrandedJobs
import AgenticRag.Services.Pipeline
import AgenticRag.Services.PipelineSafety
import AgenticRag.Services.ParserRegistry
import AgenticRag.Services.ContentPreservation
import AgenticRag.Services.ContentProvenance
import AgenticRag.Services.PageProvenance
import AgenticRag.Services.WorkerMachine
import AgenticRag.Services.Advances
import AgenticRag.Services.LeaseFencing
import AgenticRag.Services.CompletedIndexed
import AgenticRag.Services.Rebuild
import AgenticRag.Services.RebuildConvergence
import AgenticRag.Services.KnowledgeBaseRebuild
import AgenticRag.Services.RebuildAccounts
import AgenticRag.Services.SameIndex
import AgenticRag.Services.ProcessTask
import AgenticRag.Services.ProcessEnds
import AgenticRag.Services.ProcessSettled
import AgenticRag.Services.ProcessAbandoned
import AgenticRag.Services.ProcessCancelled
import AgenticRag.Services.Intake
import AgenticRag.Services.UploadMachine
import AgenticRag.Services.UploadAgreement
import AgenticRag.Services.UploadTask
import AgenticRag.Services.UploadMoves
import AgenticRag.Services.UploadInterrupted
import AgenticRag.Services.UploadCancelled
import AgenticRag.Services.UploadRecheck
import AgenticRag.Services.KnowledgeIntake
import AgenticRag.Services.MembershipWrites
import AgenticRag.Services.KnowledgeNoninterference
import AgenticRag.Services.LeaseOrder
import AgenticRag.Ingestion.SpanPartition
import AgenticRag.Retrieval.CandidateBatches
import AgenticRag.Retrieval.JsonDepth
import AgenticRag.Security.LoginOrder
import AgenticRag.Security.ConcurrentLogins
import AgenticRag.Db.LegacyClaims
import AgenticRag.Python.Utf8Codec
import AgenticRag.Python.JsonLoading
import AgenticRag.Python.JsonCompact
import AgenticRag.Ingestion.AdmissibleSettings
import AgenticRag.Retrieval.CanonicalResponse
import AgenticRag.Retrieval.Evidence
import AgenticRag.Api.Errors
import AgenticRag.Api.Dependencies
import AgenticRag.Api.Endpoints
import AgenticRag.Api.Disclosure
import AgenticRag.Api.Effects
import AgenticRag.Api.Refusals
import AgenticRag.Api.Requests
import AgenticRag.Api.Mediation
import AgenticRag.Api.Confinement
import AgenticRag.Api.Answers
import AgenticRag.Api.Backend
import AgenticRag.Api.Listings
import AgenticRag.Api.Citations
import AgenticRag.Api.Uploads
import AgenticRag.Workers.WindingDown
import AgenticRag.Workers.RunCommand
import AgenticRag.Workers.Processes
import AgenticRag.Api.Bootstrap
