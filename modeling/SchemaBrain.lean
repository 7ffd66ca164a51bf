import SchemaBrain.Audit.Canonical
import SchemaBrain.Audit.ForensicWalk
import SchemaBrain.Audit.Merkle
import SchemaBrain.Audit.SinceCursor
import SchemaBrain.Audit.Verify
import SchemaBrain.Audit.WriteCalls
import SchemaBrain.Audit.Writer
import SchemaBrain.Base.BreadthFirst
import SchemaBrain.Base.Bytes
import SchemaBrain.Base.Checks
import SchemaBrain.Base.Collections
import SchemaBrain.Base.Datetime
import SchemaBrain.Base.EdgeSpine
import SchemaBrain.Base.HashChain
import SchemaBrain.Base.HashTree
import SchemaBrain.Base.Json
import SchemaBrain.Base.JsonReader
import SchemaBrain.Base.KeyedRows
import SchemaBrain.Base.Lines
import SchemaBrain.Base.Listings
import SchemaBrain.Base.Lookups
import SchemaBrain.Base.Markdown
import SchemaBrain.Base.Placeholder
import SchemaBrain.Base.PyAccess
import SchemaBrain.Base.Python
import SchemaBrain.Base.Regex
import SchemaBrain.Base.Relation
import SchemaBrain.Base.RowOrder
import SchemaBrain.Base.Run
import SchemaBrain.Base.Script
import SchemaBrain.Base.Sha256
import SchemaBrain.Base.ShortestPaths
import SchemaBrain.Base.SimplePaths
import SchemaBrain.Base.SqlExpression
import SchemaBrain.Base.Substitution
import SchemaBrain.Base.TextLines
import SchemaBrain.Base.TwoRuns
import SchemaBrain.Base.Url
import SchemaBrain.Base.Yaml
import SchemaBrain.Base.YamlGrammar
import SchemaBrain.Check.Drift
import SchemaBrain.Check.DriftReport
import SchemaBrain.Check.DriftRun
import SchemaBrain.Cli.FrontEnds
import SchemaBrain.Core.Emit
import SchemaBrain.Core.EntityYaml
import SchemaBrain.Core.Fingerprint
import SchemaBrain.Core.InitSchema
import SchemaBrain.Core.JoinYaml
import SchemaBrain.Core.MeasureExpression
import SchemaBrain.Core.MetricYaml
import SchemaBrain.Core.Model
import SchemaBrain.Core.OwnershipGuard
import SchemaBrain.Core.Schema
import SchemaBrain.Core.SchemaScript
import SchemaBrain.Core.SemanticLists
import SchemaBrain.Core.SemanticRecords
import SchemaBrain.Core.SemanticWrites
import SchemaBrain.Core.SourceId
import SchemaBrain.Core.Store
import SchemaBrain.Core.StoreWrites
import SchemaBrain.Core.TagOverrides
import SchemaBrain.Dashboard.GraphProjection
import SchemaBrain.Dashboard.PolicyPreview
import SchemaBrain.Dashboard.SourceRoutes
import SchemaBrain.DataDict.Page
import SchemaBrain.DataDict.RenderMarkdown
import SchemaBrain.DataDict.TableStructure
import SchemaBrain.Enrichment.CostCap
import SchemaBrain.Enrichment.Prompts
import SchemaBrain.Imports.DbtImport
import SchemaBrain.Imports.DbtMetrics
import SchemaBrain.Imports.DbtPlan
import SchemaBrain.Imports.DbtReimport
import SchemaBrain.Imports.MetricMeaning
import SchemaBrain.Indexer.BandHistory
import SchemaBrain.Indexer.Coherence
import SchemaBrain.Indexer.DryRun
import SchemaBrain.Indexer.EnrichRuns
import SchemaBrain.Indexer.Index
import SchemaBrain.Indexer.PiiTags
import SchemaBrain.Indexer.PolicyHistory
import SchemaBrain.Indexer.SemanticLayer
import SchemaBrain.Indexer.TagHistory
import SchemaBrain.Joins.Bridges
import SchemaBrain.Joins.JoinGraphReport
import SchemaBrain.Joins.MinedEvidence
import SchemaBrain.Joins.Mining
import SchemaBrain.Joins.Respelling
import SchemaBrain.Joins.SqlTree
import SchemaBrain.Joins.Suggest
import SchemaBrain.Mcp.DescribeEntity
import SchemaBrain.Mcp.DescribeTable
import SchemaBrain.Mcp.FindRelevantEntities
import SchemaBrain.Mcp.GateCoverage
import SchemaBrain.Mcp.GetMetric
import SchemaBrain.Mcp.NameGrammar
import SchemaBrain.Mcp.QualifiedName
import SchemaBrain.Mcp.Redaction
import SchemaBrain.Mcp.Renaming
import SchemaBrain.Mcp.RowDisclosure
import SchemaBrain.Mcp.SuggestJoins
import SchemaBrain.Mining.Attribution
import SchemaBrain.Mining.Pipeline
import SchemaBrain.Observability.Tail
import SchemaBrain.Observability.TailRuns
import SchemaBrain.Pii.Classifier
import SchemaBrain.Pii.Confidence
import SchemaBrain.Pii.Policy
import SchemaBrain.Pii.PolicyChecks
import SchemaBrain.Pii.PolicyYaml
import SchemaBrain.Profiler.Samples
import SchemaBrain.Semantic.CanonicalPath
import SchemaBrain.Semantic.ChainSearch
import SchemaBrain.Semantic.Emit
import SchemaBrain.Semantic.FanOut
import SchemaBrain.Semantic.Inherit
import SchemaBrain.Semantic.JoinGraph
import SchemaBrain.Semantic.MeasureMeaning
import SchemaBrain.Semantic.OrderBy
import SchemaBrain.Semantic.OrderIndependence
import SchemaBrain.Semantic.OutputNames
import SchemaBrain.Semantic.Parameters
import SchemaBrain.Semantic.Plan
import SchemaBrain.Semantic.Resolve
import SchemaBrain.Semantic.ResolveJoins
import SchemaBrain.Semantic.ResolvePlan
import SchemaBrain.Semantic.ResultOrder
import SchemaBrain.Semantic.ResultRows
import SchemaBrain.Semantic.Scope
import SchemaBrain.Semantic.SqlText
import SchemaBrain.Semantic.TimeBucket
import SchemaBrain.Semantic.TimeInheritance
import SchemaBrain.Semantic.ViaContract
import SchemaBrain.Setup.EnvFile
import SchemaBrain.Setup.Persistence
import SchemaBrain.Web.Merkle
import SchemaBrain.Web.PolicyEditor
import SchemaBrain.Web.PolicySession
