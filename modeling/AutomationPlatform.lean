import AutomationPlatform.Library.Dict
import AutomationPlatform.Library.Runs
import AutomationPlatform.Library.Codes
import AutomationPlatform.Library.FlatEncoding
import AutomationPlatform.Library.FirstOccurrence
import AutomationPlatform.Library.FirstMax
import AutomationPlatform.Library.Mean
import AutomationPlatform.Library.Raising
import AutomationPlatform.Library.Relational.Schema
import AutomationPlatform.Library.Relational.Statement
import AutomationPlatform.Library.Relational.Delete
import AutomationPlatform.Library.Relational.Insert
import AutomationPlatform.Library.Relational.Rows
import AutomationPlatform.Library.Relational.Change
import AutomationPlatform.Library.Relational.Cascade
import AutomationPlatform.Library.Relational.Ddl
import AutomationPlatform.Library.Relational.Evolution
import AutomationPlatform.Library.Relational.Unreferenced
import AutomationPlatform.Python.Value
import AutomationPlatform.Python.Uuid
import AutomationPlatform.Python.Text
import AutomationPlatform.Python.Number
import AutomationPlatform.Python.Json
import AutomationPlatform.Python.Repr
import AutomationPlatform.Python.Reorder
import AutomationPlatform.Python.Ascii
import AutomationPlatform.Orchestrator.Suggestions
import AutomationPlatform.Orchestrator.Review
import AutomationPlatform.Orchestrator.Identity
import AutomationPlatform.Orchestrator.Audit
import AutomationPlatform.Orchestrator.Ingest
import AutomationPlatform.Orchestrator.Templates
import AutomationPlatform.Orchestrator.TemplatePayload
import AutomationPlatform.Api.Review
import AutomationPlatform.Database.Columns
import AutomationPlatform.Database.SqlMigration
import AutomationPlatform.Database.Privileges
import AutomationPlatform.Database.AlembicMigration
import AutomationPlatform.Database.Migration
import AutomationPlatform.Database.Models
import AutomationPlatform.Database.SchemaDef
import AutomationPlatform.Database.Ddl
import AutomationPlatform.Database.FieldByField
import AutomationPlatform.Database.Session
import AutomationPlatform.Database.SessionScope
import AutomationPlatform.Ingest.Deduplication
import AutomationPlatform.Ingest.ReVerification
import AutomationPlatform.Ingest.ColumnLoss
import AutomationPlatform.Ingest.TextReimport
import AutomationPlatform.Ingest.JsonPayload
import AutomationPlatform.Ingest.HashCollision
import AutomationPlatform.Ingest.MemberOrder
import AutomationPlatform.Ingest.Idempotence
import AutomationPlatform.Suggest.ApprovalGate
import AutomationPlatform.Review.DecidedOnce
import AutomationPlatform.Review.AuditReplay
import AutomationPlatform.Review.DecisionDomain
import AutomationPlatform.Review.DecisionEffect
import AutomationPlatform.Store.AuditAppendOnly
import AutomationPlatform.Store.AuditWriter
import AutomationPlatform.Store.Immutable
import AutomationPlatform.Store.Deletion
import AutomationPlatform.Store.UserDeletion
import AutomationPlatform.Store.Lifecycle
import AutomationPlatform.Store.RoundTrip
import AutomationPlatform.Store.ModelDrift
import AutomationPlatform.Store.ActiveVersion
import AutomationPlatform.Store.Requests
import AutomationPlatform.Scripts.SeedDev
import AutomationPlatform.Scripts.SeedRun
import AutomationPlatform.Scripts.SeedLoops
import AutomationPlatform.Scripts.SeedConverges
import AutomationPlatform.Scripts.SeedMigrated
import AutomationPlatform.Scripts.SeedRights
import AutomationPlatform.Api.CurrentUser
