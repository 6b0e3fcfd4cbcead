import Tabula.Main
import Tabula.Query.Script
import Tabula.Proofs.Migration.Columns
import Tabula.Proofs.Migration.Coverage
import Tabula.Proofs.Migration.Reordering
import Tabula.Proofs.Migration.DeclaredIndexes
import Tabula.Proofs.Migration.LateRebuilds
import Tabula.Proofs.Migration.KnownColumns
import Tabula.Proofs.Migration.LoweredNames
import Tabula.Proofs.Migration.References
import Tabula.Proofs.Migration.Records
import Tabula.Proofs.Query.Mutations
import Tabula.Proofs.Query.Criteria
import Tabula.Proofs.Query.Reading
import Tabula.Proofs.Query.Chain
import Tabula.Proofs.Query.JoinedFilter
import Tabula.Proofs.Query.PlainText
import Tabula.Proofs.Query.Scoping
import Tabula.Proofs.Query.Placeholders
import Tabula.Proofs.Query.Bindings
import Tabula.Proofs.Query.Masks
import Tabula.Proofs.Query.MaskedRuns
import Tabula.Proofs.Query.Replay
import Tabula.Proofs.Migration.IndexNames
import Tabula.Proofs.Schema.Definitions
import Tabula.Proofs.Migration.QuotedPlans
import Tabula.Proofs.Migration.Ties
import Tabula.Proofs.Migration.MovedRows
import Tabula.Proofs.Query.Connectives
import Tabula.Proofs.Query.TurnedOrders
import Tabula.Proofs.Query.Bounds
import Tabula.Proofs.Migration.ChangedColumns
import Tabula.Proofs.Migration.UniqueRequests
import Tabula.Proofs.Migration.TemporaryNames
import Tabula.Proofs.Decimal.Padding
import Tabula.Proofs.Calendar.Reading
import Tabula.Proofs.Calendar.Chronology
import Tabula.Proofs.Calendar.TextOrder
import Tabula.Proofs.Query.DateCriteria
import Tabula.Proofs.Schema.ColumnKeys
import Tabula.Proofs.Query.TurnedTwice
import Tabula.Proofs.Query.JoinTexts
import Tabula.Proofs.Migration.TargetShapes
import Tabula.Proofs.Migration.Phases
