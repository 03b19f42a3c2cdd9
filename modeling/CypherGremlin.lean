import CypherGremlin.Json.Token
import CypherGremlin.Main
import CypherGremlin.Proofs.Dialect.NativeTests
import CypherGremlin.Proofs.Dialect.Scoping
import CypherGremlin.Proofs.Program.Bytes
import CypherGremlin.Proofs.Program.Groovy
import CypherGremlin.Proofs.Query.Json
import CypherGremlin.Proofs.Row.Echo
import CypherGremlin.Proofs.Row.Reading
import CypherGremlin.Proofs.Statement.Aggregating
import CypherGremlin.Proofs.Statement.Checked
import CypherGremlin.Proofs.Statement.CutShort
import CypherGremlin.Proofs.Statement.DeletePhase
import CypherGremlin.Proofs.Statement.Departures
import CypherGremlin.Proofs.Statement.Filtering
import CypherGremlin.Proofs.Statement.Folding
import CypherGremlin.Proofs.Statement.Lasting
import CypherGremlin.Proofs.Statement.MatchTrail
import CypherGremlin.Proofs.Statement.MergeNode
import CypherGremlin.Proofs.Statement.NullOrder
import CypherGremlin.Proofs.Statement.Optional
import CypherGremlin.Proofs.Statement.Paging
import CypherGremlin.Proofs.Statement.PathOrigin
import CypherGremlin.Proofs.Statement.ReadQuery
import CypherGremlin.Proofs.Statement.Rebinding
import CypherGremlin.Proofs.Statement.Reserved
import CypherGremlin.Proofs.Statement.SingleValue
import CypherGremlin.Proofs.Statement.Uniqueness
import CypherGremlin.Query.Builder
import CypherGremlin.Session
