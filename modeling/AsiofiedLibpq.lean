import AsiofiedLibpq.Connection.Handler
import AsiofiedLibpq.Connection.Session
import AsiofiedLibpq.Connection.Engine
import AsiofiedLibpq.Connection.Accounting
import AsiofiedLibpq.Connection.Trace
import AsiofiedLibpq.Connection.Routing
import AsiofiedLibpq.Connection.Delivery
import AsiofiedLibpq.Connection.RunLoop
import AsiofiedLibpq.Connection.Connect
import AsiofiedLibpq.Connection.Completion
import AsiofiedLibpq.Connection.Termination
import AsiofiedLibpq.Connection.Outcomes
import AsiofiedLibpq.Connection.Progress
import AsiofiedLibpq.Connection.HandlerStatus
import AsiofiedLibpq.Psql.Types
import AsiofiedLibpq.Psql.Serialization
import AsiofiedLibpq.Psql.WireFormat
import AsiofiedLibpq.Psql.Decode
import AsiofiedLibpq.Psql.ExtractNewUdts
import AsiofiedLibpq.Psql.Params
import AsiofiedLibpq.Psql.ParamsSerialize
