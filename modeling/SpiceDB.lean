import SpiceDB.Api
import SpiceDB.Graph.Expand
import SpiceDB.Graph.Depth
import SpiceDB.Graph.Goroutines
import SpiceDB.Graph.Interleaving
import SpiceDB.Graph.Schedules
import SpiceDB.Graph.Leak
import SpiceDB.Graph.Rewrites
import SpiceDB.Graph.Revision
import SpiceDB.Graph.Monotone
import SpiceDB.Graph.Labels
import SpiceDB.Memdb.Datastore
import SpiceDB.Memdb.Changelog
import SpiceDB.Memdb.Refinement
import SpiceDB.Memdb.Revisions
import SpiceDB.Memdb.Versions
import SpiceDB.Schema.Translator
import SpiceDB.Schema.Meaning
import SpiceDB.Schema.References
import SpiceDB.Schema.Compile
import SpiceDB.Schema.Accepts
import SpiceDB.Graph.Meaning
import SpiceDB.Graph.Cycles
import SpiceDB.Graph.Recursive
import SpiceDB.Services.Acl
import SpiceDB.Services.Meaning
import SpiceDB.Services.Write
import SpiceDB.Services.Snapshot
import SpiceDB.Services.Check
import SpiceDB.Services.Stack
import SpiceDB.Services.Concurrent
import SpiceDB.Crdb.ReverseQuery
