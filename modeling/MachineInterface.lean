import MachineInterface.Config.File
import MachineInterface.Log.File
import MachineInterface.Serve
import MachineInterface.Engine.Table
import MachineInterface.Engine.Memory
import MachineInterface.Engine.Evaluator
import MachineInterface.Proofs.Numbering
import MachineInterface.Proofs.Records
import MachineInterface.Proofs.Cleanup
import MachineInterface.Proofs.Announcements
import MachineInterface.Proofs.Insertions
import MachineInterface.Proofs.Reflection
import MachineInterface.Proofs.Retirement
import MachineInterface.Proofs.Refusals
import MachineInterface.Proofs.Answers
import MachineInterface.Proofs.Transcripts
import MachineInterface.Proofs.Threads
import MachineInterface.Proofs.Preservation
import MachineInterface.Proofs.Quoting
import MachineInterface.Proofs.Lines
import MachineInterface.Proofs.Objects
import MachineInterface.Proofs.Locality
import MachineInterface.Proofs.Names
import MachineInterface.Proofs.Atomicity
import MachineInterface.Proofs.Batches
import MachineInterface.Proofs.WellFormed
import MachineInterface.Proofs.Grammar
import MachineInterface.Proofs.Options
import MachineInterface.Proofs.Unquoted
import MachineInterface.Proofs.LineGrammar
import MachineInterface.Proofs.Closing
import MachineInterface.Proofs.Accounts
import MachineInterface.Proofs.Lists
import MachineInterface.Proofs.Lookups
import MachineInterface.Proofs.Phases
import MachineInterface.Proofs.Fallbacks
import MachineInterface.Proofs.Locations
import MachineInterface.Proofs.Visits
import MachineInterface.Proofs.Walks
import MachineInterface.Proofs.Lineage
import MachineInterface.Proofs.ChangeLists
import MachineInterface.Proofs.Handles
import MachineInterface.Proofs.Windows
import MachineInterface.Proofs.Paths
import MachineInterface.Proofs.Descent
import MachineInterface.Proofs.Bulletins
