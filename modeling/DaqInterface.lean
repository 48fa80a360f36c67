import DaqInterface.Library.Dict
import DaqInterface.Library.Double
import DaqInterface.Library.Fold
import DaqInterface.Library.Graph
import DaqInterface.Library.Language
import DaqInterface.Library.Memo
import DaqInterface.Library.Occurrence
import DaqInterface.Library.Parts
import DaqInterface.Library.Pattern
import DaqInterface.Library.Scan
import DaqInterface.Library.Template
import DaqInterface.Model.Agreement
import DaqInterface.Model.Bookkeeping
import DaqInterface.Model.Boot
import DaqInterface.Model.BootFile
import DaqInterface.Model.Command
import DaqInterface.Model.Component
import DaqInterface.Model.Config
import DaqInterface.Model.ConfigFiles
import DaqInterface.Model.Contexts
import DaqInterface.Model.Documents
import DaqInterface.Model.FhiclTables
import DaqInterface.Model.InitFragments
import DaqInterface.Model.Interface
import DaqInterface.Model.Launch
import DaqInterface.Model.Logfiles
import DaqInterface.Model.Metadata
import DaqInterface.Model.Packages
import DaqInterface.Model.Paragraph
import DaqInterface.Model.Parameters
import DaqInterface.Model.Process
import DaqInterface.Model.ProcessManager
import DaqInterface.Model.Recover
import DaqInterface.Model.Requirements
import DaqInterface.Model.Routers
import DaqInterface.Model.Runner
import DaqInterface.Model.Settings
import DaqInterface.Model.Shell
import DaqInterface.Model.StartStop
import DaqInterface.Model.TableCalls
import DaqInterface.Model.Text
import DaqInterface.Model.Threadable
import DaqInterface.Model.Transfers
import DaqInterface.Program.Basic
import DaqInterface.Program.Dialogue
import DaqInterface.Program.Ledger
import DaqInterface.Program.Pool
import DaqInterface.Program.Rely
import DaqInterface.Program.Triple
import DaqInterface.Properties.Archive
import DaqInterface.Properties.BootFile
import DaqInterface.Properties.BufferCounts
import DaqInterface.Properties.BufferSize
import DaqInterface.Properties.Comments
import DaqInterface.Properties.Contexts
import DaqInterface.Properties.DataDirectory
import DaqInterface.Properties.Delivery
import DaqInterface.Properties.Ending
import DaqInterface.Properties.EventSize
import DaqInterface.Properties.Finality
import DaqInterface.Properties.Footprint
import DaqInterface.Properties.FragmentCount
import DaqInterface.Properties.Fragments
import DaqInterface.Properties.History
import DaqInterface.Properties.Includes
import DaqInterface.Properties.Killing
import DaqInterface.Properties.Launch
import DaqInterface.Properties.Linearisation
import DaqInterface.Properties.Links
import DaqInterface.Properties.Listing
import DaqInterface.Properties.Logfiles
import DaqInterface.Properties.Losses
import DaqInterface.Properties.Mopup
import DaqInterface.Properties.Order
import DaqInterface.Properties.Overrides
import DaqInterface.Properties.Overtaking
import DaqInterface.Properties.Packages
import DaqInterface.Properties.Paragraph
import DaqInterface.Properties.ParameterText
import DaqInterface.Properties.Passes
import DaqInterface.Properties.Recovery
import DaqInterface.Properties.RemoteCommands
import DaqInterface.Properties.Requests
import DaqInterface.Properties.Rewriting
import DaqInterface.Properties.RouterFrame
import DaqInterface.Properties.RouterPorts
import DaqInterface.Properties.RouterSenders
import DaqInterface.Properties.Routes
import DaqInterface.Properties.SecondRecovery
import DaqInterface.Properties.Settings
import DaqInterface.Properties.Soundness
import DaqInterface.Properties.Sweep
import DaqInterface.Properties.TableCalls
import DaqInterface.Properties.TableContext
import DaqInterface.Properties.TableRanges
import DaqInterface.Properties.Tables
import DaqInterface.Properties.Targets
import DaqInterface.Properties.Threadable
import DaqInterface.Properties.Variables
import DaqInterface.Properties.WindingDown
