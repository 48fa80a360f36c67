import DaqInterface.Model.Component

/-!
# Processes and subsystems

The records that the program keeps for each artdaq process (`Procinfo`) and each
subsystem, and the commands it sends to the processes.
-/

namespace DaqInterface

/-- The types of artdaq processes. -/
inductive ProcType
  | BoardReader
  | EventBuilder
  | DataLogger
  | Dispatcher
  | RoutingManager
  deriving DecidableEq, Repr

/-- The transition commands of artdaq processes. -/
inductive Command
  | Init
  | Start
  | Pause
  | Resume
  | Stop
  | Shutdown
  deriving DecidableEq, Repr

/-- The state of a process after a command. -/
def target_states : Command → String
  | .Init => "Ready"
  | .Start => "Running"
  | .Pause => "Paused"
  | .Resume => "Running"
  | .Stop => "Ready"
  | .Shutdown => "Stopped"

/-- The state of a process during a command. -/
def verbing_to_states : Command → String
  | .Init => "Configuring"
  | .Start => "Starting"
  | .Pause => "Pausing"
  | .Resume => "Resuming"
  | .Stop => "Stopping"
  | .Shutdown => "Shutting down"

/-- The commands that go from the sources to the destinations of the data. -/
def Command.upstream_first : Command → Bool
  | .Stop => true
  | .Pause => true
  | .Shutdown => true
  | .Init => false
  | .Start => false
  | .Resume => false

/-- What the program knows about one artdaq process. -/
structure Procinfo where
  /-- The type of the process. -/
  name : ProcType
  /-- The number by which the routing tables name the process. -/
  rank : ℕ
  /-- Where the process runs. -/
  host : String
  /-- The port at which it takes commands. -/
  port : String
  /-- The label, which names its FHiCL document. -/
  label : String
  /-- The subsystem the process belongs to. -/
  subsystem : String
  /-- The type of processes that it routes data to, for those that do. -/
  target : String
  /-- The rank among the processes of its type in a transition, lowest first. -/
  priority : ℕ
  /-- The FHiCL document sent to the process. -/
  fhicl_used : Option String
  /-- The last answer of the process to a command. -/
  lastreturned : String
  /-- The state the process is taken to be in. -/
  state : String
  /-- The subconfigurations from which `fhicl_used` was prepared: nothing reads it, it
  only records where the document comes from. -/
  origin : Option (List String)
  deriving DecidableEq, Repr

/-- The answer of a process that has not been called: `check_proc_transition` knows it. -/
def not_yet_called : String := "DAQInterface: ARTDAQ PROCESS NOT YET CALLED"

/-- A process of a type, with a label and a subsystem, that has not been called. -/
def Procinfo.new (name : ProcType) (label subsystem : String) : Procinfo where
  name := name
  rank := 0
  host := "localhost"
  port := ""
  label := label
  subsystem := subsystem
  target := "not set"
  priority := 999
  fhicl_used := none
  lastreturned := not_yet_called
  state := "nonexistent"
  origin := none

/-- What the program knows about one subsystem. -/
structure Subsystem where
  /-- The subsystems that feed it. -/
  sources : List String
  /-- The subsystem it feeds. -/
  destination : Option String
  /-- Its EventBuilders pass on the fragments they got, not one fragment an event. -/
  fragmentMode : Bool
  deriving DecidableEq, Repr

end DaqInterface
