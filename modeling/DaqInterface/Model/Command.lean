import DaqInterface.Model.Recover

/-!
# Transition commands

`do_command` sends one command to all processes: subsystem by subsystem, type by type
and rank by rank, the processes of one rank at the same time, each in a thread
(`process_command`).  A call that raises sets `exception`, which keeps later threads
from sending anything and makes `do_command` raise when all groups are through.
-/

namespace DaqInterface

open Program

/-! ## One process -/

/-- The remote call of a command, with the second attempt that old processes need to be
started. -/
def remote_call (command : Command) (i : ℕ) : Control String := do
  let lastreturned ← call (.process (.command command) i)
  set_lastreturned i lastreturned
  if command = .Start ∧
      contains "The start message requires the run number as an argument" lastreturned then
    let lastreturned ← call (.process .retry_start i)
    set_lastreturned i lastreturned
    return lastreturned
  else return lastreturned

/-- The answer of a process as it is kept: answers with a whole document are cut off. -/
def truncated (tmp_run_record lastreturned : String) : String :=
  if contains "with ParameterSet" lastreturned then
    String.ofList (lastreturned.toList.take 200) ++
      " // REMAINDER TRUNCATED BY DAQINTERFACE, SEE " ++ tmp_run_record ++
      " FOR FULL FHiCL DOCUMENT"
  else lastreturned

/-- A process that answers with success is in the target state. -/
def record_answer (command : Command) (i : ℕ) (lastreturned : String) : Control Unit := do
  let self ← look
  let lastreturned := truncated self.vars.tmp_run_record lastreturned
  set_lastreturned i lastreturned
  onlyIf (lastreturned = "Success" ∨ lastreturned = target_states command) <|
    set_proc_state i (target_states command)

/-- A call that raises sets `exception`; the message names the logfile of the process. -/
def command_failed (command : Command) (i : ℕ) : Control Unit := do
  issue (.fail (.command command))
  call (.outside (.determine_logfilename i))

/-- Wait for the process to answer. -/
def await_answer (command : Command) (i : ℕ) : Control Unit :=
  (remote_call command i).attempt (fun _ => command_failed command i) (record_answer command i)

/-- Send the command to the process. -/
def deliver (command : Command) (i : ℕ) : Control Unit := do
  set_proc_state i (verbing_to_states command)
  issue (.send command i)
  await_answer command i

/-- `process_command`: nothing is sent once an exception was seen. -/
def process_command (command : Command) (i : ℕ) : Control Unit := do
  let self ← look
  if self.exception then return () else deliver command i

/-! ## The order of the processes -/

/-- The types of processes in the order in which a command reaches them. -/
def proctypes_in_order (command : Command) : List ProcType :=
  let types : List ProcType := [.RoutingManager, .Dispatcher, .DataLogger, .EventBuilder, .BoardReader]
  if command.upstream_first then types.reverse else types

/-- The first subsystem that is not in the list yet and all of whose sources are. -/
def next_subsystem (subsystems : List (String × Subsystem)) (ordered : List String) :
    Option String :=
  (subsystems.find? fun entry =>
    (ordered.foldl (fun sources_copy ordered_ss => sources_copy.erase ordered_ss)
      entry.2.sources).isEmpty && !ordered.contains entry.1).map Prod.fst

/-- The loop that orders the subsystems, for the given number of turns; `none` where a turn
adds nothing, since every later turn does the same. -/
def order_subsystems (subsystems : List (String × Subsystem)) : ℕ → List String →
    Option (List String)
  | 0, ordered => some ordered
  | n + 1, ordered =>
    match next_subsystem subsystems ordered with
    | some subsystem => order_subsystems subsystems n (ordered ++ [subsystem])
    | none => none

/-- The subsystems in the order in which a command reaches them, if the loop ends. -/
def subsystems_in_order (command : Command) (subsystems : List (String × Subsystem)) :
    Option (List String) :=
  (order_subsystems subsystems subsystems.length []).map fun ordered =>
    if command.upstream_first then ordered else ordered.reverse

/-- A group of processes that are sent a command at the same time. -/
structure Group where
  /-- The subsystem of its processes. -/
  subsystem : String
  /-- Their type. -/
  proctype : ProcType
  /-- Their rank. -/
  priority : ℕ
  deriving DecidableEq, Repr

/-- The group of a process. -/
def Procinfo.group (p : Procinfo) : Group := ⟨p.subsystem, p.name, p.priority⟩

/-- The indices of the processes of a group. -/
def Group.members (procs : List Procinfo) (g : Group) : List ℕ :=
  indices_of procs fun p => p.group == g

/-- The groups in the order in which a command reaches them. -/
def groups_in_order (command : Command) (procs : List Procinfo) (subsystems : List String) :
    List Group :=
  subsystems.flatMap fun subsystem =>
    (proctypes_in_order command).flatMap fun proctype =>
      (priorities_used procs fun p => p.name == proctype && p.subsystem == subsystem).map
        fun priority => ⟨subsystem, proctype, priority⟩

/-- The positions at which a dictionary from labels to threads keeps a thread: one for each
label, the last thread of that label, in the order in which the labels came up. -/
def kept_threads (labels : List String) : List ℕ :=
  labels.eraseDups.map fun label => labels.length - 1 - labels.reverse.idxOf label

/-- The labels of some processes. -/
def labels_of (procs : List Procinfo) (members : List ℕ) : List String :=
  members.filterMap fun i => procs[i]?.map Procinfo.label

/-- Send the command to the processes of a group and wait for the threads that are kept. -/
def send_to_group (command : Command) (procs : List Procinfo) (g : Group) : Control Unit := do
  let sched ← issue .schedule
  parallel sched (kept_threads (labels_of procs (g.members procs)))
    ((g.members procs).map (process_command command))

/-! ## After the processes have answered -/

/-- Texts that let `check_proc_transition` wait for a better answer. -/
def retry_words : List String :=
  ["ARTDAQ PROCESS NOT YET CALLED", "Stopped", "Booted", "Ready", "Running", "Paused", "busy"]

/-- One process that did not reach its target: it has 20 seconds, in which nothing changes its
last answer, and then its error is kept. -/
def report_failure (target_state : String) (i : ℕ) (p : Procinfo) : Control Unit := do
  onlyIf (retry_words.any fun word => contains word p.lastreturned) <|
    forEach (fun _ => issue .sleep) (List.range 20)
  issue (.assign fun vars =>
    { vars with transition_process_errors :=
        vars.transition_process_errors ++ [p.label ++ ": " ++ p.lastreturned] })
  call (.outside (.determine_logfilename i))
  onlyIf (p.name = .BoardReader ∧ target_state = "Ready" ∧
      contains "with ParameterSet" p.lastreturned) <|
    call (.outside (.determine_logfilename i))

/-- A process that did not reach its target state. -/
def transition_failed (target_state : String) (p : Procinfo) : Bool :=
  p.lastreturned != "Success" && p.lastreturned != target_state

/-- `check_proc_transition`. -/
def check_proc_transition (target_state : String) : Control Unit := do
  let self ← look
  forEach (fun entry => onlyIf (transition_failed target_state entry.1)
      (report_failure target_state entry.2 entry.1))
    self.procinfos.zipIdx
  onlyIf (self.procinfos.any (transition_failed target_state)) <|
    raise "At least one artdaq process failed a transition"

/-- The transition that a command completes by itself, if it does; the text for `Shutdown`
is compared with the variable and not assigned to it, so the variable stays empty. -/
def verbing : Command → Option String
  | .Init => none
  | .Start => none
  | .Stop => none
  | .Pause => some "pausing"
  | .Resume => some "resuming"
  | .Shutdown => some ""

/-- The exception of a `do_command` in which a call raised. -/
def command_text : Command → String
  | .Init => "Init"
  | .Start => "Start"
  | .Pause => "Pause"
  | .Resume => "Resume"
  | .Stop => "Stop"
  | .Shutdown => "Shutdown"

/-- Send the command to all groups. -/
def send_to_groups (command : Command) (self : DAQInterface) : Control Unit :=
  match subsystems_in_order command self.vars.subsystems with
  | none => hang
  | some subsystems =>
    forEach (send_to_group command self.procinfos)
      (groups_in_order command self.procinfos subsystems)

/-- A process without a thread has no entry in the tables of times. -/
def check_times (self : DAQInterface) : Control Unit :=
  match self.procinfos.find? fun p => !self.procinfos.any fun q =>
      q.label == p.label && (self.vars.subsystems.map Prod.fst).contains q.subsystem with
  | some p => raise ("KeyError: '" ++ p.label ++ "'")
  | none => return ()

/-- The end of `do_command`, when all groups are through. -/
def finish_command (command : Command) (self : DAQInterface) : Control Unit := do
  let now ← look
  onlyIf now.exception <|
    raise ("An exception was thrown during the " ++ command_text command ++ " transition.")
  issue .sleep
  check_times self
  (check_proc_transition (target_states command)).attempt
    (fun _ => raise ("An exception was thrown during the " ++ command_text command ++
      " transition as at least one of the artdaq processes didn't achieve its desired state."))
    fun _ =>
      match verbing command with
      | some t => issue (.complete_state_change t)
      | none => return ()

/-- `do_command`.  Types, labels, subsystems and ranks of the processes stay the same while
it runs, so they are looked at once. -/
def do_command (command : Command) : Control Unit := do
  issue (.assign fun vars => { vars with transition_process_errors := [] })
  let self ← look
  send_to_groups command self
  finish_command command self

end DaqInterface
