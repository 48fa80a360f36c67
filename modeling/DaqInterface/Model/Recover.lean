import DaqInterface.Model.Interface

/-!
# Recovery

`do_recover` winds the processes down type by type, each process in a thread of its own
(`attempted_stop`), kills what is left, clears the flags of all requests and completes
the transition to `stopped`.  Where recoveries are turned off, or the processes were
never launched, it only completes the transition.
-/

namespace DaqInterface

open Program

/-- The indices of the processes that satisfy a test. -/
def indices_of (procs : List Procinfo) (test : Procinfo → Bool) : List ℕ :=
  (List.range procs.length).filter fun i => (procs[i]?.map test).getD false

/-- `sorted` keys of a dictionary that is filled with the priorities of some processes. -/
def priorities_used (procs : List Procinfo) (test : Procinfo → Bool) : List ℕ :=
  ((procs.filter test).map Procinfo.priority).dedup.insertionSort (· ≤ ·)

/-- Remember the answer of a process. -/
def set_lastreturned (i : ℕ) (answer : String) : Control Unit :=
  issue (.processes (.lastreturned i answer))

/-- Remember the state of a process. -/
def set_proc_state (i : ℕ) (state : String) : Control Unit :=
  issue (.processes (.state i state))

/-- `send_recover_command`: an answer other than success is an exception. -/
def send_recover_command (i : ℕ) (command : Command) : Control Unit := do
  set_proc_state i (verbing_to_states command)
  let lastreturned ← call (.process (.recover_command command) i)
  set_lastreturned i lastreturned
  if lastreturned = "Success" ∨ lastreturned = target_states command then
    set_proc_state i (target_states command)
  else
    raise ("Attempted command sent to artdaq process during recovery procedure returned \"" ++
      lastreturned ++ "\"")

/-- Ask a process for its state; without an answer nothing more is done with it. -/
def with_status (i : ℕ) (rest : String → Control Unit) : Control Unit :=
  (call (.process .status i)).attempt (fun _ => ret ()) fun answer => do
    set_lastreturned i answer
    set_proc_state i answer
    rest answer

/-- The last step of `attempted_stop`. -/
def shutdown_if_ready (i : ℕ) (state : String) : Control Unit :=
  if state = "Ready" then ignoring (send_recover_command i .Shutdown) else ret ()

/-- `attempted_stop`: stop and shut down one process.  The lookup of its pid is outside any
`try`. -/
def attempted_stop (i : ℕ) : Control Unit := do
  let found ← call (.probe (.get_pid_for_process i))
  if found then
    with_status i fun state =>
      if state = "Running" then
        (send_recover_command i .Stop).attempt (fun _ => ret ()) fun _ =>
          with_status i (shutdown_if_ready i)
      else shutdown_if_ready i state
  else ret ()

/-- Run a program for every index of a list in a thread of its own and join the threads. -/
def in_threads (program : ℕ → Control Unit) (members : List ℕ) : Control Unit := do
  let sched ← issue .schedule
  parallel sched (List.range members.length) (members.map program)

/-- Wind down the processes of one type, highest priority number first. -/
def wind_down (name : ProcType) : Control Unit := do
  let self ← look
  forEach (fun priority =>
      in_threads attempted_stop
        (indices_of self.procinfos fun p => p.name == name && p.priority == priority))
    (priorities_used self.procinfos fun p => p.name == name).reverse

/-- `self.kill_procs()`: when it gets to its end there are no processes any more. -/
def kill_procs : Control Unit := do
  call (.outside .kill_procs)
  issue (.processes .clear)

/-- The part of `do_recover` that deals with the processes. -/
def clean_up (self : DAQInterface) : Control Unit := do
  onlyIf (self.state = "running" ∨ self.state = "stopping") <|
    ignoring (call (.outside (.execute_trace_script "stop")))
  onlyIf self.vars.manage_processes <|
    forEach wind_down [.BoardReader, .EventBuilder, .DataLogger, .Dispatcher, .RoutingManager]
  onlyIf self.vars.manage_processes (ignoring kill_procs)

/-- `do_recover`. -/
def do_recover : Control Unit := do
  issue .begin_recovery
  let self ← look
  if self.vars.disable_recovery || !self.vars.called_launch_procs then
    issue .skip_recovery
  else
    clean_up self
    issue .finish_recovery

/-- `alert_and_recover`: it returns to its caller. -/
def alert_and_recover (extrainfo : String) : Control Unit := do
  issue (.assign fun vars => { vars with last_critical_error := extrainfo })
  do_recover
  issue (.assign fun vars => { vars with transition_process_errors := [] })

end DaqInterface
