import DaqInterface.Model.StartStop
import Mathlib.Logic.Relation

/-!
# The runner and the system

The runner is called again and again by the loop of its thread.  At each turn it starts the
action whose flag it finds set first, or looks after the processes.  An exception of the
turn is answered by a recovery, which is outside of any `try`: its own exception would end
the loop.

A `System` is the world together with the state of that loop.  Its steps are the turns of
the runner and what the other threads do between them.
-/

namespace DaqInterface

open Program

/-! ## Looking after the processes -/

/-- Mop up a process that answered with an error, and check whether the run can go on. -/
def lose_process (i : ℕ) : Control Unit := do
  call (.outside (.determine_logfilename i))
  call (.outside (.mopup_process i))
  issue (.processes (.remove i))
  call (.outside (.throw_exception_if_losing_process_violates_requirements i))

/-- The loop of `check_proc_exceptions` over the processes with the given labels: it goes on
only behind a process that could not be asked. -/
def check_statuses : List (Procinfo × ℕ) → Control Unit
  | [] => return ()
  | (p, i) :: rest =>
    (call (.process .status i)).attempt
      (fun e => do
        if contains "[Errno 111] Connection refused" e then
          call (.outside (.determine_logfilename i))
          let self ← look
          onlyIf (p.label ∈ self.vars.procs_which_already_caused_connection_refused) <|
            raise "Error: artdaq process has repeatedly returned \"[Errno 111] Connection refused\" when queried; this most likely means it's died"
          issue (.assign fun vars =>
            { vars with procs_which_already_caused_connection_refused :=
                vars.procs_which_already_caused_connection_refused ++ [p.label] })
          check_statuses rest
        else if contains "[Errno 113] No route to host" e then
          raise "Error: an \"[Errno 113] No route to host\" exception was thrown when attempting to query artdaq process"
        else if contains "TimeoutError" e then check_statuses rest
        else raise e)
      fun answer => do
        set_lastreturned i answer
        set_proc_state i answer
        onlyIf (answer = "Error") (lose_process i)

/-- `check_proc_exceptions`; nothing depends on its answer but a message. -/
def check_proc_exceptions : Control Unit := do
  let self ← look
  if self.exception then return () else check_statuses self.procinfos.zipIdx

/-- `check_proc_heartbeats`: missing processes are given up during a run and are an error at
any other time. -/
def check_proc_heartbeats : Control Unit := do
  let self ← look
  let found ← call .find_processes
  let lost := (List.range self.procinfos.length).filter fun i => !found.contains i
  forEach (fun i => call (.outside (.mopup_process i))) lost
  onlyIf (!lost.isEmpty) do
    let self ← look
    if self.state = "running" then
      -- the indices behind a removed process move up
      forEach (fun entry => do
          issue (.processes (.remove (entry.1 - entry.2)))
          call (.outside (.throw_exception_if_losing_process_violates_requirements
            (entry.1 - entry.2))))
        lost.zipIdx
    else raise "\nProcess(es) died or found in Error state"

/-! ## Tracing -/

/-- One process is asked for, or told, its trace settings. -/
def send_trace (trace : ProcCall) (i : ℕ) : Control Unit := do
  let self ← look
  if self.exception then return ()
  else
    (call (.process trace i)).attempt (fun _ => issue (.fail .trace)) fun answer => do
      set_lastreturned i answer
      onlyIf (trace = .trace_get) (call (.outside (.open_trace_file i)))

/-- `do_trace_get`. -/
def do_trace_get : Control Unit := do
  let self ← look
  in_threads (send_trace .trace_get) (List.range self.procinfos.length)
  forEach (fun i => call (.outside (.open_trace_file i))) (List.range self.procinfos.length)

/-- `do_trace_set`. -/
def do_trace_set : Control Unit := do
  let self ← look
  in_threads (send_trace .trace_set) (List.range self.procinfos.length)

/-! ## The runner -/

/-- What the runner does for an action. -/
def action (settings : Settings) : Action → Control Unit
  | .boot => do_boot_impl settings
  | .shutdown => do_command .Shutdown
  | .config => do_config settings
  | .recover => do_recover
  | .start => do_start_running settings
  | .stop => do_stop_running settings
  | .terminate => do_terminate
  | .pause => do_command .Pause
  | .resume => do_command .Resume
  | .enable => call (.outside .do_enable)
  | .disable => call (.outside .do_disable)
  | .trace_get => do_trace_get
  | .trace_set => do_trace_set

/-- The action whose flag the runner finds set first. -/
def next_action (self : DAQInterface) : Option Action := Action.all.find? self.pending

/-- Look after the processes and do what an experiment wants done again and again. -/
def look_after_processes : Control Unit := do
  check_proc_exceptions
  check_proc_heartbeats
  call (.outside .perform_periodic_action)

/-- What the runner does, given the attributes that it finds. -/
def turn_with (settings : Settings) (self : DAQInterface) : Control Unit :=
  if self.exception then raise "Error: at some point DAQInterface set an exception state"
  else
    match next_action self with
    | some a => do
      issue (.begin a)
      action settings a
    | none =>
      if self.vars.manage_processes ∧ self.state ≠ "stopped" ∧ self.state ≠ "booting" ∧
          self.state ≠ "terminating" then look_after_processes
      else return ()

/-- The body of the runner's `try`. -/
def turn (settings : Settings) : Control Unit := do
  let self ← look
  turn_with settings self

/-- The answer of the runner to an exception. -/
def handle_exception (e : String) : Control Unit := do
  issue (.in_recovery true)
  alert_and_recover e
  issue (.in_recovery false)
  issue .clear_exception

/-- `runner()`. -/
def runner (settings : Settings) : Control Unit :=
  (turn settings).attempt handle_exception fun _ => return ()

/-! ## The system -/

/-- The loop that calls the runner. -/
inductive Loop
  /-- It goes on. -/
  | running
  /-- An exception of the runner ended it. -/
  | dead
  /-- It is caught in a call of the runner that does not end. -/
  | stuck
  deriving DecidableEq

/-- The world and the loop of the runner. -/
structure System where
  /-- The attributes of the program, the time and the log. -/
  world : World
  /-- The loop of the runner's thread. -/
  loop : Loop

/-- What becomes of the loop when the runner ends. -/
def Loop.after : Outcome String Unit → Loop
  | .returned _ => .running
  | .raised _ => .dead
  | .hung => .stuck

/-- One turn of the runner. -/
def System.tick (env : Env) (s : System) : System :=
  let result := run (exec env) (runner env.settings) s.world
  ⟨result.2, Loop.after result.1⟩

/-- One thing another thread does between two turns of the runner. -/
def System.outside (env : Env) (i : Interference) (s : System) : System :=
  { s with world := i.apply (env.files s.world.clock) s.world }

/-- The steps of the system. -/
inductive System.Step (env : Env) : System → System → Prop
  /-- Another thread does something. -/
  | outside (s : System) (i : Interference) : Step env s (s.outside env i)
  /-- The loop calls the runner. -/
  | tick (s : System) (h : s.loop = .running) : Step env s (s.tick env)

/-- The attributes when the program starts. -/
def initial (name : String) : DAQInterface where
  name := name
  state := "stopped"
  run_params := none
  pending := fun _ => false
  exception := false
  in_recovery := false
  procinfos := []
  prep := ⟨0, none, false, []⟩
  vars := {
    manage_processes := true
    disable_recovery := false
    called_launch_procs := false
    heartbeat_failure := false
    last_critical_error := ""
    run_number := none
    subconfigs_for_run := []
    daq_comp_list := []
    subsystems := []
    procs_which_already_caused_connection_refused := []
    transition_process_errors := []
    tmp_run_record := "" }

/-- The system when the program starts. -/
def System.start (name : String) : System := ⟨⟨initial name, 0, []⟩, .running⟩

end DaqInterface
