import DaqInterface.Model.ConfigFiles
import DaqInterface.Program.Pool

/-!
# The interface and its commands

`DAQInterface` holds the attributes of the program.  The functions of the program are
`Program`s over the commands `Cmd`: outside operations, whose results the environment
decides, and assignments to the attributes.  The runner thread executes them; the other
threads (requests from outside, the thread that prepares the configuration) run while an
outside operation is under way and between two turns of the runner, and the environment
says what they do then.  A run of assignments without an outside operation is taken as
one step.

The `log` of a `World` records what happened, newest first.  The program never reads it.
-/

namespace DaqInterface

/-! ## Attributes -/

/-- Attributes that no request reads or writes. -/
structure Vars where
  /-- The program launches, commands and kills the artdaq processes. -/
  manage_processes : Bool
  /-- The boot file asks to leave the processes alone when recovering. -/
  disable_recovery : Bool
  /-- The boot got to the launch of the processes. -/
  called_launch_procs : Bool
  /-- A process was found to be missing. -/
  heartbeat_failure : Bool
  /-- What the last recovery was about. -/
  last_critical_error : String
  /-- The number of the run. -/
  run_number : Option ℕ
  /-- The subconfigurations of the last configuration, empty before the first one. -/
  subconfigs_for_run : List String
  /-- The labels of the requested BoardReaders. -/
  daq_comp_list : List String
  /-- The declared subsystems, in the order of their declaration. -/
  subsystems : List (String × Subsystem)
  /-- Processes that refused a connection once. -/
  procs_which_already_caused_connection_refused : List String
  /-- Errors of processes in the transition under way. -/
  transition_process_errors : List String
  /-- The directory of the run record that the last configuration saved. -/
  tmp_run_record : String

/-- How far a thread that prepares the configuration has got. -/
inductive PrepPhase
  /-- It has not read anything yet. -/
  | started
  /-- It read the files of `subconfigs` and computed the documents. -/
  | computed (subconfigs : List String) (documents : Except String (List String))
  /-- It has ended. -/
  | ended (subconfigs : List String) (success : Bool)

/-- A thread that runs `_do_config_prepare`. -/
structure PrepThread where
  /-- The number of the boot that started it. -/
  boot : ℕ
  /-- How far it has got. -/
  phase : PrepPhase

/-- The attributes of the overlapped preparation. -/
structure Prep where
  /-- The number of boots so far; it only serves to name the threads. -/
  boots : ℕ
  /-- `_config_prep_thread`: the boot whose thread the configuration will join. -/
  config_prep_thread : Option ℕ
  /-- `_config_prepared`. -/
  config_prepared : Bool
  /-- All threads started so far. -/
  threads : List PrepThread

/-- The attributes of the program. -/
structure DAQInterface extends Component where
  /-- A call to a process failed. -/
  exception : Bool
  /-- A recovery is under way. -/
  in_recovery : Bool
  /-- The processes. -/
  procinfos : List Procinfo
  /-- The overlapped preparation. -/
  prep : Prep
  /-- All other attributes. -/
  vars : Vars

/-- What the settings file says. -/
structure Settings where
  /-- Root files keep the names they have in the documents. -/
  disable_unique_rootfile_labels : Bool
  /-- Regular expressions that rank the BoardReaders at the configuration. -/
  boardreader_priorities_on_config : Option (List String)
  /-- Regular expressions that rank the BoardReaders at the start of a run. -/
  boardreader_priorities_on_start : Option (List String)
  /-- Regular expressions that rank the BoardReaders at the end of a run. -/
  boardreader_priorities_on_stop : Option (List String)
  /-- How often the boot looks for the launched processes. -/
  max_num_launch_procs_checks : ℕ
  /-- Show the messages in a window. -/
  use_messageviewer : Bool
  /-- The directory for the run record of a configuration. -/
  tmp_run_record : String
  /-- The processes belong to another run control. -/
  external_run_control : Bool
  /-- `re.search(regexp, label)`. -/
  re_search : String → String → Bool

/-! ## Outside operations -/

/-- Remote calls to an artdaq process that answer with a text. -/
inductive ProcCall
  | status
  | command (c : Command)
  /-- `Start` once more, with the run number as a text. -/
  | retry_start
  /-- `Stop` or `Shutdown` during a recovery. -/
  | recover_command (c : Command)
  /-- The shutdown of `do_terminate`. -/
  | shutdown
  | trace_get
  | trace_set
  | add_config_archive_entry (label : String)
  deriving DecidableEq

/-- Outside operations that answer yes or no. -/
inductive Probe
  /-- The pid lookup finds the process. -/
  | get_pid_for_process (i : ℕ)
  | boot_file_exists
  | have_artdaq_mfextensions
  | is_msgviewer_running
  | msgviewer_returned_zero
  | tmp_run_record_exists
  | semipermanent_run_record_exists
  | run_number_exists
  | info_to_archive_exists
  | rc_info_exists
  | run_record_file_exists (name : String)
  deriving DecidableEq

/-- Outside operations that do something or raise. -/
inductive Outside
  | execute_trace_script (transition : String)
  | kill_procs
  | launch_procs
  | launch_msgviewer
  | init_process_requirements
  | create_setup_fhiclcpp_if_needed
  | obtain_messagefacility_fhicl
  | defhiclize_boot_file
  | fhicl_dump_messagefacility
  | create_servers (i : ℕ)
  | get_log_filenames
  | add_ranks_from_ranksfile
  | process_launch_diagnostics
  | determine_logfilename (i : ℕ)
  | mopup_process (i : ℕ)
  | throw_exception_if_losing_process_violates_requirements (i : ℕ)
  | process_manager_cleanup
  | rmtree_tmp_run_record
  | write_run_record (name : String)
  | get_commit_info
  | open_run_record_file (name : String)
  | check_run_record_integrity
  | copy_run_record
  | finish_run_record
  | put_config_info
  | put_config_info_on_stop
  | copy_rc_info
  | start_datataking
  | stop_datataking
  | save_metadata_value
  | softlink_logfiles
  | open_trace_file (i : ℕ)
  | do_enable
  | do_disable
  | perform_periodic_action
  deriving DecidableEq

/-- What `get_boot_info`, `check_boot_info` and the component list make of a boot. -/
structure BootInfo where
  /-- The processes of the boot file and the BoardReaders, sorted. -/
  procinfos : List Procinfo
  /-- The declared subsystems. -/
  subsystems : List (String × Subsystem)
  /-- The boot file may leave the processes to others. -/
  manage_processes : Bool
  /-- The boot file may turn recoveries off. -/
  disable_recovery : Bool

/-- Outside operations. -/
inductive Op
  /-- A call to the process with this index in `procinfos`. -/
  | process (call : ProcCall) (i : ℕ)
  /-- A question. -/
  | probe (what : Probe)
  /-- An action. -/
  | outside (what : Outside)
  /-- The indices of the processes that are found alive. -/
  | find_processes
  /-- `get_boot_info` and `check_boot_info`. -/
  | get_boot_info
  /-- The BoardReader entries and the sorting of the processes. -/
  | build_procinfos
  /-- The configuration files and the tools that prepare documents. -/
  | config_files

/-- The type of an operation's answer. -/
abbrev Op.Answer : Op → Type
  | .process _ _ => String
  | .probe _ => Bool
  | .outside _ => Unit
  | .find_processes => List ℕ
  | .get_boot_info => BootInfo
  | .build_procinfos => List Procinfo
  | .config_files => ConfigTree × Tools

/-- What the other threads do while the runner waits. -/
inductive Interference
  /-- A transition request. -/
  | state_change (name requested : String) (state_args : RunParams)
  /-- A request to read the trace settings. -/
  | trace_get (name : String) (trace_args : RunParams)
  /-- A request to change the trace settings. -/
  | trace_set (name : String) (trace_args : RunParams)
  /-- The list of requested components. -/
  | setdaqcomps (daq_comp_list : List String)
  /-- The preparation thread of a boot goes on. -/
  | prepare (boot : ℕ)

/-- Everything the program cannot decide, by the time at which it is asked. -/
structure Env where
  /-- The result of an outside operation. -/
  outcome : ℕ → (op : Op) → Except String op.Answer
  /-- What the other threads do during an outside operation. -/
  meanwhile : ℕ → List Interference
  /-- The order in which the threads of a pool make progress. -/
  schedule : ℕ → List ℕ
  /-- The files and tools that the preparation thread finds. -/
  files : ℕ → ConfigTree × Tools
  /-- The settings file. -/
  settings : Settings

/-! ## Events and the world -/

/-- Why `exception` was set. -/
inductive Cause
  /-- A call of `do_command` raised. -/
  | command (c : Command)
  /-- A call of `do_trace_get` or `do_trace_set` raised. -/
  | trace
  deriving DecidableEq

/-- What the log records. -/
inductive Event
  /-- A transition request was accepted. -/
  | accepted (requested : String)
  /-- A transition request was turned down. -/
  | rejected (requested : String)
  /-- The state was written. -/
  | state (s : String)
  /-- The runner cleared the flag of an action and starts it. -/
  | begin (a : Action)
  /-- `complete_state_change` was called. -/
  | complete (t : String)
  /-- `revert_state_change` was called in a state. -/
  | reverted (state : String)
  /-- `do_recover` was called. -/
  | recover
  /-- `do_recover` cleared all flags. -/
  | requests_cleared
  /-- `exception` was set. -/
  | failed (cause : Cause)
  /-- The process with this index is sent a command of `do_command`. -/
  | sent (c : Command) (i : ℕ)
  /-- The process is sent a document that was prepared from `origin`. -/
  | init_sent (origin : Option (List String)) (subconfigs_for_run : List String)
  /-- An outside operation has ended. -/
  | outcome (op : Op) (result : Except String op.Answer)
  /-- `do_config` joined the thread of a boot, the latest boot being `boots`. -/
  | joined (boot boots : ℕ) (read : List String) (success : Bool) (requested : List String)
      (prepared : Bool)

/-- The attributes, the time and what happened so far, newest first. -/
structure World where
  /-- The attributes. -/
  daq : DAQInterface
  /-- The number of outside operations so far. -/
  clock : ℕ
  /-- The events so far, newest first. -/
  log : List Event

namespace World

/-- Record an event. -/
def emit (w : World) (e : Event) : World := { w with log := e :: w.log }

/-- Write the component and record the state it has then. -/
def writeState (w : World) (c : Component) : World :=
  { w with daq := { w.daq with toComponent := c }, log := .state c.state :: w.log }

end World

/-! ## The preparation thread -/

/-- Give each process the document prepared for it. -/
def assign_documents (procs : List Procinfo) (documents origin : List String) : List Procinfo :=
  procs.mapIdx fun i p =>
    match documents[i]? with
    | some document => { p with fhicl_used := some document, origin := some origin }
    | none => p

/-- `_do_config_prepare` takes `ots_config` where no configuration was ever requested. -/
def prep_subconfigs (subconfigs_for_run : List String) : List String :=
  if subconfigs_for_run.isEmpty then ["ots_config"] else subconfigs_for_run

/-- One step of the preparation thread of a boot: it reads the files and computes the
documents, then it hands them out and tells of its success. -/
def PrepThread.advance (files : ConfigTree × Tools) (thread : PrepThread) (self : DAQInterface) :
    PrepThread × DAQInterface :=
  match thread.phase with
  | .started =>
    let subconfigs := prep_subconfigs self.vars.subconfigs_for_run
    let read := with_common_code files.1 subconfigs
    let documents := overlapped_documents files.1 files.2 self.procinfos subconfigs
    ({ thread with phase := .computed read documents },
      { self with vars := { self.vars with subconfigs_for_run := read } })
  | .computed subconfigs (.ok documents) =>
    -- a document without a process is an index error
    if documents.length ≤ self.procinfos.length then
      ({ thread with phase := .ended subconfigs true },
        { self with procinfos := assign_documents self.procinfos documents subconfigs,
                    prep := { self.prep with config_prepared := true } })
    else
      ({ thread with phase := .ended subconfigs false },
        { self with prep := { self.prep with config_prepared := false } })
  | .computed subconfigs (.error _) =>
    ({ thread with phase := .ended subconfigs false },
      { self with prep := { self.prep with config_prepared := false } })
  | .ended _ _ => (thread, self)

/-- One step of the thread that a boot started, if there is one. -/
def prep_step (files : ConfigTree × Tools) (boot : ℕ) (self : DAQInterface) : DAQInterface :=
  match self.prep.threads.findIdx? (fun thread => thread.boot == boot) with
  | none => self
  | some k =>
    match self.prep.threads[k]? with
    | none => self
    | some thread =>
      let (thread', self') := thread.advance files self
      { self' with prep := { self'.prep with threads := self'.prep.threads.set k thread' } }

/-- The preparation thread does not touch the component. -/
@[simp] theorem PrepThread.advance_component (files : ConfigTree × Tools) (thread : PrepThread)
    (self : DAQInterface) : (thread.advance files self).2.toComponent = self.toComponent := by
  unfold PrepThread.advance
  split
  · rfl
  · split <;> rfl
  · rfl
  · rfl

@[simp] theorem PrepThread.advance_exception (files : ConfigTree × Tools) (thread : PrepThread)
    (self : DAQInterface) : (thread.advance files self).2.exception = self.exception := by
  unfold PrepThread.advance
  split
  · rfl
  · split <;> rfl
  · rfl
  · rfl

@[simp] theorem prep_step_component (files : ConfigTree × Tools) (boot : ℕ)
    (self : DAQInterface) : (prep_step files boot self).toComponent = self.toComponent := by
  unfold prep_step
  split
  · rfl
  · split
    · rfl
    · exact PrepThread.advance_component _ _ _

@[simp] theorem prep_step_exception (files : ConfigTree × Tools) (boot : ℕ)
    (self : DAQInterface) : (prep_step files boot self).exception = self.exception := by
  unfold prep_step
  split
  · rfl
  · split
    · rfl
    · exact PrepThread.advance_exception _ _ _

/-! ## The other threads -/

/-- What one action of another thread does. -/
def Interference.apply (files : ConfigTree × Tools) (w : World) : Interference → World
  | .state_change name requested state_args =>
    let c := (w.daq.toComponent.state_change name requested state_args).2
    if name ≠ w.daq.name then w
    else if w.daq.toComponent.unable requested then w.emit (.rejected requested)
    else (w.emit (.accepted requested)).writeState c
  | .trace_get name trace_args =>
    { w with daq := { w.daq with toComponent := w.daq.toComponent.trace_get name trace_args } }
  | .trace_set name trace_args =>
    { w with daq := { w.daq with toComponent := w.daq.toComponent.trace_set name trace_args } }
  | .setdaqcomps daq_comp_list =>
    { w with daq := { w.daq with vars := { w.daq.vars with daq_comp_list := daq_comp_list } } }
  | .prepare boot => { w with daq := prep_step files boot w.daq }

/-- What the other threads do during one outside operation. -/
def settle (env : Env) (w : World) : World :=
  (env.meanwhile w.clock).foldl (Interference.apply (env.files w.clock)) w

/-! ## Commands -/

/-- Changes of the list of processes. -/
inductive Update
  /-- The processes of a boot. -/
  | replace (procs : List Procinfo)
  /-- The processes were killed. -/
  | clear
  /-- A process was lost. -/
  | remove (i : ℕ)
  /-- The state a process is taken to be in. -/
  | state (i : ℕ) (s : String)
  /-- The answer of a process. -/
  | lastreturned (i : ℕ) (s : String)
  /-- The ranks of the processes. -/
  | priority (rank : Procinfo → ℕ)
  /-- The documents that `do_config` prepared. -/
  | documents (documents origin : List String)

/-- Carry out a change of the list of processes. -/
def Update.apply : Update → List Procinfo → List Procinfo
  | .replace procs, _ => procs
  | .clear, _ => []
  | .remove i, procs => procs.eraseIdx i
  | .state i s, procs => procs.modify i fun p => { p with state := s }
  | .lastreturned i s, procs => procs.modify i fun p => { p with lastreturned := s }
  | .priority rank, procs => procs.map fun p => { p with priority := rank p }
  | .documents docs origin, procs => assign_documents procs docs origin

/-- The commands of the program. -/
inductive Cmd
  /-- An outside operation; the other threads run meanwhile. -/
  | call (op : Op)
  /-- Wait; the other threads run meanwhile. -/
  | sleep
  /-- Look at the attributes. -/
  | look
  /-- The order in which the threads of a pool make progress. -/
  | schedule
  /-- `complete_state_change(self.name, t)`. -/
  | complete_state_change (t : String)
  /-- `revert_state_change(self.name, self.state(self.name))`. -/
  | revert_state_change
  /-- The runner clears the flag of an action. -/
  | begin (a : Action)
  /-- The entry of `do_recover`. -/
  | begin_recovery
  /-- The end of a recovery that leaves the processes alone. -/
  | skip_recovery
  /-- The end of a recovery. -/
  | finish_recovery
  /-- `self.in_recovery = b`. -/
  | in_recovery (b : Bool)
  /-- `self.exception = True`. -/
  | fail (cause : Cause)
  /-- `self.exception = False`. -/
  | clear_exception
  /-- `reset_variables()`. -/
  | reset_variables
  /-- Assign to other attributes. -/
  | assign (f : Vars → Vars)
  /-- Process `i` is about to be sent a command by `do_command`. -/
  | send (c : Command) (i : ℕ)
  /-- Change the list of processes. -/
  | processes (u : Update)
  /-- Start the preparation thread. -/
  | start_prep
  /-- Wait for the end of the preparation thread, forget it, and ask if it succeeded. -/
  | join_prep

/-- The type of a command's answer. -/
abbrev Resp : Cmd → Type
  | .call op => Except String op.Answer
  | .look => DAQInterface
  | .schedule => List ℕ
  | .join_prep => Bool
  | _ => Unit

/-- The functions of the program; exceptions are their texts. -/
abbrev Control (α : Type) : Type := Program Resp String α

/-- The attributes after `reset_variables()`. -/
def DAQInterface.reset_variables (self : DAQInterface) : DAQInterface :=
  { self with
    in_recovery := false
    exception := false
    procinfos := []
    vars := { self.vars with
      heartbeat_failure := false
      last_critical_error := ""
      manage_processes := true
      disable_recovery := false
      called_launch_procs := false
      procs_which_already_caused_connection_refused := []
      run_number := none
      subsystems := [] } }

/-- The attributes when the runner starts an action. -/
def DAQInterface.clear_request (self : DAQInterface) (a : Action) : DAQInterface :=
  { self with
    toComponent := self.toComponent.setPending a false
    prep := { self.prep with
      boots := if a = Action.boot then self.prep.boots + 1 else self.prep.boots } }

/-- Run the preparation thread of a boot to its end, and ask what it read and whether it
succeeded. -/
def finish_prep (files : ConfigTree × Tools) (boot : ℕ) (self : DAQInterface) :
    List String × Bool × DAQInterface :=
  let self := prep_step files boot (prep_step files boot self)
  match (self.prep.threads.find? fun thread => thread.boot == boot).map PrepThread.phase with
  | some (.ended subconfigs success) => (subconfigs, success, self)
  | _ => ([], false, self)

@[simp] theorem finish_prep_component (files : ConfigTree × Tools) (boot : ℕ)
    (self : DAQInterface) : (finish_prep files boot self).2.2.toComponent = self.toComponent := by
  unfold finish_prep
  dsimp only
  split <;> simp

@[simp] theorem finish_prep_exception (files : ConfigTree × Tools) (boot : ℕ)
    (self : DAQInterface) : (finish_prep files boot self).2.2.exception = self.exception := by
  unfold finish_prep
  dsimp only
  split <;> simp

/-- What a command answers and does. -/
def exec (env : Env) : (c : Cmd) → World → Resp c × World
  | .call op, w =>
    let result := env.outcome w.clock op
    let w' := settle env w
    (result, { w' with clock := w.clock + 1 }.emit (.outcome op result))
  | .sleep, w => ((), { settle env w with clock := w.clock + 1 })
  | .look, w => (w.daq, w)
  | .schedule, w => (env.schedule w.clock, { w with clock := w.clock + 1 })
  | .complete_state_change t, w =>
    ((), (w.emit (.complete t)).writeState
      (w.daq.toComponent.complete_state_change w.daq.name t))
  | .revert_state_change, w =>
    ((), (w.emit (.reverted w.daq.state)).writeState
      (w.daq.toComponent.revert_state_change w.daq.name w.daq.state))
  | .begin a, w =>
    ((), { w with daq := w.daq.clear_request a }.emit (.begin a))
  | .begin_recovery, w =>
    ((), { w with daq := { w.daq with in_recovery := true } }.emit .recover)
  | .skip_recovery, w =>
    ((), ({ w with daq := { w.daq with in_recovery := false } }.emit
      (.complete "recovering")).writeState
        (w.daq.toComponent.complete_state_change w.daq.name "recovering"))
  | .finish_recovery, w =>
    ((), (({ w with daq := { w.daq with in_recovery := false } }.emit .requests_cleared).emit
      (.complete "recovering")).writeState
        (({ w.daq.toComponent with pending := fun _ => false } : Component).complete_state_change
          w.daq.name "recovering"))
  | .in_recovery b, w => ((), { w with daq := { w.daq with in_recovery := b } })
  | .fail cause, w =>
    ((), { w with daq := { w.daq with exception := true } }.emit (.failed cause))
  | .clear_exception, w => ((), { w with daq := { w.daq with exception := false } })
  | .reset_variables, w => ((), { w with daq := w.daq.reset_variables })
  | .assign f, w => ((), { w with daq := { w.daq with vars := f w.daq.vars } })
  | .send c i, w =>
    ((), if c = .Init then
        (w.emit (.sent c i)).emit
          (.init_sent (w.daq.procinfos[i]?.bind Procinfo.origin) w.daq.vars.subconfigs_for_run)
      else w.emit (.sent c i))
  | .processes u, w =>
    ((), { w with daq := { w.daq with procinfos := u.apply w.daq.procinfos } })
  | .start_prep, w =>
    ((), { w with daq := { w.daq with prep :=
      { w.daq.prep with
        config_prep_thread := some w.daq.prep.boots
        config_prepared := false
        threads := w.daq.prep.threads ++ [⟨w.daq.prep.boots, .started⟩] } } })
  | .join_prep, w =>
    match w.daq.prep.config_prep_thread with
    | none => (false, w)
    | some boot =>
      let requested := w.daq.vars.subconfigs_for_run
      let (read, success, self) := finish_prep (env.files w.clock) boot w.daq
      (self.prep.config_prepared,
        { w with daq := { self with prep := { self.prep with config_prep_thread := none } } }.emit
          (.joined boot self.prep.boots read success requested self.prep.config_prepared))

/-- An outside operation that raises its exception. -/
def call (op : Op) : Control op.Answer :=
  Program.step (.call op) fun result =>
    match result with
    | .ok answer => .ret answer
    | .error e => .raise e

/-- Issue one command. -/
def issue (c : Cmd) : Control (Resp c) := Program.perform c

/-- Look at the attributes. -/
def look : Control DAQInterface := issue .look

/-- `try: p except: pass`. -/
def ignoring (p : Control Unit) : Control Unit :=
  p.attempt (fun _ => .ret ()) fun _ => .ret ()

end DaqInterface
