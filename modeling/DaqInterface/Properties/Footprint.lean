import DaqInterface.Model.Runner

/-!
# What each function can do

For every function of the program, the commands it can issue, whatever the outside
operations answer.  The classes are `Harmless`, `Recovering` for a recovery, `Commanding c`
for `do_command`, and `Allowed a` for the action `a` of the runner; an invariant of the
commands of a class is then an invariant of all runs of the functions in it.
-/

namespace DaqInterface

open Program

/-! ## Classes of commands -/

/-- Updates of a process list that keep its processes and their documents. -/
def Update.Keeps : Update → Prop
  | .state _ _ => True
  | .lastreturned _ _ => True
  | .priority _ => True
  | _ => False

/-- Operations other than the calls that send a transition and those behind whose failure an
action recovers and goes on. -/
def Op.Safe : Op → Prop
  | .process (.command _) _ => False
  | .process .retry_start _ => False
  | .process .shutdown _ => False
  | .process (.add_config_archive_entry _) _ => False
  | .probe .rc_info_exists => False
  | .probe (.run_record_file_exists _) => False
  | .outside .get_commit_info => False
  | _ => True

/-- Assignments that keep the subconfigurations and the subsystems. -/
structure KeepsPlan (f : Vars → Vars) : Prop where
  /-- The subconfigurations stay. -/
  subconfigs_for_run : ∀ vars, (f vars).subconfigs_for_run = vars.subconfigs_for_run
  /-- The subsystems stay. -/
  subsystems : ∀ vars, (f vars).subsystems = vars.subsystems

/-- Commands that leave the state, the requests and the documents alone. -/
def Harmless : Cmd → Prop
  | .call op => op.Safe
  | .sleep => True
  | .look => True
  | .schedule => True
  | .assign f => KeepsPlan f
  | .processes u => u.Keeps
  | _ => False

/-- Commands of a recovery. -/
def Recovering : Cmd → Prop
  | .begin_recovery => True
  | .skip_recovery => True
  | .finish_recovery => True
  | .processes .clear => True
  | c => Harmless c

/-- Operations of `do_command`. -/
def Command.Calls (command : Command) : Op → Prop
  | .process (.command c) _ => c = command
  | .process .retry_start _ => command = .Start
  | op => op.Safe

/-- Commands of `do_command`, up to its completion. -/
def Sending (command : Command) : Cmd → Prop
  | .call op => command.Calls op
  | .fail cause => cause = .command command
  | .send c _ => c = command
  | c => Harmless c

/-- Commands of the end of `do_command`. -/
def Completing (command : Command) : Cmd → Prop
  | .complete_state_change t => verbing command = some t
  | c => Harmless c

/-- Commands of `do_command`. -/
def Commanding (command : Command) : Cmd → Prop
  | .complete_state_change t => verbing command = some t
  | c => Sending command c

/-- The command of an action that sends one. -/
def Action.command : Action → Option Command
  | .shutdown => some .Shutdown
  | .config => some .Init
  | .start => some .Start
  | .stop => some .Stop
  | .pause => some .Pause
  | .resume => some .Resume
  | _ => none

/-- The text with which an action completes its transition. -/
def Action.completes : Action → Option String
  | .boot => some "booting"
  | .shutdown => some ""
  | .config => some "configuring"
  | .start => some "starting"
  | .stop => some "stopping"
  | .terminate => some "terminating"
  | .pause => some "pausing"
  | .resume => some "resuming"
  | _ => none

/-- Why an action can set `exception`. -/
def Action.fails (a : Action) (cause : Cause) : Prop :=
  match cause with
  | .command c => a.command = some c
  | .trace => a = .trace_get ∨ a = .trace_set

/-- Operations of the action `a`. -/
def Action.Calls (a : Action) : Op → Prop
  | .process (.command c) _ => a.command = some c
  | .process .retry_start _ => a.command = some .Start
  | .process .shutdown _ => a = .terminate
  | .process (.add_config_archive_entry _) _ => a = .config
  | .probe .rc_info_exists => a = .start ∨ a = .stop
  | .probe (.run_record_file_exists _) => a = .config
  | .outside .get_commit_info => a = .config
  | _ => True

/-- Commands of the action `a`. -/
def Allowed (a : Action) : Cmd → Prop
  | .call op => a.Calls op
  | .complete_state_change t => a.completes = some t
  | .revert_state_change => a = .boot ∨ a = .config
  | .reset_variables => a = .boot
  | .processes (.replace _) => a = .boot
  | .processes (.documents _ _) => a = .config
  | .start_prep => a = .boot
  | .join_prep => a = .config
  | .assign f =>
    (a = .config ∨ ∀ vars, (f vars).subconfigs_for_run = vars.subconfigs_for_run) ∧
      (a = .boot ∨ ∀ vars, (f vars).subsystems = vars.subsystems)
  | .fail cause => a.fails cause
  | .send c _ => a.command = some c
  | .begin _ => False
  | .in_recovery _ => False
  | .clear_exception => False
  | .processes (.remove _) => False
  | c => Recovering c

theorem Harmless.recovering {c : Cmd} (h : Harmless c) : Recovering c := by
  cases c with
  | processes u => cases u <;> trivial
  | _ => first | exact h | trivial

/-- Commands that save files, archive documents and recover, where the action may. -/
def Saving (a : Action) : Cmd → Prop
  | .call op => a.Calls op
  | c => Recovering c

theorem Op.Safe.calls {command : Command} {op : Op} (h : op.Safe) : command.Calls op := by
  cases op with
  | process call i => cases call <;> first | exact h | exact absurd h id
  | _ => exact h

theorem Op.Safe.action_calls {a : Action} {op : Op} (h : op.Safe) : a.Calls op := by
  cases op with
  | process call i => cases call <;> trivial
  | probe what => cases what <;> trivial
  | outside what => cases what <;> trivial
  | _ => trivial

theorem Command.Calls.action_calls {a : Action} {command : Command} {op : Op}
    (ha : a.command = some command) (h : command.Calls op) : a.Calls op := by
  cases op with
  | process call i =>
    cases call with
    | command c => exact ha.trans (congrArg some (Eq.symm h))
    | retry_start => exact ha.trans (congrArg some h)
    | _ => exact Op.Safe.action_calls h
  | _ => exact Op.Safe.action_calls h

theorem Harmless.sending {command : Command} {c : Cmd} (h : Harmless c) : Sending command c := by
  cases c with
  | call op => exact Op.Safe.calls h
  | _ => first | exact h | exact absurd h id

theorem Sending.commanding {command : Command} {c : Cmd} (h : Sending command c) :
    Commanding command c := by
  cases c <;> first | exact h | exact absurd h id

theorem Completing.completes_or_harmless {command : Command} {c : Cmd} (h : Completing command c) :
    (∃ t, c = .complete_state_change t ∧ verbing command = some t) ∨ Harmless c := by
  cases c with
  | complete_state_change t => exact Or.inl ⟨t, rfl, h⟩
  | _ => exact Or.inr h

theorem Completing.commanding {command : Command} {c : Cmd} (h : Completing command c) :
    Commanding command c := by
  rcases h.completes_or_harmless with ⟨t, rfl, ht⟩ | hharmless
  · exact ht
  · exact hharmless.sending.commanding

theorem Recovering.allowed {a : Action} {c : Cmd} (h : Recovering c) : Allowed a c := by
  cases c with
  | call op => exact Op.Safe.action_calls h
  | processes u => cases u <;> trivial
  | assign f => exact ⟨Or.inr h.subconfigs_for_run, Or.inr h.subsystems⟩
  | _ => trivial

theorem Recovering.saving {a : Action} {c : Cmd} (h : Recovering c) : Saving a c := by
  cases c with
  | call op => exact Op.Safe.action_calls h
  | _ => exact h

theorem Saving.allowed {a : Action} {c : Cmd} (h : Saving a c) : Allowed a c := by
  cases c with
  | call op => exact h
  | _ => exact Recovering.allowed h

theorem Harmless.allowed {a : Action} {c : Cmd} (h : Harmless c) : Allowed a c :=
  h.recovering.allowed

theorem Sending.allowed {a : Action} {command : Command} (ha : a.command = some command) {c : Cmd}
    (h : Sending command c) : Allowed a c := by
  cases c with
  | fail cause => obtain rfl : cause = .command command := h; exact ha
  | send c i => obtain rfl : c = command := h; exact ha
  | call op => exact Command.Calls.action_calls ha h
  | processes u =>
    have hharmless : Harmless (.processes u) := h
    exact hharmless.allowed
  | assign f => exact ⟨Or.inr h.subconfigs_for_run, Or.inr h.subsystems⟩
  | _ => trivial

/-! ## Primitives -/

section Primitives

variable {C : Cmd → Prop} {α : Type}

theorem uses_issue {c : Cmd} (h : C c) : (issue c).Uses C := ⟨h, fun _ => trivial⟩

theorem uses_call {op : Op} (h : C (.call op)) : (call op).Uses C :=
  ⟨h, fun result => by cases result <;> trivial⟩

theorem uses_look (h : C .look) : look.Uses C := uses_issue h

theorem uses_pure (a : α) : (pure a : Control α).Uses C := trivial

theorem uses_ignoring {p : Control Unit} (h : p.Uses C) : (ignoring p).Uses C :=
  uses_attempt h (fun _ => trivial) fun _ => trivial

theorem uses_set_lastreturned (i : ℕ) (answer : String) :
    (set_lastreturned i answer).Uses Harmless := uses_issue trivial

theorem uses_set_proc_state (i : ℕ) (state : String) :
    (set_proc_state i state).Uses Harmless := uses_issue trivial

theorem uses_in_threads {program : ℕ → Control Unit} {members : List ℕ} (hC : C .schedule)
    (h : ∀ i ∈ members, (program i).Uses C) : (in_threads program members).Uses C := by
  refine uses_bind (uses_issue hC) fun sched => uses_parallel fun p hp => ?_
  obtain ⟨i, hi, rfl⟩ := List.mem_map.mp hp
  exact h i hi

end Primitives

/-! ## Recovery -/

theorem uses_send_recover_command (i : ℕ) (command : Command) :
    (send_recover_command i command).Uses Harmless := by
  refine uses_bind (uses_set_proc_state _ _) fun _ => uses_bind (uses_call trivial) fun answer =>
    uses_bind (uses_set_lastreturned _ _) fun _ => uses_ite (fun _ => ?_) fun _ => trivial
  exact uses_set_proc_state _ _

theorem uses_with_status {i : ℕ} {rest : String → Control Unit}
    (h : ∀ answer, (rest answer).Uses Harmless) : (with_status i rest).Uses Harmless :=
  uses_attempt (uses_call trivial) (fun _ => trivial) fun answer =>
    uses_bind (uses_set_lastreturned _ _) fun _ => uses_bind (uses_set_proc_state _ _) fun _ =>
      h answer

theorem uses_shutdown_if_ready (i : ℕ) (state : String) :
    (shutdown_if_ready i state).Uses Harmless :=
  uses_ite (fun _ => uses_ignoring (uses_send_recover_command _ _)) fun _ => trivial

theorem uses_attempted_stop (i : ℕ) : (attempted_stop i).Uses Harmless := by
  refine uses_bind (uses_call trivial) fun found => uses_ite (fun _ => ?_) fun _ => trivial
  refine uses_with_status fun state => uses_ite (fun _ => ?_) fun _ => uses_shutdown_if_ready _ _
  exact uses_attempt (uses_send_recover_command _ _) (fun _ => trivial) fun _ =>
    uses_with_status (uses_shutdown_if_ready _)

theorem uses_wind_down (name : ProcType) : (wind_down name).Uses Harmless :=
  uses_bind (uses_look trivial) fun _ => uses_forEach fun _ _ =>
    uses_in_threads trivial fun i _ => uses_attempted_stop i

theorem uses_kill_procs : kill_procs.Uses Recovering :=
  uses_bind (uses_call trivial) fun _ => uses_issue trivial

theorem uses_clean_up (self : DAQInterface) : (clean_up self).Uses Recovering := by
  refine uses_bind (uses_onlyIf fun _ => ?_) fun _ =>
    uses_bind (uses_onlyIf fun _ => ?_) fun _ => uses_onlyIf fun _ => ?_
  · exact uses_ignoring (uses_call trivial)
  · exact uses_forEach fun name _ => (uses_wind_down name).mono fun _ => Harmless.recovering
  · exact uses_ignoring uses_kill_procs

theorem uses_do_recover : do_recover.Uses Recovering := by
  refine uses_bind (uses_issue trivial) fun _ => uses_bind (uses_look trivial) fun self =>
    uses_ite (fun _ => uses_issue trivial) fun _ => ?_
  exact uses_bind (uses_clean_up self) fun _ => uses_issue trivial

theorem uses_alert_and_recover (extrainfo : String) :
    (alert_and_recover extrainfo).Uses Recovering :=
  uses_bind (uses_issue ⟨fun _ => rfl, fun _ => rfl⟩) fun _ => uses_bind uses_do_recover fun _ =>
    uses_issue ⟨fun _ => rfl, fun _ => rfl⟩

/-! ## Commands -/

section Command

variable (command : Command)

theorem uses_remote_call (i : ℕ) : (remote_call command i).Uses (Sending command) := by
  refine uses_bind (uses_call rfl) fun answer => uses_bind (uses_issue trivial) fun _ =>
    uses_ite (fun h => ?_) fun _ => uses_pure _
  exact uses_bind (uses_call h.1) fun answer =>
    uses_bind (uses_issue trivial) fun _ => uses_pure _

theorem uses_record_answer (i : ℕ) (answer : String) :
    (record_answer command i answer).Uses Harmless :=
  uses_bind (uses_look trivial) fun _ => uses_bind (uses_set_lastreturned _ _) fun _ =>
    uses_onlyIf fun _ => uses_set_proc_state _ _

theorem uses_command_failed (i : ℕ) : (command_failed command i).Uses (Sending command) :=
  uses_bind (uses_issue rfl) fun _ => uses_call trivial

theorem uses_await_answer (i : ℕ) : (await_answer command i).Uses (Sending command) :=
  uses_attempt (uses_remote_call command i) (fun _ => uses_command_failed command i)
    fun answer => (uses_record_answer command i answer).mono fun _ => Harmless.sending

theorem uses_process_command (i : ℕ) : (process_command command i).Uses (Sending command) := by
  refine uses_bind (uses_look trivial) fun _ => uses_ite (fun _ => uses_pure _) fun _ => ?_
  exact uses_bind (uses_issue trivial) fun _ => uses_bind (uses_issue rfl) fun _ =>
    uses_await_answer command i

theorem uses_send_to_group (procs : List Procinfo) (g : Group) :
    (send_to_group command procs g).Uses (Sending command) := by
  refine uses_bind (uses_issue trivial) fun sched => uses_parallel fun p hp => ?_
  obtain ⟨i, -, rfl⟩ := List.mem_map.mp hp
  exact uses_process_command command i

theorem uses_send_to_groups (self : DAQInterface) :
    (send_to_groups command self).Uses (Sending command) := by
  unfold send_to_groups
  split
  · trivial
  · exact uses_forEach fun g _ => uses_send_to_group command _ g

theorem uses_report_failure (target_state : String) (i : ℕ) (p : Procinfo) :
    (report_failure target_state i p).Uses Harmless := by
  refine uses_bind (uses_onlyIf fun _ => ?_) fun _ =>
    uses_bind (uses_issue ⟨fun _ => rfl, fun _ => rfl⟩) fun _ =>
      uses_bind (uses_call trivial) fun _ => uses_onlyIf fun _ => uses_call trivial
  exact uses_forEach fun _ _ => uses_issue trivial

theorem uses_check_proc_transition (target_state : String) :
    (check_proc_transition target_state).Uses Harmless := by
  refine uses_bind (uses_look trivial) fun self => uses_bind ?_ fun _ =>
    uses_onlyIf fun _ => trivial
  exact uses_forEach fun entry _ => uses_onlyIf fun _ => uses_report_failure _ _ _

theorem uses_check_times (self : DAQInterface) : (check_times self).Uses Harmless := by
  unfold check_times
  split
  · trivial
  · trivial

theorem uses_finish_command (self : DAQInterface) :
    (finish_command command self).Uses (Completing command) := by
  have hmono : ∀ c, Harmless c → Completing command c := fun c h => by
    cases c <;> first | exact h | exact absurd h id
  refine uses_bind (uses_look trivial) fun _ =>
    uses_bind (uses_onlyIf fun _ => trivial) fun _ =>
      uses_bind (uses_issue trivial) fun _ =>
        uses_bind ((uses_check_times self).mono hmono) fun _ => ?_
  refine uses_attempt ((uses_check_proc_transition _).mono hmono) (fun _ => trivial) fun _ => ?_
  split
  · rename_i t ht
    exact uses_issue ht
  · trivial

theorem uses_do_command : (do_command command).Uses (Commanding command) :=
  uses_bind (uses_issue ⟨fun _ => rfl, fun _ => rfl⟩) fun _ => uses_bind (uses_look trivial) fun self =>
    uses_bind ((uses_send_to_groups command self).mono fun _ => Sending.commanding) fun _ =>
      (uses_finish_command command self).mono fun _ => Completing.commanding

theorem uses_do_command_allowed {a : Action} (ha : a.command = some command)
    (ht : ∀ t, verbing command = some t → a.completes = some t) :
    (do_command command).Uses (Allowed a) :=
  (uses_do_command command).mono fun c h => by
    cases c with
    | complete_state_change t => exact ht t h
    | _ => exact Sending.allowed ha h

end Command

/-! ## The configuration -/

section Actions

variable {a : Action}

theorem uses_alert (extrainfo : String) : (alert_and_recover extrainfo).Uses (Allowed a) :=
  (uses_alert_and_recover extrainfo).mono fun _ => Recovering.allowed

theorem uses_saving_alert (extrainfo : String) : (alert_and_recover extrainfo).Uses (Saving a) :=
  (uses_alert_and_recover extrainfo).mono fun _ => Recovering.saving

theorem uses_save_run_record : save_run_record.Uses (Saving .config) := by
  refine uses_bind (uses_call trivial) fun _ => uses_bind (uses_forEach fun name _ => ?_) fun _ =>
    uses_bind (uses_call trivial) fun _ => ?_
  · exact uses_bind (uses_call trivial) fun _ => uses_bind (uses_call rfl) fun _ =>
      uses_onlyIf fun _ => uses_saving_alert _
  · exact uses_attempt (uses_call rfl) (fun _ => uses_saving_alert _) fun _ => uses_call trivial

theorem uses_run_record_thread (place : RecordPlace) (here : List RecordPlace) :
    (run_record_thread place here).Uses (Saving .config) :=
  uses_onlyIf fun _ => uses_ignoring uses_save_run_record

theorem uses_archive_with (i : ℕ) (labels : List String) :
    (archive_with i labels).Uses (Saving .config) := by
  induction labels with
  | nil => trivial
  | cons label labels ih =>
    refine uses_attempt (uses_call rfl) (fun _ => ?_) fun answer => ?_
    · exact uses_bind (uses_saving_alert _) fun _ => uses_pure _
    · exact uses_bind (uses_issue trivial) fun _ => uses_ite (fun _ => trivial) fun _ => ih

theorem uses_archive_documents (labels : List String) (procs : List (Procinfo × ℕ)) :
    (archive_documents labels procs).Uses (Saving .config) := by
  induction procs with
  | nil => trivial
  | cons entry rest ih =>
    obtain ⟨p, i⟩ := entry
    refine uses_ite (fun _ => ?_) fun _ => ih
    split
    · trivial
    · refine uses_ite (fun _ => ?_) fun _ => ih
      exact uses_bind (uses_archive_with i labels) fun _ =>
        uses_ite (fun _ => ih) fun _ => uses_pure _

theorem uses_archive : archive.Uses (Saving .config) :=
  uses_bind (uses_look trivial) fun _ =>
    uses_bind (uses_forEach fun _ _ => uses_call trivial) fun _ => uses_archive_documents _ _

theorem uses_readjust (settings : Settings) (priority_list : Option (List String)) :
    (readjust_process_priorities settings priority_list).Uses Harmless := by
  refine uses_bind (uses_look trivial) fun self => ?_
  split
  · exact uses_issue trivial
  · dsimp only
    split
    · trivial
    · exact uses_issue trivial

theorem uses_init_and_complete (settings : Settings) :
    (init_and_complete settings).Uses (Allowed .config) := by
  have hthread : ∀ place here, (run_record_thread place here).Uses (Allowed .config) :=
    fun place here => (uses_run_record_thread place here).mono fun _ => Saving.allowed
  refine uses_bind (uses_issue trivial) fun sched => uses_bind (hthread _ _) fun _ =>
    uses_bind (uses_look trivial) fun self => uses_ite (fun _ => ?_) fun _ => ?_
  · refine uses_bind ((uses_readjust settings _).mono fun _ => Harmless.allowed) fun _ => ?_
    refine uses_attempt (uses_do_command_allowed .Init rfl fun t ht => by cases ht)
      (fun _ => uses_alert _) fun _ => ?_
    exact uses_bind (hthread _ _) fun _ =>
      uses_bind (uses_archive.mono fun _ => Saving.allowed) fun _ => uses_bind (hthread _ _) fun _ => uses_issue rfl
  · exact uses_bind (hthread _ _) fun _ => uses_issue rfl

theorem uses_clear_run_record (settings : Settings) :
    (clear_run_record settings).Uses Harmless :=
  uses_bind (uses_issue ⟨fun _ => rfl, fun _ => rfl⟩) fun _ => uses_bind (uses_call trivial) fun _ =>
    uses_onlyIf fun _ => uses_call trivial

theorem uses_overlapped_config (settings : Settings) :
    (overlapped_config settings).Uses (Allowed .config) :=
  uses_bind (uses_look trivial) fun _ => uses_bind (uses_onlyIf fun _ => trivial) fun _ =>
    uses_bind ((uses_clear_run_record settings).mono fun _ => Harmless.allowed) fun _ =>
      uses_init_and_complete settings

theorem uses_fail_config (failure : PrepFailure) :
    (fail_config failure).Uses (Allowed .config) := by
  cases failure with
  | revert action => exact uses_issue (Or.inr rfl)
  | raise e => trivial
  | recover extrainfo => exact uses_alert extrainfo

theorem uses_sequential_config (settings : Settings) :
    (sequential_config settings).Uses (Allowed .config) := by
  refine uses_attempt (uses_call trivial) (fun _ => uses_issue (Or.inr rfl)) fun files =>
    uses_bind (uses_look trivial) fun self =>
      uses_bind (uses_issue ⟨Or.inl rfl, Or.inr fun _ => rfl⟩) fun _ => ?_
  split
  · exact uses_fail_config _
  · refine uses_bind (uses_issue rfl) fun _ => uses_bind (uses_call trivial) fun _ =>
      uses_bind (uses_onlyIf fun _ => trivial) fun _ =>
        uses_bind ((uses_clear_run_record settings).mono fun _ => Harmless.allowed) fun _ => ?_
    split
    · exact uses_fail_config _
    · exact uses_init_and_complete settings

theorem uses_do_config (settings : Settings) : (do_config settings).Uses (Allowed .config) := by
  refine uses_bind (uses_issue ⟨Or.inl rfl, Or.inr fun _ => rfl⟩) fun _ =>
    uses_bind (uses_look trivial) fun self => ?_
  split
  · trivial
  · exact uses_bind (uses_issue ⟨Or.inl rfl, Or.inr fun _ => rfl⟩) fun _ =>
      uses_bind (uses_onlyIf fun _ => uses_issue trivial) fun _ =>
        uses_bind (uses_issue rfl) fun _ =>
          uses_ite (fun _ => uses_overlapped_config settings) fun _ =>
            uses_sequential_config settings

/-! ## The boot -/

theorem uses_revert_failed_boot : revert_failed_boot.Uses (Allowed .boot) :=
  uses_bind (uses_issue rfl) fun _ => uses_issue (Or.inl rfl)

theorem uses_complete_boot (settings : Settings) : (complete_boot settings).Uses (Allowed .boot) :=
  uses_bind (uses_onlyIf fun _ => uses_call trivial) fun _ => uses_issue rfl

theorem uses_associate_logfiles (settings : Settings) (manage_processes : Bool) :
    (associate_logfiles settings manage_processes).Uses (Allowed .boot) :=
  uses_ite (fun _ => uses_attempt (uses_call trivial) (fun _ => uses_alert _) fun _ =>
    uses_complete_boot settings) fun _ => uses_complete_boot settings

theorem uses_wait_for_msgviewer (settings : Settings) (manage_processes launched : Bool) :
    (wait_for_msgviewer settings manage_processes launched).Uses (Allowed .boot) := by
  refine uses_ite (fun _ => ?_) fun _ => uses_associate_logfiles _ _
  exact uses_bind (uses_call trivial) fun _ => uses_ite (fun _ => uses_associate_logfiles _ _)
    fun _ => uses_ite (fun _ => uses_alert _) fun _ => trivial

theorem uses_await_status (i n : ℕ) : (await_status i n).Uses Harmless := by
  induction n with
  | zero => trivial
  | succ n ih =>
    exact uses_attempt (uses_call trivial) (fun _ => uses_bind (uses_issue trivial) fun _ => ih)
      fun answer => uses_set_lastreturned i answer

theorem uses_create_servers (members : List ℕ) :
    (create_servers members).Uses (Allowed .boot) := by
  induction members with
  | nil => trivial
  | cons i rest ih =>
    exact uses_attempt (uses_call trivial)
      (fun _ => uses_bind (uses_alert _) fun _ => uses_pure _) fun _ => ih

theorem uses_check_processes {missing : Control Bool} (h : missing.Uses (Allowed .boot)) :
    (check_processes missing).Uses (Allowed .boot) :=
  uses_bind (uses_call trivial) fun _ => uses_bind (uses_look trivial) fun _ =>
    uses_ite (fun _ => uses_pure _) fun _ => uses_bind (uses_issue trivial) fun _ => h

theorem uses_wait_for_processes (n : ℕ) : (wait_for_processes n).Uses (Allowed .boot) := by
  induction n with
  | zero =>
    exact uses_check_processes (uses_bind (uses_call trivial) fun _ =>
      uses_bind (uses_alert _) fun _ => uses_pure _)
  | succ n ih => exact uses_check_processes ih

theorem uses_wait_and_connect (settings : Settings) (launched : Bool) :
    (wait_and_connect settings launched).Uses (Allowed .boot) := by
  refine uses_bind (uses_wait_for_processes _) fun up => uses_onlyIf fun _ =>
    uses_bind (uses_look trivial) fun self => uses_bind (uses_create_servers _) fun connected =>
      uses_onlyIf fun _ => uses_bind (uses_forEach fun i _ => ?_) fun _ =>
        uses_wait_for_msgviewer _ _ _
  exact uses_bind (uses_issue trivial) fun _ =>
    (uses_await_status i _).mono fun _ => Harmless.allowed

theorem uses_launch (settings : Settings) (launched : Bool) :
    (launch settings launched).Uses (Allowed .boot) := by
  refine uses_bind (uses_look trivial) fun self => uses_ite (fun _ => ?_) fun _ =>
    uses_wait_for_msgviewer _ _ _
  refine uses_bind (uses_call trivial) fun _ => uses_bind (uses_call trivial) fun _ =>
    uses_bind (uses_call trivial) fun _ => uses_bind (uses_call trivial) fun _ =>
      uses_bind (uses_issue ⟨Or.inr fun _ => rfl, Or.inl rfl⟩) fun _ => ?_
  exact uses_attempt (uses_call trivial) (fun _ => uses_alert _) fun _ =>
    uses_bind (uses_issue rfl) fun _ => uses_wait_and_connect _ _

theorem uses_launch_msgviewer (settings : Settings) :
    (launch_msgviewer settings).Uses Harmless := by
  refine uses_ite (fun _ => ?_) fun _ => uses_pure _
  refine uses_bind (uses_call trivial) fun _ => uses_ite (fun _ => ?_) fun _ => uses_pure _
  exact uses_bind (uses_call trivial) fun _ => uses_ite (fun _ => uses_pure _) fun _ =>
    uses_bind (uses_call trivial) fun _ => uses_pure _

theorem uses_boot_with (settings : Settings) (info : BootInfo) :
    (boot_with settings info).Uses (Allowed .boot) := by
  refine uses_bind (uses_issue rfl) fun _ =>
    uses_bind (uses_issue ⟨Or.inr fun _ => rfl, Or.inl rfl⟩) fun _ =>
      uses_bind (uses_look trivial) fun self => uses_ite (fun _ => uses_revert_failed_boot) fun _ => ?_
  refine uses_bind (uses_call trivial) fun _ => uses_bind (uses_issue rfl) fun _ => ?_
  exact uses_attempt ((uses_launch_msgviewer settings).mono fun _ => Harmless.allowed)
    (fun _ => uses_alert _) fun launched => uses_launch settings launched

theorem uses_do_boot_impl (settings : Settings) :
    (do_boot_impl settings).Uses (Allowed .boot) := by
  refine uses_bind (uses_look trivial) fun self =>
    uses_ite (fun _ => uses_issue (Or.inl rfl)) fun _ =>
      uses_bind (uses_issue rfl) fun _ => uses_bind (uses_look trivial) fun self => ?_
  split
  · trivial
  · refine uses_bind (uses_call trivial) fun _ => uses_bind (uses_onlyIf fun _ => trivial) fun _ =>
      uses_bind (uses_onlyIf fun _ => ?_) fun _ => ?_
    · exact uses_bind (uses_call trivial) fun _ => uses_call trivial
    · exact uses_attempt (uses_call trivial) (fun _ => uses_revert_failed_boot)
        (uses_boot_with settings)

/-! ## Start, stop and terminate -/

theorem uses_archive_rc_info (ha : a = .start ∨ a = .stop) (settings : Settings) (name : String) :
    (archive_rc_info settings name).Uses (Saving a) :=
  uses_onlyIf fun _ => uses_bind (uses_call trivial) fun _ => uses_onlyIf fun _ =>
    uses_bind (uses_call trivial) fun _ => uses_bind (uses_call ha) fun _ =>
      uses_onlyIf fun _ => uses_saving_alert _

theorem uses_complete_start (manage_processes : Bool) :
    (complete_start manage_processes).Uses (Allowed .start) :=
  uses_bind (uses_call trivial) fun _ => uses_bind (uses_call trivial) fun _ =>
    uses_bind (uses_onlyIf fun _ => uses_call trivial) fun _ => uses_issue rfl

theorem uses_start_processes (settings : Settings) :
    (start_processes settings).Uses (Allowed .start) := by
  refine uses_bind ((uses_archive_rc_info (Or.inl rfl) settings _).mono fun _ => Saving.allowed) fun _ =>
    uses_bind (uses_call trivial) fun _ => uses_bind (uses_look trivial) fun self =>
      uses_ite (fun _ => ?_) fun _ => uses_complete_start _
  refine uses_bind ((uses_readjust settings _).mono fun _ => Harmless.allowed) fun _ => ?_
  exact uses_attempt (uses_do_command_allowed .Start rfl fun t ht => by cases ht)
    (fun _ => uses_alert _) fun _ => uses_complete_start _

theorem uses_do_start_running (settings : Settings) :
    (do_start_running settings).Uses (Allowed .start) := by
  refine uses_bind (uses_look trivial) fun self => ?_
  split
  · trivial
  · refine uses_bind (uses_issue ⟨Or.inr fun _ => rfl, Or.inr fun _ => rfl⟩) fun _ =>
      uses_bind (uses_call trivial) fun _ =>
      uses_bind (uses_call trivial) fun _ => uses_bind (uses_onlyIf fun _ => trivial) fun _ =>
        uses_bind (uses_call trivial) fun _ => uses_ite (fun _ => ?_) fun _ => uses_alert _
    exact uses_attempt (uses_call trivial) (fun _ => uses_alert _) fun _ =>
      uses_bind (uses_call trivial) fun _ =>
        uses_attempt (uses_call trivial) (fun _ => uses_alert _) fun _ => uses_start_processes _

theorem uses_complete_stop : complete_stop.Uses (Allowed .stop) :=
  uses_bind (uses_call trivial) fun _ => uses_issue rfl

theorem uses_stop_processes (settings : Settings) :
    (stop_processes settings).Uses (Allowed .stop) := by
  refine uses_bind (uses_call trivial) fun _ =>
    uses_bind ((uses_archive_rc_info (Or.inr rfl) settings _).mono fun _ => Saving.allowed) fun _ =>
      uses_bind (uses_look trivial) fun self =>
        uses_ite (fun _ => ?_) fun _ => uses_complete_stop
  refine uses_bind ((uses_readjust settings _).mono fun _ => Harmless.allowed) fun _ => ?_
  exact uses_attempt (uses_do_command_allowed .Stop rfl fun t ht => by cases ht)
    (fun _ => uses_alert _) fun _ => uses_complete_stop

theorem uses_do_stop_running (settings : Settings) :
    (do_stop_running settings).Uses (Allowed .stop) :=
  uses_bind (uses_look trivial) fun _ => uses_bind (uses_onlyIf fun _ => trivial) fun _ =>
    uses_bind (uses_call trivial) fun _ =>
      uses_attempt (uses_call trivial) (fun _ => uses_alert _) fun _ => uses_stop_processes _

theorem uses_shutdown_processes (members : List ℕ) :
    (shutdown_processes members).Uses (Saving .terminate) := by
  induction members with
  | nil => trivial
  | cons i rest ih =>
    refine uses_bind (uses_issue trivial) fun _ => uses_attempt (uses_call rfl)
      (fun _ => uses_bind (uses_saving_alert _) fun _ => uses_pure _) fun answer => ?_
    exact uses_bind (uses_issue trivial) fun _ =>
      uses_bind (uses_onlyIf fun _ => uses_issue trivial) fun _ => ih

theorem uses_do_terminate : do_terminate.Uses (Allowed .terminate) := by
  refine uses_bind (uses_look trivial) fun self => uses_ite (fun _ => ?_) fun _ => uses_issue rfl
  refine uses_bind (uses_call trivial) fun _ =>
    uses_bind ((uses_shutdown_processes _).mono fun _ => Saving.allowed) fun _ =>
      uses_onlyIf fun _ => ?_
  exact uses_attempt (uses_kill_procs.mono fun _ => Recovering.allowed) (fun _ => uses_alert _)
    fun _ => uses_issue rfl

/-! ## The actions of the runner -/

theorem uses_send_trace {trace : ProcCall} (ha : a = .trace_get ∨ a = .trace_set) {i : ℕ}
    (htrace : (Op.process trace i).Safe) : (send_trace trace i).Uses (Allowed a) := by
  refine uses_bind (uses_look trivial) fun self => uses_ite (fun _ => uses_pure _) fun _ => ?_
  refine uses_attempt (uses_call htrace.action_calls) (fun _ => uses_issue ha) fun answer => ?_
  exact uses_bind (uses_issue trivial) fun _ => uses_onlyIf fun _ => uses_call trivial

/-- Every action of the runner keeps to the commands it is allowed. -/
theorem uses_action (settings : Settings) (a : Action) : (action settings a).Uses (Allowed a) := by
  cases a with
  | boot => exact uses_do_boot_impl settings
  | shutdown => exact uses_do_command_allowed .Shutdown rfl fun t ht => ht
  | config => exact uses_do_config settings
  | recover => exact uses_do_recover.mono fun _ => Recovering.allowed
  | start => exact uses_do_start_running settings
  | stop => exact uses_do_stop_running settings
  | terminate => exact uses_do_terminate
  | pause => exact uses_do_command_allowed .Pause rfl fun t ht => ht
  | resume => exact uses_do_command_allowed .Resume rfl fun t ht => ht
  | enable => exact uses_call trivial
  | disable => exact uses_call trivial
  | trace_get =>
    exact uses_bind (uses_look trivial) fun _ =>
      uses_bind (uses_in_threads trivial fun i _ => uses_send_trace (Or.inl rfl) trivial) fun _ =>
        uses_forEach fun _ _ => uses_call trivial
  | trace_set =>
    exact uses_bind (uses_look trivial) fun _ =>
      uses_in_threads trivial fun i _ => uses_send_trace (Or.inr rfl) trivial

/-- Commands that look after the processes. -/
def Tending : Cmd → Prop
  | .processes (.remove _) => True
  | c => Harmless c

theorem Harmless.tending {c : Cmd} (h : Harmless c) : Tending c := by
  cases c with
  | processes u => cases u <;> trivial
  | _ => exact h

theorem uses_lose_process (i : ℕ) : (lose_process i).Uses Tending :=
  uses_bind (uses_call trivial) fun _ => uses_bind (uses_call trivial) fun _ =>
    uses_bind (uses_issue trivial) fun _ => uses_call trivial

theorem uses_check_statuses (procs : List (Procinfo × ℕ)) :
    (check_statuses procs).Uses Tending := by
  induction procs with
  | nil => trivial
  | cons entry rest ih =>
    obtain ⟨p, i⟩ := entry
    refine uses_attempt (uses_call trivial) (fun e => ?_) fun answer => ?_
    · refine uses_ite (fun _ => ?_) fun _ => uses_ite (fun _ => trivial) fun _ =>
        uses_ite (fun _ => ih) fun _ => trivial
      exact uses_bind (uses_call trivial) fun _ => uses_bind (uses_look trivial) fun _ =>
        uses_bind (uses_onlyIf fun _ => trivial) fun _ =>
          uses_bind (uses_issue ⟨fun _ => rfl, fun _ => rfl⟩) fun _ => ih
    · exact uses_bind (uses_issue trivial) fun _ => uses_bind (uses_issue trivial) fun _ =>
        uses_onlyIf fun _ => uses_lose_process i

theorem uses_check_proc_heartbeats : check_proc_heartbeats.Uses Tending := by
  refine uses_bind (uses_look trivial) fun self => uses_bind (uses_call trivial) fun found =>
    uses_bind (uses_forEach fun _ _ => uses_call trivial) fun _ => uses_onlyIf fun _ =>
      uses_bind (uses_look trivial) fun self => uses_ite (fun _ => ?_) fun _ => trivial
  exact uses_forEach fun entry _ => uses_bind (uses_issue trivial) fun _ => uses_call trivial

theorem uses_look_after_processes : look_after_processes.Uses Tending :=
  uses_bind (uses_bind (uses_look trivial) fun _ => uses_ite (fun _ => uses_pure _) fun _ =>
    uses_check_statuses _) fun _ => uses_bind uses_check_proc_heartbeats fun _ => uses_call trivial

end Actions

end DaqInterface
