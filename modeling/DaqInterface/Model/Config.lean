import DaqInterface.Model.Command

/-!
# The configuration

`do_config` takes the documents that the thread of the boot prepared, when that
succeeded, and prepares them itself otherwise.  Then it sends `Init`, archives the
documents with the processes that write root files and saves a run record.  The run
record is written by a thread of its own; the model carries that thread out in one go,
at one of the places where `do_config` waits, as the schedule decides.
-/

namespace DaqInterface

open Program

/-! ## The run record -/

/-- Write one file of the run record; where that does not show, recover and go on. -/
def write_checked (name : String) : Control Unit := do
  call (.outside (.write_run_record name))
  let present ← call (.probe (.run_record_file_exists name))
  onlyIf (!present) <|
    alert_and_recover ("Problem creating file " ++ name)

/-- `save_run_record`. -/
def save_run_record : Control Unit := do
  call (.outside (.write_run_record "documents"))
  forEach write_checked ["boot.txt", "setup.txt", "settings.txt", "known_boardreaders_list.txt"]
  call (.outside (.write_run_record "metadata.txt"))
  (call (.outside .get_commit_info)).attempt
    (fun _ => alert_and_recover
      "An exception was thrown in get_commit_info; see traceback above for more info")
    fun _ => call (.outside (.write_run_record "logfiles"))

/-- Where in `do_config` the thread that saves the run record gets through. -/
inductive RecordPlace
  | at_start
  | after_init
  | at_join
  deriving DecidableEq

/-- The place that a schedule decides on. -/
def RecordPlace.of_schedule : List ℕ → RecordPlace
  | 0 :: _ => .at_start
  | 1 :: _ => .after_init
  | _ => .at_join

/-- The thread that saves the run record, if it gets through at one of the given places. -/
def run_record_thread (place : RecordPlace) (here : List RecordPlace) : Control Unit :=
  onlyIf (place ∈ here) (ignoring save_run_record)

/-! ## Archiving -/

/-- Archive documents with one process.  A call that raises makes it recover; the answer says
that it did not. -/
def archive_with (i : ℕ) : List String → Control Bool
  | [] => return true
  | label :: labels =>
    (call (.process (.add_config_archive_entry label) i)).attempt
      (fun _ => do
        alert_and_recover ("An exception was thrown when attempting to add archive entry for " ++
          label)
        return false)
      fun lastreturned => do
        set_lastreturned i lastreturned
        if lastreturned ≠ "Success" then
          raise ("Attempt to add config archive entry for " ++ label ++ " was unsuccessful")
        else archive_with i labels

/-- `archive_documents`, for the processes with the given indices. -/
def archive_documents (labels : List String) : List (Procinfo × ℕ) → Control Unit
  | [] => return ()
  | (p, i) :: rest =>
    if writes_root_files p then
      match p.fhicl_used with
      | none => raise "TypeError: argument of type 'NoneType' is not iterable"
      | some fhicl_used =>
        if fhicl_writes_root_file fhicl_used then do
          let finished ← archive_with i labels
          if finished then archive_documents labels rest else return ()
        else archive_documents labels rest
    else archive_documents labels rest

/-- Collect the documents to archive and archive them. -/
def archive : Control Unit := do
  let self ← look
  forEach (fun name => call (.outside (.open_run_record_file name))) ["metadata", "boot"]
  archive_documents (self.procinfos.map Procinfo.label ++ ["metadata", "boot"])
    self.procinfos.zipIdx

/-! ## Ranks -/

/-- The place of the first regular expression that a label matches. -/
def priority_of (re_search : String → String → Bool) (priority_list : List String)
    (label : String) : Option ℕ :=
  priority_list.findIdx? fun regexp => re_search regexp label

/-- `readjust_process_priorities`. -/
def readjust_process_priorities (settings : Settings) (priority_list : Option (List String)) :
    Control Unit := do
  let self ← look
  match priority_list with
  | none =>
    issue (.processes (.priority fun p => if p.name = .BoardReader then 999 else p.priority))
  | some priorities =>
    -- the ranks of the processes before the first one that matches nothing are set
    let unmatched := self.procinfos.find? fun p =>
      p.name == .BoardReader && (priority_of settings.re_search priorities p.label).isNone
    match unmatched with
    | some p => raise ("Error: the process label \"" ++ p.label ++
        "\" didn't match with any of the regular expressions used to rank transition priorities")
    | none => issue (.processes (.priority fun p =>
        if p.name = .BoardReader then
          (priority_of settings.re_search priorities p.label).getD p.priority
        else p.priority))

/-! ## The transition -/

/-- The end of the configuration, from the start of the run record on. -/
def init_and_complete (settings : Settings) : Control Unit := do
  let sched ← issue .schedule
  let place := RecordPlace.of_schedule sched
  run_record_thread place [.at_start]
  let self ← look
  if self.vars.manage_processes then
    readjust_process_priorities settings settings.boardreader_priorities_on_config
    (do_command .Init).attempt
      (fun _ => alert_and_recover
        "An exception was thrown when attempting to send the \"init\" transition to the artdaq processes; see messages above for more info")
      fun _ => do
        run_record_thread place [.after_init]
        archive
        run_record_thread place [.at_join]
        issue (.complete_state_change "configuring")
  else
    run_record_thread place [.after_init, .at_join]
    issue (.complete_state_change "configuring")

/-- Where the run record goes, and room for it. -/
def clear_run_record (settings : Settings) : Control Unit := do
  issue (.assign fun vars => { vars with tmp_run_record := settings.tmp_run_record })
  let present ← call (.probe .tmp_run_record_exists)
  onlyIf present (call (.outside .rmtree_tmp_run_record))

/-- The configuration with the documents that the thread of the boot prepared. -/
def overlapped_config (settings : Settings) : Control Unit := do
  let self ← look
  onlyIf (self.procinfos.any fun p => p.fhicl_used.isNone) (raise "AssertionError")
  clear_run_record settings
  init_and_complete settings

/-- The end of a configuration whose preparation failed. -/
def fail_config : PrepFailure → Control Unit
  | .revert _ => issue .revert_state_change
  | .raise e => raise e
  | .recover extrainfo => alert_and_recover extrainfo

/-- The configuration that prepares the documents itself. -/
def sequential_config (settings : Settings) : Control Unit :=
  (call .config_files).attempt (fun _ => issue .revert_state_change) fun files => do
    let self ← look
    let subconfigs := with_common_code files.1 self.vars.subconfigs_for_run
    issue (.assign fun vars => { vars with subconfigs_for_run := subconfigs })
    match bookkept_documents files.1 files.2 settings.disable_unique_rootfile_labels
        self.procinfos self.vars.subconfigs_for_run with
    | .error failure => fail_config failure
    | .ok documents => do
      issue (.processes (.documents documents subconfigs))
      let present ← call (.probe .semipermanent_run_record_exists)
      onlyIf present (raise "Directory already exists!")
      clear_run_record settings
      match check_config files.2 documents with
      | .error failure => fail_config failure
      | .ok _ => init_and_complete settings

/-- `do_config`. -/
def do_config (settings : Settings) : Control Unit := do
  issue (.assign fun vars => { vars with transition_process_errors := [] })
  let self ← look
  match self.run_params.bind RunParams.config with
  | none => raise "KeyError: 'config'"
  | some config => do
    issue (.assign fun vars =>
      { vars with subconfigs_for_run := config.insertionSort (· ≤ ·) })
    onlyIf self.prep.config_prep_thread.isSome (issue .sleep)
    let prepared ← issue .join_prep
    if prepared then overlapped_config settings else sequential_config settings

end DaqInterface
