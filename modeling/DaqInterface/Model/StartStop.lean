import DaqInterface.Model.Boot

/-!
# Start, stop and terminate
-/

namespace DaqInterface

open Program

/-- Copy the information of another run control into the run record.  Where it does not
arrive there the program recovers, and goes on. -/
def archive_rc_info (settings : Settings) (name : String) : Control Unit := do
  onlyIf settings.external_run_control do
    let present ← call (.probe .info_to_archive_exists)
    onlyIf present do
      call (.outside .copy_rc_info)
      let arrived ← call (.probe .rc_info_exists)
      onlyIf (!arrived) <|
        alert_and_recover ("Problem copying /tmp/info_to_archive into " ++ name ++
          "; does original file exist?")

/-- The end of `do_start_running`. -/
def complete_start (manage_processes : Bool) : Control Unit := do
  call (.outside .start_datataking)
  call (.outside .save_metadata_value)
  onlyIf manage_processes (call (.outside .softlink_logfiles))
  issue (.complete_state_change "starting")

/-- The part of `do_start_running` behind the run record. -/
def start_processes (settings : Settings) : Control Unit := do
  archive_rc_info settings "rc_info_start.txt"
  call (.outside (.execute_trace_script "start"))
  let self ← look
  if self.vars.manage_processes then
    readjust_process_priorities settings settings.boardreader_priorities_on_start
    (do_command .Start).attempt
      (fun _ => alert_and_recover
        "An exception was thrown when attempting to send the \"start\" transition to the artdaq processes; see messages above for more info")
      fun _ => complete_start true
  else complete_start false

/-- `do_start_running`. -/
def do_start_running (settings : Settings) : Control Unit := do
  let self ← look
  match self.run_params.bind RunParams.run_number with
  | none => raise "KeyError: 'run_number'"
  | some run_number => do
    issue (.assign fun vars => { vars with run_number := some run_number })
    call (.outside .check_run_record_integrity)
    let taken ← call (.probe .run_number_exists)
    onlyIf taken <|
      raise "Error: requested run number is found to already exist in the run records directory"
    let present ← call (.probe .tmp_run_record_exists)
    if present then
      (call (.outside .copy_run_record)).attempt
        (fun _ => alert_and_recover "Error: Attempt to copy temporary run record didn't work")
        fun _ => do
          call (.outside .finish_run_record)
          (call (.outside .put_config_info)).attempt
            (fun _ => alert_and_recover "An exception was thrown when trying to save configuration info; see traceback above for more info")
            fun _ => start_processes settings
    else
      alert_and_recover "Error in DAQInterface: unable to find temporary run records directory"

/-- The end of `do_stop_running`. -/
def complete_stop : Control Unit := do
  call (.outside (.execute_trace_script "stop"))
  issue (.complete_state_change "stopping")

/-- The part of `do_stop_running` behind the configuration info. -/
def stop_processes (settings : Settings) : Control Unit := do
  call (.outside .stop_datataking)
  archive_rc_info settings "rc_info_stop.txt"
  let self ← look
  if self.vars.manage_processes then
    readjust_process_priorities settings settings.boardreader_priorities_on_stop
    (do_command .Stop).attempt
      (fun _ => alert_and_recover
        "An exception was thrown when attempting to send the \"stop\" transition to the artdaq processes; see messages above for more info")
      fun _ => complete_stop
  else complete_stop

/-- `do_stop_running`. -/
def do_stop_running (settings : Settings) : Control Unit := do
  let self ← look
  onlyIf self.vars.run_number.isNone (raise "TypeError: %d format: a number is required")
  call (.outside .save_metadata_value)
  (call (.outside .put_config_info_on_stop)).attempt
    (fun _ => alert_and_recover "An exception was thrown when trying to save configuration info; see traceback above for more info")
    fun _ => stop_processes settings

/-- Shut the processes with the given indices down one after the other; the answer says that
no recovery was needed. -/
def shutdown_processes : List ℕ → Control Bool
  | [] => return true
  | i :: rest => do
    set_proc_state i (verbing_to_states .Shutdown)
    (call (.process .shutdown i)).attempt
      (fun _ => do
        alert_and_recover "An exception was thrown during the terminate transition"
        return false)
      fun lastreturned => do
        set_lastreturned i lastreturned
        onlyIf (lastreturned = "Success" ∨ lastreturned = target_states .Shutdown) <|
          set_proc_state i (target_states .Shutdown)
        shutdown_processes rest

/-- `do_terminate`. -/
def do_terminate : Control Unit := do
  let self ← look
  if self.vars.manage_processes then
    call (.outside .process_manager_cleanup)
    let finished ← shutdown_processes (List.range self.procinfos.length)
    onlyIf finished <|
      kill_procs.attempt
        (fun _ => alert_and_recover "An exception was thrown within kill_procs()")
        fun _ => issue (.complete_state_change "terminating")
  else issue (.complete_state_change "terminating")

end DaqInterface
