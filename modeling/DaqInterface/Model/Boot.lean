import DaqInterface.Model.Config

/-!
# The boot

`do_boot_impl` reads the boot file, launches the processes, starts the thread that
prepares their documents, and waits until all processes answer.  Most of its failures
recover and return; the early ones put the state back or leave the function as an
exception.
-/

namespace DaqInterface

open Program

/-- `revert_failed_boot`. -/
def revert_failed_boot : Control Unit := do
  issue .reset_variables
  issue .revert_state_change

/-- The end of the boot: the logfiles, the ranks and the new state. -/
def complete_boot (settings : Settings) : Control Unit := do
  onlyIf settings.external_run_control (call (.outside .add_ranks_from_ranksfile))
  issue (.complete_state_change "booting")

/-- Find the logfiles of the processes, and complete the boot. -/
def associate_logfiles (settings : Settings) (manage_processes : Bool) : Control Unit :=
  if manage_processes then
    (call (.outside .get_log_filenames)).attempt
      (fun _ => alert_and_recover
        "Unable to find logfiles for at least some of the artdaq processes")
      fun _ => complete_boot settings
  else complete_boot settings

/-- Wait for the message viewer; its failure is reported with commands that only a boot that
manages the processes has put together. -/
def wait_for_msgviewer (settings : Settings) (manage_processes launched : Bool) :
    Control Unit :=
  if launched then do
    let fine ← call (.probe .msgviewer_returned_zero)
    if fine then associate_logfiles settings manage_processes
    else if manage_processes then
      alert_and_recover "Status error raised in msgviewer call within Popen"
    else raise "UnboundLocalError: local variable 'cmds' referenced before assignment"
  else associate_logfiles settings manage_processes

/-- Ask a process for its status until it answers; the first argument is the number of times
it is asked before it is clear that it never will. -/
def await_status (i : ℕ) : ℕ → Control Unit
  | 0 => hang
  | n + 1 =>
    (call (.process .status i)).attempt
      (fun _ => do
        issue .sleep
        await_status i n)
      fun answer => set_lastreturned i answer

/-- Create the clients of the processes with the given indices; the answer says that no
recovery was needed. -/
def create_servers : List ℕ → Control Bool
  | [] => return true
  | i :: rest =>
    (call (.outside (.create_servers i))).attempt
      (fun _ => do
        alert_and_recover "Problem creating server with socket"
        return false)
      fun _ => create_servers rest

/-- Look for the launched processes once; `missing` goes on where some are not found. -/
def check_processes (missing : Control Bool) : Control Bool := do
  let found ← call .find_processes
  let self ← look
  if found.length = self.procinfos.length then return true
  else
    issue .sleep
    missing

/-- Look for the launched processes, the given number of times and once more; the answer says
that all were found. -/
def wait_for_processes : ℕ → Control Bool
  | 0 => check_processes do
    call (.outside .process_launch_diagnostics)
    alert_and_recover "Problem launching the artdaq processes; scroll above the output from the \"RECOVER\" transition for more info"
    return false
  | n + 1 => check_processes (wait_for_processes n)

/-- Wait until the launched processes are up and answer. -/
def wait_and_connect (settings : Settings) (launched : Bool) : Control Unit := do
  let up ← wait_for_processes (settings.max_num_launch_procs_checks - 1)
  onlyIf up do
    let self ← look
    let connected ← create_servers (List.range self.procinfos.length)
    onlyIf connected do
      forEach (fun i => do
          let patience ← issue .schedule
          await_status i patience.length)
        (List.range self.procinfos.length)
      wait_for_msgviewer settings true launched

/-- Launch the processes and start the thread that prepares their documents. -/
def launch (settings : Settings) (launched : Bool) : Control Unit := do
  let self ← look
  if self.vars.manage_processes then
    call (.outside .init_process_requirements)
    call (.outside .create_setup_fhiclcpp_if_needed)
    call (.outside .obtain_messagefacility_fhicl)
    call (.outside .fhicl_dump_messagefacility)
    issue (.assign fun vars => { vars with called_launch_procs := true })
    (call (.outside .launch_procs)).attempt
      (fun e => alert_and_recover ("An exception was thrown in launch_procs(): " ++ e))
      fun _ => do
        issue .start_prep
        wait_and_connect settings launched
  else wait_for_msgviewer settings false launched

/-- Launch the message viewer if there is one and none is running; the answer says if it was
launched. -/
def launch_msgviewer (settings : Settings) : Control Bool :=
  if settings.use_messageviewer then do
    let available ← call (.probe .have_artdaq_mfextensions)
    if available then
      let running ← call (.probe .is_msgviewer_running)
      if running then return false
      else
        call (.outside .launch_msgviewer)
        return true
    else return false
  else return false

/-- The boot with the contents of the boot file. -/
def boot_with (settings : Settings) (info : BootInfo) : Control Unit := do
  issue (.processes (.replace info.procinfos))
  issue (.assign fun vars =>
    { vars with
      subsystems := info.subsystems
      manage_processes := info.manage_processes
      disable_recovery := info.disable_recovery })
  let self ← look
  if self.vars.daq_comp_list.isEmpty then revert_failed_boot
  else
    let procs ← call .build_procinfos
    issue (.processes (.replace procs))
    (launch_msgviewer settings).attempt
      (fun _ => alert_and_recover "Problem during messageviewer launch stage")
      fun launched => launch settings launched

/-- `do_boot_impl`. -/
def do_boot_impl (settings : Settings) : Control Unit := do
  let self ← look
  if self.vars.daq_comp_list.isEmpty then issue .revert_state_change
  else
    issue .reset_variables
    let self ← look
    match self.run_params.bind RunParams.boot_filename with
    | none => raise "KeyError: 'boot_filename'"
    | some boot_filename => do
      let present ← call (.probe .boot_file_exists)
      onlyIf (!present) <|
        raise ("Error: boot file requested on boot transition, \"" ++ boot_filename ++
          "\", does not appear to exist")
      onlyIf (endswith ".fcl" boot_filename) do
        call (.outside .create_setup_fhiclcpp_if_needed)
        call (.outside .defhiclize_boot_file)
      (call .get_boot_info).attempt (fun _ => revert_failed_boot) (boot_with settings)

end DaqInterface
