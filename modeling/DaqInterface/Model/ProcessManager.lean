import DaqInterface.Model.Process
import DaqInterface.Model.Shell

/-!
# Direct process management

The functions that launch, find, kill and mop up artdaq processes by commands of the shell.  A
recovery kills what it finds on each host of the process list; before a launch the ports of the
processes are looked for among the running ones; a process that was lost is mopped up together
with whatever holds a socket at its port.
-/

namespace DaqInterface

open Pattern Program

/-- What the process management reads. -/
structure ProcessManager where
  machine : Machine
  procinfos : List Procinfo
  /-- Processes found at the ports of a launch are killed first. -/
  attempt_existing_pid_kill : Bool
  /-- The environment variable `DAQINTERFACE_PARTITION_NUMBER`. -/
  DAQINTERFACE_PARTITION_NUMBER : String
  /-- The environment variable `USER`. -/
  USER : String

/-- The executable of a type of processes. -/
def bootfile_name_to_execname : ProcType → String
  | .BoardReader => "boardreader"
  | .EventBuilder => "eventbuilder"
  | .DataLogger => "datalogger"
  | .Dispatcher => "dispatcher"
  | .RoutingManager => "routing_manager"

/-! ## Expressions -/

/-- `.*` within a line. -/
def anything : Pattern := many fun c => c ≠ '\n'

/-- `a\|b\|…` -/
def alternatives : List Pattern → Pattern
  | [] => Pattern.empty
  | [p] => p
  | p :: ps => alt p (alternatives ps)

/-- A process of a type that was given a port. -/
def launched_token (p : Procinfo) : GrepToken where
  text := bootfile_name_to_execname p.name ++ ".*id:\\s\\+" ++ p.port
  meaning := row [Pattern.text (bootfile_name_to_execname p.name), anything, Pattern.text "id:",
    some_of isSpace, Pattern.text p.port]

/-- One of the processes of a list, by their ports. -/
def ports_token (procs : List Procinfo) : GrepToken where
  text := "\\|".intercalate (procs.map fun p => (launched_token p).text)
  meaning := alternatives (procs.map fun p => (launched_token p).meaning)

/-- A process of a type in whose arguments a port occurs. -/
def process_token (p : Procinfo) : GrepToken where
  text := bootfile_name_to_execname p.name ++ " -c .*" ++ p.port ++ ".*"
  meaning := row [Pattern.text (bootfile_name_to_execname p.name ++ " -c "), anything,
    Pattern.text p.port, anything]

/-- The connection through which such a process was launched. -/
def ssh_process_token (p : Procinfo) : GrepToken where
  text := "ssh -o BatchMode=yes .*" ++ (process_token p).text
  meaning := row [Pattern.text "ssh -o BatchMode=yes ", anything, (process_token p).meaning]

/-- The connection to the host of a process that was launched under its label. -/
def ssh_client_token (p : Procinfo) : GrepToken where
  text := "ssh.*" ++ p.host ++ ".*" ++ bootfile_name_to_execname p.name ++ " -c.*" ++ p.label
  meaning := row [Pattern.text "ssh", anything, Pattern.text p.host, anything,
    Pattern.text (bootfile_name_to_execname p.name ++ " -c"), anything, Pattern.text p.label]

/-- The art processes of the partition. -/
def art_token (partition : String) : GrepToken where
  text := "art -c .*partition_" ++ partition
  meaning := row [Pattern.text "art -c ", anything, Pattern.text ("partition_" ++ partition)]

/-- The artdaq processes of the partition. -/
def artdaq_token (procs : List Procinfo) (partition : String) : GrepToken where
  text := "[0-9]:[0-9][0-9]\\s\\+.*\\(" ++
    "\\|".intercalate (procs.map fun p => bootfile_name_to_execname p.name).dedup ++
    "\\).*application_name.*partition_number:\\s*" ++ partition
  meaning := row [char Char.isDigit, Pattern.text ":", char Char.isDigit, char Char.isDigit,
    some_of isSpace, anything,
    alternatives ((procs.map fun p => bootfile_name_to_execname p.name).dedup.map Pattern.text),
    anything, Pattern.text "application_name", anything, Pattern.text "partition_number:",
    many isSpace, Pattern.text partition]

/-! ## Killing -/

/-- `application_name:\s+(\S+)` -/
def re_application_name : Pattern :=
  row [Pattern.text "application_name:", some_of isSpace, group nonspaces]

/-- The pid and the label that a line of `ps` tells of. -/
def pid_and_label (line : List Char) : Except String (Option (String × String)) :=
  match re_application_name.search line with
  | some (label :: _) => (second_word line).map fun pid => some (pid, String.ofList label)
  | _ => .ok none

namespace ProcessManager

variable (self : ProcessManager)

/-- The pids and labels of the artdaq processes of a host. -/
def get_pids_and_labels_on_host (host : String) : Shell (List String × List String) := do
  let (_, grepped_lines) ←
    get_pids self.machine (artdaq_token self.procinfos self.DAQINTERFACE_PARTITION_NUMBER) host
  let found ← ofExcept (grepped_lines.mapM pid_and_label)
  pure (found.reduceOption.map Prod.fst, found.reduceOption.map Prod.snd)

/-- Send a signal to processes of a host. -/
def kill_on_host (host options : String) (pids : List String) (redirect : String) :
    Shell Unit := do
  let _ ← perform (self.machine.on_host "-o BatchMode=yes -x" host (.kill options pids redirect))
  pure ()

/-- Kill the artdaq processes of a host, and the art processes where `kill_art` is set. -/
def kill_procs_on_host (host : String) (kill_art use_force : Bool) : Shell Unit := do
  let (artdaq_pids, _) ← self.get_pids_and_labels_on_host host
  onlyIf (artdaq_pids.length > 0)
    (self.kill_on_host host (if use_force then "-9 " else "") artdaq_pids "")
  onlyIf kill_art do
    let (art_pids, _) ← get_pids self.machine (art_token self.DAQINTERFACE_PARTITION_NUMBER) host
    onlyIf (art_pids.length > 0) (self.kill_on_host host "-9 " art_pids "")

/-- `kill_procs_base`, with the order in which the set of hosts is gone through; the process list
that it leaves. -/
def kill_procs_base (order : List String → List String) : Shell (List Procinfo) := do
  let hosts := order (self.procinfos.map Procinfo.host).dedup
  forEach (fun host => self.kill_procs_on_host host true false) hosts
  forEach (fun host => self.kill_procs_on_host host false true) hosts
  pure []

/-! ## Launching -/

/-- `re.search(r"\s*&\s*$", cmd)`. -/
def in_background (cmd : String) : Bool :=
  (cmd.toList.reverse.dropWhile isSpace).head? == some '&'

/-- The commands one after the other; each one that is not sent to the background is followed by
a check of its status. -/
def construct_checked_command (date : String) (cmds : List String) : String :=
  " ; ".intercalate (cmds.flatMap fun cmd =>
    if in_background cmd then [cmd]
    else [cmd, "if [[ \"$?\" != \"0\" ]]; then echo " ++ date ++
      ": Nonzero return value from the following command: \"" ++ cmd ++
      "\" >> /tmp/daqinterface_checked_command_failures_" ++ self.USER ++ ".log; exit 1; fi "])

/-- `__SHORTHOST__(\S+?)__` -/
def re_shorthost : Pattern :=
  row [Pattern.text "__SHORTHOST__", group (row [char fun c => !isSpace c, few fun c => !isSpace c]),
    Pattern.text "__"]

/-- The pids of processes found at the ports of the processes of a host, after those were killed
that may be. -/
def find_preexisting_pids (host : String) : Shell (List String) := do
  let token := ports_token (self.procinfos.filter fun p => p.host == host)
  let (preexisting_pids, _) ← get_pids self.machine token host
  if self.attempt_existing_pid_kill ∧ preexisting_pids.length > 0 then do
    self.kill_procs_on_host host true true
    let (preexisting_pids, _) ← get_pids self.machine token host
    pure preexisting_pids
  else pure preexisting_pids

/-- Launch the processes of a host; the short name that the host told, if it did. -/
def launch_procs_on_host (date host : String) (launch_commands_to_run_on_host
    launch_commands_to_run_on_host_background : List String) : Shell (Option String) := do
  let preexisting_pids ← self.find_preexisting_pids host
  if preexisting_pids.length > 0 then
    raise "DAQInterface found previously-existing artdaq processes using desired ports; see error message above for details"
  else
    let launchcmd := self.construct_checked_command date launch_commands_to_run_on_host ++ "; " ++
      " ".intercalate launch_commands_to_run_on_host_background
    let proc ← perform (self.machine.on_host "-o BatchMode=yes" host (.launch launchcmd))
    if proc.returncode ≠ 0 then
      raise ("Status error raised attempting to launch processes on " ++ host ++
        "; scroll up for more detail")
    else pure (((re_shorthost.search proc.out).bind List.head?).map String.ofList)

/-! ## Mopping up -/

/-- The pid of a process, if exactly one is found. -/
def get_pid_for_process_base (procinfo : Procinfo) : Shell (Option String) := do
  if procinfo ∉ self.procinfos then raise "AssertionError"
  else
    let (pids, _) ← get_pids self.machine (process_token procinfo) procinfo.host
    let (ssh_pids, _) ← get_pids self.machine (ssh_process_token procinfo) procinfo.host
    match pids.filter fun pid => pid ∉ ssh_pids with
    | [pid] => pure (some pid)
    | _ => pure none

/-- `([0-9]+)/(.*)` -/
def re_pid_and_name : Pattern :=
  row [group (some_of Char.isDigit), Pattern.text "/", group anything]

/-- The pid that a line of `netstat` tells of, unless the program is a python one. -/
def related_pid (procline : List Char) : Except String (Option String) :=
  match (words (String.ofList procline)).getLast? with
  | none => .error "IndexError: list index out of range"
  | some word =>
    match re_pid_and_name.search word.toList with
    | some [pid, pname] =>
      if "python".toList <:+: pname then .ok none else .ok (some (String.ofList pid))
    | _ => .ok none

/-- The pids of the processes in whose lines of `netstat` a port occurs. -/
def get_related_pids_for_process (procinfo : Procinfo) : Shell (List String) := do
  let proc ← perform
    (self.machine.on_host "-o BatchMode=yes -x" procinfo.host (.netstat procinfo.port))
  let related_pids ← ofExcept ((readlines proc.out).mapM related_pid)
  pure related_pids.reduceOption.dedup

/-- End the connection through which a process of another machine was launched. -/
def mopup_ssh_client (procinfo : Procinfo) : Shell Unit := do
  let (pids, _) ← get_pids self.machine (ssh_client_token procinfo) "localhost"
  match pids with
  | [pid] =>
    let _ ← perform ⟨none, .kill "" [pid] " > /dev/null 2>&1"⟩
    let _ ← get_pids self.machine (ssh_client_token procinfo) "localhost"
    pure ()
  | _ => pure ()

/-- Kill a process that was lost, if it is still found. -/
def mopup_own_process (procinfo : Procinfo) : Shell Unit := do
  let pid ← self.get_pid_for_process_base procinfo
  match pid with
  | none => pure ()
  | some pid => do
    self.kill_on_host procinfo.host "" [pid] ""
    let remaining ← self.get_pid_for_process_base procinfo
    onlyIf remaining.isSome (self.kill_on_host procinfo.host "-9 " [pid] " > /dev/null 2>&1")

/-- Kill what holds a socket at the port of a process that was lost. -/
def mopup_related_processes (procinfo : Procinfo) : Shell Unit := do
  let related_pids ← self.get_related_pids_for_process procinfo
  self.kill_on_host procinfo.host "" related_pids " > /dev/null 2>&1"
  let unkilled_related_pids ← self.get_related_pids_for_process procinfo
  onlyIf (unkilled_related_pids.length ≠ 0)
    (self.kill_on_host procinfo.host "-9 " unkilled_related_pids " > /dev/null 2>&1 ")

/-- Kill a process that was lost, and what is left of it. -/
def mopup_process_base (procinfo : Procinfo) : Shell Unit := do
  self.mopup_own_process procinfo
  onlyIf (self.machine.host_is_local procinfo.host = false) (self.mopup_ssh_client procinfo)
  self.mopup_related_processes procinfo

end ProcessManager

end DaqInterface
