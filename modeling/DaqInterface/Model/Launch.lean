import DaqInterface.Library.Dict
import DaqInterface.Model.Packages
import DaqInterface.Model.ProcessManager
import DaqInterface.Model.Routers

/-!
# The launch of the processes

`launch_procs_base` goes through the processes and collects for each host the commands that prepare
it and, in the background, one command for each of its processes.  The commands of a host are given
to it by a thread of its own.  What a process is launched with is what `ps` shows of it later, so
the names and numbers in these commands are those by which the processes are found again.
-/

namespace DaqInterface

open Pattern Program

/-! ## The commands -/

/-- The arguments behind `-c`, by which a process knows its port, its rank and its name. -/
def commander_args (port rank application_name partition_number : String) : String :=
  "id: " ++ port ++ " commanderPluginType: xmlrpc rank: " ++ rank ++ " application_name: " ++
    application_name ++ " partition_number: " ++ partition_number

/-- What the launch reads. -/
structure Launcher extends ProcessManager where
  spackdir : Option String
  daq_setup_script : String
  log_directory : String
  /-- The environment variable `ARTDAQ_DAQINTERFACE_DIR`. -/
  ARTDAQ_DAQINTERFACE_DIR : String
  /-- The name and the encoded content of the messagefacility file. -/
  messagefacility_fhicl_filename : String
  messagefacility_fhicl_b64 : String
  launch_log_timestamp : String
  /-- `date_and_time_filename()`, when the first process of a host is come to. -/
  date_and_time_filename : String → String
  /-- `partition_label_format % partition`, or nothing. -/
  label_suffix : String
  /-- The processors for all processes. -/
  allowed_processors : Option String
  /-- The attributes `prepend` and `allowed_processors` of a process. -/
  prepend_of : Procinfo → String
  allowed_processors_of : Procinfo → Option String

/-- What is collected for a host. -/
structure HostLaunch where
  launch_attempt_file : String
  launch_commands_to_run_on_host : List String
  launch_commands_to_run_on_host_background : List String
  deriving DecidableEq

namespace Launcher

variable (self : Launcher)

/-- `get_setup_commands` with a file for the output. -/
def get_setup_commands_to (log_file : String) : List String :=
  match self.spackdir with
  | none => []
  | some spackdir => ["export SPACK_DISABLE_LOCAL_CONFIG=true",
      ". " ++ spackdir ++ "/share/spack/setup-env.sh >> " ++ log_file ++ " 2>&1",
      "spack unload > /dev/null 2>&1"]

/-- The file for the output of the launch on a host; the second one takes it until the log
directory exists. -/
def launch_attempt_name (host : String) : String :=
  "launch_attempt_" ++ host ++ "_" ++ self.USER ++ "_partition" ++
    self.DAQINTERFACE_PARTITION_NUMBER ++ "_" ++ self.date_and_time_filename host

/-- The directories for the log files. -/
def log_subdirs : List String :=
  ["pmt", "boardreader", "eventbuilder", "dispatcher", "datalogger", "routingmanager"]

/-- The commands that prepare a host. -/
def prepare_host (host : String) : HostLaunch :=
  let launch_attempt_file := self.log_directory ++ "/pmt/" ++ self.launch_attempt_name host
  let tmp_launch_attempt_file := "/tmp/" ++ self.launch_attempt_name host
  { launch_attempt_file := launch_attempt_file
    launch_commands_to_run_on_host :=
      ["set +C"] ++ self.get_setup_commands_to tmp_launch_attempt_file ++
        ["source " ++ self.daq_setup_script ++ " for_running >> " ++ tmp_launch_attempt_file ++
            " 2>&1 ",
          "mkdir -p -m 0775 " ++ self.log_directory] ++
        (log_subdirs.map fun subdir => "mkdir -p -m 0775 " ++ self.log_directory ++ "/" ++ subdir) ++
        ["mv " ++ tmp_launch_attempt_file ++ " " ++ launch_attempt_file,
          "echo " ++ self.messagefacility_fhicl_b64 ++ " | base64 -d > " ++
            self.messagefacility_fhicl_filename,
          "export ARTDAQ_LOG_ROOT=" ++ self.log_directory,
          "export ARTDAQ_LOG_FHICL=" ++ self.messagefacility_fhicl_filename,
          "export ARTDAQ_LOG_TIMESTAMP=" ++ self.launch_log_timestamp,
          "echo __SHORTHOST__$(hostname -s)__",
          "which boardreader >> " ++ launch_attempt_file ++ " 2>&1 ",
          self.ARTDAQ_DAQINTERFACE_DIR ++ "/bin/mopup_shmem.sh " ++
            self.DAQINTERFACE_PARTITION_NUMBER ++ " --force >> " ++ launch_attempt_file ++ " 2>&1"]
    launch_commands_to_run_on_host_background := [] }

/-- The command that starts a process. -/
def base_launch_cmd (procinfo : Procinfo) : String :=
  let base_launch_cmd := strip_quotes (self.prepend_of procinfo) ++ " " ++
    bootfile_name_to_execname procinfo.name ++ " -c \"" ++
    commander_args procinfo.port (toString procinfo.rank) (procinfo.label ++ self.label_suffix)
      self.DAQINTERFACE_PARTITION_NUMBER ++ "\""
  match self.allowed_processors_of procinfo with
  | some processors => "taskset --cpu-list " ++ processors ++ " " ++ base_launch_cmd
  | none =>
    match self.allowed_processors with
    | some processors => "taskset --cpu-list " ++ processors ++ " " ++ base_launch_cmd
    | none => base_launch_cmd

/-- The same in the background, with a file for the output. -/
def launch_cmd (launch_attempt_file : String) (procinfo : Procinfo) : String :=
  self.base_launch_cmd procinfo ++ " >> " ++ launch_attempt_file ++ " 2>&1 & "

/-! ## What is collected -/

/-- `localhost` is replaced by the name of the machine. -/
def named_host (procinfo : Procinfo) : Procinfo :=
  if procinfo.host = "localhost" then { procinfo with host := self.machine.get_short_hostname }
  else procinfo

/-- The commands for one more process. -/
def collect (plan : List (String × HostLaunch)) (procinfo : Procinfo) :
    List (String × HostLaunch) :=
  let known := (plan.lookup procinfo.host).getD (self.prepare_host procinfo.host)
  Dict.assign procinfo.host
    { known with
      launch_commands_to_run_on_host_background :=
        known.launch_commands_to_run_on_host_background ++
          [self.launch_cmd known.launch_attempt_file procinfo] } plan

/-- The hosts in the order in which they are come to, with their commands. -/
def launch_plan : List (String × HostLaunch) :=
  (self.procinfos.map self.named_host).foldl self.collect []

/-- The threads see the processes under the names that their hosts have now. -/
def manager : ProcessManager :=
  { self.toProcessManager with procinfos := self.procinfos.map self.named_host }

/-- The threads of `launch_procs_base`, by their hosts. -/
def launch_threads (date : String) : List (String × Shell (Option String)) :=
  self.launch_plan.map fun entry =>
    (entry.1, self.manager.launch_procs_on_host date entry.1
      entry.2.launch_commands_to_run_on_host entry.2.launch_commands_to_run_on_host_background)

end Launcher

end DaqInterface
