import DaqInterface.Library.Dict
import DaqInterface.Model.ConfigFiles
import DaqInterface.Model.Shell

/-!
# Log files

After a launch the program finds out which file each artdaq process logs to, either by building its
name or by asking the hosts.  The names, with the hosts before them, are kept in one list for each
type of processes; `determine_logfilename` looks the name of a process up again, and at the start of
a run `softlink_logfiles` gives the files names that are easier to find.
-/

namespace DaqInterface

open Pattern

/-- What the search for log files reads. -/
structure LogInterface where
  procinfos : List Procinfo
  log_directory : String
  /-- What `partition_label_format`, if there is one, adds to each label. -/
  label_suffix : Except String String
  /-- The environment asks to build the names. -/
  deterministic_lognames : Bool
  /-- The environment variable `HOSTNAME`. -/
  HOSTNAME : String
  /-- The time stamp that the launch gave the processes. -/
  launch_log_timestamp : Option String
  /-- The short names that hosts told at the launch. -/
  short_hostnames : List (String × String)
  run_number : ℕ

/-- The log file of a process, on a host. -/
structure LogFile where
  procinfo : Procinfo
  full_hostname : String
  logfile : String
  deriving DecidableEq

/-- The name under which a log file is kept. -/
def LogFile.fulllogname (self : LogFile) : String := self.full_hostname ++ ":" ++ self.logfile

/-- The log files of each type of processes. -/
abbrev LogLists : Type := ProcType → List String

/-- The types in the order in which their lists are gone through. -/
def log_types : List ProcType :=
  [.BoardReader, .EventBuilder, .DataLogger, .Dispatcher, .RoutingManager]

/-- All log files. -/
def all_logfilenames (logs : LogLists) : List String := log_types.flatMap logs

/-- Keep the name of a log file. -/
def append_log_filename (logs : LogLists) (file : LogFile) : LogLists := fun proctype =>
  if proctype = file.procinfo.name then logs proctype ++ [file.fulllogname] else logs proctype

/-- The subdirectory for links to the log files of a type. -/
def log_subdir : ProcType → String
  | .BoardReader => "boardreader"
  | .EventBuilder => "eventbuilder"
  | .DataLogger => "datalogger"
  | .Dispatcher => "dispatcher"
  | .RoutingManager => "routingmanager"

/-- The one log file in whose name `/label-` occurs. -/
def determine_logfilename (logs : LogLists) (procinfo : Procinfo) : Except String String :=
  match (all_logfilenames logs).filter (contains ("/" ++ procinfo.label ++ "-")) with
  | [] => .ok "(LOGFILE UNDETERMINED)"
  | [logfilename] => .ok logfilename
  | _ => .error ("Unable to locate logfile for process \"" ++ procinfo.label ++
      "\" out of the following list of candidates: [" ++
      ", ".intercalate (all_logfilenames logs) ++
      "]; this may be due to incorrect assumptions made by DAQInterface about the format of the logfilenames. Please contact the artdaq-developers@fnal.gov mailing list")

/-- The label that the name of a log file begins with, up to the first dash. -/
def log_label (fulllogname : String) : List Char :=
  (splitOn '-' ((splitOn '/' fulllogname.toList).getLast?.getD [])).headD []

/-! ## Finding the files -/

/-- `^__DAQLOG__\d+__\s+(.+)$` -/
def re_daqlog : Pattern :=
  row [Pattern.text "__DAQLOG__", some_of Char.isDigit, Pattern.text "__", some_of isSpace,
    group (some_of fun c => c ≠ '\n')]

/-- `out.splitlines()`, with newlines between the lines. -/
def splitlines (out : List Char) : List (List Char) := (readlines out).map chomp

/-- The log files that a host told. -/
def parsed_logfiles (out : List Char) : List String :=
  (splitlines out).filterMap fun line =>
    match re_daqlog.at_start (strip line) with
    | some ([found], _) => some (String.ofList (strip found))
    | _ => none

namespace LogInterface

variable (self : LogInterface)

/-- The name of a host for others. -/
def full_hostname (host : String) : String := if host ≠ "localhost" then host else self.HOSTNAME

/-- The label of a process in the names of its log files. -/
def expected_label (procinfo : Procinfo) : Except String String :=
  self.label_suffix.map fun suffix => procinfo.label ++ suffix

/-- The name of the log file that a process was told to use. -/
def deterministic_logfile (timestamp : String) (procinfo : Procinfo) : Except String LogFile := do
  let expected_label ← self.expected_label procinfo
  match self.short_hostnames.lookup procinfo.host with
  | none => throw ("KeyError: " ++ procinfo.host)
  | some short =>
    let progname := expected_label ++ "-" ++ short ++ "-" ++ procinfo.port
    pure ⟨procinfo, self.full_hostname procinfo.host,
      self.log_directory ++ "/" ++ progname ++ "/" ++ progname ++ "-" ++ timestamp ++ ".log"⟩

/-- The first answer of a host that names a log file for each of its processes; `left` more are
waited for. -/
def await_logfiles (answer : ℕ → Completed) (processes : ℕ) : ℕ → Except String (List String)
  | 0 => .error "Error: there was a problem identifying the logfiles for at least some of the artdaq processes. This may be the result of you not having write access to the directories where the logfiles are meant to be written. Please scroll up to see further output."
  | left + 1 =>
    let proc := answer left
    if proc.returncode = 0 ∧ (parsed_logfiles proc.out).length = processes then
      .ok (parsed_logfiles proc.out)
    else await_logfiles answer processes left

/-- The log files of the processes of a host. -/
def logfiles_for_host (answer : ℕ → Completed) (host : String) : Except String (List LogFile) := do
  let procinfos_for_host := self.procinfos.filter fun procinfo => procinfo.host == host
  let _ ← procinfos_for_host.mapM self.expected_label
  let logfiles ← await_logfiles answer procinfos_for_host.length 5
  pure ((procinfos_for_host.zip logfiles).map fun (procinfo, logfile) =>
    ⟨procinfo, self.full_hostname host, logfile⟩)

/-- The log files of all processes, `answer` being what the hosts tell and `hosts` the order in which
they are ready. -/
def associated_logfiles (answer : String → ℕ → Completed) (hosts : List String) :
    Except String (List LogFile) :=
  match self.launch_log_timestamp with
  | some timestamp =>
    if self.deterministic_lognames ∧
        ∀ procinfo ∈ self.procinfos, (self.short_hostnames.lookup procinfo.host).isSome then
      self.procinfos.mapM (self.deterministic_logfile timestamp)
    else (hosts.mapM fun host => self.logfiles_for_host (answer host) host).map List.flatten
  | none => (hosts.mapM fun host => self.logfiles_for_host (answer host) host).map List.flatten

/-- Find the log files of all processes, keep their names and look each of them up. -/
def get_artdaq_log_filenames (answer : String → ℕ → Completed) (hosts : List String) :
    Except String LogLists := do
  let logfiles ← self.associated_logfiles answer hosts
  let logs := logfiles.foldl append_log_filename fun _ => []
  let _ ← self.procinfos.mapM (determine_logfilename logs)
  pure logs

/-! ## Links to the files -/

/-- The type of the last process whose label is a part of a text. -/
def proctype_of_label (label : List Char) : Option ProcType :=
  self.procinfos.foldl (fun proctype procinfo =>
    if procinfo.label.toList <:+: label then some procinfo.name else proctype) none

/-- The name of a link. -/
def softlink (proctype : ProcType) (label : List Char) : String :=
  self.log_directory ++ "/" ++ log_subdir proctype ++ "/run" ++ toString self.run_number ++ "-" ++
    String.ofList label ++ ".log"

/-- Add the link to a log file, as its target and its name, to the links of its host. -/
def add_softlink (links : List (String × List (String × String))) (fulllogname : String) :
    Except String (List (String × List (String × String))) :=
  let parts := splitOn ':' fulllogname.toList
  let host := String.ofList (parts.headD [])
  let logname := String.ofList parts.tail.flatten
  let label := log_label fulllogname
  match self.proctype_of_label label with
  | none => .error "Unknown process type \"\" found when soflinking logfiles"
  | some proctype =>
    .ok (Dict.assign host ((links.lookup host).getD [] ++
      [(logname, self.softlink proctype label)]) links)

/-- The links to make on each host, in this order; each one is made by `ln -s`. -/
def softlink_logfiles (logs : LogLists) : Except String (List (String × List (String × String))) :=
  (all_logfilenames logs).foldlM self.add_softlink []

end LogInterface

end DaqInterface
