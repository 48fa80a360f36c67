import DaqInterface.Model.ConfigFiles
import DaqInterface.Model.Parameters
import DaqInterface.Model.Process

/-!
# Lost processes

`init_process_requirements` reads at boot how many processes with which labels a run needs.
While the program waits for commands, `check_proc_exceptions` and `check_proc_heartbeats` take lost
processes out of `procinfos`, and `throw_exception_if_losing_process_violates_requirements` decides
whether the run goes on.
-/

namespace DaqInterface

open Pattern

/-- The file named by `DAQINTERFACE_PROCESS_REQUIREMENTS_LIST`. -/
structure RequirementsFile where
  name : String
  /-- Its content, if it exists. -/
  content : Option String

/-- What the checks of the processes depend on. -/
structure WatchSettings where
  /-- `re.search(regexp, label)`, or the exception for an expression that is none. -/
  re_search : String → String → Except String Bool
  requirements_list : Option RequirementsFile
  /-- What the names of the processes have behind their labels. -/
  partition_label : String

/-- An entry of `overriding_process_requirements`. -/
structure Requirement where
  regexp : String
  original_count : ℤ
  minimum_count : ℤ
  current_count : ℤ
  deriving DecidableEq

/-! ## The requirements -/

/-- The number of processes whose labels match. -/
def count_matching (settings : WatchSettings) (regexp : String) : List Procinfo → Except String ℕ
  | [] => .ok 0
  | p :: procinfos => do
    let found ← settings.re_search regexp p.label
    let count ← count_matching settings regexp procinfos
    pure (if found then count + 1 else count)

/-- The literal `0.499999`. -/
def almost_half : ℚ := Double.round (499999 / 1000000)

/-- `int(round(absolute_count * fraction + 0.499999))`, where no fraction stands for infinity. -/
def round_up (absolute_count : ℕ) (fraction : Option ℚ) : Except String ℤ :=
  let sum : Option ℚ := do
    let count ← Double.of_rat absolute_count
    let product ← Double.of_rat (count * (← fraction))
    Double.of_rat (product + almost_half)
  match sum with
  | some x => .ok (Double.round_half_even x)
  | none =>
    if fraction = none ∧ absolute_count = 0 then
      .error "ValueError: cannot convert float NaN to integer"
    else .error "OverflowError: cannot convert float infinity to integer"

/-- `num_processes_required_by_fraction`. -/
def num_processes_required_by_fraction (settings : WatchSettings) (procinfos : List Procinfo)
    (regexp : String) (fraction : Option ℚ) : Except String ℤ :=
  count_matching settings regexp procinfos >>= fun absolute_count =>
    round_up absolute_count fraction

/-- `^\s*(\S+)\s+([\d\.]+)\s+(\d+)\s*$`, without the end. -/
def re_requirement : Pattern :=
  row [spaces, group (some_of fun c => !isSpace c), some_of isSpace,
    group (some_of fun c => c.isDigit || c == '.'), some_of isSpace, group (some_of Char.isDigit),
    spaces]

/-- The groups of a match that goes to the end of a line. -/
def on_whole_line (p : Pattern) (line : List Char) : Option (List (List Char)) :=
  ((p.ways line).find? fun m => m.2 = [] ∨ m.2 = ['\n']).map Prod.fst

/-- `float(text)`, for digits and points; no number stands for infinity. -/
def float_of_text (text : List Char) : Except String (Option ℚ) :=
  match decimal_value text with
  | some value => .ok (Double.of_rat value)
  | none => .error "ValueError: could not convert string to float"

/-- The requirement of one line of the file. -/
def read_requirement (settings : WatchSettings) (filename : String) (procinfos : List Procinfo)
    (line : List Char) : Except String Requirement :=
  let line := line.takeWhile (· ≠ '#')
  match on_whole_line re_requirement line with
  | some [regexp_to_match, fraction, count] => do
    let regexp_to_match := String.ofList regexp_to_match
    let fraction_of_matching_required ← float_of_text fraction
    let count_of_matching_required : ℤ := digits_value 10 count
    let required ← num_processes_required_by_fraction settings procinfos regexp_to_match
      fraction_of_matching_required
    let strictest_count_of_matching_required :=
      if required > count_of_matching_required then required else count_of_matching_required
    let starting_count_of_matching ←
      num_processes_required_by_fraction settings procinfos regexp_to_match (some 1)
    if starting_count_of_matching < strictest_count_of_matching_required then
      throw ("Logic on line \"" ++ String.ofList line ++ "\" of " ++ filename ++
        " requires you need at least " ++ toString strictest_count_of_matching_required ++
        " processes with a label matching \"" ++ regexp_to_match ++ "\", but only " ++
        toString starting_count_of_matching ++ " are requested for the run")
    else
      pure ⟨regexp_to_match, starting_count_of_matching, strictest_count_of_matching_required,
        starting_count_of_matching⟩
  | _ => .error ("Error in file " ++ filename ++ ": line \"" ++ String.ofList line ++
      "\" does not parse as \"<process label regexp> <process fraction required> " ++
      "<process count required>\"")

/-- A line that is blank or a comment. -/
def states_nothing (line : List Char) : Bool :=
  line.all isSpace || (line.dropWhile isSpace).head? == some '#'

/-- `init_process_requirements`. -/
def init_process_requirements (settings : WatchSettings) (procinfos : List Procinfo) :
    Except String (List Requirement) :=
  match settings.requirements_list with
  | none => .ok []
  | some file =>
    match file.content with
    | none => .error ("The file \"" ++ file.name ++ "\" referred to by the environment variable " ++
        "DAQINTERFACE_PROCESS_REQUIREMENTS_LIST doesn't appear to exist")
    | some content =>
      ((readlines content.toList).filter fun line => !states_nothing line).mapM
        (read_requirement settings file.name procinfos)

/-! ## Losing a process -/

/-- The program between two checks. -/
structure Watch where
  procinfos : List Procinfo
  overriding_process_requirements : List Requirement
  procs_which_already_caused_connection_refused : List String
  /-- Has an exception been thrown? -/
  exception : Bool
  /-- `self.state(self.name)`. -/
  state : String
  /-- The processes that `mopup_process` was called for and those whose loss was held against the
  requirements: nothing reads them, they only record the calls. -/
  mopped_up : List Procinfo
  lost : List Procinfo

/-- The loop over the requirements: does one match, and what they are then. -/
def count_loss (settings : WatchSettings) (procinfo : Procinfo) :
    List Requirement → Except String (Bool × List Requirement)
  | [] => .ok (false, [])
  | requirement :: requirements => do
    let found ← settings.re_search requirement.regexp procinfo.label
    if found then
      let current_count := requirement.current_count - 1
      if current_count < requirement.minimum_count then
        throw ("Loss of process " ++ procinfo.label ++ " violates at least one of the requirements in "
          ++ ((settings.requirements_list.map RequirementsFile.name).getD "") ++
          "; scroll up for more details")
      else do
        let (_, rest) ← count_loss settings procinfo requirements
        pure (true, { requirement with current_count := current_count } :: rest)
    else do
      let (matched, rest) ← count_loss settings procinfo requirements
      pure (matched, requirement :: rest)

/-- `process_description`: what a lost process was, where a run cannot go on without it. -/
def process_description (procinfos : List Procinfo) (procinfo : Procinfo) :
    Except String (Option String) :=
  if procinfo.name = .BoardReader then .ok (some "BoardReader")
  else
    match procinfo.fhicl_used with
    | none => .error "TypeError: argument of type 'NoneType' is not iterable"
    | some document =>
      if fhicl_writes_root_file document then .ok (some "process that writes data to disk")
      else if procinfo.name = .EventBuilder then
        if procinfos.any fun pi => pi.name = .RoutingManager then
          let eventbuilder_procinfos := procinfos.filter fun pi => pi.name = .EventBuilder
          if eventbuilder_procinfos.length = 0 ∨ eventbuilder_procinfos.length = 1 ∧
              (eventbuilder_procinfos.head?.map Procinfo.label) = some procinfo.label then
            .ok (some "final remaining EventBuilder")
          else .ok none
        else .ok (some "EventBuilder in a run with no RoutingManager")
      else .ok none

/-- `throw_exception_if_losing_process_violates_requirements`, for a process that is no longer
among the others. -/
def throw_exception_if_losing_process_violates_requirements (settings : WatchSettings)
    (procinfo : Procinfo) (w : Watch) : Except String Watch := do
  let (process_matches_requirements_regexp, requirements) ←
    count_loss settings procinfo w.overriding_process_requirements
  let w := { w with overriding_process_requirements := requirements, lost := w.lost ++ [procinfo] }
  if process_matches_requirements_regexp then pure w
  else do
    let description ← process_description w.procinfos procinfo
    match description with
    | some _ => throw ("Loss of process " ++ procinfo.label ++ " violates one of DAQInterface's " ++
        "default requirements; scroll up for more details. You can override this behavior by " ++
        "adding a rule to the file referred to by the DAQINTERFACE_PROCESS_REQUIREMENTS_LIST " ++
        "environment variable")
    | none => pure w

/-! ## The checks -/

/-- What comes of asking a process for its status. -/
inductive StatusReply
  | returned (state : String)
  /-- `[Errno 111] Connection refused`. -/
  | refused
  /-- `[Errno 113] No route to host`. -/
  | no_route
  | timeout
  | other (text : String)

/-- The loop of `check_proc_exceptions` behind the first processes: it returns at the first
process that answers. -/
def check_answers (settings : WatchSettings) (status : Procinfo → StatusReply) (all_ok : Bool) :
    List Procinfo → List Procinfo → Watch → Except String (Watch × Option Bool)
  | _, [], w => .ok (w, none)
  | before, procinfo :: after, w =>
    match status procinfo with
    | .refused =>
      if procinfo.label ∈ w.procs_which_already_caused_connection_refused then
        .error ("Error: artdaq process \"%s\" has repeatedly returned \"[Errno 111] Connection " ++
          "refused\" when queried; this most likely means it's died")
      else check_answers settings status false (before ++ [procinfo]) after
        { w with procs_which_already_caused_connection_refused :=
            w.procs_which_already_caused_connection_refused ++ [procinfo.label] }
    | .no_route => .error ("Error: an \"[Errno 113] No route to host\" exception was thrown when " ++
        "attempting to query artdaq process " ++ procinfo.label ++ " at " ++ procinfo.host ++ ":" ++
        procinfo.port ++ "; this likely means there's an XML-RPC connection issue between this " ++
        "host and " ++ procinfo.host)
    | .timeout => check_answers settings status false (before ++ [procinfo]) after w
    | .other text => .error text
    | .returned state =>
      let procinfo := { procinfo with lastreturned := state, state := state }
      if state = "Error" then
        (throw_exception_if_losing_process_violates_requirements settings procinfo
          { w with procinfos := before ++ after, mopped_up := w.mopped_up ++ [procinfo] }).map
            fun w => (w, some false)
      else .ok ({ w with procinfos := before ++ procinfo :: after }, some all_ok)

/-- `check_proc_exceptions`; nothing is returned where no process answers. -/
def Watch.check_proc_exceptions (settings : WatchSettings) (status : Procinfo → StatusReply)
    (w : Watch) : Except String (Watch × Option Bool) :=
  if w.exception then .ok (w, some false) else check_answers settings status true [] w.procinfos w

/-- The loop over the processes to remove. -/
def remove_procinfos (settings : WatchSettings) : List Procinfo → Watch → Except String Watch
  | [], w => .ok w
  | procinfo :: procinfos_to_remove, w =>
    if procinfo ∈ w.procinfos then
      throw_exception_if_losing_process_violates_requirements settings procinfo
          { w with procinfos := w.procinfos.erase procinfo } >>=
        remove_procinfos settings procinfos_to_remove
    else .error "ValueError: list.remove(x): x not in list"

/-- `check_proc_heartbeats_base`, for the hosts in the order in which a set lists them, and the
labels of the processes found on each. -/
def Watch.check_proc_heartbeats (settings : WatchSettings) (hosts : List String)
    (labels_of_found_processes : String → List String) (requireSuccess : Bool) (w : Watch) :
    Except String (Watch × List Procinfo) :=
  let isFound := fun procinfo : Procinfo =>
    decide (procinfo.label ++ settings.partition_label ∈ labels_of_found_processes procinfo.host)
  let checked := hosts.flatMap fun host => w.procinfos.filter fun procinfo => procinfo.host = host
  let found_processes := checked.filter isFound
  let is_all_ok := checked.all isFound
  let procinfos_to_remove := if requireSuccess then checked.filter fun p => !isFound p else []
  let w := { w with mopped_up := w.mopped_up ++ procinfos_to_remove }
  if !is_all_ok && requireSuccess then
    if w.state = "running" then
      (remove_procinfos settings procinfos_to_remove w).map fun w => (w, found_processes)
    else .error ("\nProcess(es) " ++ ", ".intercalate (procinfos_to_remove.map fun procinfo =>
        "\"" ++ procinfo.label ++ "\"") ++ " died or found in Error state")
  else if is_all_ok && found_processes.length ≠ w.procinfos.length then .error "AssertionError"
  else .ok (w, found_processes)

end DaqInterface
