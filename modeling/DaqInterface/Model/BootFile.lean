import DaqInterface.Model.Bookkeeping

/-!
# The boot file

`get_boot_info_base` reads the boot file line by line, `check_boot_info` checks what was
read, and `do_boot_impl` adds the requested BoardReaders and sorts the processes.  What is
left then is a `Booted`.
-/

namespace DaqInterface

open Pattern

/-- What a boot depends on besides the boot file and the requested components. -/
structure BootSettings where
  /-- The environment variables. -/
  environ : List (String × String)
  /-- The partition. -/
  partition_number : ℤ
  /-- `os.path.exists`. -/
  exists_path : String → Bool
  /-- The characters that `\w` matches in a regular expression, the letters of all languages
  included. -/
  isWord : Char → Bool

/-- The requested components: the arguments of each BoardReader by its label. -/
structure Components where
  entries : List (String × List String)
  /-- It is a dictionary. -/
  keys_nodup : (entries.map Prod.fst).Nodup

/-- A process of which nothing is known but what the boot file or the list of components says. -/
structure BootProcinfo where
  name : String
  rank : ℕ
  host : String
  port : String
  label : String
  subsystem : String
  /-- No restriction, or the processors on which the process may run. -/
  allowed_processors : Option String
  target : String
  prepend : String
  /-- The port in the boot file or the list of components: nothing reads it, it only records
  whether `port` is a default. -/
  given_port : Option String
  deriving DecidableEq

/-! ## Numbers and variables -/

/-- `int(text)`, where the text may have a sign, and underscores between the digits. -/
def int_of_signed_text (text : List Char) : Except String ℤ :=
  let text := strip text
  let negative := text.head? = some '-'
  let digits := if negative ∨ text.head? = some '+' then text.drop 1 else text
  let parts := splitOn '_' digits
  if parts.all fun part => part ≠ [] ∧ part.all Char.isDigit then
    let n : ℤ := digits_value 10 parts.flatten
    .ok (if negative then -n else n)
  else .error "ValueError: invalid literal for int() with base 10"

example : int_of_signed_text " -1_000\n".toList = .ok (-1000) := by decide +kernel

/-- `int(os.environ[name])`. -/
def BootSettings.environ_int (settings : BootSettings) (name : String) : Except String ℤ :=
  getitem settings.environ name >>= fun value => int_of_signed_text value.toList

/-- The port of a process for which none is given. -/
def BootSettings.default_port (settings : BootSettings) (rank : ℕ) : Except String ℤ := do
  let base ← settings.environ_int "ARTDAQ_BASE_PORT"
  let ports_per_partition ← settings.environ_int "ARTDAQ_PORTS_PER_PARTITION"
  pure (base + 100 + settings.partition_number * ports_per_partition + rank)

/-- A port that is given, or else the default. -/
def BootSettings.port (settings : BootSettings) (rank : ℕ) (given_port : Option String) :
    Except String String :=
  match given_port with
  | some port => .ok port
  | none => (settings.default_port rank).map fun port : ℤ => toString port

/-- `(.*)`: a part of a line, as long as possible. -/
def part_of_line : Pattern := group (many fun c => c ≠ '\n')

def re_environ_var : Pattern :=
  row [part_of_line,
    group (row [text "$", char fun c => c == '\x7b' || c.isAlpha,
      many fun c => c.isAlphanum || c == '\x7d' || c == '_']),
    part_of_line]

/-- `var.strip("$\x7b\x7d")`. -/
def strip_dollar (var : List Char) : List Char :=
  let drop := List.dropWhile fun c => c == '$' || c == '\x7b' || c == '\x7d'
  (drop (drop var).reverse).reverse

/-- `expand_environment_variable_in_string`: the last variable of a line is replaced by its
value. -/
def expand_environment_variable_in_string (environ : List (String × String)) (line : List Char) :
    Except String (List Char) :=
  match re_environ_var.at_start line with
  | some ([before, var, after], _) =>
    match environ.lookup (String.ofList (strip_dollar var)) with
    | some value =>
      .ok (before ++ value.toList ++ after ++ if line.getLast? = some '\n' then ['\n'] else [])
    | none => .error ("Expanding line \"" ++ String.ofList (strip line) ++
        "\", unable to find definition for environment variable \"" ++
        String.ofList (strip_dollar var) ++ "\"")
  | _ => .ok line

/-! ## Reading lines -/

/-- Where reading the boot file has got to. -/
structure Reading where
  /-- What is known of the next process; `none` is what must still be found. -/
  memberDict : List (String × Option String)
  /-- What is known of the next subsystem. -/
  subsystemDict : List (String × Option String)
  num_expected_processes : ℕ
  num_actual_processes : ℕ
  daq_setup_script : Option String
  request_address : Option String
  debug_level : ℤ
  manage_processes : Bool
  disable_recovery : Bool
  /-- The parameters that are overwritten in all documents. -/
  bootfile_fhicl_overwrites : List (String × String)
  subsystems : List (String × Subsystem)
  procinfos : List BootProcinfo

/-- Nothing has been read; the attributes are as `reset_variables` leaves them. -/
def Reading.start : Reading where
  memberDict := [("name", none), ("label", none), ("host", none), ("port", some "not set"),
    ("fhicl", none), ("subsystem", some "not set"), ("allowed_processors", some "not set"),
    ("target", some "not set"), ("prepend", some "not set")]
  subsystemDict := [("id", none), ("source", some "not set"), ("destination", some "not set"),
    ("fragmentMode", some "not set")]
  num_expected_processes := 0
  num_actual_processes := 0
  daq_setup_script := none
  request_address := none
  debug_level := 10000
  manage_processes := true
  disable_recovery := false
  bootfile_fhicl_overwrites := []
  subsystems := []
  procinfos := []

/-- The value of a key that is there and known. -/
def value (d : List (String × Option String)) (key : String) : String :=
  ((d.lookup key).join).getD ""

/-- `\S+` -/
def nonspaces : Pattern := some_of fun c => !isSpace c

/-- The first group of a match at the start of a line. -/
def stated (p : Pattern) (line : List Char) : Option (List Char) :=
  (p.at_start line).bind fun found => found.1.head?

/-- The parameter of a line, up to the next white space. -/
def stated_word (name : String) (line : List Char) : Option String :=
  (stated (row [spaces, parameter name, group nonspaces]) line).map String.ofList

/-- The value of a parameter that is true or false. -/
def stated_bool (name : String) (line : List Char) : Option Bool :=
  if ((row [spaces, parameter name, char fun c => c == 't' || c == 'T',
      text "rue"]).at_start line).isSome then some true
  else if ((row [spaces, parameter name, char fun c => c == 'f' || c == 'F',
      text "alse"]).at_start line).isSome then some false
  else none

/-- A line with one of the parameters of the program; on other lines nothing is done. -/
def read_setting (line : List Char) (s : Reading) : Except String (Option Reading) :=
  if let some script := stated_word "DAQ setup script" line then
    .ok (some { s with daq_setup_script := some script })
  else if let some address := stated_word "request_address" line then
    .ok (some { s with request_address := some address })
  else if let some level := stated_word "debug level" line then
    (int_of_signed_text level.toList).map fun level => some { s with debug_level := level }
  else if let some b := stated_bool "manage processes" line then
    .ok (some { s with manage_processes := b })
  else if let some b := stated_bool "disable recovery" line then
    .ok (some { s with disable_recovery := b })
  else .ok none

/-- `word in line`. -/
def occurs (word : String) (line : List Char) : Bool := decide (word.toList <:+: line)

def re_subsystem (isWord : Char → Bool) : Pattern :=
  row [spaces, group (some_of isWord), some_of isSpace, group nonspaces, spaces, text ":", spaces,
    group nonspaces]

def re_member (isWord : Char → Bool) : Pattern :=
  row [spaces, group (some_of isWord), some_of isSpace, group nonspaces, spaces, text ":", spaces,
    group (alt (row [text "\"", many fun c => c ≠ '"', text "\""]) nonspaces)]

def re_overwrite : Pattern :=
  row [spaces, group nonspaces, spaces, text ":", spaces, group nonspaces]

/-- A value for a key of `subsystemDict`: several sources are put one behind the other. -/
def assign_subsystem (key new : String) (subsystemDict : List (String × Option String)) :
    List (String × Option String) :=
  if key ≠ "source" ∨ value subsystemDict "source" = "not set" then
    Dict.assign key (some new) subsystemDict
  else Dict.assign key (some (value subsystemDict "source" ++ " " ++ new)) subsystemDict

/-- A line about a subsystem. -/
def read_subsystem (isWord : Char → Bool) (line : List Char) (s : Reading) :
    Except String Reading :=
  if occurs "Subsystem" line then
    match (re_subsystem isWord).at_start line with
    | some ([_, key, new], _) =>
      .ok { s with subsystemDict :=
              assign_subsystem (String.ofList key) (String.ofList new) s.subsystemDict }
    | _ => .error ("Exception in DAQInterface: problem parsing boot file at line \"" ++
        String.ofList line ++ "\"")
  else .ok s

/-- A line about a process. -/
def read_member (isWord : Char → Bool) (line : List Char) (s : Reading) : Reading :=
  if occurs "EventBuilder" line || occurs "DataLogger" line || occurs "Dispatcher" line ||
      occurs "RoutingManager" line then
    match (re_member isWord).at_start line with
    | some ([name, key, new], _) =>
      { s with
        memberDict := Dict.assign (String.ofList key) (some (String.ofList new))
          (Dict.assign "name" (some (String.ofList name)) s.memberDict)
        num_expected_processes := s.num_expected_processes +
          if String.ofList key = "host" then 1 else 0 }
    | _ => s
  else s

/-- A line with a parameter that is overwritten in all documents. -/
def read_overwrite (line : List Char) (s : Reading) : Reading :=
  match re_overwrite.at_start line with
  | some ([key, new], _) =>
    { s with bootfile_fhicl_overwrites :=
        Dict.assign (String.ofList key) (String.ofList new) s.bootfile_fhicl_overwrites }
  | _ => s

/-! ## Complete information -/

/-- `text.split()`. -/
def words (text : String) : List String :=
  ((text.toList.splitOnP isSpace).filter (· ≠ [])).map String.ofList

/-- The subsystem that `subsystemDict` describes. -/
def described_subsystem (subsystemDict : List (String × Option String)) : Subsystem where
  sources :=
    if value subsystemDict "source" ≠ "not set" then words (value subsystemDict "source") else []
  destination :=
    if value subsystemDict "destination" ≠ "not set" then some (value subsystemDict "destination")
    else none
  fragmentMode :=
    !(contains "False" (value subsystemDict "fragmentMode") ||
      contains "false" (value subsystemDict "fragmentMode"))

/-- Nothing is known of the next subsystem, other keys aside. -/
def reset_subsystem (subsystemDict : List (String × Option String)) :
    List (String × Option String) :=
  Dict.assign "fragmentMode" (some "not set") (Dict.assign "destination" (some "not set")
    (Dict.assign "source" (some "not set") (Dict.assign "id" none subsystemDict)))

/-- Declare the next subsystem, if all about it is known. -/
def complete_subsystem (s : Reading) : Reading :=
  if s.subsystemDict.all fun (_, v) => v.isSome then
    { s with
      subsystems := Dict.assign (value s.subsystemDict "id") (described_subsystem s.subsystemDict)
        s.subsystems
      subsystemDict := reset_subsystem s.subsystemDict }
  else s

/-- `none` for "not set". -/
def given (d : List (String × Option String)) (key : String) : Option String :=
  if value d key = "not set" then none else some (value d key)

/-- Nothing is known of the next process. -/
def reset_member (memberDict : List (String × Option String)) : List (String × Option String) :=
  memberDict.map fun (varname, _) =>
    if varname ∈ ["port", "subsystem", "allowed_processors", "target", "prepend"] then
      (varname, some "not set")
    else (varname, none)

/-- Append the next process, if all about it is known. -/
def complete_process (settings : BootSettings) (components : ℕ) (s : Reading) :
    Except String Reading :=
  if s.memberDict.all fun (varname, v) => v.isSome || varname == "fhicl" then
    let rank := components + (s.num_actual_processes + 1) - 1
    (settings.port rank (given s.memberDict "port")).map fun port =>
      { s with
        num_actual_processes := s.num_actual_processes + 1
        procinfos := s.procinfos ++
          [{ name := value s.memberDict "name"
             rank := rank
             host := value s.memberDict "host"
             port := port
             label := value s.memberDict "label"
             subsystem := (given s.memberDict "subsystem").getD "1"
             allowed_processors := given s.memberDict "allowed_processors"
             target := value s.memberDict "target"
             prepend := (given s.memberDict "prepend").getD ""
             given_port := given s.memberDict "port" }]
        memberDict := reset_member s.memberDict }
  else .ok s

/-! ## The boot file -/

/-- A line that is a comment. -/
def isComment (line : List Char) : Bool := ((row [spaces, text "#"]).at_start line).isSome

/-- A line behind which the information on a process or a subsystem should be complete. -/
def isBreak (last : Bool) (line : List Char) : Bool := isComment line || line.all isSpace || last

/-- What is done with a line that is not a setting. -/
def read_description (settings : BootSettings) (components : ℕ) (last : Bool) (line : List Char)
    (s : Reading) : Except String Reading :=
  read_subsystem settings.isWord line s >>= fun s =>
    let s := read_overwrite line (read_member settings.isWord line s)
    if isBreak last line then complete_process settings components (complete_subsystem s)
    else .ok s

/-- What is done with one line of the boot file, perhaps the last. -/
def read_line (settings : BootSettings) (components : ℕ) (last : Bool) (line : List Char)
    (s : Reading) : Except String Reading :=
  if isComment line then .ok s
  else do
    let line ← expand_environment_variable_in_string settings.environ line
    let setting ← read_setting line s
    match setting with
    | some s' => pure s'
    | none => read_description settings components last line s

/-- The one subsystem of a boot file that declares none. -/
def Subsystem.default : Subsystem := ⟨[], none, true⟩

/-- `get_boot_info_base`, for a number of requested components. -/
def get_boot_info (settings : BootSettings) (components : ℕ) (content : String) :
    Except String Reading := do
  let lines := readlines content.toList
  let s ← lines.zipIdx.foldlM
    (fun s (line, i) => read_line settings components (i == lines.length - 1) line s) Reading.start
  if s.num_expected_processes ≠ s.num_actual_processes then
    throw "An inconsistency exists in the boot file; a host was defined in the file for more artdaq processes than there's a complete set of info for"
  else if s.subsystems = [] then pure { s with subsystems := [("1", Subsystem.default)] }
  else pure s

/-! ## Checks -/

/-- A subsystem must be among the sources of its destination. -/
def check_destination (subsystems : List (String × Subsystem)) (entry : String × Subsystem) :
    Except String Unit :=
  match entry.2.destination with
  | none => .ok ()
  | some dest => do
    let info ← getitem subsystems dest
    if entry.1 ∈ info.sources then pure ()
    else throw ("Inconsistent subsystem configuration detected! Subsystem " ++ entry.1 ++
      " has destination " ++ dest ++ ", but subsystem " ++ dest ++ " doesn't have " ++ entry.1 ++
      " in its list of sources!")

/-- `check_boot_info`. -/
def check_boot_info (settings : BootSettings) (s : Reading) : Except String Unit :=
  match s.daq_setup_script with
  | none => .error "Error: \"DAQ setup script\" undefined in DAQInterface boot file"
  | some script =>
    let routingmanagers := s.procinfos.countP fun p => p.name = "RoutingManager"
    if !settings.exists_path script then .error (script ++ " script not found")
    else if s.subsystems.length < routingmanagers then
      .error (toString routingmanagers ++ " RoutingManager processes defined in the boot file provided; you can't have more than the number of subsystems (" ++ toString s.subsystems.length ++ ")")
    else if ¬ (s.procinfos.map BootProcinfo.label).Nodup then
      .error "At least one of your desired artdaq processes has a duplicate label; please check the boot file to ensure that each process gets a unique label"
    else s.subsystems.forM (check_destination s.subsystems)

/-! ## The BoardReaders -/

/-- A BoardReader, where the port "-1" and the processors "-1" stand for none given. -/
def boardreader_with (settings : BootSettings) (rank : ℕ) (compname host port subsystem
    allowed_processors prepend : String) : Except String BootProcinfo :=
  let given_port := if port = "-1" then none else some port
  (settings.port rank given_port).map fun port =>
    { name := "BoardReader"
      rank := rank
      host := host
      port := port
      label := compname
      subsystem := subsystem
      allowed_processors := if allowed_processors = "-1" then none else some allowed_processors
      target := "EventBuilder"
      prepend := prepend
      given_port := given_port }

/-- The BoardReader of a component. -/
def boardreader (settings : BootSettings) (component : String × List String) (rank : ℕ) :
    Except String BootProcinfo :=
  let make := boardreader_with settings rank component.1
  match component.2 with
  -- the host is then the list itself, and no address can be made of it
  | [_] => .error "TypeError: can only concatenate str (not \"list\") to str"
  | [host, port] => make host port "1" "-1" ""
  | [host, port, subsystem] => make host port subsystem "-1" ""
  | [host, port, subsystem, allowed_processors] => make host port subsystem allowed_processors ""
  | [host, port, subsystem, allowed_processors, prepend] =>
    make host port subsystem allowed_processors prepend
  | _ => .error ("There's an unexpected number of elements which were passed for component \"" ++
      component.1 ++ "\" in the setdaqcomps call")

/-! ## Sorting -/

/-- The types of processes, in the order in which the data goes through them. -/
def processes_upstream_to_downstream : List String :=
  ["BoardReader", "EventBuilder", "DataLogger", "Dispatcher", "RoutingManager"]

/-- `int(self.port)`. -/
def BootProcinfo.int_port (p : BootProcinfo) : Except String ℤ := int_of_signed_text p.port.toList

/-- `__lt__` can be evaluated: types are compared by their places in the list, processes of one
type by their ports. -/
def BootProcinfo.comparable (p q : BootProcinfo) : Bool :=
  if p.name ≠ q.name then
    p.name ∈ processes_upstream_to_downstream && q.name ∈ processes_upstream_to_downstream
  else p.int_port.isOk && q.int_port.isOk

/-- `__lt__`. -/
def BootProcinfo.lt (p q : BootProcinfo) : Bool :=
  if p.name ≠ q.name then
    processes_upstream_to_downstream.idxOf p.name < processes_upstream_to_downstream.idxOf q.name
  else p.int_port.toOption.getD 0 < q.int_port.toOption.getD 0

/-- `self.procinfos.sort()`: whatever the order in which a sort compares, it compares
neighbours in the result, so it fails where any two processes cannot be compared. -/
def sort_procinfos (procs : List BootProcinfo) : Except String (List BootProcinfo) :=
  if procs.Pairwise fun p q => p.comparable q then
    .ok (procs.insertionSort fun p q => !q.lt p)
  else .error "ValueError"

/-! ## The processes of a boot -/

/-- The processes and subsystems with which a boot goes on to launch processes. -/
structure Booted where
  procinfos : List BootProcinfo
  subsystems : List (String × Subsystem)
  deriving DecidableEq

/-- The BoardReaders and the processes of the boot file, sorted. -/
def build_procinfos (settings : BootSettings) (components : Components)
    (procs : List BootProcinfo) : Except String (List BootProcinfo) := do
  let readers ← components.entries.zipIdx.mapM fun (component, rank) =>
    boardreader settings component rank
  sort_procinfos (procs ++ readers)

/-- `do_boot_impl`, from the boot file to the sorted processes. -/
def boot_processes (settings : BootSettings) (components : Components) (content : String) :
    Except String Booted :=
  if components.entries = [] then .error "No components appear to have been requested"
  else do
    let info ← get_boot_info settings components.entries.length content
    check_boot_info settings info
    let procs ← build_procinfos settings components info.procinfos
    pure ⟨procs, info.subsystems⟩

end DaqInterface
