import DaqInterface.Model.BootFile
import Mathlib.Logic.Function.Basic

/-!
# The settings file

`read_settings` sets the attributes of the program to their defaults, changes them line by
line, and checks what it has got.  A line is given to the first of a row of branches whose
test it passes.
-/

namespace DaqInterface

open Pattern

/-- The attributes that `read_settings` sets. -/
inductive SettingName
  | log_directory
  | record_directory
  | spackdir
  | package_hashes_to_save
  | boardreader_timeout
  | eventbuilder_timeout
  | datalogger_timeout
  | dispatcher_timeout
  | routingmanager_timeout
  | boardreader_priorities
  | boardreader_priorities_on_config
  | boardreader_priorities_on_start
  | boardreader_priorities_on_stop
  | max_fragment_size_bytes
  | max_configurations_to_list
  | disable_unique_rootfile_labels
  | disable_private_network_bookkeeping
  | use_messageviewer
  | use_messagefacility
  | timing_trace_enabled
  | advanced_memory_usage
  | strict_fragment_id_mode
  | fake_messagefacility
  | data_directory_override
  | default_transfer
  | br_transfer
  | eb_transfer
  | dl_transfer
  | allowed_processors
  | partition_label_format
  | max_num_launch_procs_checks
  | launch_procs_wait_time
  | attempt_existing_pid_kill
  | enable_run_record_database
  | run_record_database_name
  | run_record_database_host
  | run_record_database_port
  | run_record_database_user
  | run_record_database_pwd
  | run_record_database_schema
  | run_record_database_prefix
  deriving DecidableEq

/-- The values of the attributes. -/
inductive SettingValue
  /-- `None` -/
  | unset
  | text (s : String)
  | number (n : ℤ)
  | truth (b : Bool)
  | list (l : List String)
  deriving DecidableEq

/-- The attributes. -/
abbrev Attributes : Type := SettingName → SettingValue

/-! ## Conversions -/

/-- `int(text, 16)`, where the text may have a sign, `0x`, and underscores between the
digits. -/
def int_of_signed_hex (text : List Char) : Except String ℤ :=
  let negative := text.head? = some '-'
  let digits := if negative ∨ text.head? = some '+' then text.drop 1 else text
  let marked := digits.take 2 = ['0', 'x'] ∨ digits.take 2 = ['0', 'X']
  let digits := if marked then digits.drop 2 else digits
  let digits := if marked ∧ digits.head? = some '_' then digits.drop 1 else digits
  let parts := splitOn '_' digits
  if parts.all fun part => part ≠ [] ∧ part.all isHexDigit then
    let n : ℤ := digits_value 16 parts.flatten
    .ok (if negative then -n else n)
  else .error "ValueError: invalid literal for int() with base 16"

/-- `re.search(r"[Tt]rue", token)` -/
def isTrue (token : String) : Bool := contains "true" token || contains "True" token

/-- `re.search(r"[Ff]alse", token)` -/
def isFalse (token : String) : Bool := contains "false" token || contains "False" token

/-- What a branch makes of the last word of a line. -/
inductive Conversion
  /-- The word itself. -/
  | word
  /-- A number. -/
  | integer
  /-- A number of bytes, perhaps hexadecimal. -/
  | fragment_size
  /-- True or false, and nothing else. -/
  | truth (key : String)
  /-- The setting can be turned off only. -/
  | turned_off
  /-- The setting is true unless it is turned off. -/
  | traced
  /-- The setting can be turned on only. -/
  | turned_on
  /-- A directory, with a slash at its end. -/
  | directory

/-- The number of bytes that a token stands for. -/
def fragment_size_of (path token : String) : Except String ℤ := do
  let size ←
    if token.toList.take 2 ≠ ['0', 'x'] then int_of_signed_text token.toList
    else int_of_signed_hex (token.toList.drop 2)
  if size % 8 ≠ 0 then
    .error ("Value for \"max_fragment_size_bytes\" in settings file \"" ++ path ++
      "\" should be a multiple of 8")
  else .ok size

/-- The value that is assigned for a token, if any. -/
def Conversion.convert (path : String) : Conversion → String → Except String (Option SettingValue)
  | word, token => .ok (some (.text token))
  | integer, token => (int_of_signed_text token.toList).map fun n => some (.number n)
  | fragment_size, token => (fragment_size_of path token).map fun n => some (.number n)
  | truth key, token =>
    if isTrue token then .ok (some (.truth true))
    else if isFalse token then .ok (some (.truth false))
    else .error (key ++ " must be set to either [Tt]rue or [Ff]alse in settings file \"" ++ path ++
      "\"")
  | turned_off, token => .ok (if isFalse token then some (.truth false) else none)
  | traced, token => .ok (some (.truth (!isFalse token)))
  | turned_on, token => .ok (if isTrue token then some (.truth true) else none)
  | directory, token =>
    .ok (some (.text (if token.toList.getLast? ≠ some '/' then token ++ "/" else token)))

/-- `line.split()[-1]` -/
def last_token (line : List Char) : Except String String :=
  match (words (String.ofList line)).getLast? with
  | some token => .ok token
  | none => .error "IndexError: list index out of range"

/-! ## Branches -/

/-- `(.*)` -/
def re_rest : Pattern := group (many fun c => c ≠ '\n')

/-- `.*\[(.*)\].*` -/
def re_package_hashes : Pattern :=
  row [many fun c => c ≠ '\n', text "[", re_rest, text "]", many fun c => c ≠ '\n']

/-- `[ _]` -/
def re_gap : Pattern := char fun c => c == ' ' || c == '_'

/-- The start of `boardreader_priorities` in a line. -/
def re_priorities : Pattern := row [spaces, text "boardreader", re_gap, text "priorities"]

/-- `self.package_hashes_to_save.append(package)` for the packages of a line. -/
def read_package_hashes (name : SettingName) (path : String) (line : List Char) (s : Attributes) :
    Except String Attributes :=
  match re_package_hashes.search line with
  | some [packages] =>
    if strip packages = [] then .ok s
    else
      let hashes := (splitOn ',' packages).map fun package =>
        String.ofList (package.filter fun c => c ≠ '"' ∧ c ≠ ' ')
      let saved := match s name with
        | .list l => l
        | _ => []
      .ok (Function.update s name (.list (saved ++ hashes)))
  | _ => .error ("Unable to parse package_hashes_to_save line in the settings file, " ++ path)

/-- The priorities that a line gives for an attribute. -/
def read_priorities (name : SettingName) (p : Pattern) (path : String) (line : List Char)
    (s : Attributes) : Except String Attributes :=
  match p.at_start line with
  | some ([priorities], _) =>
    .ok (Function.update s name (.list (words (String.ofList priorities))))
  | _ => .error ("Incorrectly formatted line \"" ++ String.ofList (strip line) ++ "\" in " ++ path)

/-- What a branch does with a line. -/
inductive SettingAction
  /-- One value, the last word of the line. -/
  | single (conversion : Conversion)
  | package_hashes
  | priorities (p : Pattern)

/-- A branch of `read_settings`. -/
structure SettingBranch where
  /-- The attribute. -/
  name : SettingName
  /-- The names of the setting in the file, in their form with underscores. -/
  keys : List String
  /-- The condition of the branch. -/
  test : List Char → Bool
  action : SettingAction

/-- A key with blanks for its underscores. -/
def blanked (key : String) : String := key.map fun c => if c = '_' then ' ' else c

/-- `"a_key" in line or "a key" in line`, for each of the keys. -/
def mentions (keys : List String) (line : List Char) : Bool :=
  keys.any fun key => occurs key line || occurs (blanked key) line

/-- A branch for a setting with one value. -/
def single_setting (name : SettingName) (keys : List String) (conversion : Conversion) : SettingBranch :=
  ⟨name, keys, mentions keys, .single conversion⟩

/-- `^\s*routing_?manager[ _]timeout` -/
def re_routingmanager_timeout : Pattern :=
  row [spaces, text "routing", alt (text "_") empty, text "manager", re_gap, text "timeout"]

/-- The branches, in the order of their tests. -/
def settings_branches : List SettingBranch :=
  [single_setting .log_directory ["log_directory"] .word,
    single_setting .record_directory ["record_directory"] .word,
    single_setting .spackdir ["spack_root_for_bash_scripts"] .word,
    ⟨.package_hashes_to_save, ["package_hashes_to_save"], mentions ["package_hashes_to_save"],
      .package_hashes⟩,
    single_setting .boardreader_timeout ["boardreader_timeout"] .integer,
    single_setting .eventbuilder_timeout ["eventbuilder_timeout"] .integer,
    single_setting .datalogger_timeout ["datalogger_timeout"] .integer,
    single_setting .dispatcher_timeout ["dispatcher_timeout"] .integer,
    ⟨.routingmanager_timeout, ["routingmanager_timeout", "routing_manager_timeout"],
      fun line => (re_routingmanager_timeout.at_start line).isSome, .single .integer⟩,
    ⟨.boardreader_priorities, ["boardreader_priorities"], mentions ["boardreader_priorities:"],
      .priorities (row [re_priorities, spaces, text ":", spaces, re_rest])⟩,
    ⟨.boardreader_priorities_on_config, ["boardreader_priorities_on_config"],
      mentions ["boardreader_priorities_on_config:"],
      .priorities (row [re_priorities, re_gap, text "on", re_gap, text "config:", spaces,
        re_rest])⟩,
    ⟨.boardreader_priorities_on_start, ["boardreader_priorities_on_start"],
      mentions ["boardreader_priorities_on_start:"],
      .priorities (row [re_priorities, re_gap, text "on", re_gap, text "start:", spaces,
        re_rest])⟩,
    ⟨.boardreader_priorities_on_stop, ["boardreader_priorities_on_stop"],
      mentions ["boardreader_priorities_on_stop:"],
      .priorities (row [re_priorities, re_gap, text "on", re_gap, text "stop:", spaces,
        re_rest])⟩,
    single_setting .max_fragment_size_bytes ["max_fragment_size_bytes"] .fragment_size,
    single_setting .max_configurations_to_list ["max_configurations_to_list"] .integer,
    single_setting .disable_unique_rootfile_labels ["disable_unique_rootfile_labels"]
      (.truth "disable_unique_rootfile_labels"),
    single_setting .disable_private_network_bookkeeping ["disable_private_network_bookkeeping"]
      (.truth "disable_private_network_bookkeeping"),
    single_setting .use_messageviewer ["use_messageviewer"] .turned_off,
    single_setting .use_messagefacility ["use_messagefacility"] .turned_off,
    single_setting .timing_trace_enabled ["timing_trace_enabled"] .traced,
    single_setting .advanced_memory_usage ["advanced_memory_usage"] .turned_on,
    single_setting .strict_fragment_id_mode ["strict_fragment_id_mode"] .turned_on,
    single_setting .fake_messagefacility ["fake_messagefacility"] .turned_on,
    single_setting .data_directory_override ["data_directory_override"] .directory,
    single_setting .default_transfer ["transfer_plugin_to_use"] .word,
    single_setting .br_transfer ["transfer_plugin_from_brs"] .word,
    single_setting .eb_transfer ["transfer_plugin_from_ebs"] .word,
    single_setting .dl_transfer ["transfer_plugin_from_dls"] .word,
    single_setting .allowed_processors ["allowed_processors"] .word,
    single_setting .partition_label_format ["partition_label_format"] .word,
    single_setting .max_num_launch_procs_checks ["max_launch_checks"] .integer,
    single_setting .launch_procs_wait_time ["launch_procs_wait_time"] .integer,
    single_setting .attempt_existing_pid_kill ["kill_existing_processes"] .turned_on,
    single_setting .enable_run_record_database ["run_record_database_enabled"] .turned_on,
    single_setting .run_record_database_name ["run_record_database_name"] .word,
    single_setting .run_record_database_host ["run_record_database_host"] .word,
    single_setting .run_record_database_port ["run_record_database_port"] .word,
    single_setting .run_record_database_user ["run_record_database_user"] .word,
    single_setting .run_record_database_pwd ["run_record_database_pwd", "run_record_database_password"]
      .word,
    single_setting .run_record_database_schema ["run_record_database_schema"] .word,
    single_setting SettingName.run_record_database_prefix ["run_record_database_prefix"] .word]

/-- The body of a branch. -/
def SettingBranch.read (branch : SettingBranch) (path : String) (line : List Char) (s : Attributes) :
    Except String Attributes :=
  match branch.action with
  | .single conversion => do
    let token ← last_token line
    match ← conversion.convert path token with
    | some value => pure (Function.update s branch.name value)
    | none => pure s
  | .package_hashes => read_package_hashes branch.name path line s
  | .priorities p => read_priorities branch.name p path line s

/-! ## Lines -/

/-- `^(.*)#.*` -/
def re_same_line_comment : Pattern := row [re_rest, text "#", many fun c => c ≠ '\n']

/-- A line without the comment at its end. -/
def without_comment (line : List Char) : List Char :=
  match re_same_line_comment.at_start line with
  | some ([before], _) => before
  | _ => line

/-- What is done with one line of the settings file. -/
def read_settings_line (environ : List (String × String)) (path : String) (line : List Char)
    (s : Attributes) : Except String Attributes := do
  let line ← expand_environment_variable_in_string environ line
  let line := strip (without_comment line)
  if isComment line then pure s
  else
    match settings_branches.find? fun branch => branch.test line with
    | some branch => branch.read path line s
    | none => pure s

/-! ## The file -/

/-- `os.environ.get(a) or os.environ.get(b) or default` -/
def environ_or (environ : List (String × String)) (names : List String) (default : String) :
    SettingValue :=
  .text (((names.filterMap fun name => environ.lookup name).find? fun v => v ≠ "").getD default)

/-- The attributes before the first line is read. -/
def default_settings (environ : List (String × String)) (s : Attributes) : Attributes
  | .log_directory | .record_directory | .spackdir | .max_fragment_size_bytes
  | .data_directory_override | .allowed_processors | .partition_label_format => .unset
  | .package_hashes_to_save => .list []
  | .boardreader_timeout | .eventbuilder_timeout | .datalogger_timeout | .dispatcher_timeout
  | .routingmanager_timeout => .number 30
  | .use_messageviewer | .use_messagefacility | .timing_trace_enabled => .truth true
  | .advanced_memory_usage | .strict_fragment_id_mode | .fake_messagefacility
  | .attempt_existing_pid_kill | .disable_unique_rootfile_labels
  | .disable_private_network_bookkeeping => .truth false
  | .max_configurations_to_list => .number 1000000
  | .max_num_launch_procs_checks => .number 10
  | .launch_procs_wait_time => .number 40
  | .enable_run_record_database =>
    .truth (((environ.lookup "RUN_RECORD_DATABASE_ENABLED").map isTrue).getD false)
  | .run_record_database_name =>
    environ_or environ ["OTSDAQ_RUNINFO_DATABASE_NAME", "RUN_RECORD_DATABASE_NAME"] "run_info"
  | .run_record_database_host =>
    environ_or environ ["OTSDAQ_RUNINFO_DATABASE_HOST", "RUN_RECORD_DATABASE_HOST"] ""
  | .run_record_database_port =>
    environ_or environ ["OTSDAQ_RUNINFO_DATABASE_PORT", "RUN_RECORD_DATABASE_PORT"] ""
  | .run_record_database_user =>
    environ_or environ ["OTSDAQ_RUNINFO_DATABASE_USER", "RUN_RECORD_DATABASE_USER"] ""
  | .run_record_database_pwd =>
    environ_or environ ["OTSDAQ_RUNINFO_DATABASE_PWD", "RUN_RECORD_DATABASE_PWD"] ""
  | .run_record_database_schema =>
    environ_or environ ["OTSDAQ_RUNINFO_DATABASE_SCHEMA", "RUN_RECORD_DATABASE_SCHEMA"] "test"
  | SettingName.run_record_database_prefix =>
    environ_or environ ["RUN_RECORD_DATABASE_PREFIX"] "artdaq"
  -- These are only set when the program starts.
  | name => s name

/-- The wait for the processes is at least a second for each check. -/
def bounded_wait (s : Attributes) : Attributes :=
  match s .launch_procs_wait_time, s .max_num_launch_procs_checks with
  | .number wait, .number checks =>
    if wait < checks then Function.update s .launch_procs_wait_time (.number checks) else s
  | _, _ => s

/-- The names under which the settings that are missing are reported. -/
def missing_vars (s : Attributes) : List String :=
  (if s .log_directory = .unset then ["log_directory"] else []) ++
    (if s .record_directory = .unset then ["record_directory"] else []) ++
    (if s .spackdir = .unset then ["spack_root_for_bash_scripts"] else []) ++
    if s .advanced_memory_usage ≠ .truth true ∧ s .max_fragment_size_bytes = .unset then
      ["max_fragment_size_bytes"]
    else []

/-- The transfer plugin of an attribute is the general one if it has none of its own. -/
def default_plugin (name : SettingName) (s : Attributes) : Attributes :=
  if s name = .unset then Function.update s name (s .default_transfer) else s

/-- The general priorities are those of each transition. -/
def general_priorities (s : Attributes) : Attributes :=
  if s .boardreader_priorities ≠ .unset then
    Function.update
      (Function.update
        (Function.update s .boardreader_priorities_on_config (s .boardreader_priorities))
        .boardreader_priorities_on_start (s .boardreader_priorities))
      .boardreader_priorities_on_stop (s .boardreader_priorities)
  else s

/-- What is checked and filled in behind the last line. -/
def check_settings (path : String) (s : Attributes) : Except String Attributes :=
  let s := bounded_wait s
  if s .advanced_memory_usage = .truth true ∧ s .max_fragment_size_bytes ≠ .unset then
    .error ("Since advanced_memory_usage is set to true in the settings file (" ++ path ++
      "), max_fragment_size_bytes must NOT be set (i.e., delete it or comment it out)")
  else if missing_vars s ≠ [] then
    .error ("Unable to parse the following variable(s) meant to be set in the settings file, " ++
      path ++ ": " ++ String.intercalate ", " (missing_vars s))
  else if s .advanced_memory_usage ≠ .truth true ∧ s .max_fragment_size_bytes = .number 0 then
    .error ("max_fragment_size_bytes isn't set in the settings file, " ++ path ++
      "; this needs to be set since advanced_memory_usage isn't set to true")
  else if s .boardreader_priorities ≠ .unset ∧
      (s .boardreader_priorities_on_config ≠ .unset ∨
        s .boardreader_priorities_on_start ≠ .unset ∨
        s .boardreader_priorities_on_stop ≠ .unset) then
    .error ("Both \"boardreader_priorities\" and at least one of " ++
      "\"boardreader_priorities_on_config\", \"boardreader_priorities_on_start\", and " ++
      "\"boardreader_priorities_on_stop\" are defined in " ++ path ++
      "; this is not allowed. For further information, take a look at " ++
      "\"The settings file reference\" in the DAQInterface Manual")
  else
    .ok (default_plugin .dl_transfer (default_plugin .eb_transfer (default_plugin .br_transfer
      (general_priorities s))))

/-- `read_settings`, for the text of the settings file, if there is one. -/
def read_settings (environ : List (String × String)) (file : String → Option (List Char))
    (s : Attributes) : Except String Attributes := do
  let path ← getitem environ "DAQINTERFACE_SETTINGS"
  match file path with
  | none => .error ("Unable to find settings file \"" ++ path ++ "\"")
  | some document =>
    let s ← (readlines document).foldlM (fun s line => read_settings_line environ path line s)
      (default_settings environ s)
    check_settings path s

end DaqInterface
