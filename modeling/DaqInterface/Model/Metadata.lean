import DaqInterface.Library.Pattern
import DaqInterface.Model.Text

/-!
# The metadata of a run

`save_run_record_base` writes `metadata.txt`, and `fhiclize_metadata_file.awk` makes a FHiCL
document of it, one line after the other.
-/

namespace DaqInterface

open Pattern

/-! ## The logfiles -/

/-- The kinds of logfiles, in the order in which the awk program looks for their sections. -/
inductive LogKind
  | process_manager
  | boardreader
  | eventbuilder
  | routingmanager
  | datalogger
  | dispatcher
  deriving DecidableEq

namespace LogKind

/-- The kinds in the awk program. -/
def all : List LogKind :=
  [process_manager, boardreader, eventbuilder, routingmanager, datalogger, dispatcher]

/-- `logtuples`: the kinds in the order in which their sections are written. -/
def logtuples : List LogKind :=
  [process_manager, boardreader, eventbuilder, datalogger, dispatcher, routingmanager]

/-- The name of a kind in `metadata.txt`. -/
def title : LogKind → String
  | process_manager => "process manager"
  | boardreader => "boardreader"
  | eventbuilder => "eventbuilder"
  | routingmanager => "routingmanager"
  | datalogger => "datalogger"
  | dispatcher => "dispatcher"

/-- The parameter of a kind in the FHiCL document. -/
def key : LogKind → String
  | process_manager => "process_manager_logfiles"
  | boardreader => "boardreader_logfiles"
  | eventbuilder => "eventbuilder_logfiles"
  | routingmanager => "routingmanager_logfiles"
  | datalogger => "datalogger_logfiles"
  | dispatcher => "dispatcher_logfiles"

end LogKind

/-! ## Writing -/

/-- What is known about a run when its record is saved. -/
structure RunRecord where
  subconfigs_for_run : List String
  /-- The names of the components. -/
  daq_comp_list : List String
  hostname : String
  cwd : String
  /-- `$DAQINTERFACE_LOGFILE`. -/
  logfile : String
  /-- What the commit info file says about DAQInterface, or else its commit or its version. -/
  own_commit_info : String
  /-- The build info of each package, if it can be got. -/
  package_buildinfo_dict : Option (String → String)
  /-- The commit info or version of each package. -/
  package_commit_dict : List (String × String)
  process_management_method : String
  manage_processes : Bool
  log_filenames : LogKind → List String

namespace RunRecord

/-- The line of a component. -/
def component_line (component : String × ℕ) : List Char :=
  "Component #".toList ++ (toString component.2).toList ++ ": ".toList ++ component.1.toList

/-- The components, in the order in which they are written. -/
def components (r : RunRecord) : List String := r.daq_comp_list.insertionSort (· ≤ ·)

/-- The first line. -/
def config_line (r : RunRecord) : List Char :=
  "Config name: ".toList ++ (" ".intercalate r.subconfigs_for_run).toList

/-- What is written about the packages. -/
def packages (r : RunRecord) : List Char :=
  match r.package_buildinfo_dict with
  | none => []
  | some buildinfo =>
    (r.package_commit_dict.insertionSort fun a b => a.1 ≤ b.1).flatMap fun pkg =>
      pkg.2.toList ++ " ".toList ++ (buildinfo pkg.1).toList ++ "\n\n".toList

/-- The comment on the fields that follow. -/
def fields_comment : List Char :=
  "\n\n# Two possible sets of fields provided below for code info, ".toList ++
    "depending on if a git repo was available: \n".toList ++
    "# <git commit hash> <LoCs added on top of commit> ".toList ++
    "<LoCs removed on top of commit> <git commit comment> ".toList ++
    "<git commit time> <git branch> ".toList ++
    "<BuildInfo build time (if available)> <BuildInfo version (if available)>\n".toList ++
    "# <package version> ".toList ++
    "<BuildInfo build time (if available)> <BuildInfo version (if available)>\n\n".toList

/-- The text between the components and the logfiles, without its last newline. -/
def code_info (r : RunRecord) : List Char :=
  "DAQInterface directory: ".toList ++ r.hostname.toList ++ ":".toList ++ r.cwd.toList ++
    "\nDAQInterface logfile: ".toList ++ r.hostname.toList ++ ":".toList ++ r.logfile.toList ++
    fields_comment ++ r.own_commit_info.toList ++ " ".toList ++
    ((r.package_buildinfo_dict.map fun buildinfo => buildinfo "artdaq-daqinterface").getD
      "Build info not available").toList ++
    "\n\n".toList ++ r.packages ++ "\nprocess management method: ".toList ++
    r.process_management_method.toList

/-- The header of a section. -/
def header (kind : LogKind) : List Char := kind.title.toList ++ " logfiles: ".toList

/-- The section of a kind, with the newlines before it. -/
def log_section (r : RunRecord) (kind : LogKind) : List Char :=
  "\n\n".toList ++ header kind ++
    (r.log_filenames kind).flatMap fun filename => '\n' :: filename.toList

/-- The sections that are written. -/
def logtuples (r : RunRecord) : List LogKind := if r.manage_processes then LogKind.logtuples else []

/-- `metadata.txt`. -/
def metadata (r : RunRecord) : List Char :=
  r.config_line ++ "\n".toList ++
    (r.components.zipIdx.flatMap fun component => component_line component ++ "\n".toList) ++
    r.code_info ++ "\n".toList ++ r.logtuples.flatMap r.log_section ++ "\n".toList

end RunRecord

/-! ## Reading -/

/-- `\s` in an awk program. -/
def awk_space (c : Char) : Bool :=
  c == ' ' || c == '\t' || c == '\n' || c == '\x0b' || c == '\x0c' || c == '\r'

/-- `$1`: the text up to the first blank. -/
def first_field (line : List Char) : List Char :=
  let blank := fun c => c == ' ' || c == '\t' || c == '\n'
  (line.dropWhile blank).takeWhile fun c => !blank c

/-- `/^\s*#/`. -/
def is_awk_comment (line : List Char) : Bool := (line.dropWhile awk_space).head? == some '#'

/-- `/^\s*$/`. -/
def is_awk_blank (line : List Char) : Bool := line.all awk_space

/-- A text without special characters matches somewhere. -/
def word_found (word : String) (line : List Char) : Bool := decide (word.toList <:+: line)

/-- `/Component #[0-9]/`. -/
def names_component (line : List Char) : Bool :=
  ((row [text "Component #", char Char.isDigit]).search line).isSome

/-- What the program prints at once. -/
inductive Printed
  /-- A line. -/
  | line (text : List Char)
  /-- The array of the components. -/
  | components (names : List (List Char))
  /-- The array of some logfiles. -/
  | logfiles (kind : LogKind) (names : List (List Char))

/-- The elements of an array. -/
def quoted (names : List (List Char)) : List Char :=
  ", ".toList.intercalate (names.map fun name => "\"".toList ++ name ++ "\"".toList)

/-- The text that is printed. -/
def Printed.text : Printed → List Char
  | .line text => text ++ "\n".toList
  -- the bracket is closed behind the last component
  | .components [] => "components: [".toList
  | .components names => "components: [".toList ++ quoted names ++ "]\n".toList
  | .logfiles kind names =>
    "\n".toList ++ kind.key.toList ++ ": [".toList ++ quoted names ++ "]\n".toList

/-- The variables of the program, and what it has printed. -/
structure Fhiclizer where
  components : List (List Char)
  components_section_active : Bool
  /-- `process_managers`, `boardreaders` and so on. -/
  logfiles : LogKind → List (List Char)
  /-- `process_manager_section_active`, `boardreader_section_active` and so on. -/
  section_active : LogKind → Bool
  printed : List Printed

namespace Fhiclizer

/-- The start of the program. -/
def start : Fhiclizer := ⟨[], false, fun _ => [], fun _ => false, []⟩

/-- Print. -/
def print (s : Fhiclizer) (p : Printed) : Fhiclizer := { s with printed := s.printed ++ [p] }

/-- Print the components behind the last of them. -/
def close_components (line : List Char) (s : Fhiclizer) : Fhiclizer :=
  if s.components_section_active && !names_component line then
    { s.print (.components s.components) with components_section_active := false }
  else s

/-- The tests for the sections: a name is kept, and nothing else is done with its line; a
blank line ends a section. -/
def read_sections (line : List Char) : List LogKind → Fhiclizer → Bool × Fhiclizer
  | [], s => (false, s)
  | kind :: kinds, s =>
    if s.section_active kind then
      if is_awk_blank line then
        read_sections line kinds { s.print (.logfiles kind (s.logfiles kind)) with
          section_active := Function.update s.section_active kind false }
      else
        (true, { s with
          logfiles := Function.update s.logfiles kind (s.logfiles kind ++ [first_field line]) })
    else read_sections line kinds s

/-- What the part of a line before its colon stands for. -/
inductive Entry
  | renamed
  | component
  | commit
  | pmt_logfile
  | process_management_method
  | section_header (kind : LogKind)
  | other
  deriving DecidableEq

/-- The tests of the first part of a line, the colon included. -/
def entry_of (firstpart : List Char) : Entry :=
  if word_found "Config name" firstpart || word_found "DAQInterface start time" firstpart ||
      word_found "DAQInterface stop time" firstpart || word_found "Total events" firstpart then .renamed
  else if names_component firstpart then .component
  else if word_found "commit/version" firstpart then .commit
  else if word_found "pmt logfile" firstpart then .pmt_logfile
  else if word_found "process management method" firstpart then .process_management_method
  else
    match LogKind.all.find? fun kind => word_found (kind.title ++ " logfiles") firstpart with
    | some kind => .section_header kind
    | none => .other

/-- `substr($0, 1, RSTART)`, for a line with a colon. -/
def first_part (line : List Char) : List Char := line.takeWhile (· ≠ ':') ++ [':']

/-- `substr($0, RSTART+1)`, a blank or a plus at the start taken off. -/
def second_part (line : List Char) : List Char :=
  match line.dropWhile (· ≠ ':') with
  | _ :: ' ' :: rest => rest
  | _ :: '+' :: rest => rest
  | _ :: rest => rest
  | [] => []

/-- `gsub(" ", "_", text)`, or another set of characters. -/
def underscores (chars : List Char) (text : List Char) : List Char :=
  text.map fun c => if c ∈ chars then '_' else c

/-- `sub("commit/version", "commit_or_version", text)`. -/
def commit_or_version : List Char → List Char
  | [] => []
  | c :: cs =>
    if "commit/version".toList <+: c :: cs then
      "commit_or_version".toList ++ (c :: cs).drop "commit/version".length
    else c :: commit_or_version cs

/-- Print a parameter; what is no number is quoted. -/
def print_pair (firstpart secondpart : List Char) (s : Fhiclizer) : Fhiclizer :=
  if secondpart ≠ [] ∧ secondpart.all (fun c => c.isDigit || c == '.') then
    s.print (.line (firstpart ++ " ".toList ++ secondpart))
  else s.print (.line (firstpart ++ " \"".toList ++ secondpart ++ "\"".toList))

/-- A line that is neither a comment nor in a section. -/
def read_pair (line : List Char) (s : Fhiclizer) : Fhiclizer :=
  if ':' ∈ line then
    let firstpart := first_part line
    let secondpart := second_part line
    match entry_of firstpart with
    | .renamed => s.print_pair (underscores [' '] (firstpart.map Char.toLower)) secondpart
    | .component =>
      { s with components := s.components ++ [secondpart], components_section_active := true }
    | .commit =>
      s.print_pair (commit_or_version (underscores ['-', ' '] firstpart))
        (secondpart.map fun c => if c = '"' then ' ' else c)
    | .pmt_logfile =>
      s.print (.line ("pmt_logfiles_wildcard: \"".toList ++ secondpart ++ "\"".toList))
    | .process_management_method =>
      s.print (.line ("process_management_method: \"".toList ++ secondpart ++ "\"".toList))
    | .section_header kind =>
      { s with section_active := Function.update s.section_active kind true }
    | .other =>
      s.print_pair
        ((some_of fun c => c == '-' || c == ' ').sub (fun _ => ['_']) firstpart) secondpart
  else s

/-- What is done with a line. -/
def read_record (s : Fhiclizer) (line : List Char) : Fhiclizer :=
  if is_awk_comment line then s.print (.line line)
  else
    match read_sections line LogKind.all (s.close_components line) with
    | (true, s) => s
    | (false, s) => s.read_pair line

/-- The `END` block: the last line may be in the section of the dispatchers. -/
def finish (s : Fhiclizer) : Fhiclizer :=
  if s.section_active .dispatcher then
    s.print (.logfiles .dispatcher (s.logfiles .dispatcher))
  else s

end Fhiclizer

/-- The records of a text: its lines, where a newline at the end starts no further line. -/
def records (text : List Char) : List (List Char) :=
  let lines := splitOn '\n' text
  if lines.getLast? = some [] then lines.dropLast else lines

/-- `fhiclize_metadata_file.awk`. -/
def fhiclize_metadata (text : List Char) : List Printed :=
  ((records text).foldl Fhiclizer.read_record Fhiclizer.start).finish.printed

end DaqInterface
