import DaqInterface.Model.BootFile
import DaqInterface.Model.Parameters

/-!
# The versions of packages

`fill_package_versions` asks `spack` for the versions of packages that are not known yet.  What
the command writes to stderr is an error, with the exception of lines that are expected there:
these are removed from the list of lines by the loop that goes through it.
-/

namespace DaqInterface

open Pattern

/-- `get_setup_commands` without a file for the output. -/
def get_setup_commands : Option String → List String
  | none => []
  | some spackdir => ["export SPACK_DISABLE_LOCAL_CONFIG=true",
      ". " ++ spackdir ++ "/share/spack/setup-env.sh", "spack unload > /dev/null 2>&1"]

/-- What DAQInterface knows of the packages. -/
structure Packages where
  package_versions : List (String × String)
  spackdir : Option String
  daq_setup_script : String

/-- The exceptions of `fill_package_versions`, with their texts. -/
inductive PackageError
  /-- The command writes to stderr. -/
  | stderr (text : String)
  | other (text : String)
  deriving DecidableEq, Repr

/-! ## Lines of stderr -/

/-- `\d` -/
def re_digit : Pattern := char Char.isDigit

/-- `v\d_\d\d_\d\d` -/
def re_mrb_version : Pattern :=
  row [text "v", re_digit, text "_", re_digit, re_digit, text "_", re_digit, re_digit]

/-- What `mrb` says when it is set up. -/
def re_mrb_info : Pattern :=
  row [text "INFO: mrb ", re_mrb_version, text " requires cetmodules >= ", re_digit, text ".",
    re_digit, re_digit, text ".", re_digit, re_digit,
    text " to run: attempting to configure...", re_mrb_version, text " OK"]

/-- The lines that are no error: nothing, a package that cannot be set down, and what `mrb`
says. -/
def expected_line (line : List Char) : Bool :=
  strip line = [] || decide ("type: unsetup: not found".toList <:+: line) ||
    (re_mrb_info.search line).isSome

/-- `for line in stderrlines`, from a place on: the loop goes on with the next place, whatever has
been removed in front of it.  There are as many turns as there are lines at first. -/
def remove_expected : ℕ → ℕ → List (List Char) → List (List Char)
  | 0, _, stderrlines => stderrlines
  | turns + 1, place, stderrlines =>
    match stderrlines[place]? with
    | none => stderrlines
    | some line =>
      remove_expected turns (place + 1)
        (if expected_line line then stderrlines.erase line else stderrlines)

/-! ## Lines of stdout -/

/-- `^(a|b)\s+`, for names that contain no character with a meaning of its own. -/
def begins_with_package (needed_packages : List String) (line : List Char) : Bool :=
  needed_packages.any fun package =>
    package.toList <+: line && ((line.drop package.length).head?.any isSpace)

/-- `v[0-9]+_[0-9]+_[0-9]+.*` -/
def re_version : Pattern :=
  row [text "v", some_of Char.isDigit, text "_", some_of Char.isDigit, text "_",
    some_of Char.isDigit, many fun c => c ≠ '\n']

/-- One line of stdout. -/
def read_version (needed_packages : List String) (package_versions : List (String × String))
    (line : List Char) : Except PackageError (List (String × String)) :=
  if begins_with_package needed_packages line then
    match words (String.ofList line) with
    | package :: version :: _ =>
      if (re_version.search version.toList).isSome then
        .ok (Dict.assign package version package_versions)
      else
        .error (.other ("Error in fill_package_versions: the version of the package \"" ++
          package ++ "\" this function has determined, \"" ++ version ++
          "\", is not the expected v<int>_<int>_<int>optionalextension format"))
    | _ => .error (.other "ValueError: not enough values to unpack (expected 2, got 1)")
  else .ok package_versions

/-! ## The whole -/

namespace Packages

variable (self : Packages)

/-- The packages whose versions are not known yet. -/
def needed_packages (packages : List String) : List String :=
  packages.filter fun package => !(self.package_versions.map Prod.fst).contains package

/-- The command that prints the versions. -/
def command (packages : List String) : String :=
  match self.spackdir with
  | none => ""
  | some spackdir =>
    ";".intercalate (get_setup_commands (some spackdir)) ++ " ; . " ++ self.daq_setup_script ++
      "; spack find | sed -r -n 's/^(" ++ "|".intercalate (self.needed_packages packages) ++
      ")@(\\S+).*/\\1 \\2/p'"

/-- The text of the exception for lines on stderr. -/
def stderr_text (cmd : String) (stderrlines : List (List Char)) : String :=
  "Error in fill_package_versions: the command \"" ++ cmd ++ "\" yields output to stderr:\n\"" ++
    String.ofList stderrlines.flatten ++ "\""

/-- What is made of the output of the command. -/
def read_output (packages : List String) (cmd : String) (out err : List Char) :
    Except PackageError (List (String × String)) :=
  let stdoutlines := splitOn '\n' (strip out)
  let stderrlines := splitOn '\n' (strip err)
  let stderrlines := remove_expected stderrlines.length 0 stderrlines
  if stderrlines.length > 0 then .error (.stderr (stderr_text cmd stderrlines))
  else if stdoutlines.length = 0 then
    .error (.other ("Error in fill_package_versions: the command \"" ++ cmd ++
      "\" yields no output to stdout"))
  else stdoutlines.foldlM (read_version (self.needed_packages packages)) self.package_versions

/-- `fill_package_versions`: the versions known afterwards, where `communicate` gives what a
command writes to stdout and to stderr. -/
def fill_package_versions (communicate : String → String × String) (packages : List String) :
    Except PackageError (List (String × String)) :=
  if self.needed_packages packages = [] then .ok self.package_versions
  else
    let cmd := self.command packages
    if cmd ≠ "" then
      let output := communicate cmd
      self.read_output packages cmd output.1.toList output.2.toList
    else .ok self.package_versions

end Packages

end DaqInterface
