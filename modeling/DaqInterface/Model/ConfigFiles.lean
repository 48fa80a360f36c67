import DaqInterface.Model.Process

/-!
# Preparation of the FHiCL documents

The documents of the processes are prepared in two places: in a thread that the boot
starts (`overlapped_documents`) and, when that was not done, in `do_config` itself
(`sequential_documents`).  Both obtain the files of the subconfigurations, look for the
document of each process, let `fhicl-dump` reformat it and do the bookkeeping; the
second one also refuses repeated file names, expands `#include`, gives the root files
of the event builders and data loggers different names and asks `check_config`.
-/

namespace DaqInterface

/-! ## Files -/

/-- What is found under a path. -/
inductive FileEntry
  | text (contents : List Char)
  | unreadable
  deriving DecidableEq

/-- The configuration files. -/
structure ConfigTree where
  /-- There is a directory `common_code`. -/
  common_code : Bool
  /-- Copying one more subconfiguration after others: its directories, or the exception. -/
  copytree : List String → String → Except String (List String)
  /-- `os.walk` over the copies: the directories with the names of their files. -/
  walk : List String → List (String × List String)
  /-- What is found under a path, if anything. -/
  file_at : String → Option FileEntry
  /-- The number of nested calls after which the interpreter gives up. -/
  recursion_limit : ℕ

/-- What both preparations apply to the documents they found. -/
structure Tools where
  /-- `fhicl-dump` on one document. -/
  fhicl_dump : String → Option String
  /-- The bookkeeping: the new documents of the processes. -/
  bookkeeping : List Procinfo → List String → Except String (List String)
  /-- The check that an experiment may define, on the prepared documents. -/
  check_config : List String → Bool

/-- The files obtained for a list of subconfigurations. -/
structure ConfigInfo where
  /-- The subconfigurations that were copied. -/
  subconfigs : List String
  /-- The directories with the names of their files, in the order of `os.walk`. -/
  walk : List (String × List String)
  /-- The directories searched for included files. -/
  ffp : List String
  deriving DecidableEq

/-- `get_config_info` also reads `common_code` where that exists. -/
def with_common_code (src : ConfigTree) (subconfigs : List String) : List String :=
  if src.common_code ∧ "common_code" ∉ subconfigs then subconfigs ++ ["common_code"]
  else subconfigs

/-- Copy the subconfigurations one after the other, collecting their directories. -/
def copy_subconfigs (src : ConfigTree) : List String → List String → Except String (List String)
  | _, [] => .ok []
  | copied, subconfig :: rest => do
    let dirs ← src.copytree copied subconfig
    let others ← copy_subconfigs src (copied ++ [subconfig]) rest
    pure (dirs ++ others)

/-- Obtain the files of the subconfigurations. -/
def get_config_info (src : ConfigTree) (subconfigs : List String) :
    Except String ConfigInfo := do
  let subconfigs := with_common_code src subconfigs
  let ffp ← copy_subconfigs src [] subconfigs
  pure ⟨subconfigs, src.walk subconfigs, ffp⟩

/-! ## The document of one process -/

/-- The file names under which the document of a process may be found. -/
def matching_filenames (p : Procinfo) : List String :=
  (p.label ++ ".fcl") :: (if p.name = .BoardReader then [p.label ++ "_hw_cfg.fcl"] else [])

/-- The paths under which the document of a process is found, in the order of the walk. -/
def matching_paths (walk : List (String × List String)) (p : Procinfo) : List String :=
  walk.flatMap fun (dirname, filenames) =>
    (filenames.filter fun filename => filename ∈ matching_filenames p).map fun filename =>
      dirname ++ "/" ++ filename

/-- `open(path).read()`. -/
def read_file (src : ConfigTree) (path : String) : Except String (List Char) :=
  match src.file_at path with
  | some (.text contents) => .ok contents
  | some .unreadable => .error ("unable to read " ++ path)
  | none => .error ("No such file or directory: " ++ path)

/-- The overlapped preparation reads every file it finds and keeps the last one. -/
def raw_document (src : ConfigTree) (walk : List (String × List String)) (p : Procinfo) :
    Except String (List Char) := do
  let texts ← (matching_paths walk p).mapM (read_file src)
  match texts.getLast? with
  | some text => pure text
  | none => throw ("No FHiCL found for " ++ p.label)

/-! ## Included files -/

/-- A line with `#include` behind another `#` that starts it. -/
def is_commented_include (line : List Char) : Bool :=
  match line.dropWhile isSpace with
  | '#' :: rest => decide ("#include".toList <:+: rest)
  | _ => false

/-- The part of a text before its last `"`, if there is one. -/
def before_last_quote : List Char → Option (List Char)
  | [] => none
  | c :: cs =>
    match before_last_quote cs with
    | some part => some (c :: part)
    | none => if c = '"' then some [] else none

/-- The file that a line `#include "file"` names. -/
def included_file (line : List Char) : Option String :=
  let rest := line.dropWhile isSpace
  if "#include".toList <+: rest then
    let rest := rest.drop "#include".length
    match rest.takeWhile isSpace, rest.dropWhile isSpace with
    | _ :: _, '"' :: quoted =>
      match before_last_quote (quoted.takeWhile fun c => !isSpace c) with
      | some (c :: cs) => some (String.ofList (c :: cs))
      | _ => none
    | _, _ => none
  else none

example : included_file "  #include  \"common/a.fcl\" # x\n".toList = some "common/a.fcl" := by
  decide

/-- One line of a document with its included file in place, `recursive_include` giving the
text of an included file. -/
def include_line (src : ConfigTree) (ffp : List String) (filename : String)
    (recursive_include : String → Except String (List Char)) (line : List Char) :
    Except String (List Char) :=
  if ¬ "#include".toList <:+: line then .ok line
  else if is_commented_include line then .ok line
  else
    match included_file line with
    | none => .error ("Error in Procinfo::recursive_include: unable to parse line in " ++ filename)
    | some file =>
      if file.toList.head? = some '/' then
        if (src.file_at file).isNone then
          .error ("Error in Procinfo::recursive_include: unable to find file " ++ file ++
            " included in " ++ filename)
        else recursive_include file
      else
        match ffp.find? fun dirname => (src.file_at (dirname ++ "/" ++ file)).isSome with
        | some dirname => recursive_include (dirname ++ "/" ++ file)
        | none => .error ("Error in Procinfo::recursive_include: unable to find file " ++ file ++
            " in list of the following fhicl_file_paths: " ++ ":".intercalate ffp)

/-- The text of a file with the included files in place; the first argument is the number
of nested calls that are left. -/
def recursive_include (src : ConfigTree) (ffp : List String) : ℕ → String →
    Except String (List Char)
  | 0, _ => .error "maximum recursion depth exceeded"
  | depth + 1, filename => do
    let contents ← read_file src filename
    let parts ← (readlines contents).mapM
      (include_line src ffp filename (recursive_include src ffp depth))
    pure parts.flatten

/-! ## Names of root files -/

/-- Insert a text before the last occurrence of another one. -/
def insert_before_last (pattern inserted : List Char) : List Char → Option (List Char)
  | [] => none
  | c :: cs =>
    match insert_before_last pattern inserted cs with
    | some text => some (c :: text)
    | none => if pattern <+: c :: cs then some (inserted ++ c :: cs) else none

/-- `re.sub(r"(\n\s*[^#\s].*)\.root", r"\1_dl<n>.root", …)` on one line that a newline
precedes: the last `.root` behind the first character of the line's text is changed,
unless that character starts a comment. -/
def relabel_line (n : ℕ) (line : List Char) : List Char :=
  match line.dropWhile isSpace with
  | [] => line
  | c :: rest =>
    if c = '#' then line
    else
      match insert_before_last ".root".toList ("_dl" ++ toString n).toList rest with
      | some text => line.takeWhile isSpace ++ c :: text
      | none => line

/-- Number the root files of a document; the first line has no newline before it. -/
def relabel_root_files (n : ℕ) (text : List Char) : List Char :=
  match readlines text with
  | [] => []
  | line :: rest => (line :: rest.map (relabel_line n)).flatten

/-- The types of processes that write root files. -/
def writes_root_files (p : Procinfo) : Bool :=
  p.name == .EventBuilder || p.name == .DataLogger

/-- The parts of a text that start at the start of a line. -/
def line_suffixes (text : List Char) : List (List Char) :=
  text :: text.tails.filterMap fun suffix =>
    match suffix with
    | '\n' :: rest => some rest
    | _ => none

/-- `^\s*fileName\s*:\s*.*\.root` at one place of a text. -/
def names_root_file (text : List Char) : Bool :=
  let rest := text.dropWhile isSpace
  if "fileName".toList <+: rest then
    match (rest.drop "fileName".length).dropWhile isSpace with
    | ':' :: value =>
      decide (".root".toList <:+: (value.dropWhile isSpace).takeWhile fun c => c ≠ '\n')
    | _ => false
  else false

/-- `fhicl_writes_root_file`. -/
def fhicl_writes_root_file (fhicl_string : String) : Bool :=
  (contains "RootOutput" fhicl_string || contains "RootDAQOut" fhicl_string) &&
    (line_suffixes fhicl_string.toList).any names_root_file

/-! ## Repeated files -/

/-- The name that refers to the same process as a given one. -/
def hw_cfg_variant (filename : String) : String :=
  if endswith "_hw_cfg.fcl" filename then replace "_hw_cfg.fcl" ".fcl" filename
  else replace ".fcl" "_hw_cfg.fcl" filename

/-- The first file name that is found again, given those seen so far. -/
def find_duplicate : List String → List String → Option String
  | _, [] => none
  | seen, filename :: rest =>
    if endswith ".fcl" filename then
      if filename ∈ seen then some filename
      else find_duplicate (filename :: hw_cfg_variant filename :: seen) rest
    else find_duplicate seen rest

/-! ## The two preparations -/

/-- How the sequential preparation fails in `do_config`. -/
inductive PrepFailure
  /-- The transition is reverted. -/
  | revert (failed_action : String)
  /-- The exception leaves `do_config`. -/
  | raise (e : String)
  /-- `do_config` recovers and returns. -/
  | recover (extrainfo : String)
  deriving DecidableEq

/-- The documents of a process list at the start of the overlapped preparation. -/
def raw_texts (src : ConfigTree) (procs : List Procinfo) (subconfigs : List String) :
    Except String (List (List Char)) := do
  let info ← get_config_info src (if subconfigs.isEmpty then ["ots_config"] else subconfigs)
  procs.mapM (raw_document src info.walk)

/-- Find and expand the documents of the processes one after the other, counting those
whose root files were numbered. -/
def resolve_texts (src : ConfigTree) (info : ConfigInfo) (disable_unique_rootfile_labels : Bool) :
    ℕ → List Procinfo → Except PrepFailure (List (List Char))
  | _, [] => .ok []
  | rootfile_cntr, p :: procs => do
    let some fcl := (matching_paths info.walk p).getLast?
      | throw (.revert "looking for all needed FHiCL documents")
    let text ← match recursive_include src info.ffp src.recursion_limit fcl with
      | .ok text => pure text
      | .error _ => throw (.recover "An exception was thrown when creating the process FHiCL documents; see traceback above for more info")
    let labelled :=
      if !disable_unique_rootfile_labels && writes_root_files p then
        relabel_root_files (rootfile_cntr + 1) text
      else text
    let rest ← resolve_texts src info disable_unique_rootfile_labels
      (if labelled = text then rootfile_cntr else rootfile_cntr + 1) procs
    pure (labelled :: rest)

/-- The documents of a process list before the sequential preparation reformats them. -/
def resolved_texts (src : ConfigTree) (disable_unique_rootfile_labels : Bool)
    (procs : List Procinfo) (subconfigs : List String) : Except PrepFailure (List (List Char)) := do
  let info ← match get_config_info src subconfigs with
    | .ok info => pure info
    | .error _ => throw (.revert "calling get_config_info()")
  match find_duplicate [] (info.walk.flatMap Prod.snd) with
  | some filename => throw (.raise ("Error: filename \"" ++ filename ++
      "\" found more than once given the set of requested subconfigurations"))
  | none => resolve_texts src info disable_unique_rootfile_labels 0 procs

/-- The file `<label>.fcl` that is reformatted for each process: of processes with one
label the last one writes it. -/
def preformat_files (procs : List Procinfo) (texts : List (List Char)) : List (List Char) :=
  procs.map fun p =>
    (((procs.zip texts).filter fun q => q.1.label == p.label).map Prod.snd).getLast?.getD []

/-- `fhicl-dump` on the file of every process. -/
def reformat_fhicl_documents (tools : Tools) (procs : List Procinfo) (texts : List (List Char)) :
    Except String (List String) :=
  (preformat_files procs texts).mapM fun text =>
    match tools.fhicl_dump (String.ofList text) with
    | some document => .ok document
    | none => .error "There was a problem reformatting the FHiCL documents"

/-- The bookkeeping replaces the document of each process. -/
def bookkeeping_for_fhicl_documents (tools : Tools) (procs : List Procinfo)
    (documents : List String) : Except String (List String) := do
  let replaced ← tools.bookkeeping procs documents
  pure (documents.mapIdx fun i document => replaced[i]?.getD document)

/-- `_do_config_prepare`: the documents that the thread started by the boot prepares. -/
def overlapped_documents (src : ConfigTree) (tools : Tools) (procs : List Procinfo)
    (subconfigs : List String) : Except String (List String) := do
  let texts ← raw_texts src procs subconfigs
  let documents ← reformat_fhicl_documents tools procs texts
  bookkeeping_for_fhicl_documents tools procs documents

/-- The preparation inside `do_config`, up to the bookkeeping. -/
def bookkept_documents (src : ConfigTree) (tools : Tools) (disable_unique_rootfile_labels : Bool)
    (procs : List Procinfo) (subconfigs : List String) : Except PrepFailure (List String) := do
  let texts ← resolved_texts src disable_unique_rootfile_labels procs subconfigs
  let documents ← match reformat_fhicl_documents tools procs texts with
    | .ok documents => pure documents
    | .error e => throw (.raise e)
  match bookkeeping_for_fhicl_documents tools procs documents with
    | .ok documents => pure documents
    | .error _ => throw (.recover "An exception was thrown when performing bookkeeping on the process FHiCL documents; see traceback above for more info")

/-- The veto of `check_config` on prepared documents. -/
def check_config (tools : Tools) (documents : List String) : Except PrepFailure (List String) :=
  if tools.check_config documents then pure documents
  else throw (.revert "calling experiment-defined function check_config()")

/-- The preparation inside `do_config`. -/
def sequential_documents (src : ConfigTree) (tools : Tools)
    (disable_unique_rootfile_labels : Bool) (procs : List Procinfo) (subconfigs : List String) :
    Except PrepFailure (List String) := do
  let documents ←
    bookkept_documents src tools disable_unique_rootfile_labels procs subconfigs
  check_config tools documents

end DaqInterface
