import DaqInterface.Model.BootFile
import DaqInterface.Program.Dialogue

/-!
# Commands of the shell

The program looks at the processes of a host, launches and kills them with commands that it gives
to a shell: on the machine on which it runs, or by way of `ssh` on another one.  `host_is_local`
decides between the two.  What a command answers is decided outside.
-/

namespace DaqInterface

open Pattern Program

/-! ## Machines -/

/-- The names of the machine on which the program runs. -/
structure Machine where
  /-- `socket.gethostname()`. -/
  gethostname : String
  /-- The environment variable `HOSTNAME`. -/
  HOSTNAME : Option String
  deriving DecidableEq

/-- The name of the machine up to the first dot. -/
def Machine.get_short_hostname (self : Machine) : String :=
  String.ofList (self.gethostname.toList.takeWhile fun c => c ≠ '.')

/-- The program takes a host for the machine on which it runs. -/
def Machine.host_is_local (self : Machine) (host : String) : Bool :=
  host == "localhost" || self.HOSTNAME == some host || contains self.get_short_hostname host

/-! ## Commands -/

/-- An expression for `grep`: its text and what it matches. -/
structure GrepToken where
  text : String
  meaning : Pattern

/-- What a shell is asked to do. -/
inductive Task
  /-- List processes whose lines match. -/
  | ps (greptoken : GrepToken)
  /-- List sockets in whose lines a port occurs. -/
  | netstat (port : String)
  /-- Send a signal to processes; `options` and `redirect` are the ends of the command. -/
  | kill (options : String) (pids : List String) (redirect : String)
  /-- Launch processes. -/
  | launch (launchcmd : String)

/-- The text of a task. -/
def Task.text : Task → String
  | .ps greptoken => "ps aux | grep \"" ++ greptoken.text ++ "\" | grep -v ssh | grep -v grep"
  | .netstat port => "netstat -alpn | grep " ++ port
  | .kill options pids redirect => "kill " ++ options ++ " ".intercalate pids ++ redirect
  | .launch launchcmd => launchcmd

/-- A task and where it is done. -/
structure ShellCommand where
  /-- The options of `ssh` and the host to which it connects, if it is used. -/
  over_ssh : Option (String × String)
  /-- The task. -/
  task : Task

/-- The line that the shell is given. -/
def ShellCommand.line (self : ShellCommand) : String :=
  match self.over_ssh with
  | none => self.task.text
  | some (options, host) => "ssh " ++ options ++ " " ++ host ++ " '" ++ self.task.text ++ "'"

/-- The host on which a command is done, the program's own machine aside. -/
def ShellCommand.place (self : ShellCommand) : Option String := self.over_ssh.map Prod.snd

/-- A task for a host. -/
def Machine.on_host (self : Machine) (options host : String) (task : Task) : ShellCommand :=
  if self.host_is_local host then ⟨none, task⟩ else ⟨some (options, host), task⟩

/-- What a command leaves. -/
structure Completed where
  out : List Char
  err : List Char
  returncode : ℤ

/-- Functions that give commands to a shell; exceptions are their texts. -/
abbrev Shell (α : Type) : Type := Dialogue ShellCommand Completed String α

/-! ## Looking for processes -/

/-- `line.split()[1]`. -/
def second_word (line : List Char) : Except String String :=
  match (words (String.ofList line))[1]? with
  | some word => .ok word
  | none => .error "IndexError: list index out of range"

/-- The lines of an answer. -/
def answer_lines (out : List Char) : List (List Char) :=
  if out = [] then [] else splitOn '\n' (strip out)

/-- The pids of the processes whose lines match, and the lines. -/
def get_pids (self : Machine) (greptoken : GrepToken) (host : String) :
    Shell (List String × List (List Char)) := do
  let proc ← perform (self.on_host "-o BatchMode=yes -x" host (.ps greptoken))
  let lines := answer_lines proc.out
  if proc.err ≠ [] then
    raise ("SSH process for retrieving PIDs had the following error output:\n " ++
      String.ofList proc.err)
  else
    let pids ← ofExcept (lines.mapM second_word)
    pure (pids, lines)

/-! ## The lines of an answer -/

section Lines

variable {line : List Char}

/-- White space at the start of a line belongs to no word. -/
theorem words_dropWhile (line : List Char) :
    words (String.ofList (line.dropWhile isSpace)) = words (String.ofList line) := by
  induction line with
  | nil => rfl
  | cons c cs ih =>
    by_cases hc : isSpace c = true
    · rw [List.dropWhile_cons_of_pos hc, ih]
      unfold words
      rw [String.toList_ofList, String.toList_ofList, List.splitOnP_cons_eq_if_modifyHead, if_pos hc]
      rfl
    · rw [List.dropWhile_cons_of_neg hc]

theorem splitOnP_concat {c : Char} (hc : isSpace c = true) (line : List Char) :
    (line ++ [c]).splitOnP isSpace = line.splitOnP isSpace ++ [[]] := by
  induction line with
  | nil => simp [List.splitOnP_cons_eq_if_modifyHead, hc]
  | cons d ds ih =>
    rw [List.cons_append, List.splitOnP_cons_eq_if_modifyHead, List.splitOnP_cons_eq_if_modifyHead, ih]
    split_ifs
    · rfl
    · obtain ⟨part, parts, hparts⟩ :=
        List.exists_cons_of_ne_nil (List.splitOnP_ne_nil isSpace ds)
      rw [hparts]
      rfl

/-- White space at the end of a line belongs to no word. -/
theorem words_concat {c : Char} (hc : isSpace c = true) (line : List Char) :
    words (String.ofList (line ++ [c])) = words (String.ofList line) := by
  unfold words
  rw [String.toList_ofList, String.toList_ofList, splitOnP_concat hc, List.filter_append]
  simp

theorem words_rstrip (line : List Char) :
    words (String.ofList (line.reverse.dropWhile isSpace).reverse) =
      words (String.ofList line) := by
  induction line using List.reverseRecOn with
  | nil => rfl
  | append_singleton cs c ih =>
    rw [List.reverse_append, List.reverse_singleton, List.singleton_append]
    by_cases hc : isSpace c = true
    · rw [List.dropWhile_cons_of_pos hc, ih, words_concat hc]
    · rw [List.dropWhile_cons_of_neg hc, List.reverse_cons, List.reverse_reverse]

theorem dropWhile_ne_nil (h : words (String.ofList line) ≠ []) : line.dropWhile isSpace ≠ [] := by
  intro hnil
  rw [← words_dropWhile, hnil] at h
  exact h rfl

theorem rstrip_ne_nil (h : words (String.ofList line) ≠ []) :
    line.reverse.dropWhile isSpace ≠ [] := by
  intro hnil
  rw [← words_rstrip, hnil] at h
  exact h rfl

/-- Lines, each with its newline. -/
def join_lines (lines : List (List Char)) : List Char := lines.flatMap fun line => line ++ ['\n']

theorem join_lines_cons (line : List Char) (lines : List (List Char)) :
    join_lines (line :: lines) = line ++ '\n' :: join_lines lines := by
  unfold join_lines
  rw [List.flatMap_cons, List.append_assoc]
  rfl

theorem splitOn_join_lines {lines : List (List Char)} (hlines : ∀ line ∈ lines, '\n' ∉ line)
    {last : List Char} (hlast : '\n' ∉ last) :
    splitOn '\n' (join_lines lines ++ last) = lines ++ [last] := by
  induction lines with
  | nil => exact splitOn_eq_self hlast
  | cons line lines ih =>
    rw [join_lines_cons, List.append_assoc, List.cons_append, splitOn_append,
      splitOn_eq_self (hlines line List.mem_cons_self),
      ih fun other h => hlines other (List.mem_cons_of_mem line h)]
    rfl

/-- The white space in front of the first line. -/
theorem dropWhile_join_lines {first : List Char} (rest : List (List Char))
    (hfirst : words (String.ofList first) ≠ []) :
    (join_lines (first :: rest)).dropWhile isSpace =
      join_lines (first.dropWhile isSpace :: rest) := by
  rw [join_lines_cons, join_lines_cons, List.dropWhile_append, if_neg]
  rw [List.isEmpty_iff]
  exact dropWhile_ne_nil hfirst

/-- The white space behind the last line. -/
theorem rstrip_join_lines (front : List (List Char)) {last : List Char}
    (hlast : words (String.ofList last) ≠ []) :
    ((join_lines (front ++ [last])).reverse.dropWhile isSpace).reverse =
      join_lines front ++ (last.reverse.dropWhile isSpace).reverse := by
  have hend : (join_lines (front ++ [last])).reverse =
      '\n' :: (last.reverse ++ (join_lines front).reverse) := by
    unfold join_lines
    simp
  rw [hend, List.dropWhile_cons_of_pos (by decide), List.dropWhile_append, if_neg,
    List.reverse_append, List.reverse_reverse]
  rw [List.isEmpty_iff]
  exact rstrip_ne_nil hlast

/-- The words of the lines of an answer. -/
theorem answer_lines_words {lines : List (List Char)}
    (hlines : ∀ line ∈ lines, '\n' ∉ line ∧ words (String.ofList line) ≠ []) :
    (answer_lines (join_lines lines)).map (fun line => words (String.ofList line)) =
      lines.map fun line => words (String.ofList line) := by
  cases lines with
  | nil => rfl
  | cons first rest =>
    obtain ⟨hnewline, hwords⟩ := hlines first List.mem_cons_self
    have hnot : ∀ line ∈ first.dropWhile isSpace :: rest,
        '\n' ∉ line ∧ words (String.ofList line) ≠ [] := by
      intro line hline
      rcases List.mem_cons.mp hline with rfl | hline
      · exact ⟨fun h => hnewline (List.dropWhile_subset _ h), by rwa [words_dropWhile]⟩
      · exact hlines line (List.mem_cons_of_mem first hline)
    have hmap : (first :: rest).map (fun line => words (String.ofList line)) =
        (first.dropWhile isSpace :: rest).map fun line => words (String.ofList line) := by
      rw [List.map_cons, List.map_cons, words_dropWhile]
    have hne : join_lines (first :: rest) ≠ [] := by
      rw [join_lines_cons]
      simp
    unfold answer_lines strip
    rw [if_neg hne, dropWhile_join_lines rest hwords, hmap]
    rcases List.eq_nil_or_concat (first.dropWhile isSpace :: rest) with hnil | ⟨front, last, heq⟩
    · exact nomatch hnil
    · rw [List.concat_eq_append] at heq
      rw [heq] at hnot ⊢
      obtain ⟨hend, hlast⟩ := hnot last (List.mem_append_right _ (List.mem_singleton_self _))
      have hstripped : '\n' ∉ (last.reverse.dropWhile isSpace).reverse := fun h =>
        hend (List.mem_reverse.mp (List.dropWhile_subset _ (List.mem_reverse.mp h)))
      rw [rstrip_join_lines front hlast,
        splitOn_join_lines (fun line h => (hnot line (List.mem_append_left _ h)).1) hstripped,
        List.map_append, List.map_append, List.map_singleton, List.map_singleton, words_rstrip]

end Lines

end DaqInterface
