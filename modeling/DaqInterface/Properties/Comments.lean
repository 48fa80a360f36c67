import DaqInterface.Properties.BootFile

/-!
# Comments in a boot file

Reading passes over the lines that are comments, so nothing can depend on them but which line
is the last: there a description is complete without a blank line behind it.  Two boot files that
differ in comments only are therefore read alike unless one of them ends with a comment, the
other one does not, and a complete description is open there (`comments_change_nothing_iff`).
-/

namespace DaqInterface

open Pattern

variable {settings : BootSettings} {components : ℕ} {line : List Char} {r s : Reading}

/-! ## The end of a line -/

/-- The lines of a boot file, without their newlines. -/
def file_lines (content : String) : List (List Char) := (readlines content.toList).map chomp

/-- `\\S` does not match a newline. -/
theorem newline_is_space : (!isSpace '\n') = false := by decide

theorem nonspaces_stops : (group nonspaces).Stops '\n' := (stops_some_of newline_is_space).group

theorem isComment_newline (line : List Char) : isComment (line ++ ['\n']) = isComment line := by
  have hstops : (row [spaces, text "#"]).Stops '\n' :=
    stops_row [spaces] (stops_text (by decide) (by decide))
  unfold isComment
  rw [hstops.leaves.at_start, Option.isSome_map]

theorem stated_newline {p : Pattern} (hp : p.Leaves '\n') (line : List Char) :
    stated p (line ++ ['\n']) = stated p line := by
  unfold stated
  rw [hp.at_start]
  cases p.at_start line with
  | none => rfl
  | some found => rfl

theorem stated_word_newline (name : String) (line : List Char) :
    stated_word name (line ++ ['\n']) = stated_word name line := by
  have hstops : (row [spaces, parameter name, group nonspaces]).Stops '\n' :=
    stops_row [spaces, parameter name] nonspaces_stops
  unfold stated_word
  rw [stated_newline hstops.leaves]

theorem stated_bool_newline (name : String) (line : List Char) :
    stated_bool name (line ++ ['\n']) = stated_bool name line := by
  have htrue : (row [spaces, parameter name, char fun c => c == 't' || c == 'T',
      text "rue"]).Stops '\n' :=
    stops_row [spaces, parameter name, char _] (stops_text (by decide) (by decide))
  have hfalse : (row [spaces, parameter name, char fun c => c == 'f' || c == 'F',
      text "alse"]).Stops '\n' :=
    stops_row [spaces, parameter name, char _] (stops_text (by decide) (by decide))
  unfold stated_bool
  rw [htrue.leaves.at_start, hfalse.leaves.at_start, Option.isSome_map, Option.isSome_map]

theorem read_setting_newline (line : List Char) (s : Reading) :
    read_setting (line ++ ['\n']) s = read_setting line s := by
  unfold read_setting
  simp only [stated_word_newline, stated_bool_newline]

theorem occurs_newline (word : String) (hne : word.toList ≠ []) (hlast : '\n' ∉ word.toList)
    (line : List Char) : occurs word (line ++ ['\n']) = occurs word line := by
  unfold occurs
  refine decide_eq_decide.mpr ⟨fun h => ?_, fun h => h.trans ⟨[], ['\n'], rfl⟩⟩
  rcases List.infix_concat_iff.mp h with hend | hin
  · obtain ⟨front, hfront⟩ := hend
    have hlasts := congrArg List.getLast? hfront
    rw [List.getLast?_append_of_ne_nil _ hne, List.getLast?_concat] at hlasts
    exact absurd (List.mem_of_getLast? hlasts) hlast
  · exact hin

theorem read_subsystem_newline (isWord : Char → Bool) (line : List Char) (s : Reading) :
    (read_subsystem isWord (line ++ ['\n']) s).toOption =
      (read_subsystem isWord line s).toOption := by
  have hstops : (re_subsystem isWord).Stops '\n' := stops_row
    [spaces, group (some_of isWord), some_of isSpace, group nonspaces, spaces, text ":", spaces]
    nonspaces_stops
  unfold read_subsystem
  rw [occurs_newline "Subsystem" (by decide) (by decide), hstops.leaves.at_start]
  split_ifs
  · cases hmatch : (re_subsystem isWord).at_start line with
    | none => rfl
    | some found =>
      obtain ⟨groups, rest⟩ := found
      rcases groups with _ | ⟨a, _ | ⟨b, _ | ⟨c, _ | ⟨d, groups⟩⟩⟩⟩ <;> rfl
  · rfl

theorem read_member_newline (isWord : Char → Bool) (line : List Char) (s : Reading) :
    read_member isWord (line ++ ['\n']) s = read_member isWord line s := by
  have hquoted : (row [text "\"", many fun c => c ≠ '"', text "\""]).Stops '\n' :=
    stops_row [text "\"", many _] (stops_text (by decide) (by decide))
  have hstops : (re_member isWord).Stops '\n' := stops_row
    [spaces, group (some_of isWord), some_of isSpace, group nonspaces, spaces, text ":", spaces]
    (hquoted.alt (stops_some_of newline_is_space)).group
  unfold read_member
  simp only [occurs_newline "EventBuilder" (by decide) (by decide),
    occurs_newline "DataLogger" (by decide) (by decide),
    occurs_newline "Dispatcher" (by decide) (by decide),
    occurs_newline "RoutingManager" (by decide) (by decide), hstops.leaves.at_start]
  split_ifs
  · cases hmatch : (re_member isWord).at_start line with
    | none => rfl
    | some found =>
      obtain ⟨groups, rest⟩ := found
      rcases groups with _ | ⟨a, _ | ⟨b, _ | ⟨c, _ | ⟨d, groups⟩⟩⟩⟩ <;> rfl
  · rfl

theorem read_overwrite_newline (line : List Char) (s : Reading) :
    read_overwrite (line ++ ['\n']) s = read_overwrite line s := by
  have hstops : re_overwrite.Stops '\n' :=
    stops_row [spaces, group nonspaces, spaces, text ":", spaces] nonspaces_stops
  unfold read_overwrite
  rw [hstops.leaves.at_start]
  cases hmatch : re_overwrite.at_start line with
  | none => rfl
  | some found =>
    obtain ⟨groups, rest⟩ := found
    rcases groups with _ | ⟨a, _ | ⟨b, _ | ⟨c, groups⟩⟩⟩ <;> rfl

theorem isBreak_newline (last : Bool) (line : List Char) :
    isBreak last (line ++ ['\n']) = isBreak last line := by
  have hspace : isSpace '\n' = true := by decide
  unfold isBreak
  rw [isComment_newline, List.all_append]
  simp [hspace]

/-- What is found for a variable does not depend on the newline. -/
theorem expand_newline (environ : List (String × String)) (hlast : line.getLast? ≠ some '\n') :
    (expand_environment_variable_in_string environ (line ++ ['\n'])).toOption =
      (expand_environment_variable_in_string environ line).toOption.map fun l => l ++ ['\n'] := by
  have hpart : part_of_line.Leaves '\n' := (leaves_many (by decide)).group
  have hvar : (row [text "$", char fun c => c == '\x7b' || c.isAlpha,
      many fun c => c.isAlphanum || c == '\x7d' || c == '_']).Leaves '\n' := by
    have htext : (text "$").Stops '\n' := stops_text (by decide) (by decide)
    have hchar : (char fun c => c == '\x7b' || c.isAlpha).Leaves '\n' := leaves_char (by decide)
    have hmany : (many fun c => c.isAlphanum || c == '\x7d' || c == '_').Leaves '\n' :=
      leaves_many (by decide)
    exact htext.leaves.seq (hchar.seq (hmany.seq (leaves_empty _)))
  have hleaves : re_environ_var.Leaves '\n' :=
    hpart.seq (hvar.group.seq (hpart.seq (leaves_empty _)))
  have hnewline : (line ++ ['\n']).getLast? = some '\n' := List.getLast?_concat
  unfold expand_environment_variable_in_string
  rw [hleaves.at_start]
  cases hmatch : re_environ_var.at_start line with
  | none => rfl
  | some found =>
    obtain ⟨groups, rest⟩ := found
    rcases groups with _ | ⟨before, _ | ⟨var, _ | ⟨after, _ | ⟨d, groups⟩⟩⟩⟩
    · rfl
    · rfl
    · rfl
    · simp only [Option.map_some, Match.push, hnewline, if_neg hlast]
      cases environ.lookup (String.ofList (strip_dollar var)) with
      | none => rfl
      | some value => simp [Except.toOption]
    · rfl

theorem read_description_newline (last : Bool) (line : List Char) (s : Reading) :
    (read_description settings components last (line ++ ['\n']) s).toOption =
      (read_description settings components last line s).toOption := by
  unfold read_description
  rw [Loop.toOption_bind, Loop.toOption_bind, read_subsystem_newline]
  simp only [read_member_newline, read_overwrite_newline, isBreak_newline]

/-- A line is read alike with and without its newline, the text of an exception aside. -/
theorem read_line_newline (last : Bool) (hlast : line.getLast? ≠ some '\n') (s : Reading) :
    (read_line settings components last (line ++ ['\n']) s).toOption =
      (read_line settings components last line s).toOption := by
  unfold read_line
  rw [isComment_newline]
  split_ifs
  · rfl
  · rw [Loop.toOption_bind, Loop.toOption_bind, expand_newline settings.environ hlast]
    cases (expand_environment_variable_in_string settings.environ line).toOption with
    | none => rfl
    | some expanded =>
      simp only [Option.map_some, Option.bind_some]
      rw [Loop.toOption_bind, Loop.toOption_bind, read_setting_newline]
      cases (read_setting expanded s).toOption with
      | none => rfl
      | some setting =>
        cases setting with
        | some s' => rfl
        | none => exact read_description_newline last expanded s

theorem read_line_chomp {text : List Char} (last : Bool) (h : line ∈ readlines text)
    (s : Reading) : (read_line settings components last line s).toOption =
      (read_line settings components last (chomp line) s).toOption := by
  rcases eq_chomp line with heq | heq
  · conv_lhs => rw [heq]
    exact read_line_newline last (chomp_getLast h).2 s
  · conv_lhs => rw [heq]

/-! ## The lines of a file -/

/-- Reading lines of which none is the last. -/
def read_open (settings : BootSettings) (components : ℕ) (lines : List (List Char))
    (s : Reading) : Option Reading :=
  lines.foldlM (fun s line => (read_line settings components false line s).toOption) s

/-- Reading the lines of a file. -/
def read_lines (settings : BootSettings) (components : ℕ) :
    List (List Char) → Reading → Option Reading
  | [], s => some s
  | [line], s => (read_line settings components true line s).toOption
  | line :: next_line :: lines, s =>
    (read_line settings components false line s).toOption.bind
      (read_lines settings components (next_line :: lines))

/-- What remains to be done when the lines have been read. -/
def finish_reading (s : Reading) : Option Reading :=
  if s.num_expected_processes ≠ s.num_actual_processes then none
  else if s.subsystems = [] then some { s with subsystems := [("1", Subsystem.default)] }
  else some s

theorem read_lines_eq (lines : List (List Char)) (k : ℕ) (s : Reading) :
    ((lines.zipIdx k).foldlM (fun s (line, i) =>
      read_line settings components (i == k + lines.length - 1) line s) s).toOption =
      read_lines settings components lines s := by
  induction lines generalizing k s with
  | nil => rfl
  | cons line lines ih =>
    cases lines with
    | nil =>
      have hlast : (k == k + [line].length - 1) = true := by simp
      simp only [List.zipIdx_cons, List.zipIdx_nil, List.foldlM_cons, List.foldlM_nil, hlast,
        read_lines]
      rw [Loop.toOption_bind]
      cases (read_line settings components true line s).toOption <;> rfl
    | cons next_line lines =>
      have hnot : (k == k + (line :: next_line :: lines).length - 1) = false := by simp
      have hlength : k + (line :: next_line :: lines).length - 1 =
          k + 1 + (next_line :: lines).length - 1 := by
        simp only [List.length_cons]
        omega
      rw [List.zipIdx_cons, List.foldlM_cons, Loop.toOption_bind, read_lines]
      simp only [hnot]
      congr 1
      funext s'
      rw [hlength]
      exact ih (k + 1) s'

theorem read_lines_chomp {text : List Char} (lines : List (List Char))
    (h : lines ⊆ readlines text) (s : Reading) :
    read_lines settings components lines s =
      read_lines settings components (lines.map chomp) s := by
  induction lines generalizing s with
  | nil => rfl
  | cons line lines ih =>
    have hline : line ∈ readlines text := h List.mem_cons_self
    cases lines with
    | nil => exact read_line_chomp true hline s
    | cons next_line lines =>
      rw [List.map_cons, List.map_cons, read_lines, read_lines, read_line_chomp false hline]
      congr 1
      funext s'
      exact ih (fun l hl => h (List.mem_cons_of_mem _ hl)) s'

/-- The boot file is read line by line. -/
theorem get_boot_info_lines (content : String) :
    (get_boot_info settings components content).toOption =
      (read_lines settings components (file_lines content) Reading.start).bind finish_reading := by
  have hfold := @read_lines_eq settings components
    (readlines content.toList) 0 Reading.start
  rw [Nat.zero_add] at hfold
  unfold get_boot_info
  rw [Loop.toOption_bind, file_lines, ← read_lines_chomp _ (List.Subset.refl _), ← hfold]
  congr 1
  funext s
  unfold finish_reading
  split_ifs <;> rfl

/-! ## Without the comments -/

/-- The lines that are not comments. -/
def statements (lines : List (List Char)) : List (List Char) :=
  lines.filter fun line => !isComment line

/-- The last line is a comment. -/
def ends_in_comment (lines : List (List Char)) : Bool := lines.getLast?.any isComment

theorem read_line_comment (last : Bool) (h : isComment line = true) (s : Reading) :
    read_line settings components last line s = .ok s := if_pos h

/-- Without comments, the lines are read alike, but the last of them is only known to be the
last if no comment follows. -/
theorem read_lines_statements (lines : List (List Char)) (s : Reading) :
    read_lines settings components lines s =
      if ends_in_comment lines then read_open settings components (statements lines) s
      else read_lines settings components (statements lines) s := by
  induction lines generalizing s with
  | nil => rfl
  | cons line lines ih =>
    cases lines with
    | nil =>
      cases hcomment : isComment line with
      | true =>
        simp [read_lines, ends_in_comment, statements, hcomment, read_line_comment, read_open,
          Except.toOption]
      | false => simp [ends_in_comment, statements, hcomment]
    | cons next_line lines =>
      have hends : ends_in_comment (line :: next_line :: lines) =
          ends_in_comment (next_line :: lines) := by
        unfold ends_in_comment
        rw [List.getLast?_cons_cons]
      rw [read_lines, hends]
      cases hcomment : isComment line with
      | true =>
        have hstatements : statements (line :: next_line :: lines) =
            statements (next_line :: lines) := by
          simp [statements, hcomment]
        rw [read_line_comment false hcomment, hstatements]
        exact ih s
      | false =>
        have hstatements : statements (line :: next_line :: lines) =
            line :: statements (next_line :: lines) := by
          simp [statements, hcomment]
        have hrest : read_lines settings components (next_line :: lines) = fun s' =>
            if ends_in_comment (next_line :: lines) then
              read_open settings components (statements (next_line :: lines)) s'
            else read_lines settings components (statements (next_line :: lines)) s' := funext ih
        rw [hstatements, hrest]
        split_ifs with hend
        · rfl
        · cases hnext : statements (next_line :: lines) with
          | nil =>
            -- the last line is a statement
            refine absurd ?_ hend
            have hlast := List.getLast?_eq_some_getLast (List.cons_ne_nil next_line lines)
            have hall := List.filter_eq_nil_iff.mp hnext _ (List.mem_of_getLast? hlast)
            rw [ends_in_comment, hlast]
            simpa using hall
          | cons first others => rfl

/-! ## The last description -/

/-- The line is neither a setting nor blank nor, with its variable, a comment. -/
def Describes (environ : List (String × String)) (line : List Char) : Prop :=
  ∃ expanded, expand_environment_variable_in_string environ line = .ok expanded ∧
    read_setting expanded Reading.start = .ok none ∧ isBreak false expanded = false

/-- What is done behind a description. -/
def close_description (settings : BootSettings) (components : ℕ) (s : Reading) :
    Except String Reading :=
  complete_process settings components (complete_subsystem s)

/-- The lines that are no settings. -/
theorem read_setting_none : read_setting line s = .ok none ↔
    stated_word "DAQ setup script" line = none ∧ stated_word "request_address" line = none ∧
      stated_word "debug level" line = none ∧ stated_bool "manage processes" line = none ∧
        stated_bool "disable recovery" line = none := by
  unfold read_setting
  cases stated_word "DAQ setup script" line with
  | some script => simp
  | none =>
    cases stated_word "request_address" line with
    | some address => simp
    | none =>
      cases stated_word "debug level" line with
      | some level =>
        have hlevel : (int_of_signed_text level.toList).map (fun level =>
            some { s with debug_level := level }) ≠ .ok none := by
          intro h
          obtain ⟨n, -, h⟩ := Loop.map_eq_ok.mp h
          cases h
        simpa using hlevel
      | none =>
        cases stated_bool "manage processes" line with
        | some b => simp
        | none =>
          cases stated_bool "disable recovery" line with
          | some b => simp
          | none => simp

/-- A line that describes is read in two steps. -/
theorem read_line_describes {expanded : List Char} (last : Bool)
    (hcomment : isComment line = false)
    (hexpanded : expand_environment_variable_in_string settings.environ line = .ok expanded)
    (hsetting : read_setting expanded s = .ok none) :
    read_line settings components last line s =
      read_description settings components last expanded s := by
  unfold read_line
  rw [hcomment, if_neg Bool.false_ne_true, hexpanded]
  simp only [bind, Except.bind, hsetting]

/-- Behind the last line, a description is closed. -/
theorem read_last_line (hcomment : isComment line = false)
    (hline : Describes settings.environ line) (s : Reading) :
    (read_line settings components true line s).toOption =
      (read_line settings components false line s).toOption.bind fun s =>
        (close_description settings components s).toOption := by
  obtain ⟨expanded, hexpanded, hstart, hopen⟩ := hline
  have hsetting : read_setting expanded s = .ok none :=
    read_setting_none.mpr (read_setting_none.mp hstart)
  have hlast : isBreak true expanded = true := Bool.or_true _
  rw [read_line_describes true hcomment hexpanded hsetting,
    read_line_describes false hcomment hexpanded hsetting]
  unfold read_description
  rw [Loop.toOption_bind, Loop.toOption_bind, Option.bind_assoc]
  simp only [hopen, hlast, if_true, Bool.false_eq_true, if_false]
  rfl

/-- Behind another line, nothing is closed that was not closed anyway. -/
theorem read_last_line_of_not (hline : ¬ Describes settings.environ line) (s : Reading) :
    read_line settings components true line s = read_line settings components false line s := by
  unfold read_line
  split_ifs
  · rfl
  · cases hexpanded : expand_environment_variable_in_string settings.environ line with
    | error e => rfl
    | ok expanded =>
      cases hsetting : read_setting expanded s with
      | error e => simp only [bind, Except.bind, hsetting]
      | ok setting =>
        cases setting with
        | some s' => simp only [bind, Except.bind, hsetting]
        | none =>
          have hstart : read_setting expanded Reading.start = .ok none :=
            read_setting_none.mpr (read_setting_none.mp hsetting)
          have hbreak : isBreak false expanded = true := by
            by_contra hopen
            exact hline ⟨expanded, hexpanded, hstart, Bool.eq_false_of_not_eq_true hopen⟩
          have hlast : isBreak true expanded = true := Bool.or_true _
          simp only [bind, Except.bind, hsetting, read_description, hbreak, hlast]

/-! ## What closing shows -/

/-- What a boot file says. -/
structure BootFileInfo where
  daq_setup_script : Option String
  request_address : Option String
  debug_level : ℤ
  manage_processes : Bool
  disable_recovery : Bool
  bootfile_fhicl_overwrites : List (String × String)
  subsystems : List (String × Subsystem)
  procinfos : List BootProcinfo
  deriving DecidableEq

/-- What has been read. -/
def Reading.info (s : Reading) : BootFileInfo where
  daq_setup_script := s.daq_setup_script
  request_address := s.request_address
  debug_level := s.debug_level
  manage_processes := s.manage_processes
  disable_recovery := s.disable_recovery
  bootfile_fhicl_overwrites := s.bootfile_fhicl_overwrites
  subsystems := s.subsystems
  procinfos := s.procinfos

/-- Two readings raise both or have the same results. -/
def SameInfo (x y : Except String Reading) : Prop :=
  x.toOption.map Reading.info = y.toOption.map Reading.info

/-- All is known about the next process. -/
def Reading.process_complete (s : Reading) : Bool :=
  s.memberDict.all fun (varname, v) => v.isSome || varname == "fhicl"

/-- All is known about the next subsystem. -/
def Reading.subsystem_complete (s : Reading) : Bool := s.subsystemDict.all fun (_, v) => v.isSome

/-- The subsystems, where none declared means one. -/
def declared (subsystems : List (String × Subsystem)) : List (String × Subsystem) :=
  if subsystems = [] then [("1", Subsystem.default)] else subsystems

/-- To close the description makes a difference: the next process is complete and is the only
one that is missing, or no process is complete and none missing, and the next subsystem is
complete and not declared yet as described. -/
def Reading.ClosingShows (settings : BootSettings) (components : ℕ) (s : Reading) : Prop :=
  if s.process_complete then
    s.num_expected_processes = s.num_actual_processes + 1 ∧
      (settings.port (components + s.num_actual_processes) (given s.memberDict "port")).isOk
  else
    s.num_expected_processes = s.num_actual_processes ∧ s.subsystem_complete ∧
      declared (Dict.assign (value s.subsystemDict "id") (described_subsystem s.subsystemDict)
        s.subsystems) ≠ declared s.subsystems

theorem finish_reading_info (s : Reading) : (finish_reading s).map Reading.info =
    if s.num_expected_processes = s.num_actual_processes then
      some { s.info with subsystems := declared s.subsystems }
    else none := by
  unfold finish_reading declared
  by_cases hcount : s.num_expected_processes = s.num_actual_processes
  · rw [if_neg (not_not.mpr hcount), if_pos hcount]
    split_ifs
    · rfl
    · rfl
  · rw [if_pos hcount, if_neg hcount]
    rfl

/-- The hosts that were counted: one for each process, and one for the next if it has a host. -/
structure Reading.Counted (s : Reading) : Prop where
  host : "host" ∈ s.memberDict.map Prod.fst
  count : s.num_actual_processes ≤ s.num_expected_processes
  pending : ∀ host, s.memberDict.lookup "host" = some (some host) →
    s.num_actual_processes + 1 ≤ s.num_expected_processes

/-- Nothing was learnt about the next process. -/
structure SameMember (r r' : Reading) : Prop where
  memberDict : r'.memberDict = r.memberDict
  expected : r'.num_expected_processes = r.num_expected_processes
  actual : r'.num_actual_processes = r.num_actual_processes

theorem Reading.Counted.of_same (h : r.Counted) (hsame : SameMember r s) : s.Counted where
  host := by
    rw [hsame.memberDict]
    exact h.host
  count := by
    rw [hsame.expected, hsame.actual]
    exact h.count
  pending := by
    rw [hsame.memberDict, hsame.expected, hsame.actual]
    exact h.pending

theorem read_setting_member {s' : Reading} (h : read_setting line s = .ok (some s')) :
    SameMember s s' := by
  unfold read_setting at h
  split at h
  · rw [← Option.some.inj (Except.ok.inj h)]
    exact ⟨rfl, rfl, rfl⟩
  split at h
  · rw [← Option.some.inj (Except.ok.inj h)]
    exact ⟨rfl, rfl, rfl⟩
  split at h
  · obtain ⟨level, -, h⟩ := Loop.map_eq_ok.mp h
    rw [← Option.some.inj h]
    exact ⟨rfl, rfl, rfl⟩
  split at h
  · rw [← Option.some.inj (Except.ok.inj h)]
    exact ⟨rfl, rfl, rfl⟩
  split at h
  · rw [← Option.some.inj (Except.ok.inj h)]
    exact ⟨rfl, rfl, rfl⟩
  · cases h

theorem read_subsystem_member {isWord : Char → Bool} {s' : Reading}
    (h : read_subsystem isWord line s = .ok s') : SameMember s s' := by
  unfold read_subsystem at h
  split at h
  · split at h
    · rw [← Except.ok.inj h]
      exact ⟨rfl, rfl, rfl⟩
    · cases h
  · rw [← Except.ok.inj h]
    exact ⟨rfl, rfl, rfl⟩

theorem complete_subsystem_member (s : Reading) : SameMember s (complete_subsystem s) := by
  unfold complete_subsystem
  split_ifs
  · exact ⟨rfl, rfl, rfl⟩
  · exact ⟨rfl, rfl, rfl⟩

theorem read_overwrite_member (line : List Char) (s : Reading) :
    SameMember s (read_overwrite line s) := by
  unfold read_overwrite
  split
  · exact ⟨rfl, rfl, rfl⟩
  · exact ⟨rfl, rfl, rfl⟩

/-- A host that is read is counted. -/
theorem read_member_counted (isWord : Char → Bool) (line : List Char) (h : s.Counted) :
    (read_member isWord line s).Counted := by
  unfold read_member
  split
  · split
    · rename_i name key new rest hmatch
      refine ⟨?_, ?_, fun host hhost => ?_⟩
      · exact Dict.mem_keys_assign.mpr (Or.inr (Dict.mem_keys_assign.mpr (Or.inr h.host)))
      · have hcount := h.count
        dsimp only
        omega
      · dsimp only at hhost ⊢
        rw [Dict.lookup_assign, Dict.lookup_assign, if_neg (by decide : ¬ "host" = "name")] at hhost
        by_cases hkey : String.ofList key = "host"
        · have hcount := h.count
          rw [if_pos hkey]
          omega
        · rw [if_neg fun heq => hkey heq.symm] at hhost
          have hpending := h.pending host hhost
          omega
    · exact h
  · exact h

/-- A complete process has a host. -/
theorem Reading.Counted.expected_pos (h : s.Counted) (hcomplete : s.process_complete = true) :
    s.num_actual_processes + 1 ≤ s.num_expected_processes := by
  obtain ⟨v, hv⟩ := Dict.lookup_of_mem_keys h.host
  have hknown := List.all_eq_true.mp hcomplete _ (Dict.mem_of_lookup hv)
  cases v with
  | none => cases hknown
  | some host => exact h.pending host hv

/-- Closing a description counts the process that is complete. -/
theorem close_description_counted {s' : Reading} (hs : s.Counted)
    (h : close_description settings components s = .ok s') : s'.Counted := by
  have hsub := hs.of_same (complete_subsystem_member s)
  unfold close_description complete_process at h
  split_ifs at h with hcomplete
  · obtain ⟨port, -, rfl⟩ := Loop.map_eq_ok.mp h
    have hpos := hsub.expected_pos hcomplete
    refine ⟨?_, hpos, fun host hhost => ?_⟩
    · -- the keys stay
      have hkeys : (reset_member (complete_subsystem s).memberDict).map Prod.fst =
          (complete_subsystem s).memberDict.map Prod.fst := by
        rw [reset_member, List.map_map]
        refine List.map_congr_left fun entry _ => ?_
        dsimp only [Function.comp]
        split_ifs <;> rfl
      dsimp only
      rw [hkeys]
      exact hsub.host
    · -- the host is forgotten
      obtain ⟨⟨varname, v⟩, -, hentry⟩ := List.mem_map.mp (Dict.mem_of_lookup hhost)
      dsimp only at hentry
      split_ifs at hentry with hkept
      · rw [(Prod.mk.inj hentry).1] at hkept
        exact absurd hkept (by decide)
      · cases (Prod.mk.inj hentry).2
  · rw [← Except.ok.inj h]
    exact hsub

theorem read_line_counted {last : Bool} {s' : Reading} (hs : s.Counted)
    (h : read_line settings components last line s = .ok s') : s'.Counted := by
  unfold read_line at h
  split at h
  · rw [← Except.ok.inj h]
    exact hs
  · obtain ⟨expanded, -, h⟩ := Loop.bind_eq_ok.mp h
    obtain ⟨setting, hsetting, h⟩ := Loop.bind_eq_ok.mp h
    cases setting with
    | some t =>
      rw [← Except.ok.inj h]
      exact hs.of_same (read_setting_member hsetting)
    | none =>
      obtain ⟨t, ht, h⟩ := Loop.bind_eq_ok.mp h
      have hmember := read_member_counted settings.isWord expanded
        (hs.of_same (read_subsystem_member ht))
      have hoverwrite := hmember.of_same (read_overwrite_member expanded _)
      split at h
      · exact close_description_counted hoverwrite h
      · rw [← Except.ok.inj h]
        exact hoverwrite

theorem start_counted : Reading.start.Counted := by
  refine ⟨by decide, le_refl _, fun host h => ?_⟩
  cases h

theorem read_open_counted {lines : List (List Char)} {s' : Reading} (hs : s.Counted)
    (h : read_open settings components lines s = some s') : s'.Counted := by
  induction lines generalizing s with
  | nil =>
    obtain rfl := Option.some.inj h
    exact hs
  | cons line lines ih =>
    obtain ⟨t, ht, h⟩ := Option.bind_eq_some_iff.mp h
    exact ih (read_line_counted hs (Loop.toOption_eq_some.mp ht)) h

/-- What closing the description changes in the results. -/
theorem close_shows_iff (hs : s.Counted) :
    ((close_description settings components s).toOption.bind finish_reading).map Reading.info =
      (finish_reading s).map Reading.info ↔ ¬ s.ClosingShows settings components := by
  have hsame := complete_subsystem_member s
  have hcomplete : (complete_subsystem s).process_complete = s.process_complete := by
    rw [Reading.process_complete, hsame.memberDict]
    rfl
  unfold close_description complete_process Reading.ClosingShows
  cases hprocess : s.process_complete with
  | true =>
    -- the host was counted, so the file is refused if the process is not completed
    have hpos := hs.expected_pos hprocess
    have hrank : components + ((complete_subsystem s).num_actual_processes + 1) - 1 =
        components + s.num_actual_processes := by
      rw [hsame.actual]
      omega
    have hrefused : (finish_reading s).map Reading.info = none := by
      rw [finish_reading_info, if_neg (by omega)]
    have hall : ((complete_subsystem s).memberDict.all fun (varname, v) =>
        v.isSome || varname == "fhicl") = true := hcomplete.trans hprocess
    simp only [hall, if_true, hrank]
    rw [hrefused, hsame.memberDict]
    cases settings.port (components + s.num_actual_processes) (given s.memberDict "port") with
    | error e =>
      refine iff_of_true rfl ?_
      rintro ⟨-, hok⟩
      cases hok
    | ok port =>
      simp only [Except.map, Except.toOption, Option.bind_some]
      rw [finish_reading_info]
      dsimp only
      rw [hsame.expected, hsame.actual]
      split_ifs with hcount
      · exact iff_of_false (by simp) fun hnot => hnot ⟨hcount, rfl⟩
      · exact iff_of_true rfl fun hshows => hcount hshows.1
  | false =>
    have hall : ((complete_subsystem s).memberDict.all fun (varname, v) =>
        v.isSome || varname == "fhicl") = false := hcomplete.trans hprocess
    simp only [hall, Bool.false_eq_true, if_false, Except.toOption, Option.bind_some]
    rw [finish_reading_info, finish_reading_info, hsame.expected, hsame.actual]
    split_ifs with hcount
    · unfold complete_subsystem
      cases hsubsystem : s.subsystem_complete with
      | true =>
        have hknown : (s.subsystemDict.all fun (_, v) => v.isSome) = true := hsubsystem
        simp [hknown, Reading.info, hcount]
      | false =>
        have hknown : (s.subsystemDict.all fun (_, v) => v.isSome) = false := hsubsystem
        simp [hknown]
    · exact iff_of_true rfl fun hshows => hcount hshows.1

/-! ## Files that differ in comments only -/

/-- Behind the last statement, a complete description is open that makes a difference. -/
def LeftOpen (settings : BootSettings) (components : ℕ) (lines : List (List Char)) : Prop :=
  ∃ front line s, lines = front ++ [line] ∧ Describes settings.environ line ∧
    read_open settings components lines Reading.start = some s ∧
    s.ClosingShows settings components

/-- The lines with the last one known to be the last. -/
theorem read_lines_concat (front : List (List Char)) (line : List Char) (s : Reading) :
    read_lines settings components (front ++ [line]) s =
      (read_open settings components front s).bind fun s =>
        (read_line settings components true line s).toOption := by
  induction front generalizing s with
  | nil => rfl
  | cons first front ih =>
    have hcons : ∀ lines, lines ≠ [] →
        read_lines settings components (first :: lines) s =
          (read_line settings components false first s).toOption.bind
            (read_lines settings components lines) := by
      intro lines hlines
      obtain ⟨next_line, others, rfl⟩ := List.exists_cons_of_ne_nil hlines
      rfl
    rw [List.cons_append, hcons _ (by simp), funext ih, ← Option.bind_assoc]
    rfl

theorem read_open_concat (front : List (List Char)) (line : List Char) (s : Reading) :
    read_open settings components (front ++ [line]) s =
      (read_open settings components front s).bind fun s =>
        (read_line settings components false line s).toOption := by
  unfold read_open
  rw [List.foldlM_append]
  congr 1
  funext s'
  rw [List.foldlM_cons]
  cases (read_line settings components false line s').toOption with
  | none => rfl
  | some t => rfl

/-- Whether the last of some statements is known to be the last matters exactly where it leaves
a description open. -/
theorem last_known_iff {lines : List (List Char)} (hlines : ∀ line ∈ lines, isComment line = false) :
    ((read_lines settings components lines Reading.start).bind finish_reading).map Reading.info =
      ((read_open settings components lines Reading.start).bind finish_reading).map Reading.info ↔
    ¬ LeftOpen settings components lines := by
  rcases List.eq_nil_or_concat lines with rfl | ⟨front, line, rfl⟩
  · refine iff_of_true rfl ?_
    rintro ⟨front, line, s, hnil, -⟩
    exact absurd hnil (by simp)
  · rw [List.concat_eq_append] at hlines ⊢
    have hcomment := hlines line (by simp)
    by_cases hline : Describes settings.environ line
    · rw [read_lines_concat]
      simp only [read_last_line hcomment hline]
      rw [← Option.bind_assoc, ← read_open_concat]
      cases hopen : read_open settings components (front ++ [line]) Reading.start with
      | none =>
        refine iff_of_true rfl ?_
        rintro ⟨front', line', s, -, -, hread, -⟩
        rw [hopen] at hread
        cases hread
      | some s =>
        have hcounted := read_open_counted start_counted hopen
        simp only [Option.bind_some]
        rw [close_shows_iff hcounted]
        refine not_congr ⟨fun hshows => ⟨front, line, s, rfl, hline, hopen, hshows⟩, ?_⟩
        rintro ⟨front', line', s', -, -, hread, hshows⟩
        rw [hopen] at hread
        rw [Option.some.inj hread]
        exact hshows
    · rw [read_lines_concat, read_open_concat]
      simp only [read_last_line_of_not hline]
      refine iff_of_true trivial ?_
      rintro ⟨front', line', s, hlast, hline', -⟩
      rw [List.singleton_inj.mp (List.append_inj' hlast rfl).2] at hline
      exact hline hline'

/-- Two boot files that differ in comments only are read alike exactly where both or neither
ends with a comment, or the last statement leaves no complete description open. -/
theorem comments_change_nothing_iff (settings : BootSettings) (components : ℕ)
    {content content' : String}
    (hsame : statements (file_lines content) = statements (file_lines content')) :
    SameInfo (get_boot_info settings components content)
        (get_boot_info settings components content') ↔
      ends_in_comment (file_lines content) = ends_in_comment (file_lines content') ∨
        ¬ LeftOpen settings components (statements (file_lines content)) := by
  have hcomments : ∀ line ∈ statements (file_lines content), isComment line = false := by
    intro line hline
    simpa using (List.mem_filter.mp hline).2
  have hknown := @last_known_iff settings components _ hcomments
  unfold SameInfo
  rw [get_boot_info_lines, get_boot_info_lines, read_lines_statements (file_lines content),
    read_lines_statements (file_lines content'), ← hsame]
  cases ends_in_comment (file_lines content) with
  | true =>
    cases ends_in_comment (file_lines content') with
    | true => simp
    | false =>
      simp only [if_true, Bool.false_eq_true, if_false]
      rw [eq_comm, hknown]
      simp
  | false =>
    cases ends_in_comment (file_lines content') with
    | true =>
      simp only [if_true, Bool.false_eq_true, if_false]
      rw [hknown]
      simp
    | false => simp

/-- A boot file with a comment before its process. -/
def commented_lines : List String := "# the only builder" :: builder_lines "EventBuilder1"

/-- The comment changes nothing. -/
theorem comment_before_builder :
    SameInfo (get_boot_info usual_settings 1 (boot_file commented_lines))
      (get_boot_info usual_settings 1 (boot_file (builder_lines "EventBuilder1"))) := by
  have hsame : statements (file_lines (boot_file commented_lines)) =
      statements (file_lines (boot_file (builder_lines "EventBuilder1"))) := by decide +kernel
  have hends : ends_in_comment (file_lines (boot_file commented_lines)) =
      ends_in_comment (file_lines (boot_file (builder_lines "EventBuilder1"))) := by decide +kernel
  exact (comments_change_nothing_iff usual_settings 1 hsame).mpr (Or.inl hends)

/-- The last process of a boot file with a comment behind it. -/
def comment_at_end : List String := builder_lines "EventBuilder1" ++ ["# end"]

/-- With the comment, the boot file is refused. -/
theorem comment_behind_builder :
    statements (file_lines (boot_file comment_at_end)) =
        statements (file_lines (boot_file (builder_lines "EventBuilder1"))) ∧
      (get_boot_info usual_settings 1 (boot_file (builder_lines "EventBuilder1"))).isOk = true ∧
      (get_boot_info usual_settings 1 (boot_file comment_at_end)).isOk = false ∧
      ¬ SameInfo (get_boot_info usual_settings 1 (boot_file comment_at_end))
        (get_boot_info usual_settings 1 (boot_file (builder_lines "EventBuilder1"))) := by
  have hplain : (get_boot_info usual_settings 1
      (boot_file (builder_lines "EventBuilder1"))).isOk = true := by decide +kernel
  have hrefused : (get_boot_info usual_settings 1 (boot_file comment_at_end)).isOk = false := by
    decide +kernel
  refine ⟨by decide +kernel, hplain, hrefused, fun hsame => ?_⟩
  obtain ⟨info, hinfo⟩ := Loop.exists_of_isOk hplain
  unfold SameInfo at hsame
  rw [hinfo] at hsame
  cases hread : get_boot_info usual_settings 1 (boot_file comment_at_end) with
  | error e =>
    rw [hread] at hsame
    cases hsame
  | ok s =>
    rw [hread] at hrefused
    cases hrefused

end DaqInterface
