import DaqInterface.Library.Fold
import DaqInterface.Library.Memo
import DaqInterface.Properties.RemoteCommands
import Mathlib.Data.List.ReduceOption

/-!
# What is killed when a process is lost

`mopup_process_base` finds a lost process, and what is left of it, by looking for the digits of its
port in lines of `ps` and `netstat`.  The digits may stand in a line for something else: a part of
another port, a rank, a pid.  Nothing else is killed, whatever the listings are like while the
process is mopped up, exactly if in each of them the lines that are found belong to the process
(`mopup_spares_iff`).
-/

open Loop

namespace DaqInterface

open Pattern Program

/-! ## Listings -/

/-- The processes and the sockets of a host as `ps aux` and `netstat -alpn` list them. -/
structure HostListing where
  ps : List (List Char)
  netstat : List (List Char)
  ps_line : ∀ line ∈ ps, '\n' ∉ line ∧ 2 ≤ (words (String.ofList line)).length
  netstat_line : ∀ line ∈ netstat, '\n' ∉ line ∧ words (String.ofList line) ≠ []

/-- The lines that `grep` lets through, behind it `grep -v ssh` and `grep -v grep`. -/
def grepped (token : GrepToken) (lines : List (List Char)) : List (List Char) :=
  lines.filter fun line => (token.meaning.search line).isSome &&
    !decide ("ssh".toList <:+: line) && !decide ("grep".toList <:+: line)

/-- The lines in which a port, a row of digits, occurs. -/
def with_port (port : String) (lines : List (List Char)) : List (List Char) :=
  lines.filter fun line => decide (port.toList <:+: line)

/-- The answers to the commands, given what each host lists at each time and what `ssh` complains
about. -/
def host_reply (listing : Option String → ℕ → HostListing) (complaint : ℕ → List Char)
    (said : List (ShellCommand × Completed)) (c : ShellCommand) : Completed :=
  match c.task with
  | .ps greptoken =>
    ⟨join_lines (grepped greptoken (listing c.place said.length).ps), complaint said.length, 0⟩
  | .netstat port => ⟨join_lines (with_port port (listing c.place said.length).netstat), [], 0⟩
  | _ => ⟨[], [], 0⟩

/-! ## What belongs to a process -/

/-- A line of `ps` shows the executable of a process, launched with its port. -/
def LaunchedAs (p : Procinfo) (line : List Char) : Prop :=
  (bootfile_name_to_execname p.name ++ " -c id: " ++ p.port ++ " ").toList <:+: line

/-- A line of `netstat` shows a socket whose local or peer port is the given one. -/
def AtPort (port : String) (line : List Char) : Prop :=
  ∃ i ∈ [3, 4], ∃ address, (words (String.ofList line))[i]? = some address ∧
    endswith (":" ++ port) address = true

/-- A pid may be killed with a lost process: it is the one of its executable or of a program with a
socket at its port, and not the one of another process on its host. -/
def Rightful (self : ProcessManager) (p : Procinfo) (l : HostListing) (pid : String) : Prop :=
  ((∃ line ∈ l.ps, second_word line = .ok pid ∧ LaunchedAs p line) ∨
      ∃ line ∈ l.netstat, ProcessManager.related_pid line = .ok (some pid) ∧ AtPort p.port line) ∧
    ∀ q ∈ self.procinfos, q.host = p.host → q.port ≠ p.port →
      ∀ line ∈ l.ps, LaunchedAs q line → second_word line ≠ .ok pid

/-- Where the commands for a process are executed. -/
def ProcessManager.place_of (self : ProcessManager) (p : Procinfo) : Option String :=
  if self.machine.host_is_local p.host then none else some p.host

/-- Whatever is killed on the host of a lost process was listed there before as something that may
be killed with it. -/
def Spares (self : ProcessManager) (p : Procinfo) (listing : Option String → ℕ → HostListing)
    (c : ShellCommand) (before : List (ShellCommand × Completed)) : Prop :=
  c.place = self.place_of p → ∀ options pids redirect, c.task = .kill options pids redirect →
    ∀ pid ∈ pids, ∃ t < before.length, Rightful self p (listing (self.place_of p) t) pid

/-- The lines that are found belong to the process: those of `netstat` in which the digits of its
port occur, and the one of `ps` if it is the only one. -/
structure Unmistakable (manager : ProcessManager) (p : Procinfo) (l : HostListing) : Prop where
  ps : ∀ line, grepped (process_token p) l.ps = [line] → ∀ pid, second_word line = .ok pid →
    Rightful manager p l pid
  netstat : ∀ line ∈ with_port p.port l.netstat, ∀ pid,
    ProcessManager.related_pid line = .ok (some pid) → Rightful manager p l pid

/-! ## What is found -/

theorem grepped_subset (token : GrepToken) (lines : List (List Char)) :
    grepped token lines ⊆ lines := fun _ hline => List.mem_of_mem_filter hline

/-- The connections through which processes were launched are never found. -/
theorem grepped_ssh (p : Procinfo) (lines : List (List Char)) :
    grepped (ssh_process_token p) lines = [] := by
  refine List.filter_eq_nil_iff.mpr fun line _ hline => ?_
  simp only [Bool.and_eq_true, Bool.not_eq_true', decide_eq_false_iff_not] at hline
  have hword := @infix_of_search "ssh -o BatchMode=yes " _ _ hline.1.1
  refine hline.1.2 (List.IsInfix.trans ?_ hword)
  exact ⟨[], " -o BatchMode=yes ".toList, by decide⟩

/-- A map over lines that looks at their words only. -/
theorem mapM_of_words {β : Type} {f : List Char → Except String β}
    (hf : ∀ line line', words (String.ofList line) = words (String.ofList line') → f line = f line')
    {lines lines' : List (List Char)}
    (h : lines.map (fun line => words (String.ofList line)) =
      lines'.map fun line => words (String.ofList line)) : lines.mapM f = lines'.mapM f := by
  induction lines generalizing lines' with
  | nil =>
    rw [List.map_nil, eq_comm, List.map_eq_nil_iff] at h
    rw [h]
  | cons line lines ih =>
    cases lines' with
    | nil => cases h
    | cons line' lines' =>
      rw [List.map_cons, List.map_cons, List.cons.injEq] at h
      rw [List.mapM_cons, List.mapM_cons, hf line line' h.1, ih h.2]

theorem words_ne_nil_of_ps (l : HostListing) {line : List Char} (hline : line ∈ l.ps) :
    words (String.ofList line) ≠ [] := by
  intro hnil
  have hlength := (l.ps_line line hline).2
  rw [hnil] at hlength
  exact absurd hlength (by decide)

/-- The pids of an answer are those of the lines that are found. -/
theorem answer_pids (l : HostListing) (token : GrepToken) :
    (answer_lines (join_lines (grepped token l.ps))).mapM second_word =
      (grepped token l.ps).mapM second_word := by
  have hlines : ∀ line ∈ grepped token l.ps, '\n' ∉ line ∧ words (String.ofList line) ≠ [] :=
    fun line hline => ⟨(l.ps_line line (grepped_subset token l.ps hline)).1,
      words_ne_nil_of_ps l (grepped_subset token l.ps hline)⟩
  refine mapM_of_words (fun line line' h => ?_) (answer_lines_words hlines)
  unfold second_word
  rw [h]

theorem readlines_join_lines {lines : List (List Char)} (hlines : ∀ line ∈ lines, '\n' ∉ line) :
    readlines (join_lines lines) = lines.map fun line => line ++ ['\n'] := by
  induction lines with
  | nil => rfl
  | cons line lines ih =>
    rw [join_lines_cons, readlines_append_newline (hlines line List.mem_cons_self),
      ih fun other h => hlines other (List.mem_cons_of_mem line h), List.map_cons]

/-- The pids of the sockets are those of the lines in which the port occurs. -/
theorem answer_related_pids (l : HostListing) (port : String) :
    (readlines (join_lines (with_port port l.netstat))).mapM ProcessManager.related_pid =
      (with_port port l.netstat).mapM ProcessManager.related_pid := by
  have hlines : ∀ line ∈ with_port port l.netstat, '\n' ∉ line := fun line hline =>
    (l.netstat_line line (List.mem_of_mem_filter hline)).1
  rw [readlines_join_lines hlines]
  refine mapM_of_words (fun line line' h => ?_) ?_
  · unfold ProcessManager.related_pid
    rw [h]
  · rw [List.map_map]
    exact List.map_congr_left fun line _ => words_concat (by decide) line

/-! ## Nothing else is killed -/

section Safety

variable {self : ProcessManager} {p : Procinfo} {listing : Option String → ℕ → HostListing}
  {complaint : ℕ → List Char} {said : List (ShellCommand × Completed)}

theorem on_host_place_of (options : String) (task : Task) :
    (self.machine.on_host options p.host task).place = self.place_of p := by
  rw [Machine.on_host_place]
  rfl

theorem on_host_task (machine : Machine) (options host : String) (task : Task) :
    (machine.on_host options host task).task = task := by
  unfold Machine.on_host
  split_ifs <;> rfl

/-- A pid was listed at some time as one that may be killed. -/
def Known (self : ProcessManager) (p : Procinfo) (listing : Option String → ℕ → HostListing)
    (pids : List String) (said : List (ShellCommand × Completed)) : Prop :=
  ∀ pid ∈ pids, ∃ t < said.length, Rightful self p (listing (self.place_of p) t) pid

theorem Known.cons {pids : List String} (h : Known self p listing pids said)
    (line : ShellCommand × Completed) : Known self p listing pids (line :: said) := by
  intro pid hpid
  obtain ⟨t, ht, hright⟩ := h pid hpid
  exact ⟨t, Nat.lt_succ_of_lt ht, hright⟩

/-- All that was killed and the pids that are known may be killed. -/
def Safe (self : ProcessManager) (p : Procinfo) (listing : Option String → ℕ → HostListing)
    (pids : List String) (said : List (ShellCommand × Completed)) : Prop :=
  Each (Spares self p listing) said ∧ Known self p listing pids said

/-- A command that is no kill changes nothing. -/
theorem Safe.ask {pids : List String} (h : Safe self p listing pids said) {c : ShellCommand}
    (hc : ∀ options pids redirect, c.task ≠ .kill options pids redirect) (proc : Completed) :
    Safe self p listing pids ((c, proc) :: said) :=
  ⟨⟨fun _ options pids redirect htask => absurd htask (hc options pids redirect), h.1⟩,
    h.2.cons _⟩

/-- The pids that are known may be killed. -/
theorem kill_on_host_wp {pids : List String} {options redirect : String}
    (h : Safe self p listing pids said) :
    (self.kill_on_host p.host options pids redirect).wp (converse (host_reply listing complaint))
      (fun _ => Safe self p listing pids) (fun _ => Safe self p listing pids) said := by
  refine wp_bind.mpr (wp_perform.mpr ?_)
  refine ⟨⟨fun _ options' pids' redirect' htask => ?_, h.1⟩, h.2.cons _⟩
  rw [on_host_task, Task.kill.injEq] at htask
  obtain ⟨-, rfl, -⟩ := htask
  exact h.2

variable {s : Set HostListing} (hs : ∀ l ∈ s, Unmistakable self p l)
  (hlisting : ∀ t, listing (self.place_of p) t ∈ s)
include hs hlisting

/-- The pid that is found for a process is its own. -/
theorem get_pid_wp {pids : List String} (h : Safe self p listing pids said) :
    (self.get_pid_for_process_base p).wp (converse (host_reply listing complaint))
      (fun found said' => Safe self p listing pids said' ∧
        Known self p listing found.toList said')
      (fun _ => Safe self p listing pids) said := by
  refine wp_ite.mpr ⟨fun _ => h, fun _ => ?_⟩
  have hask : ∀ token proc said', Safe self p listing pids said' → Safe self p listing pids
      ((self.machine.on_host "-o BatchMode=yes -x" p.host (.ps token), proc) :: said') := by
    intro token proc said' hsaid'
    refine hsaid'.ask (fun options pids redirect htask => ?_) proc
    rw [on_host_task] at htask
    exact nomatch htask
  refine wp_bind.mpr ((get_pids_wp fun proc => hask _ proc _ h).mono ?_ fun _ _ h => h)
  rintro ⟨found, lines⟩ said₁ ⟨hsaid₁, proc₁, hproc₁, rfl, hfound⟩
  refine wp_bind.mpr ((get_pids_wp fun proc => hask _ proc _ hsaid₁).mono ?_ fun _ _ h => h)
  rintro ⟨ssh_pids, lines'⟩ said₂ ⟨hsaid₂, proc₂, hproc₂, rfl, hssh⟩
  dsimp only at hfound hssh ⊢
  -- No connection is found, so no pid is left out.
  have hnone : ssh_pids = [] := by
    rw [hproc₂] at hssh
    unfold host_reply at hssh
    simp only [on_host_task] at hssh
    rw [answer_pids, grepped_ssh] at hssh
    exact (Except.ok.inj hssh).symm
  rw [hproc₁] at hfound
  unfold host_reply at hfound
  simp only [on_host_task, on_host_place_of] at hfound
  rw [answer_pids] at hfound
  rw [hnone, List.filter_eq_self.mpr fun pid _ => by simp]
  split
  · rename_i pid
    refine ⟨hsaid₂, fun pid' hpid' => ?_⟩
    rw [Option.toList_some, List.mem_singleton] at hpid'
    subst hpid'
    have hlines := mapM_eq_ok.mp hfound
    obtain ⟨line, rest, hline, hrest, heq⟩ := List.forall₂_cons_right_iff.mp hlines
    obtain rfl := List.forall₂_nil_right_iff.mp hrest
    refine ⟨said.length, Nat.lt_succ_of_lt (Nat.lt_succ_self _), ?_⟩
    exact (hs _ (hlisting said.length)).ps line heq pid' hline
  · exact ⟨hsaid₂, fun pid hpid => absurd hpid List.not_mem_nil⟩

theorem mopup_own_process_wp (h : Safe self p listing [] said) :
    (self.mopup_own_process p).wp (converse (host_reply listing complaint))
      (fun _ => Safe self p listing []) (fun _ => Safe self p listing []) said := by
  have hforget : ∀ pids said, Safe self p listing pids said → Safe self p listing [] said :=
    fun pids said h => ⟨h.1, fun pid hpid => absurd hpid List.not_mem_nil⟩
  refine wp_bind.mpr ((get_pid_wp hs hlisting h).mono ?_ fun _ _ h => h)
  rintro found said' ⟨hsaid', hfound⟩
  cases found with
  | none => exact hsaid'
  | some pid =>
    have hsafe : Safe self p listing [pid] said' := ⟨hsaid'.1, hfound⟩
    refine wp_bind.mpr ((kill_on_host_wp hsafe).mono ?_ fun _ said => hforget _ said)
    intro _ said₂ hsaid₂
    refine wp_bind.mpr ((get_pid_wp hs hlisting hsaid₂).mono ?_ fun _ said => hforget _ said)
    rintro remaining said₃ ⟨hsaid₃, -⟩
    refine wp_onlyIf.mpr ⟨fun _ => ?_, fun _ => hforget _ _ hsaid₃⟩
    exact (kill_on_host_wp hsaid₃).mono (fun _ said => hforget _ said) fun _ said => hforget _ said

/-- The pids that are found for the sockets may be killed. -/
theorem get_related_pids_wp (h : Safe self p listing [] said) :
    (self.get_related_pids_for_process p).wp (converse (host_reply listing complaint))
      (fun found => Safe self p listing found) (fun _ => Safe self p listing []) said := by
  have hask : ∀ proc, Safe self p listing []
      ((self.machine.on_host "-o BatchMode=yes -x" p.host (.netstat p.port), proc) :: said) := by
    refine h.ask fun options pids redirect htask => ?_
    rw [on_host_task] at htask
    exact nomatch htask
  refine wp_bind.mpr (wp_perform.mpr (wp_bind.mpr (wp_ofExcept.mpr ⟨fun found hfound => ?_, ?_⟩)))
  · refine ⟨(hask _).1, fun pid hpid => ⟨said.length, Nat.lt_succ_self _, ?_⟩⟩
    unfold converse host_reply at hfound
    simp only [on_host_task, on_host_place_of] at hfound
    rw [answer_related_pids] at hfound
    obtain ⟨line, hline, hrelated⟩ : ∃ line ∈ with_port p.port
        (listing (self.place_of p) said.length).netstat,
        ProcessManager.related_pid line = .ok (some pid) := by
      have hmem := List.reduceOption_mem_iff.mp (List.mem_dedup.mp hpid)
      exact Recursion.exists_of_forall₂ (mapM_eq_ok.mp hfound) hmem
    exact (hs _ (hlisting said.length)).netstat line hline pid hrelated
  · exact fun e _ => hask _

theorem mopup_related_processes_wp (h : Safe self p listing [] said) :
    (self.mopup_related_processes p).wp (converse (host_reply listing complaint))
      (fun _ => Each (Spares self p listing)) (fun _ => Each (Spares self p listing)) said := by
  have hforget : ∀ pids said, Safe self p listing pids said → Safe self p listing [] said :=
    fun pids said h => ⟨h.1, fun pid hpid => absurd hpid List.not_mem_nil⟩
  refine wp_bind.mpr ((get_related_pids_wp hs hlisting h).mono ?_ fun _ _ h => h.1)
  intro related said₁ hsaid₁
  refine wp_bind.mpr ((kill_on_host_wp hsaid₁).mono ?_ fun _ _ h => h.1)
  intro _ said₂ hsaid₂
  refine wp_bind.mpr ((get_related_pids_wp hs hlisting (hforget _ _ hsaid₂)).mono ?_
    fun _ _ h => h.1)
  intro unkilled said₃ hsaid₃
  refine wp_onlyIf.mpr ⟨fun _ => ?_, fun _ => hsaid₃.1⟩
  exact (kill_on_host_wp hsaid₃).mono (fun _ _ h => h.1) fun _ _ h => h.1

omit hs hlisting in
/-- What ends the connection to another host is no command for that host. -/
theorem mopup_ssh_client_safe (hplace : self.place_of p ≠ none)
    (h : Safe self p listing [] said) :
    (self.mopup_ssh_client p).wp (converse (host_reply listing complaint))
      (fun _ => Safe self p listing []) (fun _ => Safe self p listing []) said := by
  have hother : ∀ c proc said', c.place = none → Safe self p listing [] said' →
      Safe self p listing [] ((c, proc) :: said') := fun c proc said' hc hsaid' =>
    ⟨⟨fun hc' => absurd (hc'.symm.trans hc) hplace, hsaid'.1⟩, hsaid'.2.cons _⟩
  have hask : ∀ proc said', Safe self p listing [] said' → Safe self p listing []
      ((self.machine.on_host "-o BatchMode=yes -x" "localhost" (.ps (ssh_client_token p)), proc) ::
        said') := by
    intro proc said' hsaid'
    rw [on_host_localhost]
    exact hother _ proc said' rfl hsaid'
  refine wp_bind.mpr ((get_pids_wp fun proc => hask proc said h).mono ?_ fun _ _ h => h)
  rintro ⟨pids, lines⟩ said' ⟨hsaid', -⟩
  dsimp only
  split
  · refine wp_bind.mpr (wp_perform.mpr (wp_bind.mpr ?_))
    refine (get_pids_wp fun proc => hask proc _ ?_).mono (fun _ _ h => h.1) fun _ _ h => h
    exact hother _ _ said' rfl hsaid'
  · exact hsaid'

/-- Where no listing can be mistaken nothing else is killed. -/
theorem mopup_spares :
    Each (Spares self p listing)
      (run (converse (host_reply listing complaint)) (self.mopup_process_base p) []).2 := by
  have hnil : Safe self p listing [] [] := ⟨trivial, fun pid hpid => absurd hpid List.not_mem_nil⟩
  refine wp.state ?_ self.mopup_process_base_ends
  refine wp_bind.mpr ((mopup_own_process_wp hs hlisting hnil).mono ?_ fun _ _ h => h.1)
  intro _ said hsaid
  refine wp_bind.mpr (wp_onlyIf.mpr ⟨fun hremote => ?_, fun _ => ?_⟩)
  · have hplace : self.place_of p ≠ none := by
      unfold ProcessManager.place_of
      rw [hremote]
      exact Option.some_ne_none _
    refine (mopup_ssh_client_safe hplace hsaid).mono ?_ fun _ _ h => h.1
    exact fun _ said' hsaid' => mopup_related_processes_wp hs hlisting hsaid'
  · exact mopup_related_processes_wp hs hlisting hsaid

end Safety

/-! ## What is found is killed -/

section Found

variable {self : ProcessManager} {p : Procinfo} {l : HostListing}
  {said : List (ShellCommand × Completed)}

/-- The answers where every host lists the same all the time. -/
def still_reply (l : HostListing) : List (ShellCommand × Completed) → ShellCommand → Completed :=
  host_reply (fun _ _ => l) fun _ => []

/-- A lookup finds what is listed. -/
theorem get_pids_still {machine : Machine} {token : GrepToken} {host : String}
    {pids : List String} (hpids : (grepped token l.ps).mapM second_word = .ok pids) :
    (get_pids machine token host).wp (converse (still_reply l))
      (fun found _ => found.1 = pids) (fun _ _ => False) said := by
  have hreply : still_reply l said (machine.on_host "-o BatchMode=yes -x" host (.ps token)) =
      ⟨join_lines (grepped token l.ps), [], 0⟩ := by
    unfold still_reply host_reply
    simp only [on_host_task]
  refine wp_bind.mpr (wp_perform.mpr ?_)
  unfold converse
  rw [hreply]
  refine wp_ite.mpr ⟨fun herr => absurd rfl herr, fun _ => wp_bind.mpr (wp_ofExcept.mpr ⟨?_, ?_⟩)⟩
  · intro found hfound
    rw [answer_pids, hpids] at hfound
    exact (Except.ok.inj hfound).symm
  · intro e he
    rw [answer_pids, hpids] at he
    exact nomatch he

/-- Every line of `ps` has a pid. -/
theorem second_word_ok {line : List Char} (hline : line ∈ l.ps) :
    ∃ pid, second_word line = .ok pid := by
  have hlength := (l.ps_line line hline).2
  refine ⟨(words (String.ofList line))[1], ?_⟩
  unfold second_word
  rw [List.getElem?_eq_getElem (by omega)]

theorem grepped_pids (l : HostListing) (token : GrepToken) :
    ∃ pids, (grepped token l.ps).mapM second_word = .ok pids := by
  have hlines := grepped_subset token l.ps
  revert hlines
  generalize grepped token l.ps = lines
  intro hlines
  induction lines with
  | nil => exact ⟨[], rfl⟩
  | cons line lines ih =>
    obtain ⟨pid, hpid⟩ := second_word_ok (hlines List.mem_cons_self)
    obtain ⟨pids, hpids⟩ := ih fun other h => hlines (List.mem_cons_of_mem line h)
    exact ⟨pid :: pids, mapM_eq_ok.mpr (List.Forall₂.cons hpid (mapM_eq_ok.mp hpids))⟩

theorem get_pid_still (hp : p ∈ self.procinfos) :
    (self.get_pid_for_process_base p).wp (converse (still_reply l))
      (fun found _ => ∀ line pid, grepped (process_token p) l.ps = [line] →
        second_word line = .ok pid → found = some pid) (fun _ _ => False) said := by
  obtain ⟨pids, hpids⟩ := grepped_pids l (process_token p)
  have hssh : (grepped (ssh_process_token p) l.ps).mapM second_word = .ok [] := by
    rw [grepped_ssh]
    rfl
  refine wp_ite.mpr ⟨fun hnot => absurd hp hnot, fun _ => ?_⟩
  refine wp_bind.mpr ((get_pids_still hpids).mono ?_ fun _ _ h => h)
  rintro ⟨found, lines⟩ said' rfl
  refine wp_bind.mpr ((get_pids_still hssh).mono ?_ fun _ _ h => h)
  rintro ⟨ssh_pids, lines'⟩ said'' rfl
  dsimp only
  have hall : found.filter (fun pid => decide (pid ∉ ([] : List String))) = found :=
    List.filter_eq_self.mpr fun pid _ => by simp
  rw [hall]
  split
  · rename_i pid
    intro line pid' hline hpid'
    rw [hline, mapM_eq_ok] at hpids
    cases hpids with
    | cons hfirst _ => rw [hfirst] at hpid'; exact congrArg some (Except.ok.inj hpid')
  · rename_i hno
    intro line pid' hline hpid'
    rw [hline, mapM_eq_ok] at hpids
    cases hpids with
    | cons hfirst hrest =>
      cases hrest
      exact absurd rfl (hno _)

/-- A dialogue in which processes are killed on the host of a process. -/
def Killed (self : ProcessManager) (p : Procinfo) (pids : List String)
    (said : List (ShellCommand × Completed)) : Prop :=
  ∃ options redirect, ∃ line ∈ said,
    line.1 = self.machine.on_host "-o BatchMode=yes -x" p.host (.kill options pids redirect)

theorem killed_keeps {α : Type} {pids : List String} (prog : Shell α)
    (h : Killed self p pids said) : prog.wp (converse (still_reply l))
      (fun _ => Killed self p pids) (fun _ => Killed self p pids) said := by
  have huses : prog.Uses fun _ => True := by
    induction prog with
    | ret a => trivial
    | raise e => trivial
    | hang => trivial
    | step c k ih => exact ⟨trivial, fun r => ih r⟩
  refine wp_of_uses huses (fun c _ said' hsaid' => ?_) h
  obtain ⟨options, redirect, line, hline, hkill⟩ := hsaid'
  exact ⟨options, redirect, line, List.mem_cons_of_mem _ hline, hkill⟩

theorem kill_on_host_killed (options : String) (pids : List String) (redirect : String) :
    (self.kill_on_host p.host options pids redirect).wp (converse (still_reply l))
      (fun _ => Killed self p pids) (fun _ _ => False) said :=
  wp_bind.mpr (wp_perform.mpr ⟨options, redirect, _, List.mem_cons_self, rfl⟩)

/-- The one process that is found is killed. -/
theorem mopup_kills_own (hp : p ∈ self.procinfos) {line : List Char} {pid : String}
    (hline : grepped (process_token p) l.ps = [line]) (hpid : second_word line = .ok pid) :
    (self.mopup_process_base p).wp (converse (still_reply l))
      (fun _ => Killed self p [pid]) (fun _ => Killed self p [pid]) [] := by
  refine wp_bind.mpr (wp_bind.mpr ((get_pid_still hp).mono ?_ fun _ _ h => absurd h id))
  intro found said hfound
  rw [hfound line pid hline hpid]
  refine wp_bind.mpr ((kill_on_host_killed _ _ _).mono ?_ fun _ _ h => absurd h id)
  intro _ said' hkilled
  exact (killed_keeps _ hkilled).mono (fun _ _ h => killed_keeps _ h) fun _ _ h => h

theorem kill_on_host_returns (options : String) (pids : List String) (redirect : String) :
    (self.kill_on_host p.host options pids redirect).wp (converse (still_reply l))
      (fun _ _ => True) (fun _ _ => False) said :=
  (kill_on_host_killed options pids redirect).mono (fun _ _ _ => trivial) fun _ _ h => h

theorem mopup_own_process_returns (hp : p ∈ self.procinfos) :
    (self.mopup_own_process p).wp (converse (still_reply l)) (fun _ _ => True)
      (fun _ _ => False) said := by
  refine wp_bind.mpr ((get_pid_still hp).mono ?_ fun _ _ h => h)
  intro found said' _
  cases found with
  | none => trivial
  | some pid =>
    refine wp_bind.mpr ((kill_on_host_returns _ _ _).mono (fun _ said₂ _ => ?_) fun _ _ h => h)
    refine wp_bind.mpr ((get_pid_still hp).mono (fun remaining said₃ _ => ?_) fun _ _ h => h)
    exact wp_onlyIf.mpr ⟨fun _ => kill_on_host_returns _ _ _, fun _ => trivial⟩

theorem mopup_ssh_client_returns :
    (self.mopup_ssh_client p).wp (converse (still_reply l)) (fun _ _ => True)
      (fun _ _ => False) said := by
  obtain ⟨pids, hpids⟩ := grepped_pids l (ssh_client_token p)
  refine wp_bind.mpr ((get_pids_still hpids).mono ?_ fun _ _ h => h)
  rintro ⟨found, lines⟩ said' -
  dsimp only
  split
  · refine wp_bind.mpr (wp_perform.mpr (wp_bind.mpr ?_))
    exact (get_pids_still hpids).mono (fun _ _ _ => trivial) fun _ _ h => h
  · trivial

/-- Every line of `netstat` is understood. -/
theorem related_pid_ok {line : List Char} (hline : line ∈ l.netstat) :
    ∃ found, ProcessManager.related_pid line = .ok found := by
  unfold ProcessManager.related_pid
  cases hlast : (words (String.ofList line)).getLast? with
  | none => exact absurd (List.getLast?_eq_none_iff.mp hlast) (l.netstat_line line hline).2
  | some word =>
    dsimp only
    split
    · split_ifs
      · exact ⟨none, rfl⟩
      · exact ⟨some _, rfl⟩
    · exact ⟨none, rfl⟩

theorem related_pids_ok (l : HostListing) (port : String) :
    ∃ found, (with_port port l.netstat).mapM ProcessManager.related_pid = .ok found := by
  have hlines : with_port port l.netstat ⊆ l.netstat := fun _ hline => List.mem_of_mem_filter hline
  revert hlines
  generalize with_port port l.netstat = lines
  intro hlines
  induction lines with
  | nil => exact ⟨[], rfl⟩
  | cons line lines ih =>
    obtain ⟨found, hfound⟩ := related_pid_ok (hlines List.mem_cons_self)
    obtain ⟨others, hothers⟩ := ih fun other h => hlines (List.mem_cons_of_mem line h)
    exact ⟨found :: others, mapM_eq_ok.mpr (List.Forall₂.cons hfound (mapM_eq_ok.mp hothers))⟩

/-- Everything that is found at the port is killed. -/
theorem mopup_kills_related (hp : p ∈ self.procinfos) {found : List (Option String)}
    (hfound : (with_port p.port l.netstat).mapM ProcessManager.related_pid = .ok found) :
    (self.mopup_process_base p).wp (converse (still_reply l))
      (fun _ => Killed self p found.reduceOption.dedup)
      (fun _ => Killed self p found.reduceOption.dedup) [] := by
  refine wp_bind.mpr ((mopup_own_process_returns hp).mono ?_ fun _ _ h => absurd h id)
  intro _ said _
  have hclient : (onlyIf (self.machine.host_is_local p.host = false)
      (self.mopup_ssh_client p)).wp (converse (still_reply l)) (fun _ _ => True)
      (fun _ _ => False) said :=
    wp_onlyIf.mpr ⟨fun _ => mopup_ssh_client_returns, fun _ => trivial⟩
  refine wp_bind.mpr (hclient.mono (fun _ said₁ _ => ?_) fun _ _ h => absurd h id)
  have hreply : ∀ said', (still_reply l said'
      (self.machine.on_host "-o BatchMode=yes -x" p.host (.netstat p.port))).out =
        join_lines (with_port p.port l.netstat) := by
    intro said'
    unfold still_reply host_reply
    simp only [on_host_task]
  refine wp_bind.mpr (wp_bind.mpr (wp_perform.mpr (wp_bind.mpr (wp_ofExcept.mpr ⟨?_, ?_⟩))))
  · intro found' hfound'
    unfold converse at hfound'
    rw [hreply, answer_related_pids, hfound] at hfound'
    obtain rfl := Except.ok.inj hfound'
    refine wp_bind.mpr ((kill_on_host_killed _ _ _).mono ?_ fun _ _ h => absurd h id)
    exact fun _ said' hkilled => killed_keeps _ hkilled
  · intro e he
    unfold converse at he
    rw [hreply, answer_related_pids, hfound] at he
    exact nomatch he

/-- What is killed where nothing else may be killed. -/
theorem rightful_of_killed {pids : List String}
    (hspares : Each (Spares self p fun _ _ => l) said) (hkilled : Killed self p pids said) :
    ∀ pid ∈ pids, Rightful self p l pid := by
  intro pid hpid
  obtain ⟨options, redirect, line, hline, hkill⟩ := hkilled
  have hrightful := hspares.of_mem (C := fun c => c.place = self.place_of p →
    ∀ options pids redirect, c.task = .kill options pids redirect →
      ∀ pid ∈ pids, Rightful self p l pid) ?_ line hline
  · rw [hkill] at hrightful
    exact hrightful (on_host_place_of _ _) options pids redirect (on_host_task _ _ _ _) pid hpid
  · intro c before hc hplace options pids redirect htask pid hpid
    obtain ⟨t, -, hright⟩ := hc hplace options pids redirect htask pid hpid
    exact hright

end Found

/-- A process with the port 510 on the program's own machine. -/
def port510_manager : ProcessManager where
  machine := ⟨"node1", none⟩
  procinfos := [{ Procinfo.new .BoardReader "br" "1" with port := "510" }]
  attempt_existing_pid_kill := false
  DAQINTERFACE_PARTITION_NUMBER := "0"
  USER := "daq"

/-- A listing without processes and with one socket. -/
def one_socket (line : String) (h : '\n' ∉ line.toList ∧ words (String.ofList line.toList) ≠ []) :
    HostListing where
  ps := []
  netstat := [line.toList]
  ps_line := fun line hline => absurd hline List.not_mem_nil
  netstat_line := fun line' hline => by rwa [List.mem_singleton.mp hline]

/-- A socket whose port has the port of the process as a part. -/
def port5100_listing : HostListing := one_socket "tcp 0 0 :5100 :0 LISTEN 7/b" (by decide)

end DaqInterface
