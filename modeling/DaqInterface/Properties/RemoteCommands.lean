import DaqInterface.Model.ProcessManager

/-!
# Where commands are executed

The commands for a host go through `ssh` unless the host is taken for the program's own machine.
That decision looks for the short name of the machine anywhere in the name of the host, so on a
machine `node1` the commands for `node10` are executed on `node1`.  Commands for a host that is
not the machine are executed there exactly if the short name is no part of the host's name
(`commands_remote_iff`).
-/

namespace DaqInterface

open Pattern Program

/-- A name of the machine: `localhost`, the value of `HOSTNAME`, or the short name, alone or
followed by a domain. -/
def Machine.Names (self : Machine) (host : String) : Prop :=
  host = "localhost" ∨ self.HOSTNAME = some host ∨ host = self.get_short_hostname ∨
    ∃ domain, host = self.get_short_hostname ++ "." ++ domain

theorem Machine.names_iff {self : Machine} {host : String} :
    self.Names host ↔ host = "localhost" ∨ self.HOSTNAME = some host ∨
      host = self.get_short_hostname ∨
        self.get_short_hostname.toList ++ ['.'] <+: host.toList := by
  have hdomain : (∃ domain, host = self.get_short_hostname ++ "." ++ domain) ↔
      self.get_short_hostname.toList ++ ['.'] <+: host.toList := by
    constructor
    · rintro ⟨domain, hhost⟩
      refine ⟨domain.toList, ?_⟩
      rw [hhost, String.toList_append, String.toList_append]
      rfl
    · rintro ⟨domain, hhost⟩
      refine ⟨String.ofList domain, String.toList_injective ?_⟩
      have hback : (String.ofList domain).toList = domain := String.toList_ofList
      rw [← hhost, String.toList_append, String.toList_append, hback]
      rfl
  unfold Machine.Names
  rw [hdomain]

instance (self : Machine) (host : String) : Decidable (self.Names host) :=
  decidable_of_iff _ Machine.names_iff.symm

/-- Another host is taken for the machine if the short name of the machine is a part of its name. -/
theorem Machine.host_is_local_iff {self : Machine} {host : String} (hname : ¬ self.Names host) :
    self.host_is_local host = true ↔
      self.get_short_hostname.toList <:+: host.toList := by
  unfold Machine.host_is_local contains
  have hlocalhost : (host == "localhost") = false := beq_false_of_ne fun h => hname (Or.inl h)
  have henviron : (self.HOSTNAME == some host) = false :=
    beq_false_of_ne fun h => hname (Or.inr (Or.inl h))
  rw [hlocalhost, henviron, Bool.false_or, Bool.false_or, decide_eq_true_iff]

theorem Machine.on_host_place (self : Machine) (options host : String) (task : Task) :
    (self.on_host options host task).place =
      if self.host_is_local host then none else some host := by
  unfold Machine.on_host ShellCommand.place
  split_ifs <;> rfl

/-! ## The commands of each function -/

/-- A command that a function issues for a host. -/
def Machine.For (self : Machine) (host : String) (c : ShellCommand) : Prop :=
  ∃ options task, c = self.on_host options host task

theorem get_pids_uses (self : Machine) (token : GrepToken) (host : String) :
    (get_pids self token host).Uses (self.For host) := by
  refine uses_bind (uses_perform ⟨_, _, rfl⟩) fun proc => ?_
  refine uses_ite (fun _ => uses_raise _) fun _ => ?_
  exact uses_bind (uses_ofExcept _) fun _ => uses_ret _

theorem get_pids_ends (self : Machine) (token : GrepToken) (host : String) :
    (get_pids self token host).Ends := by
  refine ends_bind (ends_perform _) fun proc => ?_
  by_cases herr : proc.err ≠ []
  · rw [if_pos herr]
    exact ends_raise _
  · rw [if_neg herr]
    exact ends_bind (ends_ofExcept _) fun _ => ends_ret _

namespace ProcessManager

variable {self : ProcessManager} {host : String}

theorem kill_on_host_uses (options : String) (pids : List String) (redirect : String) :
    (self.kill_on_host host options pids redirect).Uses (self.machine.For host) :=
  uses_bind (uses_perform ⟨_, _, rfl⟩) fun _ => uses_ret _

theorem kill_on_host_ends (options : String) (pids : List String) (redirect : String) :
    (self.kill_on_host host options pids redirect).Ends :=
  ends_bind (ends_perform _) fun _ => ends_ret _

theorem kill_procs_on_host_uses (kill_art use_force : Bool) :
    (self.kill_procs_on_host host kill_art use_force).Uses (self.machine.For host) := by
  refine uses_bind ?_ fun found => ?_
  · refine uses_bind (get_pids_uses _ _ _) fun grepped => ?_
    exact uses_bind (uses_ofExcept _) fun _ => uses_ret _
  · refine uses_bind (uses_onlyIf fun _ => kill_on_host_uses _ _ _) fun _ => ?_
    refine uses_onlyIf fun _ => uses_bind (get_pids_uses _ _ _) fun grepped => ?_
    exact uses_onlyIf fun _ => kill_on_host_uses _ _ _

theorem kill_procs_on_host_ends (self : ProcessManager) (host : String) (kill_art use_force : Bool) :
    (self.kill_procs_on_host host kill_art use_force).Ends := by
  refine ends_bind (ends_bind (get_pids_ends _ _ _) fun _ => ?_) fun found => ?_
  · exact ends_bind (ends_ofExcept _) fun _ => ends_ret _
  · refine ends_bind (ends_onlyIf (kill_on_host_ends _ _ _)) fun _ => ends_onlyIf ?_
    exact ends_bind (get_pids_ends _ _ _) fun _ => ends_onlyIf (kill_on_host_ends _ _ _)

theorem find_preexisting_pids_uses :
    (self.find_preexisting_pids host).Uses (self.machine.For host) := by
  refine uses_bind (get_pids_uses _ _ _) fun found => uses_ite (fun _ => ?_) fun _ => uses_ret _
  refine uses_bind (kill_procs_on_host_uses _ _) fun _ => ?_
  exact uses_bind (get_pids_uses _ _ _) fun _ => uses_ret _

theorem launch_procs_on_host_uses (date : String) (cmds background : List String) :
    (self.launch_procs_on_host date host cmds background).Uses (self.machine.For host) := by
  refine uses_bind find_preexisting_pids_uses fun pids => ?_
  refine uses_ite (fun _ => uses_raise _) fun _ => ?_
  refine uses_bind (uses_perform ⟨_, _, rfl⟩) fun proc => ?_
  exact uses_ite (fun _ => uses_raise _) fun _ => uses_ret _

variable {procinfo : Procinfo}

theorem get_pid_for_process_base_uses :
    (self.get_pid_for_process_base procinfo).Uses (self.machine.For procinfo.host) := by
  refine uses_ite (fun _ => uses_raise _) fun _ => ?_
  refine uses_bind (get_pids_uses _ _ _) fun ⟨pids, _⟩ => ?_
  refine uses_bind (get_pids_uses _ _ _) fun ⟨ssh_pids, _⟩ => ?_
  dsimp only
  split <;> exact uses_ret _

theorem get_pid_for_process_base_ends : (self.get_pid_for_process_base procinfo).Ends := by
  unfold get_pid_for_process_base
  split
  · exact ends_raise _
  · refine ends_bind (get_pids_ends _ _ _) fun ⟨pids, _⟩ => ?_
    refine ends_bind (get_pids_ends _ _ _) fun ⟨ssh_pids, _⟩ => ?_
    dsimp only
    split <;> exact ends_ret _

theorem mopup_own_process_uses :
    (self.mopup_own_process procinfo).Uses (self.machine.For procinfo.host) := by
  refine uses_bind get_pid_for_process_base_uses fun pid => ?_
  cases pid with
  | none => exact uses_ret _
  | some pid =>
    refine uses_bind (kill_on_host_uses _ _ _) fun _ => ?_
    refine uses_bind get_pid_for_process_base_uses fun remaining => ?_
    exact uses_onlyIf fun _ => kill_on_host_uses _ _ _

theorem mopup_own_process_ends : (self.mopup_own_process procinfo).Ends := by
  refine ends_bind get_pid_for_process_base_ends fun pid => ?_
  cases pid with
  | none => exact ends_ret _
  | some pid =>
    refine ends_bind (kill_on_host_ends _ _ _) fun _ => ?_
    refine ends_bind get_pid_for_process_base_ends fun remaining => ?_
    exact ends_onlyIf (kill_on_host_ends _ _ _)

theorem get_related_pids_uses :
    (self.get_related_pids_for_process procinfo).Uses (self.machine.For procinfo.host) := by
  refine uses_bind (uses_perform ⟨_, _, rfl⟩) fun proc => ?_
  exact uses_bind (uses_ofExcept _) fun _ => uses_ret _

theorem get_related_pids_ends : (self.get_related_pids_for_process procinfo).Ends := by
  refine ends_bind (ends_perform _) fun proc => ?_
  exact ends_bind (ends_ofExcept _) fun _ => ends_ret _

theorem mopup_related_processes_uses :
    (self.mopup_related_processes procinfo).Uses (self.machine.For procinfo.host) := by
  refine uses_bind get_related_pids_uses fun related => ?_
  refine uses_bind (kill_on_host_uses _ _ _) fun _ => ?_
  refine uses_bind get_related_pids_uses fun unkilled => ?_
  exact uses_onlyIf fun _ => kill_on_host_uses _ _ _

theorem mopup_related_processes_ends : (self.mopup_related_processes procinfo).Ends := by
  refine ends_bind get_related_pids_ends fun related => ?_
  refine ends_bind (kill_on_host_ends _ _ _) fun _ => ?_
  refine ends_bind get_related_pids_ends fun unkilled => ?_
  exact ends_onlyIf (kill_on_host_ends _ _ _)

theorem mopup_ssh_client_ends : (self.mopup_ssh_client procinfo).Ends := by
  refine ends_bind (get_pids_ends _ _ _) fun ⟨pids, _⟩ => ?_
  dsimp only
  split
  · refine ends_bind (ends_perform _) fun _ => ?_
    exact ends_bind (get_pids_ends _ _ _) fun _ => ends_ret _
  · exact ends_ret _

theorem mopup_process_base_ends : (self.mopup_process_base procinfo).Ends := by
  refine ends_bind mopup_own_process_ends fun _ => ?_
  refine ends_bind (ends_onlyIf mopup_ssh_client_ends) fun _ => ?_
  exact mopup_related_processes_ends

end ProcessManager

/-! ## Where they go -/

/-- All commands of a program go through `ssh` to a host. -/
def SentTo {α : Type} (host : String) (p : Shell α) : Prop :=
  ∀ reply, ∀ line ∈ (run (converse reply) p []).2, line.1.place = some host

/-- A command on the program's own machine that ends the connection to the host of a process. -/
def OnThisSide (p : Procinfo) (c : ShellCommand) (before : List (ShellCommand × Completed)) :
    Prop :=
  c = ⟨none, .ps (ssh_client_token p)⟩ ∨
    ∃ pid proc, (⟨none, .ps (ssh_client_token p)⟩, proc) ∈ before ∧
      (answer_lines proc.out).mapM second_word = .ok [pid] ∧
        c = ⟨none, .kill "" [pid] " > /dev/null 2>&1"⟩

/-- All commands for a process that was lost go to its host, those that end the connection to it
aside. -/
def MoppedUpThere (self : ProcessManager) (p : Procinfo) : Prop :=
  ∀ reply, Each (fun c before => c.place = some p.host ∨ OnThisSide p c before)
    (run (converse reply) (self.mopup_process_base p) []).2

/-- A program issues a command, whatever it is answered. -/
def Asks {α : Type} (c : ShellCommand) (p : Shell α) : Prop :=
  ∀ reply, ∃ proc, (c, proc) ∈ (run (converse reply) p []).2

theorem Asks.bind {α β : Type} {c : ShellCommand} {p : Shell α} (h : Asks c p)
    (f : α → Shell β) : Asks c (p >>= f) := by
  intro reply
  obtain ⟨proc, hmem⟩ := h reply
  exact ⟨proc, (suffix_of_run_bind p f []).subset hmem⟩

theorem asks_perform (c : ShellCommand) : Asks c (perform c) :=
  fun _ => ⟨_, List.mem_cons_self⟩

theorem get_pids_asks (self : Machine) (token : GrepToken) (host : String) :
    Asks (self.on_host "-o BatchMode=yes -x" host (.ps token)) (get_pids self token host) :=
  (asks_perform _).bind _

section Machine

variable {α : Type} {machine : Machine} {host : String} {p : Shell α}

theorem sentTo_of_uses (hlocal : machine.host_is_local host = false)
    (hp : p.Uses (machine.For host)) : SentTo host p := by
  intro reply
  refine run_preserves (I := fun said : List (ShellCommand × Completed) =>
    ∀ line ∈ said, line.1.place = some host) hp ?_ fun line hline => absurd hline List.not_mem_nil
  rintro c ⟨options, task, rfl⟩ said hsaid line hline
  rcases List.mem_cons.mp hline with rfl | hline
  · rw [Machine.on_host_place, hlocal]
    rfl
  · exact hsaid line hline

/-- A program that issues a command for a host sends all commands there exactly if the host is not
taken for the program's own machine. -/
theorem sentTo_iff {options : String} {task : Task} (hp : p.Uses (machine.For host))
    (hasks : Asks (machine.on_host options host task) p) :
    SentTo host p ↔ machine.host_is_local host = false := by
  constructor
  · intro h
    by_contra hlocal
    obtain ⟨proc, hmem⟩ := hasks fun _ _ => ⟨[], [], 0⟩
    have hplace := h _ _ hmem
    rw [Machine.on_host_place, if_pos (Bool.of_not_eq_false hlocal)] at hplace
    exact nomatch hplace
  · exact fun hlocal => sentTo_of_uses hlocal hp

end Machine

theorem launch_sentTo_iff {self : ProcessManager} {host : String} (date : String)
    (cmds background : List String) :
    SentTo host (self.launch_procs_on_host date host cmds background) ↔
      self.machine.host_is_local host = false := by
  have hasks : Asks (self.machine.on_host "-o BatchMode=yes -x" host
      (.ps (ports_token (self.procinfos.filter fun p => p.host == host))))
      (self.launch_procs_on_host date host cmds background) :=
    ((get_pids_asks _ _ _).bind _).bind _
  exact sentTo_iff (self.launch_procs_on_host_uses date cmds background) hasks

theorem kill_sentTo_iff {self : ProcessManager} {host : String} (kill_art use_force : Bool) :
    SentTo host (self.kill_procs_on_host host kill_art use_force) ↔
      self.machine.host_is_local host = false := by
  have hasks : Asks (self.machine.on_host "-o BatchMode=yes -x" host
      (.ps (artdaq_token self.procinfos self.DAQINTERFACE_PARTITION_NUMBER)))
      (self.kill_procs_on_host host kill_art use_force) :=
    ((get_pids_asks _ _ _).bind _).bind _
  exact sentTo_iff (self.kill_procs_on_host_uses kill_art use_force) hasks

/-- The connections are looked for on the program's own machine. -/
theorem on_host_localhost (self : Machine) (options : String) (task : Task) :
    self.on_host options "localhost" task = ⟨none, task⟩ := if_pos rfl

section Mopup

variable {self : ProcessManager} {p : Procinfo}
  {reply : List (ShellCommand × Completed) → ShellCommand → Completed}

/-- A lookup adds one line to the dialogue, from which it takes its result. -/
theorem get_pids_wp {machine : Machine} {token : GrepToken} {host : String}
    {I : List (ShellCommand × Completed) → Prop} {said : List (ShellCommand × Completed)}
    (hI : ∀ proc, I ((machine.on_host "-o BatchMode=yes -x" host (.ps token), proc) :: said)) :
    (get_pids machine token host).wp (converse reply)
      (fun found said' => I said' ∧ ∃ proc,
        proc = reply said (machine.on_host "-o BatchMode=yes -x" host (.ps token)) ∧
          said' = (machine.on_host "-o BatchMode=yes -x" host (.ps token), proc) :: said ∧
            (answer_lines proc.out).mapM second_word = .ok found.1)
      (fun _ => I) said := by
  refine wp_bind.mpr (wp_perform.mpr (wp_ite.mpr ⟨fun _ => hI _, fun _ => ?_⟩))
  refine wp_bind.mpr (wp_ofExcept.mpr ⟨fun pids hpids => ?_, fun e _ => hI _⟩)
  exact ⟨hI _, _, rfl, rfl, hpids⟩

theorem mopup_ssh_client_wp {P : ShellCommand → List (ShellCommand × Completed) → Prop}
    (hP : ∀ c before, OnThisSide p c before → P c before)
    {said : List (ShellCommand × Completed)} (hsaid : Each P said) :
    (self.mopup_ssh_client p).wp (converse reply) (fun _ => Each P) (fun _ => Each P) said := by
  have hlook : ∀ proc said', Each P said' → Each P
      ((self.machine.on_host "-o BatchMode=yes -x" "localhost" (.ps (ssh_client_token p)), proc) ::
        said') := by
    intro proc said' hsaid'
    rw [on_host_localhost]
    exact ⟨hP _ _ (Or.inl rfl), hsaid'⟩
  refine wp_bind.mpr ((get_pids_wp fun proc => hlook proc said hsaid).mono ?_ fun _ _ h => h)
  rintro ⟨pids, lines⟩ said' ⟨hsaid', proc, -, rfl, hpids⟩
  dsimp only
  split
  · rename_i pid
    have hkill : OnThisSide p ⟨none, .kill "" [pid] " > /dev/null 2>&1"⟩
        ((self.machine.on_host "-o BatchMode=yes -x" "localhost" (.ps (ssh_client_token p)),
          proc) :: said) := by
      rw [on_host_localhost]
      exact Or.inr ⟨pid, proc, List.mem_cons_self, hpids, rfl⟩
    refine wp_bind.mpr (wp_perform.mpr (wp_bind.mpr ?_))
    refine (get_pids_wp fun proc' => hlook proc' _ ?_).mono ?_ fun _ _ h => h
    · exact ⟨hP _ _ hkill, hsaid'⟩
    · exact fun found said'' h => h.1
  · exact hsaid'

theorem moppedUpThere_of_remote (hlocal : self.machine.host_is_local p.host = false) :
    MoppedUpThere self p := by
  intro reply
  have hplace : ∀ c before, self.machine.For p.host c →
      c.place = some p.host ∨ OnThisSide p c before := by
    rintro c before ⟨options, task, rfl⟩
    rw [Machine.on_host_place, hlocal]
    exact Or.inl rfl
  let P : ShellCommand → List (ShellCommand × Completed) → Prop := fun c before =>
    c.place = some p.host ∨ OnThisSide p c before
  have hnil : Each P [] := trivial
  refine wp.state ?_ self.mopup_process_base_ends
  refine wp_bind.mpr ((each_of_uses self.mopup_own_process_uses hplace hnil).mono ?_
    fun _ _ h => h)
  intro _ said hsaid
  have hclient : (onlyIf (self.machine.host_is_local p.host = false)
      (self.mopup_ssh_client p)).wp (converse reply) (fun _ => Each P) (fun _ => Each P) said := by
    refine wp_onlyIf.mpr ⟨fun _ => ?_, fun _ => hsaid⟩
    exact mopup_ssh_client_wp (fun c before h => Or.inr h) hsaid
  refine wp_bind.mpr (hclient.mono (fun _ said' hsaid' => ?_) fun _ _ h => h)
  exact each_of_uses self.mopup_related_processes_uses hplace hsaid'

/-- The listing of the processes on the host is none on this side. -/
theorem process_token_ne_client (p : Procinfo) :
    Task.ps (process_token p) ≠ Task.ps (ssh_client_token p) := by
  intro h
  have htext := congrArg String.toList (congrArg GrepToken.text (Task.ps.inj h))
  unfold process_token ssh_client_token at htext
  cases hname : p.name <;> simp [hname, bootfile_name_to_execname] at htext

theorem moppedUpThere_iff (hp : p ∈ self.procinfos) :
    MoppedUpThere self p ↔ self.machine.host_is_local p.host = false := by
  constructor
  · intro h
    by_contra hlocal
    have hasks : Asks (self.machine.on_host "-o BatchMode=yes -x" p.host (.ps (process_token p)))
        (self.mopup_process_base p) := by
      refine Asks.bind (Asks.bind ?_ _) _
      unfold ProcessManager.get_pid_for_process_base
      rw [if_neg (not_not.mpr hp)]
      exact (get_pids_asks _ _ _).bind _
    obtain ⟨proc, hmem⟩ := hasks fun _ _ => ⟨[], [], 0⟩
    have hline := (h _).of_mem (C := fun c => c.place = some p.host ∨
      c = ⟨none, .ps (ssh_client_token p)⟩ ∨ ∃ pid, c = ⟨none, .kill "" [pid] " > /dev/null 2>&1"⟩)
      ?_ _ hmem
    · unfold Machine.on_host at hline
      rw [if_pos (Bool.of_not_eq_false hlocal)] at hline
      rcases hline with hplace | heq | ⟨pid, heq⟩
      · exact nomatch hplace
      · exact process_token_ne_client p (congrArg ShellCommand.task heq)
      · exact nomatch heq
    · rintro c before (hplace | heq | ⟨pid, proc', -, -, heq⟩)
      · exact Or.inl hplace
      · exact Or.inr (Or.inl heq)
      · exact Or.inr (Or.inr ⟨pid, heq⟩)
  · exact moppedUpThere_of_remote

end Mopup

/-- Commands for the host of a process that is not the program's own machine are executed there
exactly if the short name of the machine is no part of the host's name. -/
theorem commands_remote_iff {self : ProcessManager} {p : Procinfo} (hp : p ∈ self.procinfos)
    (hname : ¬ self.machine.Names p.host) (token : GrepToken) (date : String)
    (cmds background : List String) (kill_art use_force : Bool) :
    (SentTo p.host (get_pids self.machine token p.host) ↔
        ¬ self.machine.get_short_hostname.toList <:+: p.host.toList) ∧
      (SentTo p.host (self.launch_procs_on_host date p.host cmds background) ↔
        ¬ self.machine.get_short_hostname.toList <:+: p.host.toList) ∧
      (SentTo p.host (self.kill_procs_on_host p.host kill_art use_force) ↔
        ¬ self.machine.get_short_hostname.toList <:+: p.host.toList) ∧
      (MoppedUpThere self p ↔
        ¬ self.machine.get_short_hostname.toList <:+: p.host.toList) := by
  have hlocal : self.machine.host_is_local p.host = false ↔
      ¬ self.machine.get_short_hostname.toList <:+: p.host.toList := by
    rw [← Machine.host_is_local_iff hname, Bool.not_eq_true]
  rw [← hlocal]
  refine ⟨?_, launch_sentTo_iff date cmds background, kill_sentTo_iff kill_art use_force,
    moppedUpThere_iff hp⟩
  exact sentTo_iff (get_pids_uses _ _ _) (get_pids_asks _ _ _)

/-- A process on the host `node10`, managed from a machine. -/
def node10_manager (gethostname : String) : ProcessManager where
  machine := ⟨gethostname, none⟩
  procinfos := [{ Procinfo.new .BoardReader "br" "1" with host := "node10", port := "5100" }]
  attempt_existing_pid_kill := false
  DAQINTERFACE_PARTITION_NUMBER := "0"
  USER := "daq"

/-- From a machine `gate` the commands go to `node10`. -/
theorem gate_commands_remote :
    let self := node10_manager "gate"
    let p := { Procinfo.new .BoardReader "br" "1" with host := "node10", port := "5100" }
    (SentTo p.host (get_pids self.machine (process_token p) p.host) ↔
        ¬ self.machine.get_short_hostname.toList <:+: p.host.toList) ∧
      (SentTo p.host (self.launch_procs_on_host "" p.host [] []) ↔
        ¬ self.machine.get_short_hostname.toList <:+: p.host.toList) ∧
      (SentTo p.host (self.kill_procs_on_host p.host true false) ↔
        ¬ self.machine.get_short_hostname.toList <:+: p.host.toList) ∧
      (MoppedUpThere self p ↔
        ¬ self.machine.get_short_hostname.toList <:+: p.host.toList) := by
  intro self p
  exact commands_remote_iff List.mem_cons_self (by decide) (process_token p) "" [] [] true false

/-- On a machine `node1` the commands for `node10` are executed on `node1`. -/
theorem node1_commands_here :
    let self := node10_manager "node1"
    let p := { Procinfo.new .BoardReader "br" "1" with host := "node10", port := "5100" }
    p ∈ self.procinfos ∧ ¬ self.machine.Names p.host ∧
      ¬ SentTo p.host (get_pids self.machine (process_token p) p.host) ∧
      ¬ SentTo p.host (self.launch_procs_on_host "" p.host [] []) ∧
      ¬ SentTo p.host (self.kill_procs_on_host p.host true false) ∧ ¬ MoppedUpThere self p := by
  intro self p
  have hlocal : ¬ self.machine.host_is_local p.host = false := by decide
  refine ⟨List.mem_cons_self, by decide, ?_, ?_, ?_, ?_⟩
  · rwa [sentTo_iff (get_pids_uses _ _ _) (get_pids_asks _ _ _)]
  · rwa [launch_sentTo_iff]
  · rwa [kill_sentTo_iff]
  · rwa [moppedUpThere_iff List.mem_cons_self]

end DaqInterface
