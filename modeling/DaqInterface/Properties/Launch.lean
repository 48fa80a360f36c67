import DaqInterface.Library.Fold
import DaqInterface.Model.Launch
import DaqInterface.Properties.RemoteCommands

/-!
# What is launched where

The commands of `launch_procs_base` are collected while it goes through the processes.  In the end
each host has the commands that prepare it and, in their order, one command for each of its
processes, and no host has another one (`Launcher.launch_plan_exact`).  The thread of a host gives
them to it at most once, and only if its last look found no process at their ports
(`Launcher.launches_guarded`).
-/

open Loop

namespace DaqInterface

open Pattern Program

namespace Launcher

variable {self : Launcher} {host : String} {procs : List Procinfo}
  {plan : List (String × HostLaunch)}

/-! ## What is collected -/

/-- What a host is given when certain processes are launched. -/
def launch_of (self : Launcher) (procs : List Procinfo) (host : String) : HostLaunch :=
  { self.prepare_host host with
    launch_commands_to_run_on_host_background :=
      (procs.filter fun p => p.host == host).map
        (self.launch_cmd (self.prepare_host host).launch_attempt_file) }

/-- The commands of all hosts to which processes belong, and of no others. -/
structure Collected (launcher : Launcher) (procs : List Procinfo)
    (plan : List (String × HostLaunch)) : Prop where
  /-- The hosts come in the order of their first processes. -/
  hosts : plan.map Prod.fst = (procs.map Procinfo.host).reverse.dedup.reverse
  /-- Each has the commands of its processes. -/
  commands : ∀ host ∈ procs.map Procinfo.host, plan.lookup host = some (launcher.launch_of procs host)

theorem Collected.lookup (h : self.Collected procs plan) (host : String) :
    (plan.lookup host).getD (self.prepare_host host) = self.launch_of procs host := by
  by_cases hmem : host ∈ procs.map Procinfo.host
  · rw [h.commands host hmem]
    rfl
  · have hnone : plan.lookup host = none := by
      rw [List.lookup_eq_none_iff]
      intro entry hentry
      have hkey : entry.1 ∈ plan.map Prod.fst := List.mem_map_of_mem hentry
      rw [h.hosts, List.mem_reverse, List.mem_dedup, List.mem_reverse] at hkey
      rw [bne_iff_ne]
      rintro rfl
      exact hmem hkey
    have hempty : procs.filter (fun p => p.host == host) = [] :=
      List.filter_eq_nil_iff.mpr fun p hp heq =>
        hmem (List.mem_map.mpr ⟨p, hp, beq_iff_eq.mp heq⟩)
    rw [hnone, launch_of, hempty]
    rfl

/-- One more process belongs to its own host. -/
theorem launch_of_concat (procs : List Procinfo) (p : Procinfo) (host : String) :
    self.launch_of (procs ++ [p]) host =
      if p.host = host then
        { self.launch_of procs host with
          launch_commands_to_run_on_host_background :=
            (self.launch_of procs host).launch_commands_to_run_on_host_background ++
              [self.launch_cmd (self.launch_of procs host).launch_attempt_file p] }
      else self.launch_of procs host := by
  unfold launch_of
  rw [List.filter_append, List.map_append]
  split_ifs with hhost
  · rw [List.filter_singleton, beq_iff_eq.mpr hhost]
    rfl
  · rw [List.filter_singleton, beq_false_of_ne hhost]
    simp

theorem Collected.collect (h : self.Collected procs plan) (p : Procinfo) :
    self.Collected (procs ++ [p]) (self.collect plan p) := by
  have hcollect : self.collect plan p =
      Dict.assign p.host (self.launch_of (procs ++ [p]) p.host) plan := by
    unfold Launcher.collect
    rw [h.lookup, launch_of_concat, if_pos rfl]
  rw [hcollect]
  constructor
  · rw [Dict.keys_assign, h.hosts, List.map_append, List.reverse_append, List.map_singleton,
      List.reverse_singleton, List.singleton_append]
    by_cases hmem : p.host ∈ (procs.map Procinfo.host).reverse
    · rw [if_pos (List.mem_reverse.mpr (List.mem_dedup.mpr hmem)), List.dedup_cons_of_mem hmem]
    · rw [if_neg fun h' => hmem (List.mem_dedup.mp (List.mem_reverse.mp h')),
        List.dedup_cons_of_notMem hmem, List.reverse_cons]
  · intro host hhost
    rw [Dict.lookup_assign]
    split_ifs with heq
    · rw [heq]
    · rw [List.map_append, List.mem_append, List.map_singleton, List.mem_singleton] at hhost
      rw [h.commands host (hhost.resolve_right heq), launch_of_concat,
        if_neg fun h' => heq h'.symm]

theorem collected_foldl (h : self.Collected procs plan) (more : List Procinfo) :
    self.Collected (procs ++ more) (more.foldl self.collect plan) := by
  induction more generalizing procs plan with
  | nil => rwa [List.append_nil]
  | cons p more ih =>
    have hnext := ih (h.collect p)
    rwa [List.append_assoc, List.singleton_append] at hnext

/-- The plan of a launch: the hosts come in the order of their first processes, and each has the
commands that prepare it and one command for each of its own processes, in their order. -/
theorem launch_plan_exact (self : Launcher) :
    self.launch_plan.map Prod.fst =
        ((self.procinfos.map self.named_host).map Procinfo.host).reverse.dedup.reverse ∧
      ∀ host launch, (host, launch) ∈ self.launch_plan →
        launch = self.launch_of (self.procinfos.map self.named_host) host := by
  have hcollected : self.Collected (self.procinfos.map self.named_host) self.launch_plan := by
    have hempty : self.Collected [] [] := ⟨rfl, fun host h => absurd h List.not_mem_nil⟩
    exact collected_foldl hempty _
  refine ⟨hcollected.hosts, fun host launch hmem => ?_⟩
  have hkeys : (self.launch_plan.map Prod.fst).Nodup := by
    rw [hcollected.hosts]
    exact List.nodup_reverse.mpr (List.nodup_dedup _)
  have hhost : host ∈ (self.procinfos.map self.named_host).map Procinfo.host := by
    have hkey : host ∈ self.launch_plan.map Prod.fst := List.mem_map.mpr ⟨_, hmem, rfl⟩
    rwa [hcollected.hosts, List.mem_reverse, List.mem_dedup, List.mem_reverse] at hkey
  have hlookup := Dict.lookup_of_mem hkeys hmem
  rw [hcollected.commands host hhost] at hlookup
  exact (Option.some.inj hlookup).symm

/-! ## When it is launched -/

/-- The command launches nothing. -/
def Peaceful (c : ShellCommand) : Prop := ∀ launchcmd, c.task ≠ .launch launchcmd

theorem peaceful_on_host {machine : Machine} {options host : String} {task : Task}
    (h : ∀ launchcmd, task ≠ .launch launchcmd) : Peaceful (machine.on_host options host task) := by
  intro launchcmd heq
  unfold Machine.on_host at heq
  split at heq
  · exact h launchcmd heq
  · exact h launchcmd heq

theorem get_pids_peaceful (machine : Machine) (token : GrepToken) (host : String) :
    (get_pids machine token host).Uses Peaceful := by
  have hlook : Peaceful (machine.on_host "-o BatchMode=yes -x" host (.ps token)) :=
    peaceful_on_host fun _ heq => nomatch heq
  refine uses_bind (uses_perform hlook) fun proc => ?_
  refine uses_ite (fun _ => uses_raise _) fun _ => ?_
  exact uses_bind (uses_ofExcept _) fun _ => uses_ret _

theorem kill_procs_on_host_peaceful (manager : ProcessManager) (host : String)
    (kill_art use_force : Bool) : (manager.kill_procs_on_host host kill_art use_force).Uses Peaceful := by
  have hkill : ∀ options pids redirect,
      (manager.kill_on_host host options pids redirect).Uses Peaceful := by
    intro options pids redirect
    refine uses_bind (uses_perform (peaceful_on_host ?_)) fun _ => uses_ret _
    exact fun _ heq => nomatch heq
  refine uses_bind (uses_bind (get_pids_peaceful _ _ _) fun _ =>
    uses_bind (uses_ofExcept _) fun _ => uses_ret _) fun found => ?_
  refine uses_bind (uses_onlyIf fun _ => hkill _ _ _) fun _ => uses_onlyIf fun _ => ?_
  exact uses_bind (get_pids_peaceful _ _ _) fun _ => uses_onlyIf fun _ => hkill _ _ _

/-- The look for processes at the ports of the processes of a host. -/
def look_at_ports (manager : ProcessManager) (host : String) : ShellCommand :=
  manager.machine.on_host "-o BatchMode=yes -x" host
    (.ps (ports_token (manager.procinfos.filter fun p => p.host == host)))

/-- A command that launches something gives the host the given text; nothing was launched before,
and the last thing that was asked was which processes are at the ports, and there were none. -/
def Guarded (manager : ProcessManager) (host launchcmd : String) (c : ShellCommand)
    (before : List (ShellCommand × Completed)) : Prop :=
  Peaceful c ∨ c = manager.machine.on_host "-o BatchMode=yes" host (.launch launchcmd) ∧
    (∀ line ∈ before, Peaceful line.1) ∧ ∃ proc, before.head? = some (look_at_ports manager host, proc) ∧
      answer_lines proc.out = []

variable {reply : List (ShellCommand × Completed) → ShellCommand → Completed}
  {said : List (ShellCommand × Completed)}

/-- Nothing was launched so far. -/
def NothingLaunched (said : List (ShellCommand × Completed)) : Prop := ∀ line ∈ said, Peaceful line.1

theorem NothingLaunched.cons (h : NothingLaunched said) {c : ShellCommand} (hc : Peaceful c)
    (proc : Completed) : NothingLaunched ((c, proc) :: said) := List.forall_mem_cons.mpr ⟨hc, h⟩

theorem NothingLaunched.each (manager : ProcessManager) (host launchcmd : String)
    (h : NothingLaunched said) : Each (Guarded manager host launchcmd) said := by
  induction said with
  | nil => trivial
  | cons line said ih =>
    obtain ⟨hline, hrest⟩ := List.forall_mem_cons.mp h
    exact ⟨Or.inl hline, ih hrest⟩

/-- The look tells the pids that are found, and is the last thing that is asked. -/
theorem look_at_ports_wp (manager : ProcessManager) (h : NothingLaunched said) :
    (get_pids manager.machine (ports_token (manager.procinfos.filter fun p => p.host == host))
        host).wp (converse reply)
      (fun found said' => NothingLaunched said' ∧ ∃ proc,
        said'.head? = some (look_at_ports manager host, proc) ∧
          (answer_lines proc.out).mapM second_word = .ok found.1)
      (fun _ => NothingLaunched) said := by
  have hlook : Peaceful (look_at_ports manager host) := peaceful_on_host fun _ heq => nomatch heq
  refine (get_pids_wp (I := NothingLaunched) fun proc => h.cons hlook proc).mono ?_ fun _ _ h => h
  rintro found said' ⟨hsaid, proc, -, rfl, hfound⟩
  exact ⟨hsaid, proc, rfl, hfound⟩

theorem find_preexisting_pids_wp (manager : ProcessManager) (h : NothingLaunched said) :
    (manager.find_preexisting_pids host).wp (converse reply)
      (fun pids said' => NothingLaunched said' ∧ ∃ proc,
        said'.head? = some (look_at_ports manager host, proc) ∧
          (answer_lines proc.out).mapM second_word = .ok pids)
      (fun _ => NothingLaunched) said := by
  refine wp_bind.mpr ((look_at_ports_wp manager h).mono ?_ fun _ _ h => h)
  rintro ⟨pids, lines⟩ said₁ ⟨hsaid₁, hfound⟩
  refine wp_ite.mpr ⟨fun _ => ?_, fun _ => ⟨hsaid₁, hfound⟩⟩
  have hkeep : ∀ c, Peaceful c → ∀ said, NothingLaunched said →
      NothingLaunched (converse reply c said).2 := fun c hc said hsaid => hsaid.cons hc _
  have hkilled := wp_of_uses (kill_procs_on_host_peaceful manager host true true) hkeep
    hsaid₁
  refine wp_bind.mpr (hkilled.mono (fun _ said₂ hsaid₂ => ?_) fun _ _ h => h)
  exact wp_bind.mpr ((look_at_ports_wp manager hsaid₂).mono (fun _ _ h => h) fun _ _ h => h)

/-- The text of a launch. -/
def launch_text (manager : ProcessManager) (date : String) (cmds background : List String) : String :=
  manager.construct_checked_command date cmds ++ "; " ++ " ".intercalate background

theorem launch_procs_on_host_wp (manager : ProcessManager) (date : String)
    (cmds background : List String) :
    (manager.launch_procs_on_host date host cmds background).wp (converse reply)
      (fun _ => Each (Guarded manager host (launch_text manager date cmds background)))
      (fun _ => Each (Guarded manager host (launch_text manager date cmds background))) [] := by
  have hnothing : NothingLaunched [] := fun line hline => absurd hline List.not_mem_nil
  refine wp_bind.mpr ((find_preexisting_pids_wp manager hnothing).mono ?_
    fun _ _ h => h.each manager host _)
  rintro pids said ⟨hsaid, proc, hhead, hpids⟩
  refine wp_ite.mpr ⟨fun _ => hsaid.each manager host _, fun hnone => ?_⟩
  have hnopids : pids = [] := List.length_eq_zero_iff.mp (by omega)
  have hanswer : answer_lines proc.out = [] := by
    rw [hnopids] at hpids
    cases hlines : answer_lines proc.out with
    | nil => rfl
    | cons line lines =>
      rw [hlines] at hpids
      exact absurd (mapM_eq_ok.mp hpids) nofun
  have hlaunched : ∀ answer, Each (Guarded manager host (launch_text manager date cmds background))
      ((manager.machine.on_host "-o BatchMode=yes" host
        (.launch (launch_text manager date cmds background)), answer) :: said) := fun answer =>
    ⟨Or.inr ⟨rfl, hsaid, proc, hhead, hanswer⟩, hsaid.each manager host _⟩
  refine wp_bind.mpr (wp_perform.mpr (wp_ite.mpr ⟨fun _ => hlaunched _, fun _ => hlaunched _⟩))

theorem launch_procs_on_host_ends (manager : ProcessManager) (date : String)
    (cmds background : List String) :
    (manager.launch_procs_on_host date host cmds background).Ends := by
  refine ends_bind (ends_bind (get_pids_ends _ _ _) fun ⟨found, _⟩ => ?_) fun pids => ?_
  · dsimp only
    split
    · exact ends_bind (manager.kill_procs_on_host_ends host _ _) fun _ => ends_bind (get_pids_ends _ _ _) fun _ => ends_ret _
    · exact ends_ret _
  · split
    · exact ends_raise _
    · refine ends_bind (ends_perform _) fun proc => ?_
      split
      · exact ends_raise _
      · exact ends_ret _

/-- Whatever the hosts answer, the thread of a host launches at most once, and only behind a look
that found no process at the ports: the commands that prepare the host and those of its own
processes. -/
theorem launches_guarded {date : String} {thread : Shell (Option String)}
    (h : (host, thread) ∈ self.launch_threads date) (reply) :
    Each (Guarded self.manager host (launch_text self.manager date
        (self.prepare_host host).launch_commands_to_run_on_host
        ((self.manager.procinfos.filter fun p => p.host == host).map
          (self.launch_cmd (self.prepare_host host).launch_attempt_file))))
      (run (converse reply) thread []).2 := by
  obtain ⟨⟨host', launch⟩, hentry, heq⟩ := List.mem_map.mp h
  obtain ⟨rfl, rfl⟩ := Prod.mk.inj heq
  obtain rfl := self.launch_plan_exact.2 host' launch hentry
  exact (launch_procs_on_host_wp self.manager date _ _).state
    (launch_procs_on_host_ends self.manager date _ _)

/-- The thread of a host with one process, which no host has running. -/
theorem launches_guarded_one : ∃ (launcher : Launcher) (thread : Shell (Option String)),
    ("h", thread) ∈ launcher.launch_threads "now" ∧
      Each (Guarded launcher.manager "h" (launch_text launcher.manager "now"
          (launcher.prepare_host "h").launch_commands_to_run_on_host
          ((launcher.manager.procinfos.filter fun p => p.host == "h").map
            (launcher.launch_cmd (launcher.prepare_host "h").launch_attempt_file))))
        (run (converse fun _ _ => ⟨[], [], 0⟩) thread []).2 := by
  obtain ⟨launcher, hlauncher⟩ : ∃ launcher : Launcher, launcher = {
      machine := ⟨"h", none⟩
      procinfos := [Procinfo.new .BoardReader "daq1" "1"]
      attempt_existing_pid_kill := true
      DAQINTERFACE_PARTITION_NUMBER := "1"
      USER := "u"
      spackdir := none
      daq_setup_script := "setup.sh"
      log_directory := "/log"
      ARTDAQ_DAQINTERFACE_DIR := "/daq"
      messagefacility_fhicl_filename := "/tmp/mf.fcl"
      messagefacility_fhicl_b64 := ""
      launch_log_timestamp := "t"
      date_and_time_filename := fun _ => "t"
      label_suffix := ""
      allowed_processors := none
      prepend_of := fun _ => ""
      allowed_processors_of := fun _ => none } := ⟨_, rfl⟩
  have hthread : ∃ thread, ("h", thread) ∈ launcher.launch_threads "now" := by
    rw [hlauncher]
    exact ⟨_, List.mem_cons_self⟩
  obtain ⟨thread, hthread⟩ := hthread
  exact ⟨launcher, thread, hthread, launches_guarded hthread _⟩

end Launcher

end DaqInterface
