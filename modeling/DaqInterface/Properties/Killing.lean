import DaqInterface.Properties.Listing

/-!
# The order in which processes are killed

`kill_procs_base` goes through the hosts twice.  It sends a signal only to processes that the host
listed when it was last asked, and an artdaq process is killed by force only if it is listed again
after every host has been gone through (`kill_passes`).
-/

open Loop

namespace DaqInterface

open Pattern Program

variable {self : ProcessManager} {host : String} {hosts : List String}
  {reply : List (ShellCommand × Completed) → ShellCommand → Completed}
  {said : List (ShellCommand × Completed)}

/-- The art processes of the partition are looked for. -/
def look_for_art (self : ProcessManager) (host : String) : ShellCommand :=
  self.machine.on_host "-o BatchMode=yes -x" host
    (.ps (art_token self.DAQINTERFACE_PARTITION_NUMBER))

/-- The pids are those of lines that were answered. -/
def ListedIn (out : List Char) (pids : List String) : Prop :=
  ∀ pid ∈ pids, ∃ line ∈ answer_lines out, second_word line = .ok pid

/-- The host was asked for its artdaq processes. -/
def Asked (self : ProcessManager) (said : List (ShellCommand × Completed)) (host : String) : Prop :=
  ∃ proc, (look_for_processes self host, proc) ∈ said

/-- A signal goes to processes that the host listed when it was last asked: to artdaq processes, by
force only if all hosts have been gone through before, or to art processes. -/
def Justified (self : ProcessManager) (hosts : List String) (c : ShellCommand)
    (before : List (ShellCommand × Completed)) : Prop :=
  ∀ options pids redirect, c.task = .kill options pids redirect →
    ∃ host ∈ hosts, ∃ look proc earlier, before = (look, proc) :: earlier ∧ c.place = look.place ∧
      ListedIn proc.out pids ∧
        ((look = look_for_processes self host ∧
            (options = "" ∨ options = "-9 " ∧ ∀ h ∈ hosts, Asked self earlier h)) ∨
          (look = look_for_art self host ∧ options = "-9 "))

/-- What holds when certain hosts have been gone through. -/
structure GoneThrough (manager : ProcessManager) (hosts done : List String)
    (said : List (ShellCommand × Completed)) : Prop where
  justified : Each (Justified manager hosts) said
  asked : ∀ h ∈ done, Asked manager said h

theorem Asked.cons (h : Asked self said host) (line : ShellCommand × Completed) :
    Asked self (line :: said) host := h.imp fun _ hmem => List.mem_cons_of_mem line hmem

theorem GoneThrough.cons {done : List String} (h : GoneThrough self hosts done said)
    {c : ShellCommand} (hc : Justified self hosts c said) (proc : Completed) :
    GoneThrough self hosts done ((c, proc) :: said) :=
  ⟨⟨hc, h.justified⟩, fun host hhost => (h.asked host hhost).cons _⟩

/-- A look is no signal. -/
theorem justified_look {options : String} {token : GrepToken} :
    Justified self hosts (self.machine.on_host options host (.ps token)) said := by
  intro options' pids redirect htask
  rw [on_host_task] at htask
  exact nomatch htask

/-- The pids of the processes with names are those of lines that were answered. -/
theorem listedIn_of_names {out : List Char} {found : List (Option (String × String))}
    (h : (answer_lines out).mapM pid_and_label = .ok found) :
    ListedIn out (found.reduceOption.map Prod.fst) := by
  intro pid hpid
  obtain ⟨⟨pid', label⟩, hmem, rfl⟩ := List.mem_map.mp hpid
  obtain ⟨line, hline, hread⟩ :=
    Recursion.exists_of_forall₂ (mapM_eq_ok.mp h) (List.reduceOption_mem_iff.mp hmem)
  refine ⟨line, hline, ?_⟩
  unfold pid_and_label at hread
  split at hread
  · obtain ⟨pid'', hword, heq⟩ := map_eq_ok.mp hread
    obtain ⟨rfl, -⟩ := Prod.mk.inj (Option.some.inj heq)
    exact hword
  · cases hread

theorem listedIn_of_pids {out : List Char} {pids : List String}
    (h : (answer_lines out).mapM second_word = .ok pids) : ListedIn out pids := fun _ hpid =>
  Recursion.exists_of_forall₂ (mapM_eq_ok.mp h) hpid

/-- The look for processes is all that is said, and the pids are listed in its answer. -/
theorem get_pids_and_labels_wp {I : List (ShellCommand × Completed) → Prop}
    (hI : ∀ proc, I ((look_for_processes self host, proc) :: said)) :
    (self.get_pids_and_labels_on_host host).wp (converse reply)
      (fun found said' => ∃ proc, said' = (look_for_processes self host, proc) :: said ∧
        ListedIn proc.out found.1)
      (fun _ => I) said := by
  refine wp_bind.mpr (wp_bind.mpr (wp_perform.mpr (wp_ite.mpr ⟨fun _ => hI _, fun _ => ?_⟩)))
  refine wp_bind.mpr (wp_ofExcept.mpr ⟨fun pids _ => ?_, fun e _ => hI _⟩)
  refine wp_bind.mpr (wp_ofExcept.mpr ⟨fun found hfound => ?_, fun e _ => hI _⟩)
  exact ⟨_, rfl, listedIn_of_names hfound⟩

/-- A signal to processes that were just listed. -/
theorem kill_wp {done : List String} {options : String} {pids : List String}
    (h : GoneThrough self hosts done said)
    (hc : Justified self hosts (self.machine.on_host "-o BatchMode=yes -x" host
      (.kill options pids "")) said) :
    (self.kill_on_host host options pids "").wp (converse reply)
      (fun _ => GoneThrough self hosts done) (fun _ => GoneThrough self hosts done) said :=
  wp_bind.mpr (wp_perform.mpr (h.cons hc _))

theorem kill_procs_on_host_wp {done : List String} (hhost : host ∈ hosts) {kill_art use_force : Bool}
    (hforce : use_force = true → ∀ h ∈ hosts, h ∈ done) (h : GoneThrough self hosts done said) :
    (self.kill_procs_on_host host kill_art use_force).wp (converse reply)
      (fun _ => GoneThrough self hosts (done ++ [host]))
      (fun _ said => Each (Justified self hosts) said) said := by
  have hplace : ∀ options task token, (self.machine.on_host options host task).place =
      (self.machine.on_host "-o BatchMode=yes -x" host (.ps token)).place := by
    intro options task token
    rw [Machine.on_host_place, Machine.on_host_place]
  refine wp_bind.mpr ((get_pids_and_labels_wp fun proc => ⟨justified_look, h.justified⟩).mono ?_
    fun _ _ h => h)
  rintro ⟨artdaq_pids, labels⟩ said₁ ⟨proc, rfl, hlisted⟩
  have hasked : GoneThrough self hosts (done ++ [host])
      ((look_for_processes self host, proc) :: said) := by
    refine ⟨⟨justified_look, h.justified⟩, fun h' hh' => ?_⟩
    rcases List.mem_append.mp hh' with hh' | hh'
    · exact (h.asked h' hh').cons _
    · rw [List.mem_singleton.mp hh']
      exact ⟨proc, List.mem_cons_self⟩
  have hkill : Justified self hosts (self.machine.on_host "-o BatchMode=yes -x" host
      (.kill (if use_force then "-9 " else "") artdaq_pids ""))
        ((look_for_processes self host, proc) :: said) := by
    intro options pids redirect htask
    rw [on_host_task, Task.kill.injEq] at htask
    obtain ⟨rfl, rfl, rfl⟩ := htask
    refine ⟨host, hhost, _, proc, said, rfl, hplace _ _ _, hlisted, Or.inl ⟨rfl, ?_⟩⟩
    split_ifs with hflag
    · exact Or.inr ⟨rfl, fun h' hh' => h.asked h' (hforce hflag h' hh')⟩
    · exact Or.inl rfl
  have hfirst : (onlyIf (artdaq_pids.length > 0) (self.kill_on_host host
      (if use_force then "-9 " else "") artdaq_pids "")).wp (converse reply)
        (fun _ => GoneThrough self hosts (done ++ [host]))
        (fun _ => GoneThrough self hosts (done ++ [host]))
          ((look_for_processes self host, proc) :: said) :=
    wp_onlyIf.mpr ⟨fun _ => kill_wp hasked hkill, fun _ => hasked⟩
  refine wp_bind.mpr (hfirst.mono (fun _ said₂ hsaid₂ => ?_) fun _ _ h => h.justified)
  refine wp_onlyIf.mpr ⟨fun _ => ?_, fun _ => hsaid₂⟩
  refine wp_bind.mpr (wp_bind.mpr (wp_perform.mpr (wp_ite.mpr
    ⟨fun _ => ⟨justified_look, hsaid₂.justified⟩, fun _ => ?_⟩)))
  refine wp_bind.mpr (wp_ofExcept.mpr ⟨fun art_pids hpids => ?_,
    fun e _ => ⟨justified_look, hsaid₂.justified⟩⟩)
  have hlooked := fun proc => hsaid₂.cons (c := look_for_art self host) justified_look proc
  refine wp_onlyIf.mpr ⟨fun _ => ?_, fun _ => hlooked _⟩
  refine (kill_wp (hlooked _) ?_).mono (fun _ _ h => h) fun _ _ h => h.justified
  intro options pids redirect htask
  rw [on_host_task, Task.kill.injEq] at htask
  obtain ⟨rfl, rfl, rfl⟩ := htask
  exact ⟨host, hhost, _, _, said₂, rfl, hplace _ _ _, listedIn_of_pids hpids, Or.inr ⟨rfl, rfl⟩⟩

theorem kill_procs_base_ends (self : ProcessManager) (order : List String → List String) :
    (self.kill_procs_base order).Ends := by
  refine ends_bind (ends_forEach fun host _ => self.kill_procs_on_host_ends host _ _) fun _ => ?_
  refine ends_bind (ends_forEach fun host _ => self.kill_procs_on_host_ends host _ _) fun _ => ?_
  exact ends_ret _

end DaqInterface
