import DaqInterface.Properties.Delivery

/-!
# Recoveries inside an action

An action that recovers should be over.  `RecoveryIsFinal` says so in terms of the events of
the action; `WentOn` says that one of the few operations failed behind whose failure the
program recovers and goes on.  The proof runs along the action: as long as nothing went wrong
(`Calm`) a recovery can only be the last thing that happens, and behind a recovery after which
the action went on (`Alarmed`) either the processes are sent a command or the transition is
completed before the action returns (`recovery_final_iff`).
-/

namespace DaqInterface

open Program

variable {env : Env} {D : Prop}

/-! ## What happens behind a recovery -/

/-- The failures behind which the program recovers and goes on with the transition. -/
def Event.goesOn : Event → Bool
  | .outcome (.process (.add_config_archive_entry _) _) (.error _) => true
  | .outcome (.probe .rc_info_exists) (.ok false) => true
  | .outcome (.probe (.run_record_file_exists _)) (.ok false) => true
  | .outcome (.outside .get_commit_info) (.error _) => true
  | _ => false

/-- A transition advances: a process gets a command, or a transition other than a recovery is
completed. -/
def Event.advances : Event → Bool
  | .sent _ _ => true
  | .outcome (.process (.command _) _) _ => true
  | .outcome (.process .retry_start _) _ => true
  | .outcome (.process .shutdown _) _ => true
  | .complete t => t != "recovering"
  | _ => false

/-- The event of a recovery. -/
def Event.recovers : Event → Bool
  | .recover => true
  | _ => false

/-- The program recovered from a failure and went on. -/
def WentOn (log : List Event) : Prop := ∃ e ∈ log, e.goesOn = true

/-- There was a recovery. -/
def HasRecovered (log : List Event) : Prop := ∃ e ∈ log, e.recovers = true

/-- A transition advanced. -/
def Advanced (log : List Event) : Prop := ∃ e ∈ log, e.advances = true

instance (log : List Event) : Decidable (HasRecovered log) :=
  inferInstanceAs (Decidable (∃ e ∈ log, e.recovers = true))

/-- Behind a recovery no transition advances. -/
def FinalLog : List Event → Prop
  | [] => True
  | e :: older => FinalLog older ∧ (e.advances = true → ¬ HasRecovered older)

/-- What a recovery in an action that has returned leaves behind: the state is `stopped`, and
the transition did not advance any more. -/
structure RecoveryIsFinal (v : World) : Prop where
  /-- The state is the one of the recovery. -/
  state : HasRecovered v.log → v.daq.state = "stopped"
  /-- The recovery is the end of the transition. -/
  log : FinalLog v.log

section Logs

variable {new old log : List Event}

theorem wentOn_append : WentOn (new ++ old) ↔ WentOn new ∨ WentOn old := by
  simp only [WentOn, List.mem_append, or_and_right, exists_or]

theorem hasRecovered_append : HasRecovered (new ++ old) ↔ HasRecovered new ∨ HasRecovered old := by
  simp only [HasRecovered, List.mem_append, or_and_right, exists_or]

theorem FinalLog.of_not_recovered (h : ¬ HasRecovered log) : FinalLog log := by
  induction log with
  | nil => trivial
  | cons e older ih =>
    have holder : ¬ HasRecovered older := fun ⟨e', he', hrec⟩ =>
      h ⟨e', List.mem_cons_of_mem e he', hrec⟩
    exact ⟨ih holder, fun _ => holder⟩

/-- Events that advance no transition do not matter. -/
theorem FinalLog.append (h : FinalLog old) (hnew : ∀ e ∈ new, e.advances = false) :
    FinalLog (new ++ old) := by
  induction new with
  | nil => exact h
  | cons e new ih =>
    refine ⟨ih fun e' he' => hnew e' (List.mem_cons_of_mem e he'), fun hadv => ?_⟩
    exact absurd (hadv.symm.trans (hnew e List.mem_cons_self)) nofun

theorem FinalLog.of_append (h : FinalLog (new ++ old)) : FinalLog old := by
  induction new with
  | nil => exact h
  | cons e new ih => exact ih h.1

/-- A transition that advances behind a recovery shows that the recovery was not final. -/
theorem Advanced.not_final (hadv : Advanced new) (hrec : HasRecovered old) :
    ¬ FinalLog (new ++ old) := by
  induction new with
  | nil =>
    obtain ⟨e, he, -⟩ := hadv
    exact absurd he List.not_mem_nil
  | cons e new ih =>
    rintro ⟨hfinal, hlast⟩
    obtain ⟨e', he', hadv'⟩ := hadv
    rcases List.mem_cons.mp he' with rfl | he'
    · exact hlast hadv' (hasRecovered_append.mpr (Or.inr hrec))
    · exact ih ⟨e', he', hadv'⟩ hfinal

end Logs

/-! ## Commands that raise no alarm -/

/-- The event is neither a recovery nor a failure behind which the program goes on. -/
def Event.Quiet (e : Event) : Prop := e.goesOn = false ∧ e.recovers = false

/-- The command records only quiet events. -/
def Cmd.Quiet (c : Cmd) : Prop := ∀ e, c.Records e → e.Quiet

theorem Event.FromOutside.quiet {e : Event} (h : e.FromOutside) : e.Quiet := by
  cases e <;> first | exact ⟨rfl, rfl⟩ | exact absurd h id

/-- The operation is none behind whose failure the program goes on. -/
def Op.Trusted (op : Op) : Prop := ∀ result, (Event.outcome op result).goesOn = false

theorem Op.Safe.trusted {op : Op} (h : op.Safe) : op.Trusted := by
  intro result
  cases op with
  | process call i => cases call <;> first | rfl | exact absurd h id
  | probe what => cases what <;> first | rfl | exact absurd h id
  | outside what => cases what <;> first | rfl | exact absurd h id
  | _ => rfl

theorem Command.Calls.trusted {command : Command} {op : Op} (h : command.Calls op) :
    op.Trusted := by
  cases op with
  | process call i =>
    cases call with
    | command c => exact fun _ => rfl
    | retry_start => exact fun _ => rfl
    | _ => exact Op.Safe.trusted h
  | _ => exact Op.Safe.trusted h

theorem quiet_call {op : Op} (h : op.Trusted) : (Cmd.call op).Quiet := by
  intro e he
  cases e with
  | outcome op' result =>
    obtain rfl : op' = op := he
    exact ⟨h result, rfl⟩
  | _ => exact absurd he id

theorem Harmless.quiet {c : Cmd} (h : Harmless c) : c.Quiet := by
  cases c with
  | call op => exact quiet_call (Op.Safe.trusted h)
  | _ => first | exact fun e he => absurd he id | exact absurd h id

theorem Commanding.quiet {command : Command} {c : Cmd} (h : Commanding command c) : c.Quiet := by
  cases c with
  | call op => exact quiet_call (Command.Calls.trusted h)
  | complete_state_change | fail | send =>
    intro e he
    cases e <;> first | exact ⟨rfl, rfl⟩ | exact absurd he id
  | _ => first | exact fun e he => absurd he id | exact absurd h id

/-- Commands of an action other than those behind whose failure it goes on, and a recovery. -/
def Ordinary : Cmd → Prop
  | .call op => op.Safe
  | .begin_recovery => False
  | _ => True

theorem Ordinary.quiet {c : Cmd} (h : Ordinary c) : c.Quiet := by
  cases c with
  | call op => exact quiet_call (Op.Safe.trusted h)
  | begin_recovery => exact absurd h id
  | _ => intro e he; cases e <;> first | exact ⟨rfl, rfl⟩ | exact absurd he id

theorem Harmless.ordinary {c : Cmd} (h : Harmless c) : Ordinary c := by
  cases c <;> first | exact h | trivial

/-- A quiet command changes neither what went wrong nor whether there was a recovery. -/
theorem Cmd.Quiet.log {c : Cmd} (hc : c.Quiet) (w : World) :
    (WentOn (exec env c w).2.log ↔ WentOn w.log) ∧
      (HasRecovered (exec env c w).2.log ↔ HasRecovered w.log) := by
  obtain ⟨new, hlog, hnew⟩ := exec_appends env c w
  have hquiet : ∀ e ∈ new, e.Quiet := fun e he =>
    (hnew e he).elim Event.FromOutside.quiet fun h => hc e h
  rw [hlog, wentOn_append, hasRecovered_append]
  constructor
  · refine or_iff_right ?_
    rintro ⟨e, he, hon⟩
    exact absurd (hon.symm.trans (hquiet e he).1) nofun
  · refine or_iff_right ?_
    rintro ⟨e, he, hrec⟩
    exact absurd (hrec.symm.trans (hquiet e he).2) nofun

/-! ## Commands that keep a command sendable -/

/-- Every process belongs to a declared subsystem. -/
def DAQInterface.Declared (self : DAQInterface) : Prop :=
  ∀ p ∈ self.procinfos, p.subsystem ∈ self.vars.subsystems.map Prod.fst

instance (self : DAQInterface) : Decidable self.Declared :=
  inferInstanceAs (Decidable (∀ p ∈ self.procinfos, p.subsystem ∈ self.vars.subsystems.map Prod.fst))

/-- `do_command` can reach every process. -/
structure Ready (D : Prop) (v : World) : Prop where
  /-- No call to a process failed. -/
  exception : v.daq.exception = false
  /-- Every process belongs to a declared subsystem, if that is assumed. -/
  declared : D → v.daq.Declared

/-- Commands that keep `exception`, and the subsystems of the processes. -/
def Steady : Cmd → Prop
  | .fail _ => False
  | .reset_variables => False
  | .processes (.replace _) => False
  | .assign f => ∀ vars, (f vars).subsystems = vars.subsystems
  | _ => True

theorem Recovering.steady {c : Cmd} (h : Recovering c) : Steady c := by
  cases c with
  | processes u => cases u <;> trivial
  | assign f => exact h.subsystems
  | _ => trivial

theorem Harmless.steady {c : Cmd} (h : Harmless c) : Steady c := h.recovering.steady

theorem Saving.steady {a : Action} {c : Cmd} (h : Saving a c) : Steady c := by
  cases c with
  | call op => trivial
  | _ => exact Recovering.steady h

theorem subset_of_eq {names names' : List String} (h : names = names') : names ⊆ names' :=
  h ▸ List.Subset.refl _

/-- Processes whose subsystems are those of other ones are declared as well. -/
theorem DAQInterface.Declared.of_subset {self self' : DAQInterface} (h : self.Declared)
    (hprocs : self'.procinfos.map Procinfo.subsystem ⊆ self.procinfos.map Procinfo.subsystem)
    (hvars : self'.vars.subsystems = self.vars.subsystems) : self'.Declared := by
  intro p hp
  obtain ⟨q, hq, hqp⟩ := List.mem_map.mp (hprocs (List.mem_map_of_mem hp))
  rw [hvars, ← hqp]
  exact h q hq

theorem subsystems_assign_documents (procs : List Procinfo) (documents origin : List String) :
    (assign_documents procs documents origin).map Procinfo.subsystem =
      procs.map Procinfo.subsystem := by
  refine List.ext_getElem (by simp [assign_documents]) fun i h₁ h₂ => ?_
  simp only [assign_documents, List.getElem_map, List.getElem_mapIdx]
  split <;> rfl

/-- Only a boot makes new processes. -/
theorem Update.subsystems_subset {u : Update} (hu : ∀ procs, u ≠ .replace procs)
    (procs : List Procinfo) :
    (u.apply procs).map Procinfo.subsystem ⊆ procs.map Procinfo.subsystem := by
  have hmodify : ∀ (i : ℕ) (f : Procinfo → Procinfo), (∀ p, (f p).subsystem = p.subsystem) →
      (procs.modify i f).map Procinfo.subsystem = procs.map Procinfo.subsystem := by
    intro i f hf
    refine List.ext_getElem (by simp) fun j h₁ h₂ => ?_
    simp only [List.getElem_map, List.getElem_modify]
    split
    · exact hf _
    · rfl
  cases u with
  | replace procs' => exact absurd rfl (hu procs')
  | clear => exact List.nil_subset _
  | remove i => exact List.map_subset _ (List.eraseIdx_subset)
  | state i s => exact subset_of_eq (hmodify i _ fun _ => rfl)
  | lastreturned i s => exact subset_of_eq (hmodify i _ fun _ => rfl)
  | priority rank => simp [Update.apply, Function.comp_def]
  | documents docs origin => exact subset_of_eq (subsystems_assign_documents _ _ _)

/-- The preparation thread hands out documents and nothing else. -/
theorem PrepThread.advance_subsystems (files : ConfigTree × Tools) (thread : PrepThread)
    (self : DAQInterface) :
    (thread.advance files self).2.procinfos.map Procinfo.subsystem =
        self.procinfos.map Procinfo.subsystem ∧
      (thread.advance files self).2.vars.subsystems = self.vars.subsystems := by
  unfold PrepThread.advance
  split
  · exact ⟨rfl, rfl⟩
  · split
    · exact ⟨subsystems_assign_documents _ _ _, rfl⟩
    · exact ⟨rfl, rfl⟩
  · exact ⟨rfl, rfl⟩
  · exact ⟨rfl, rfl⟩

theorem prep_step_subsystems (files : ConfigTree × Tools) (boot : ℕ) (self : DAQInterface) :
    (prep_step files boot self).procinfos.map Procinfo.subsystem =
        self.procinfos.map Procinfo.subsystem ∧
      (prep_step files boot self).vars.subsystems = self.vars.subsystems := by
  unfold prep_step
  split
  · exact ⟨rfl, rfl⟩
  · split
    · exact ⟨rfl, rfl⟩
    · exact PrepThread.advance_subsystems _ _ _

theorem prep_step_declared (files : ConfigTree × Tools) (boot : ℕ) {self : DAQInterface}
    (h : self.Declared) : (prep_step files boot self).Declared :=
  h.of_subset (subset_of_eq (prep_step_subsystems files boot self).1)
    (prep_step_subsystems files boot self).2

theorem finish_prep_declared (files : ConfigTree × Tools) (boot : ℕ) {self : DAQInterface}
    (h : self.Declared) : (finish_prep files boot self).2.2.Declared := by
  unfold finish_prep
  dsimp only
  split <;> exact prep_step_declared _ _ (prep_step_declared _ _ h)

theorem Ready.apply {files : ConfigTree × Tools} {i : Interference} {w : World} (h : Ready D w) :
    Ready D (i.apply files w) where
  exception := (apply_exception files w i).trans h.exception
  declared hD := by
    have hw := h.declared hD
    cases i with
    | state_change name requested state_args =>
      by_cases hname : name = w.daq.name
      · by_cases hu : w.daq.toComponent.unable requested = true
        · rwa [apply_state_change_rejected hname hu]
        · rwa [apply_state_change_accepted hname hu]
      · rwa [apply_state_change_other hname]
    | prepare boot => exact prep_step_declared files boot hw
    | _ => exact hw

theorem Ready.settle {w : World} (h : Ready D w) : Ready D (settle env w) :=
  settle_preserves (fun _ _ _ hw => hw.apply) h

/-- A steady command keeps the processes reachable. -/
theorem Ready.exec {c : Cmd} (hc : Steady c) {w : World} (h : Ready D w) :
    Ready D (exec env c w).2 := by
  cases c with
  | call op | sleep =>
    have hsettle : Ready D (DaqInterface.settle env w) := h.settle
    exact ⟨hsettle.exception, hsettle.declared⟩
  | fail | reset_variables => exact absurd hc id
  | clear_exception => exact ⟨rfl, h.declared⟩
  | assign f => exact ⟨h.exception, fun hD => (h.declared hD).of_subset (List.Subset.refl _) (hc _)⟩
  | processes u =>
    refine ⟨h.exception, fun hD => (h.declared hD).of_subset (u.subsystems_subset ?_ _) rfl⟩
    rintro procs rfl
    exact hc
  | send c i =>
    simp only [DaqInterface.exec]
    split
    · exact ⟨h.exception, h.declared⟩
    · exact ⟨h.exception, h.declared⟩
  | join_prep =>
    simp only [DaqInterface.exec]
    split
    · exact h
    · exact ⟨(finish_prep_exception _ _ _).trans h.exception,
        fun hD => finish_prep_declared _ _ (h.declared hD)⟩
  | _ => exact ⟨h.exception, h.declared⟩

/-! ## A command that raises has been sent -/

/-- `exception` is set only once the command was sent. -/
def SentFirst (v : World) : Prop := v.daq.exception = true → Advanced v.log

theorem Advanced.exec {w : World} (h : Advanced w.log) (c : Cmd) :
    Advanced (exec env c w).2.log := by
  obtain ⟨e, he, hadv⟩ := h
  exact ⟨e, mem_log_of_exec env c he, hadv⟩

/-- What was sent stays sent. -/
theorem Advanced.wp {α : Type} {C : Cmd → Prop} {p : Control α} (hp : p.Uses C) {w : World}
    (h : Advanced w.log) :
    p.wp (DaqInterface.exec env) (fun _ v => Advanced v.log) (fun _ v => Advanced v.log) w :=
  wp_of_uses hp (fun c _ _ ht => ht.exec c) h

/-- The contract of the threads of a command: what was sent stays sent. -/
def sender : Contract World where
  rely s t := (SentFirst s → SentFirst t) ∧ (Advanced s.log → Advanced t.log)
  guarantee s t := (SentFirst s → SentFirst t) ∧ (Advanced s.log → Advanced t.log)
  refl _ := ⟨id, id⟩
  trans h h' := ⟨h'.1 ∘ h.1, h'.2 ∘ h.2⟩

/-- The threads of a command. -/
def senders : Team World where
  contract _ := sender
  inv := SentFirst
  compatible _ h := h
  keeps h := h.1

section Senders

variable {command : Command} {procs : List Procinfo} {s : World}

theorem sender_of_exception {c : Cmd}
    (hexc : (exec env c s).2.daq.exception = s.daq.exception) :
    sender.guarantee s (exec env c s).2 :=
  ⟨fun h he => (h (hexc ▸ he)).exec c, fun h => h.exec c⟩

theorem under_advanced {α : Type} {C : Cmd → Prop} {p : Control α} (hp : p.Uses C)
    (h : Advanced s.log) :
    p.under (exec env) sender (fun _ v => Advanced v.log) (fun _ v => Advanced v.log) s :=
  under_of_uses hp (fun _ _ ht hrely => hrely.2 ht)
    (fun c _ _ ht => ⟨⟨fun _ _ => ht.exec c, fun _ => ht.exec c⟩, ht.exec c⟩) h

/-- A thread ends, in either way, only when something was sent. -/
theorem under_process_command_advanced (i : ℕ) (h : SentFirst s) :
    (process_command command i).under (exec env) sender (fun _ v => Advanced v.log)
      (fun _ v => Advanced v.log) s := by
  refine under_bind (under_look fun t ht => ⟨⟨id, id⟩, fun u hu => ?_⟩)
  split
  · rename_i hexc
    exact fun v hv => hv.2 (hu.2 (ht.1 h hexc))
  · refine under_bind (under_perform fun t' _ => ⟨sender_of_exception rfl, fun u' _ => ?_⟩)
    refine under_bind (under_perform fun x _ => ?_)
    obtain ⟨new, hlog, -, hdaq⟩ := send_log env command i x
    have hsent : Advanced (exec env (.send command i) x).2.log :=
      ⟨.sent command i, hlog ▸ List.mem_append_right _ List.mem_cons_self, rfl⟩
    refine ⟨⟨fun _ _ => hsent, fun _ => hsent⟩, fun y hy => ?_⟩
    exact under_advanced (uses_await_answer command i) (hy.2 hsent)

/-- A dictionary of threads keeps at least one. -/
theorem exists_kept_thread {labels : List String} (h : labels ≠ []) :
    ∃ k ∈ kept_threads labels, k < labels.length := by
  obtain ⟨label, rest, rfl⟩ := List.exists_cons_of_ne_nil h
  refine ⟨_, List.mem_map.mpr ⟨label, List.mem_eraseDups.mpr List.mem_cons_self, rfl⟩, ?_⟩
  simp only [List.length_cons]
  omega

theorem wp_send_to_group_advanced (g : Group) (h : SentFirst s) :
    (send_to_group command procs g).wp (exec env)
      (fun _ u => SentFirst u ∧ (g.members procs ≠ [] → Advanced u.log))
      (fun _ u => Advanced u.log) s := by
  refine wp_bind.mpr ((wp_issue .schedule).mpr ?_)
  have hinv : senders.inv (exec env .schedule s).2 := h
  have hthreads : ∀ (k : ℕ) (p : Control Unit),
      ((g.members procs).map (process_command command))[k]? = some p →
        p.under (exec env) (senders.contract k) (fun _ u => Advanced u.log)
          (fun _ u => Advanced u.log) (exec env .schedule s).2 := by
    intro k p hk
    rw [List.getElem?_map] at hk
    obtain ⟨i, -, rfl⟩ := Option.map_eq_some_iff.mp hk
    exact under_process_command_advanced i h
  refine (wp_parallel hinv hthreads).mono (fun _ u hu => ⟨hu.1, fun hne => ?_⟩) fun _ u hu => ?_
  · have hlen : (labels_of procs (g.members procs)).length = (g.members procs).length :=
      length_labels_of
    have hlabels : labels_of procs (g.members procs) ≠ [] := fun hnil => by
      rw [hnil] at hlen
      exact hne (List.length_eq_zero_iff.mp hlen.symm)
    obtain ⟨k, hk, hlt⟩ := exists_kept_thread hlabels
    exact hu.2 k hk (by simpa [hlen] using hlt)
  · obtain ⟨-, i, -, hadv⟩ := hu
    exact hadv

theorem wp_send_to_all_advanced (gs : List Group) (h : SentFirst s) :
    (forEach (send_to_group command procs) gs).wp (exec env)
      (fun _ u => SentFirst u ∧ ((∃ g ∈ gs, g.members procs ≠ []) → Advanced u.log))
      (fun _ u => Advanced u.log) s := by
  induction gs generalizing s with
  | nil =>
    refine ⟨h, ?_⟩
    rintro ⟨g, hg, -⟩
    exact absurd hg List.not_mem_nil
  | cons g gs ih =>
    refine wp_bind.mpr ((wp_send_to_group_advanced g h).mono (fun _ u hu => ?_) fun _ _ hu => hu)
    by_cases hne : g.members procs = []
    · refine (ih hu.1).mono (fun _ v hv => ⟨hv.1, ?_⟩) fun _ _ hv => hv
      rintro ⟨g', hg', hne'⟩
      rcases List.mem_cons.mp hg' with rfl | hg'
      · exact absurd hne hne'
      · exact hv.2 ⟨g', hg', hne'⟩
    · have huses : (forEach (send_to_group command procs) gs).Uses (Sending command) :=
        uses_forEach fun g' _ => uses_send_to_group command procs g'
      exact ((hu.2 hne).wp huses).mono (fun _ v hv => ⟨fun _ => hv, fun _ => hv⟩) fun _ _ hv => hv

/-- Without processes nothing is sent and nothing can fail. -/
theorem settle_no_processes {w : World} (h : w.daq.procinfos = []) :
    (settle env w).daq.procinfos = [] := by
  have hstep : ∀ files (i : Interference) (v : World), v.daq.procinfos = [] →
      (i.apply files v).daq.procinfos = [] := by
    intro files i v hv
    cases i with
    | state_change name requested state_args =>
      by_cases hname : name = v.daq.name
      · by_cases hu : v.daq.toComponent.unable requested = true
        · rwa [apply_state_change_rejected hname hu]
        · rwa [apply_state_change_accepted hname hu]
      · rwa [apply_state_change_other hname]
    | prepare boot =>
      have hmap := (prep_step_subsystems files boot v.daq).1
      rw [hv] at hmap
      exact List.map_eq_nil_iff.mp hmap
    | _ => exact hv
  exact settle_preserves (fun files i v hv => hstep files i v hv) h

theorem wp_finish_command_empty {self : DAQInterface} (hself : self.procinfos = []) {w : World}
    (hexc : w.daq.exception = false) (hw : w.daq.procinfos = []) :
    (finish_command command self).wp (exec env) (fun _ _ => True) (fun _ v => Advanced v.log) w := by
  have hsettle : (settle env w).daq.procinfos = [] := settle_no_processes hw
  refine wp_bind.mpr (wp_look.mpr (wp_bind.mpr (wp_onlyIf.mpr
    ⟨fun h => absurd h (by simp [hexc]), fun _ => ?_⟩)))
  refine wp_bind.mpr ((wp_issue .sleep).mpr (wp_bind.mpr ?_))
  rw [check_times, hself]
  refine wp_attempt.mpr (wp_bind.mpr (wp_look.mpr ?_))
  have hprocs : (exec env .sleep w).2.daq.procinfos = [] := hsettle
  rw [hprocs, List.zipIdx_nil, forEach_nil, ret_bind]
  refine wp_onlyIf.mpr ⟨fun h => absurd h nofun, fun _ => ?_⟩
  split
  · trivial
  · trivial

/-- From a state without exception, a command raises only when something was sent. -/
theorem wp_do_command_advanced {w : World} (hexc : w.daq.exception = false)
    (hdecl : w.daq.Declared) :
    (do_command command).wp (exec env) (fun _ _ => True) (fun _ v => Advanced v.log) w := by
  refine wp_bind.mpr ((wp_issue (.assign _)).mpr (wp_bind.mpr (wp_look.mpr (wp_bind.mpr ?_))))
  have hfirst : SentFirst (exec env
      (.assign fun vars => { vars with transition_process_errors := [] }) w).2 :=
    fun h => absurd (hexc.symm.trans h) nofun
  unfold send_to_groups
  split
  · trivial
  · rename_i ordered hord
    by_cases hnil : w.daq.procinfos = []
    · have hgroups : groups_in_order command w.daq.procinfos ordered = [] := by
        simp [groups_in_order, hnil, priorities_used]
      have hprocs : (exec env (.assign fun vars =>
          { vars with transition_process_errors := [] }) w).2.daq.procinfos = [] := hnil
      rw [hprocs, ← hnil, hgroups]
      exact wp_finish_command_empty hnil hexc hnil
    · obtain ⟨p, hp⟩ := List.exists_mem_of_ne_nil _ hnil
      have hgroup := mem_groups hord hp (hdecl p hp)
      obtain ⟨i, hi⟩ := List.mem_iff_getElem?.mp hp
      have hmem : p.group.members w.daq.procinfos ≠ [] :=
        List.ne_nil_of_mem (mem_members.mpr ⟨p, hi, rfl⟩)
      refine (wp_send_to_all_advanced _ hfirst).mono (fun _ v hv => ?_) fun _ _ hv => hv
      exact ((hv.2 ⟨_, hgroup, hmem⟩).wp (uses_finish_command command _)).mono
        (fun _ _ _ => trivial) fun _ _ h => h

end Senders

/-! ## How an action ends -/

/-- Nothing went wrong so far. -/
structure Calm (v : World) : Prop where
  /-- The program did not go on behind a failure. -/
  quiet : ¬ WentOn v.log
  /-- It did not recover. -/
  unrecovered : ¬ HasRecovered v.log

/-- The only recoveries so far are those behind which the program goes on. -/
def Alarmed (v : World) : Prop := WentOn v.log ↔ HasRecovered v.log

/-- What an action leaves behind: a recovery is final unless the program went on behind a
failure, and then none is, if every process could be sent a command. -/
structure Settled (D : Prop) (v : World) : Prop where
  /-- A recovery is final. -/
  final : ¬ WentOn v.log → RecoveryIsFinal v
  /-- A recovery was not final. -/
  broken : D → WentOn v.log → ¬ FinalLog v.log

theorem Calm.settled {v : World} (h : Calm v) : Settled D v where
  final _ := ⟨fun hrec => absurd hrec h.unrecovered, FinalLog.of_not_recovered h.unrecovered⟩
  broken _ hon := absurd hon h.quiet

theorem Calm.alarmed {v : World} (h : Calm v) : Alarmed v :=
  iff_of_false h.quiet h.unrecovered

theorem Calm.exec {c : Cmd} (hc : c.Quiet) {w : World} (h : Calm w) : Calm (exec env c w).2 :=
  ⟨fun hon => h.quiet ((hc.log w).1.mp hon), fun hrec => h.unrecovered ((hc.log w).2.mp hrec)⟩

theorem Alarmed.exec {c : Cmd} (hc : c.Quiet) {w : World} (h : Alarmed w) :
    Alarmed (exec env c w).2 :=
  (hc.log w).1.trans (h.trans (hc.log w).2.symm)

/-- In an alarmed state either nothing went wrong, or the program recovered and went on. -/
theorem Alarmed.calm_or {v : World} (h : Alarmed v) :
    Calm v ∨ WentOn v.log ∧ HasRecovered v.log := by
  by_cases hon : WentOn v.log
  · exact Or.inr ⟨hon, h.mp hon⟩
  · exact Or.inl ⟨hon, fun hrec => hon (h.mpr hrec)⟩

theorem Event.OfRecovery.goesOn {e : Event} (h : e.OfRecovery) : e.goesOn = false := by
  cases e with
  | outcome op result => exact Op.Safe.trusted h result
  | _ => rfl

theorem Event.OfRecovery.advances {e : Event} (h : e.OfRecovery) : e.advances = false := by
  cases e with
  | outcome op result =>
    cases op with
    | process call i => cases call <;> first | rfl | exact absurd h id
    | _ => rfl
  | complete t => exact (show t = "recovering" from h) ▸ rfl
  | _ => first | rfl | exact absurd h id

section Recoveries

variable {w v : World}

/-- A recovery is recorded, and nothing else that matters. -/
theorem RecoverySince.wentOn (h : RecoverySince (.recover :: w.log) v.log) :
    (WentOn v.log ↔ WentOn w.log) ∧ HasRecovered v.log := by
  obtain ⟨new, hlog, hnew⟩ := h
  rw [hlog, List.append_cons, wentOn_append]
  refine ⟨or_iff_right ?_, ?_⟩
  · rintro ⟨e, he, hon⟩
    rcases List.mem_append.mp he with he | he
    · exact absurd (hon.symm.trans (hnew e he).goesOn) nofun
    · rw [List.mem_singleton.mp he] at hon
      exact absurd hon nofun
  · exact ⟨.recover, List.mem_append_left _ (List.mem_append_right _ List.mem_cons_self), rfl⟩

/-- Behind a recovery nothing advances. -/
theorem RecoverySince.finalLog (h : RecoverySince (.recover :: w.log) v.log)
    (hw : FinalLog w.log) : FinalLog v.log := by
  obtain ⟨new, hlog, hnew⟩ := h
  rw [hlog]
  exact FinalLog.append ⟨hw, nofun⟩ fun e he => (hnew e he).advances

theorem RecoverySince.not_finalLog (h : RecoverySince (.recover :: w.log) v.log)
    (hw : ¬ FinalLog w.log) : ¬ FinalLog v.log := by
  obtain ⟨new, hlog, -⟩ := h
  intro hfinal
  rw [hlog] at hfinal
  exact hw (FinalLog.of_append hfinal).1

/-- Behind a failure the program recovers, and nothing else is wrong. -/
theorem RecoverySince.alarmed (h : RecoverySince (.recover :: w.log) v.log)
    (hw : WentOn w.log) : Alarmed v :=
  iff_of_true (h.wentOn.1.mpr hw) h.wentOn.2

/-- A recovery as the last thing that happens. -/
theorem Calm.recovered (hw : Calm w) (h : Recovered w v) : Settled D v where
  final _ := ⟨fun _ => h.state, h.log.finalLog (FinalLog.of_not_recovered hw.unrecovered)⟩
  broken _ hon := absurd (h.log.wentOn.1.mp hon) hw.quiet

/-- A recovery does not repair what was wrong. -/
theorem Settled.recovered (hon : WentOn w.log) (hw : D → ¬ FinalLog w.log) (h : Recovered w v) :
    Settled D v where
  final hnot := absurd (h.log.wentOn.1.mpr hon) hnot
  broken hD _ := h.log.not_finalLog (hw hD)

end Recoveries

/-! ## Rules -/

/-- Called before anything went wrong, the program returns only in `Q`. -/
def FromCalm {α : Type} (env : Env) (Q : α → World → Prop) (p : Control α) : Prop :=
  ∀ w, Calm w → p.wp (exec env) Q (fun _ _ => True) w

/-- Called before anything went wrong, the program returns only in a settled state. -/
abbrev Settles (env : Env) (D : Prop) (p : Control Unit) : Prop :=
  FromCalm env (fun _ => Settled D) p

/-- The answer of the program says whether the transition can go on. -/
abbrev Decides (env : Env) (D : Prop) (p : Control Bool) : Prop :=
  FromCalm env (fun b v => if b then Calm v else Settled D v) p

section Rules

variable {α β : Type} {p : Control α} {f : α → Control β} {Q : β → World → Prop}

theorem wp_calm {C : Cmd → Prop} (hC : ∀ c, C c → c.Quiet) (hp : p.Uses C) {w : World}
    (h : Calm w) : p.wp (exec env) (fun _ => Calm) (fun _ => Calm) w :=
  wp_of_uses hp (fun c hc _ ht => ht.exec (hC c hc)) h

/-- A part that raises no alarm. -/
theorem fromCalm_bind {C : Cmd → Prop} (hC : ∀ c, C c → c.Quiet) (hp : p.Uses C)
    (hf : ∀ a, FromCalm env Q (f a)) : FromCalm env Q (p >>= f) := fun _ h =>
  wp_bind.mpr ((wp_calm hC hp h).mono (fun a v hv => hf a v hv) fun _ _ _ => trivial)

theorem fromCalm_attempt {C : Cmd → Prop} {handler : String → Control β} (hC : ∀ c, C c → c.Quiet)
    (hp : p.Uses C) (hh : ∀ e, FromCalm env Q (handler e)) (hf : ∀ a, FromCalm env Q (f a)) :
    FromCalm env Q (p.attempt handler f) := fun _ h =>
  wp_attempt.mpr ((wp_calm hC hp h).mono (fun a v hv => hf a v hv) fun e v hv => hh e v hv)

/-- The rules for ordinary parts. -/
theorem fromCalm_then (hp : p.Uses Ordinary) (hf : ∀ a, FromCalm env Q (f a)) :
    FromCalm env Q (p >>= f) :=
  fromCalm_bind (fun _ => Ordinary.quiet) hp hf

theorem fromCalm_try {handler : String → Control β} (hp : p.Uses Ordinary)
    (hh : ∀ e, FromCalm env Q (handler e)) (hf : ∀ a, FromCalm env Q (f a)) :
    FromCalm env Q (p.attempt handler f) :=
  fromCalm_attempt (fun _ => Ordinary.quiet) hp hh hf

theorem fromCalm_ite {P : Prop} [Decidable P] {p q : Control β} (hp : FromCalm env Q p)
    (hq : FromCalm env Q q) : FromCalm env Q (if P then p else q) := fun w h =>
  wp_ite.mpr ⟨fun _ => hp w h, fun _ => hq w h⟩

theorem fromCalm_raise (e : String) : FromCalm env Q (raise e) := fun _ _ => trivial

theorem settles_quiet {C : Cmd → Prop} {p : Control Unit} (hC : ∀ c, C c → c.Quiet)
    (hp : p.Uses C) : Settles env D p := fun _ h =>
  (wp_calm hC hp h).mono (fun _ _ hv => hv.settled) fun _ _ _ => trivial

theorem settles_ordinary {p : Control Unit} (hp : p.Uses Ordinary) : Settles env D p :=
  settles_quiet (fun _ => Ordinary.quiet) hp

theorem settles_alert (extrainfo : String) : Settles env D (alert_and_recover extrainfo) :=
  fun w h => (wp_alert_and_recover extrainfo w).mono (fun _ _ hv => h.recovered hv)
    fun _ _ _ => trivial

theorem settles_decide {p : Control Bool} {rest : Control Unit} (hp : Decides env D p)
    (hr : Settles env D rest) : Settles env D (p >>= fun b => onlyIf b rest) := by
  intro w h
  refine wp_bind.mpr ((hp w h).mono (fun b v hv => wp_onlyIf.mpr ⟨fun hb => ?_, fun hb => ?_⟩)
    fun _ _ _ => trivial)
  · rw [if_pos hb] at hv
    exact hr v hv
  · rw [if_neg hb] at hv
    exact hv

theorem decides_true : Decides env D (ret true) := fun _ h => h

/-- A recovery that the caller is told of. -/
theorem decides_alert (extrainfo : String) :
    Decides env D (alert_and_recover extrainfo >>= fun _ => ret false) := fun w h =>
  wp_bind.mpr ((settles_alert extrainfo w h).mono (fun _ _ hv => hv) fun _ _ _ => trivial)

end Rules

/-! ## The boot -/

theorem settles_complete_boot (settings : Settings) :
    Settles env D (complete_boot settings) :=
  settles_ordinary (uses_bind (uses_onlyIf fun _ => uses_call trivial) fun _ => uses_issue trivial)

theorem settles_associate_logfiles (settings : Settings) (manage_processes : Bool) :
    Settles env D (associate_logfiles settings manage_processes) :=
  fromCalm_ite (fromCalm_try (uses_call trivial) (fun _ => settles_alert _)
    fun _ => settles_complete_boot settings) (settles_complete_boot settings)

theorem settles_wait_for_msgviewer (settings : Settings) (manage_processes launched : Bool) :
    Settles env D (wait_for_msgviewer settings manage_processes launched) := by
  refine fromCalm_ite ?_ (settles_associate_logfiles _ _)
  refine fromCalm_then (uses_call trivial) fun fine =>
    fromCalm_ite (settles_associate_logfiles _ _) (fromCalm_ite (settles_alert _) (fromCalm_raise _))

theorem decides_create_servers (members : List ℕ) : Decides env D (create_servers members) := by
  induction members with
  | nil => exact decides_true
  | cons i rest ih =>
    exact fromCalm_try (uses_call trivial) (fun _ => decides_alert _) fun _ => ih

theorem decides_check_processes {missing : Control Bool} (h : Decides env D missing) :
    Decides env D (check_processes missing) :=
  fromCalm_then (uses_call trivial) fun _ => fromCalm_then (uses_look trivial) fun _ =>
    fromCalm_ite decides_true (fromCalm_then (uses_issue trivial) fun _ => h)

theorem decides_wait_for_processes (n : ℕ) : Decides env D (wait_for_processes n) := by
  induction n with
  | zero =>
    exact decides_check_processes (fromCalm_then (uses_call trivial) fun _ => decides_alert _)
  | succ n ih => exact decides_check_processes ih

theorem settles_wait_and_connect (settings : Settings) (launched : Bool) :
    Settles env D (wait_and_connect settings launched) := by
  refine settles_decide (decides_wait_for_processes _) (fromCalm_then (uses_look trivial) fun self => ?_)
  refine settles_decide (decides_create_servers _) (fromCalm_then (uses_forEach fun i _ => ?_)
    fun _ => settles_wait_for_msgviewer _ _ _)
  exact uses_bind (uses_issue trivial) fun _ => (uses_await_status i _).mono fun _ => Harmless.ordinary

theorem settles_launch (settings : Settings) (launched : Bool) :
    Settles env D (launch settings launched) := by
  refine fromCalm_then (uses_look trivial) fun self =>
    fromCalm_ite ?_ (settles_wait_for_msgviewer _ _ _)
  refine fromCalm_then (uses_call trivial) fun _ => fromCalm_then (uses_call trivial) fun _ =>
    fromCalm_then (uses_call trivial) fun _ => fromCalm_then (uses_call trivial) fun _ =>
      fromCalm_then (uses_issue trivial) fun _ => ?_
  exact fromCalm_try (uses_call trivial) (fun _ => settles_alert _) fun _ =>
    fromCalm_then (uses_issue trivial) fun _ => settles_wait_and_connect _ _

theorem settles_revert_failed_boot : Settles env D revert_failed_boot :=
  settles_ordinary (uses_bind (uses_issue trivial) fun _ => uses_issue trivial)

theorem settles_boot_with (settings : Settings) (info : BootInfo) :
    Settles env D (boot_with settings info) := by
  refine fromCalm_then (uses_issue trivial) fun _ => fromCalm_then (uses_issue trivial) fun _ =>
    fromCalm_then (uses_look trivial) fun self => fromCalm_ite settles_revert_failed_boot ?_
  refine fromCalm_then (uses_call trivial) fun _ => fromCalm_then (uses_issue trivial) fun _ => ?_
  exact fromCalm_try ((uses_launch_msgviewer settings).mono fun _ => Harmless.ordinary)
    (fun _ => settles_alert _) fun launched => settles_launch settings launched

theorem settles_do_boot_impl (settings : Settings) :
    Settles env D (do_boot_impl settings) := by
  refine fromCalm_then (uses_look trivial) fun self =>
    fromCalm_ite (settles_ordinary (uses_issue trivial))
      (fromCalm_then (uses_issue trivial) fun _ => fromCalm_then (uses_look trivial) fun self => ?_)
  split
  · exact fromCalm_raise _
  · refine fromCalm_then (uses_call trivial) fun _ =>
      fromCalm_then (uses_onlyIf fun _ => trivial) fun _ => fromCalm_then (uses_onlyIf fun _ => ?_)
        fun _ => ?_
    · exact uses_bind (uses_call trivial) fun _ => uses_call trivial
    · exact fromCalm_try (uses_call trivial) (fun _ => settles_revert_failed_boot)
        (settles_boot_with settings)

/-! ## Terminate -/

theorem decides_shutdown_processes (members : List ℕ) :
    Decides env D (shutdown_processes members) := by
  induction members with
  | nil => exact decides_true
  | cons i rest ih =>
    have hcall : (Cmd.call (.process .shutdown i)).Quiet := quiet_call fun _ => rfl
    refine fromCalm_then (uses_issue trivial) fun _ =>
      fromCalm_attempt (fun _ h => h) (uses_call hcall) (fun _ => decides_alert _) fun answer => ?_
    exact fromCalm_then (uses_issue trivial) fun _ =>
      fromCalm_then (uses_onlyIf fun _ => uses_issue trivial) fun _ => ih

theorem settles_do_terminate : Settles env D do_terminate := by
  refine fromCalm_then (uses_look trivial) fun self =>
    fromCalm_ite ?_ (settles_ordinary (uses_issue trivial))
  refine fromCalm_then (uses_call trivial) fun _ => settles_decide (decides_shutdown_processes _) ?_
  exact fromCalm_try (uses_bind (uses_call trivial) fun _ => uses_issue trivial)
    (fun _ => settles_alert _) fun _ => settles_ordinary (uses_issue trivial)

/-! ## Where an action goes on behind a recovery -/

section Alarmed

variable {w : World}

/-- A program of quiet commands raises no alarm. -/
theorem wp_alarmed {α : Type} {p : Control α} (hp : p.Uses Ordinary) (h : Alarmed w) :
    p.wp (exec env) (fun _ => Alarmed) (fun _ => Alarmed) w :=
  wp_of_uses hp (fun _ hc _ ht => ht.exec hc.quiet) h

/-- The rule for quiet parts of a program that may have gone on behind a recovery. -/
theorem wp_alarmed_then {α β : Type} {p : Control α} {f : α → Control β} {Q : β → World → Prop}
    {R : String → World → Prop} (hp : p.Uses Ordinary) (h : Alarmed w)
    (hf : ∀ a v, Alarmed v → (f a).wp (exec env) Q R v) (hR : ∀ e v, Alarmed v → R e v) :
    (p >>= f).wp (exec env) Q R w :=
  wp_bind.mpr ((wp_alarmed hp h).mono hf hR)

/-- The recovery behind a failure after which the program goes on. -/
theorem wp_alert_alarmed (extrainfo : String) (h : WentOn w.log) :
    (alert_and_recover extrainfo).wp (exec env) (fun _ => Alarmed) (fun _ => Alarmed) w :=
  (wp_alert_and_recover extrainfo w).mono (fun _ _ hv => hv.log.alarmed h)
    fun _ _ hv => hv.log.alarmed h

/-- What an outside operation does to an alarm. -/
theorem called_alarm (env : Env) (op : Op) (w : World) :
    (WentOn (called env op w).log ↔
        (Event.outcome op (env.outcome w.clock op)).goesOn = true ∨ WentOn w.log) ∧
      (HasRecovered (called env op w).log ↔ HasRecovered w.log) := by
  obtain ⟨new, hlog, hnew⟩ := called_log env op w
  rw [hlog, ← List.cons_append, wentOn_append, hasRecovered_append]
  have hon : WentOn (.outcome op (env.outcome w.clock op) :: new) ↔
      (Event.outcome op (env.outcome w.clock op)).goesOn = true := by
    constructor
    · rintro ⟨e, he, hon⟩
      rcases List.mem_cons.mp he with rfl | he
      · exact hon
      · exact absurd (hon.symm.trans (hnew e he).quiet.1) nofun
    · exact fun hon => ⟨_, List.mem_cons_self, hon⟩
  have hrec : ¬ HasRecovered (.outcome op (env.outcome w.clock op) :: new) := by
    rintro ⟨e, he, hrec⟩
    rcases List.mem_cons.mp he with rfl | he
    · exact absurd hrec nofun
    · exact absurd (hrec.symm.trans (hnew e he).quiet.2) nofun
  exact ⟨or_congr_left hon, or_iff_right hrec⟩

theorem called_alarmed {op : Op} {result : Except String op.Answer} (h : Alarmed w)
    (hout : env.outcome w.clock op = result) (hon : (Event.outcome op result).goesOn = false) :
    Alarmed (called env op w) := by
  obtain ⟨hcall, hrec⟩ := called_alarm env op w
  rw [hout, hon] at hcall
  exact (hcall.trans (or_iff_right nofun)).trans (h.trans hrec.symm)

theorem called_wentOn {op : Op} {result : Except String op.Answer}
    (hout : env.outcome w.clock op = result) (hon : (Event.outcome op result).goesOn = true) :
    WentOn (called env op w).log := by
  obtain ⟨hcall, -⟩ := called_alarm env op w
  rw [hout, hon] at hcall
  exact hcall.mpr (Or.inl rfl)

/-- A question whose answer `false` is followed by a recovery. -/
theorem wp_ask {what : Probe} {extrainfo : String} (h : Alarmed w)
    (htrue : (Event.outcome (.probe what) (.ok true)).goesOn = false)
    (hfalse : (Event.outcome (.probe what) (.ok false)).goesOn = true)
    (herror : ∀ e, (Event.outcome (.probe what) (.error e)).goesOn = false) :
    (call (.probe what) >>= fun present => onlyIf (!present) (alert_and_recover extrainfo)).wp
      (exec env) (fun _ => Alarmed) (fun _ => Alarmed) w := by
  refine wp_bind.mpr ((wp_call (.probe what)).mpr ⟨fun present hout => ?_, fun e hout => ?_⟩)
  · cases present with
    | true => exact called_alarmed h hout htrue
    | false => exact wp_alert_alarmed extrainfo (called_wentOn hout hfalse)
  · exact called_alarmed h hout (herror e)

theorem wp_write_checked (name : String) (h : Alarmed w) :
    (write_checked name).wp (exec env) (fun _ => Alarmed) (fun _ => Alarmed) w :=
  wp_alarmed_then (uses_call trivial) h (fun _ _ hv => wp_ask hv rfl rfl fun _ => rfl)
    fun _ _ hv => hv

/-- The run record: where it cannot be written, the program recovers and goes on. -/
theorem wp_save_run_record (h : Alarmed w) :
    save_run_record.wp (exec env) (fun _ => Alarmed) (fun _ => Alarmed) w := by
  refine wp_alarmed_then (uses_call trivial) h (fun _ v hv => ?_) fun _ _ hv => hv
  refine wp_bind.mpr ((wp_forEach (fun name _ t ht => wp_write_checked name ht) hv).mono
    (fun _ x hx => ?_) fun _ _ hx => hx)
  refine wp_alarmed_then (uses_call trivial) hx (fun _ y hy => ?_) fun _ _ hy => hy
  refine wp_attempt.mpr ((wp_call (.outside .get_commit_info)).mpr
    ⟨fun _ hout => ?_, fun e hout => ?_⟩)
  · exact wp_alarmed (uses_call trivial) (called_alarmed hy hout rfl)
  · exact wp_alert_alarmed _ (called_wentOn hout rfl)

theorem wp_run_record_thread (place : RecordPlace) (here : List RecordPlace) (h : Alarmed w)
    {R : String → World → Prop} :
    (run_record_thread place here).wp (exec env) (fun _ => Alarmed) R w :=
  wp_onlyIf.mpr ⟨fun _ => wp_attempt.mpr ((wp_save_run_record h).mono (fun _ _ hv => hv)
    fun _ _ hv => hv), fun _ => h⟩

/-- Archiving: behind a call that raises the program recovers, and returns to its caller. -/
theorem wp_archive_with (i : ℕ) (labels : List String) (h : Alarmed w) :
    (archive_with i labels).wp (exec env) (fun _ => Alarmed) (fun _ _ => True) w := by
  induction labels generalizing w with
  | nil => exact h
  | cons label labels ih =>
    refine wp_attempt.mpr ((wp_call (.process (.add_config_archive_entry label) i)).mpr
      ⟨fun answer hout => ?_, fun e hout => ?_⟩)
    · have hcalled := called_alarmed h hout rfl
      refine wp_alarmed_then (uses_issue trivial) hcalled (fun _ v hv => ?_) fun _ _ _ => trivial
      exact wp_ite.mpr ⟨fun _ => trivial, fun _ => ih hv⟩
    · exact wp_bind.mpr ((wp_alert_alarmed _ (called_wentOn hout rfl)).mono (fun _ _ hv => hv)
        fun _ _ _ => trivial)

theorem wp_archive_documents (labels : List String) (procs : List (Procinfo × ℕ))
    (h : Alarmed w) :
    (archive_documents labels procs).wp (exec env) (fun _ => Alarmed) (fun _ _ => True) w := by
  induction procs generalizing w with
  | nil => exact h
  | cons entry rest ih =>
    obtain ⟨p, i⟩ := entry
    refine wp_ite.mpr ⟨fun _ => ?_, fun _ => ih h⟩
    split
    · trivial
    · refine wp_ite.mpr ⟨fun _ => wp_bind.mpr ?_, fun _ => ih h⟩
      refine (wp_archive_with i labels h).mono (fun finished v hv => ?_) fun _ _ _ => trivial
      exact wp_ite.mpr ⟨fun _ => ih hv, fun _ => hv⟩

theorem wp_archive (h : Alarmed w) :
    archive.wp (exec env) (fun _ => Alarmed) (fun _ _ => True) w := by
  refine wp_bind.mpr (wp_look.mpr ?_)
  refine wp_alarmed_then (uses_forEach fun _ _ => uses_call trivial) h (fun _ v hv => ?_)
    fun _ _ _ => trivial
  exact wp_archive_documents _ _ hv

theorem wp_archive_rc_info (settings : Settings) (name : String) (h : Alarmed w) :
    (archive_rc_info settings name).wp (exec env) (fun _ => Alarmed) (fun _ _ => True) w := by
  refine wp_onlyIf.mpr ⟨fun _ => ?_, fun _ => h⟩
  refine wp_alarmed_then (uses_call trivial) h (fun present v hv => ?_) fun _ _ _ => trivial
  refine wp_onlyIf.mpr ⟨fun _ => ?_, fun _ => hv⟩
  refine wp_alarmed_then (uses_call trivial) hv (fun _ x hx => ?_) fun _ _ _ => trivial
  exact (wp_ask hx rfl rfl fun _ => rfl).mono (fun _ _ hy => hy) fun _ _ _ => trivial

/-! ## The transitions that go on -/

/-- A transition that is completed behind a recovery makes the recovery not final. -/
theorem wp_complete_alarmed {t : String} (ht : t ≠ "recovering") (h : Alarmed w) :
    (issue (.complete_state_change t)).wp (exec env) (fun _ => Settled D) (fun _ _ => True) w := by
  rcases h.calm_or with hcalm | ⟨hon, hrec⟩
  · have hordinary : Ordinary (.complete_state_change t) := trivial
    exact (wp_issue _).mpr (hcalm.exec hordinary.quiet).settled
  · have hlog : (exec env (.complete_state_change t) w).2.log =
        [.state (w.daq.toComponent.complete_state_change w.daq.name t).state, .complete t] ++
          w.log := rfl
    refine (wp_issue (.complete_state_change t)).mpr ⟨fun hnot => absurd ?_ hnot, fun _ _ => ?_⟩
    · exact hlog ▸ wentOn_append.mpr (Or.inr hon)
    · have hadv : Advanced [.state (w.daq.toComponent.complete_state_change w.daq.name t).state,
          .complete t] :=
        ⟨.complete t, List.mem_cons_of_mem _ List.mem_cons_self, by simp [Event.advances, ht]⟩
      exact hlog ▸ hadv.not_final hrec

/-- What holds behind the files of a transition: it may have gone on behind a recovery, and a
command can reach every process. -/
structure Warned (D : Prop) (v : World) : Prop where
  /-- The only recoveries are those behind which the program goes on. -/
  alarmed : Alarmed v
  /-- A command can reach every process. -/
  ready : Ready D v

theorem wp_ready {α : Type} {C : Cmd → Prop} {p : Control α} (hC : ∀ c, C c → Steady c)
    (hp : p.Uses C) (h : Ready D w) :
    p.wp (exec env) (fun _ => Ready D) (fun _ => Ready D) w :=
  wp_of_uses hp (fun c hc _ ht => ht.exec (hC c hc)) h

/-- A harmless part of a transition. -/
theorem wp_warned {α : Type} {p : Control α} (hp : p.Uses Harmless) (h : Warned D w) :
    p.wp (exec env) (fun _ => Warned D) (fun _ _ => True) w :=
  ((wp_alarmed (hp.mono fun _ => Harmless.ordinary) h.alarmed).and
    (wp_ready (fun _ => Harmless.steady) hp h.ready)).mono (fun _ _ hv => ⟨hv.1, hv.2⟩)
      fun _ _ _ => trivial

/-- A command of a transition: if it raises, the program recovers, and otherwise it goes on. -/
theorem wp_command_warned {command : Command} {extrainfo : String} {rest : Control Unit}
    (h : Warned D w)
    (hrest : ∀ v, Alarmed v → rest.wp (exec env) (fun _ => Settled D) (fun _ _ => True) v) :
    ((do_command command).attempt (fun _ => alert_and_recover extrainfo) fun _ => rest).wp
      (exec env) (fun _ => Settled D) (fun _ _ => True) w := by
  refine wp_attempt.mpr ?_
  rcases h.alarmed.calm_or with hcalm | ⟨hon, hrec⟩
  · refine (wp_calm (fun _ => Commanding.quiet) (uses_do_command command) hcalm).mono
      (fun _ v hv => hrest v hv.alarmed) fun _ v hv => settles_alert extrainfo v hv
  · have hlog := wp_of_uses (uses_do_command command)
      (fun c hc (v : World) (hv : WentOn v.log ∧ HasRecovered v.log) =>
        show WentOn (exec env c v).2.log ∧ HasRecovered (exec env c v).2.log from
          ⟨((Commanding.quiet hc).log v).1.mpr hv.1, ((Commanding.quiet hc).log v).2.mpr hv.2⟩)
      ⟨hon, hrec⟩
    by_cases hD : D
    · have hsent : (do_command command).wp (exec env) (fun _ _ => True)
          (fun _ v => ¬ FinalLog v.log) w := by
        have hexc : w.fresh.daq.exception = false := h.ready.exception
        have hdecl : w.fresh.daq.Declared := h.ready.declared hD
        refine wp_fresh.mpr ((wp_do_command_advanced hexc hdecl).mono (fun _ _ _ => trivial) fun _ v hv => ?_)
        exact hv.not_final hrec
      refine (hlog.and hsent).mono (fun _ v hv => ?_) fun _ v hv => ?_
      · exact hrest v (iff_of_true hv.1.1 hv.1.2)
      · exact (wp_alert_and_recover extrainfo v).mono
          (fun _ _ hu => Settled.recovered hv.1.1 (fun _ => hv.2) hu) fun _ _ _ => trivial
    · refine hlog.mono (fun _ v hv => hrest v (iff_of_true hv.1 hv.2)) fun _ v hv => ?_
      exact (wp_alert_and_recover extrainfo v).mono
        (fun _ _ hu => Settled.recovered hv.1 (fun h => absurd h hD) hu) fun _ _ _ => trivial

/-- The rule for harmless parts of a transition. -/
theorem wp_warned_then {α : Type} {p : Control α} {f : α → Control Unit} {Q : Unit → World → Prop}
    (hp : p.Uses Harmless) (h : Warned D w)
    (hf : ∀ a v, Warned D v → (f a).wp (exec env) Q (fun _ _ => True) v) :
    (p >>= f).wp (exec env) Q (fun _ _ => True) w :=
  wp_bind.mpr ((wp_warned hp h).mono hf fun _ _ h => h)

/-- The rule for parts that save files and may recover behind a failure. -/
theorem wp_saving_then {a : Action} {p : Control Unit} {f : Unit → Control Unit}
    {Q : Unit → World → Prop} (hp : p.Uses (Saving a))
    (halarmed : p.wp (exec env) (fun _ => Alarmed) (fun _ _ => True) w) (h : Warned D w)
    (hf : ∀ v, Warned D v → (f ()).wp (exec env) Q (fun _ _ => True) v) :
    (p >>= f).wp (exec env) Q (fun _ _ => True) w := by
  have hready : p.wp (exec env) (fun _ => Ready D) (fun _ => Ready D) w :=
    wp_ready (fun _ => Saving.steady) hp h.ready
  exact wp_bind.mpr ((halarmed.and hready).mono (fun _ v hv => hf v ⟨hv.1, hv.2⟩) fun _ _ _ => trivial)

/-- What holds while a transition is prepared. -/
structure Started (D : Prop) (v : World) : Prop where
  /-- Nothing went wrong. -/
  calm : Calm v
  /-- A command can reach every process. -/
  ready : Ready D v

/-- Commands that prepare a transition. -/
def Preparing (c : Cmd) : Prop := Ordinary c ∧ Steady c

theorem Harmless.preparing {c : Cmd} (h : Harmless c) : Preparing c := ⟨h.ordinary, h.steady⟩

theorem Started.warned {v : World} (h : Started D v) : Warned D v := ⟨h.calm.alarmed, h.ready⟩

theorem wp_started {α : Type} {p : Control α} (hp : p.Uses Preparing) (h : Started D w) :
    p.wp (exec env) (fun _ => Started D) (fun _ => Started D) w :=
  wp_of_uses hp (fun _ hc _ ht => ⟨ht.calm.exec hc.1.quiet, ht.ready.exec hc.2⟩) h

theorem wp_started_then {α : Type} {p : Control α} {f : α → Control Unit} {Q : Unit → World → Prop}
    (hp : p.Uses Preparing) (h : Started D w)
    (hf : ∀ a v, Started D v → (f a).wp (exec env) Q (fun _ _ => True) v) :
    (p >>= f).wp (exec env) Q (fun _ _ => True) w :=
  wp_bind.mpr ((wp_started hp h).mono hf fun _ _ _ => trivial)

/-- A preparation whose failure ends the transition with a recovery. -/
theorem wp_started_try {α : Type} {p : Control α} {handler : String → Control Unit}
    {rest : α → Control Unit} (hp : p.Uses Preparing) (h : Started D w)
    (hh : ∀ e, Settles env D (handler e))
    (hr : ∀ a v, Started D v → (rest a).wp (exec env) (fun _ => Settled D) (fun _ _ => True) v) :
    (p.attempt handler rest).wp (exec env) (fun _ => Settled D) (fun _ _ => True) w :=
  wp_attempt.mpr ((wp_started hp h).mono hr fun e v hv => hh e v hv.calm)

theorem wp_init_and_complete (settings : Settings) (h : Warned D w) :
    (init_and_complete settings).wp (exec env) (fun _ => Settled D) (fun _ _ => True) w := by
  refine wp_warned_then (uses_issue trivial) h fun sched v hv => ?_
  refine wp_saving_then (uses_run_record_thread _ _) (wp_run_record_thread _ _ hv.alarmed) hv
    fun v hv => ?_
  refine wp_bind.mpr (wp_look.mpr (wp_ite.mpr ⟨fun _ => ?_, fun _ => ?_⟩))
  · refine wp_warned_then (uses_readjust settings _) hv fun _ v hv => ?_
    refine wp_command_warned hv fun x hx => ?_
    refine wp_bind.mpr ((wp_run_record_thread _ _ hx).mono (fun _ y hy => ?_) fun _ _ h => h)
    refine wp_bind.mpr ((wp_archive hy).mono (fun _ z hz => ?_) fun _ _ h => h)
    refine wp_bind.mpr ((wp_run_record_thread _ _ hz).mono (fun _ u hu => ?_) fun _ _ h => h)
    exact wp_complete_alarmed (by decide) hu
  · refine wp_bind.mpr ((wp_run_record_thread _ _ hv.alarmed).mono (fun _ y hy => ?_) fun _ _ h => h)
    exact wp_complete_alarmed (by decide) hy

theorem settles_fail_config (failure : PrepFailure) : Settles env D (fail_config failure) := by
  cases failure with
  | revert action => exact settles_ordinary (uses_issue trivial)
  | raise e => exact fromCalm_raise e
  | recover extrainfo => exact settles_alert extrainfo

theorem wp_overlapped_config (settings : Settings) (h : Started D w) :
    (overlapped_config settings).wp (exec env) (fun _ => Settled D) (fun _ _ => True) w := by
  refine wp_started_then (uses_look ⟨trivial, trivial⟩) h fun self v hv => ?_
  refine wp_started_then (uses_onlyIf fun _ => trivial) hv fun _ v hv => ?_
  refine wp_started_then ((uses_clear_run_record settings).mono fun _ => Harmless.preparing) hv
    fun _ v hv => ?_
  exact wp_init_and_complete settings hv.warned

theorem wp_sequential_config (settings : Settings) (h : Started D w) :
    (sequential_config settings).wp (exec env) (fun _ => Settled D) (fun _ _ => True) w := by
  refine wp_started_try (uses_call ⟨trivial, trivial⟩) h
    (fun _ => settles_ordinary (uses_issue trivial)) fun files v hv => ?_
  refine wp_started_then (uses_look ⟨trivial, trivial⟩) hv fun self v hv => ?_
  refine wp_started_then (uses_issue ⟨trivial, fun _ => rfl⟩) hv fun _ v hv => ?_
  split
  · exact settles_fail_config _ v hv.calm
  · refine wp_started_then (uses_issue ⟨trivial, trivial⟩) hv fun _ v hv => ?_
    refine wp_started_then (uses_call ⟨trivial, trivial⟩) hv fun _ v hv => ?_
    refine wp_started_then (uses_onlyIf fun _ => trivial) hv fun _ v hv => ?_
    refine wp_started_then ((uses_clear_run_record settings).mono fun _ => Harmless.preparing) hv
      fun _ v hv => ?_
    split
    · exact settles_fail_config _ v hv.calm
    · exact wp_init_and_complete settings hv.warned

theorem wp_do_config (settings : Settings) (h : Started D w) :
    (do_config settings).wp (exec env) (fun _ => Settled D) (fun _ _ => True) w := by
  refine wp_started_then (uses_issue ⟨trivial, fun _ => rfl⟩) h fun _ v hv => ?_
  refine wp_started_then (uses_look ⟨trivial, trivial⟩) hv fun self v hv => ?_
  split
  · trivial
  · refine wp_started_then (uses_issue ⟨trivial, fun _ => rfl⟩) hv fun _ v hv => ?_
    refine wp_started_then (uses_onlyIf fun _ => uses_issue ⟨trivial, trivial⟩) hv fun _ v hv => ?_
    refine wp_started_then (uses_issue ⟨trivial, trivial⟩) hv fun prepared v hv => ?_
    exact wp_ite.mpr ⟨fun _ => wp_overlapped_config settings hv,
      fun _ => wp_sequential_config settings hv⟩

theorem wp_complete_start (manage_processes : Bool) (h : Alarmed w) :
    (complete_start manage_processes).wp (exec env) (fun _ => Settled D) (fun _ _ => True) w := by
  refine wp_alarmed_then (uses_call trivial) h (fun _ v hv => ?_) fun _ _ _ => trivial
  refine wp_alarmed_then (uses_call trivial) hv (fun _ v hv => ?_) fun _ _ _ => trivial
  refine wp_alarmed_then (uses_onlyIf fun _ => uses_call trivial) hv (fun _ v hv => ?_)
    fun _ _ _ => trivial
  exact wp_complete_alarmed (by decide) hv

theorem wp_start_processes (settings : Settings) (h : Warned D w) :
    (start_processes settings).wp (exec env) (fun _ => Settled D) (fun _ _ => True) w := by
  refine wp_saving_then (uses_archive_rc_info (Or.inl rfl) settings _)
    (wp_archive_rc_info settings _ h.alarmed) h fun v hv => ?_
  refine wp_warned_then (uses_call trivial) hv fun _ v hv => ?_
  refine wp_bind.mpr (wp_look.mpr (wp_ite.mpr ⟨fun _ => ?_, fun _ =>
    wp_complete_start false hv.alarmed⟩))
  refine wp_warned_then (uses_readjust settings _) hv fun _ v hv => ?_
  exact wp_command_warned hv fun _ hx => wp_complete_start true hx

theorem wp_do_start_running (settings : Settings) (h : Started D w) :
    (do_start_running settings).wp (exec env) (fun _ => Settled D) (fun _ _ => True) w := by
  refine wp_started_then (uses_look ⟨trivial, trivial⟩) h fun self v hv => ?_
  split
  · trivial
  · refine wp_started_then (uses_issue ⟨trivial, fun _ => rfl⟩) hv fun _ v hv => ?_
    refine wp_started_then (uses_call ⟨trivial, trivial⟩) hv fun _ v hv => ?_
    refine wp_started_then (uses_call ⟨trivial, trivial⟩) hv fun taken v hv => ?_
    refine wp_started_then (uses_onlyIf fun _ => trivial) hv fun _ v hv => ?_
    refine wp_started_then (uses_call ⟨trivial, trivial⟩) hv fun present v hv => ?_
    refine wp_ite.mpr ⟨fun _ => ?_, fun _ => settles_alert _ v hv.calm⟩
    refine wp_started_try (uses_call ⟨trivial, trivial⟩) hv (fun _ => settles_alert _)
      fun _ v hv => ?_
    refine wp_started_then (uses_call ⟨trivial, trivial⟩) hv fun _ v hv => ?_
    exact wp_started_try (uses_call ⟨trivial, trivial⟩) hv (fun _ => settles_alert _)
      fun _ v hv => wp_start_processes settings hv.warned

theorem wp_complete_stop (h : Alarmed w) :
    complete_stop.wp (exec env) (fun _ => Settled D) (fun _ _ => True) w :=
  wp_alarmed_then (uses_call trivial) h (fun _ _ hv => wp_complete_alarmed (by decide) hv)
    fun _ _ _ => trivial

theorem wp_stop_processes (settings : Settings) (h : Started D w) :
    (stop_processes settings).wp (exec env) (fun _ => Settled D) (fun _ _ => True) w := by
  refine wp_started_then (uses_call ⟨trivial, trivial⟩) h fun _ v hv => ?_
  refine wp_saving_then (uses_archive_rc_info (Or.inr rfl) settings _)
    (wp_archive_rc_info settings _ hv.warned.alarmed) hv.warned fun v hv => ?_
  refine wp_bind.mpr (wp_look.mpr (wp_ite.mpr ⟨fun _ => ?_, fun _ => wp_complete_stop hv.alarmed⟩))
  refine wp_warned_then (uses_readjust settings _) hv fun _ v hv => ?_
  exact wp_command_warned hv fun _ hx => wp_complete_stop hx

theorem wp_do_stop_running (settings : Settings) (h : Started D w) :
    (do_stop_running settings).wp (exec env) (fun _ => Settled D) (fun _ _ => True) w := by
  refine wp_started_then (uses_look ⟨trivial, trivial⟩) h fun self v hv => ?_
  refine wp_started_then (uses_onlyIf fun _ => trivial) hv fun _ v hv => ?_
  refine wp_started_then (uses_call ⟨trivial, trivial⟩) hv fun _ v hv => ?_
  exact wp_started_try (uses_call ⟨trivial, trivial⟩) hv (fun _ => settles_alert _)
    fun _ v hv => wp_stop_processes settings hv

end Alarmed

/-! ## The actions -/

/-- Every action of the runner settles. -/
theorem wp_action_settled (settings : Settings) (a : Action) {w : World} (h : Started D w) :
    (action settings a).wp (exec env) (fun _ => Settled D) (fun _ _ => True) w := by
  have hcommand : ∀ command, Settles env D (do_command command) := fun command =>
    settles_quiet (fun _ => Commanding.quiet) (uses_do_command command)
  have htrace : ∀ trace : ProcCall, (∀ i, (Op.process trace i).Safe) → ∀ i,
      (send_trace trace i).Uses Ordinary := fun _ htrace i =>
    uses_bind (uses_look trivial) fun _ => uses_ite (fun _ => uses_pure _) fun _ =>
      uses_attempt (uses_call (htrace i)) (fun _ => uses_issue trivial) fun _ =>
        uses_bind (uses_issue trivial) fun _ => uses_onlyIf fun _ => uses_call trivial
  cases a with
  | boot => exact settles_do_boot_impl settings w h.calm
  | shutdown => exact hcommand .Shutdown w h.calm
  | config => exact wp_do_config settings h
  | recover => exact (wp_do_recover w).mono (fun _ _ hv => h.calm.recovered hv) fun _ _ _ => trivial
  | start => exact wp_do_start_running settings h
  | stop => exact wp_do_stop_running settings h
  | terminate => exact settles_do_terminate w h.calm
  | pause => exact hcommand .Pause w h.calm
  | resume => exact hcommand .Resume w h.calm
  | enable => exact settles_ordinary (uses_call trivial) w h.calm
  | disable => exact settles_ordinary (uses_call trivial) w h.calm
  | trace_get =>
    exact settles_ordinary (uses_bind (uses_look trivial) fun _ =>
      uses_bind (uses_in_threads trivial fun i _ => htrace .trace_get (fun _ => trivial) i) fun _ =>
        uses_forEach fun _ _ => uses_call trivial) w h.calm
  | trace_set =>
    exact settles_ordinary (uses_bind (uses_look trivial) fun _ =>
      uses_in_threads trivial fun i _ => htrace .trace_set (fun _ => trivial) i) w h.calm

/-- A boot of one EventBuilder. -/
def one_builder : BootInfo where
  procinfos := [Procinfo.new .EventBuilder "component01" "1"]
  subsystems := [("1", ⟨[], none, true⟩)]
  manage_processes := true
  disable_recovery := false

/-- The files of an EventBuilder that writes a root file. -/
def root_files : ConfigTree × Tools where
  fst := { plain_files.1 with
    file_at := fun _ => some (.text "outputs: RootOutput\nfileName: a.root\n".toList) }
  snd := plain_files.2

/-- The environment of an EventBuilder that does not answer some calls. -/
def builder_env (silent : ProcCall → Bool) : Env :=
  { smooth one_builder with
    outcome := fun _ op =>
      match op with
      | .process call _ => if silent call then .error "timed out" else .ok "Success"
      | .config_files => .ok root_files
      | op => smooth_outcome one_builder op
    files := fun _ => root_files }

/-- The EventBuilder does not answer a request to archive a document. -/
def deaf_to_archive : ProcCall → Bool
  | .add_config_archive_entry _ => true
  | _ => false

/-- The EventBuilder does not answer `Init`. -/
def deaf_to_init : ProcCall → Bool
  | .command .Init => true
  | _ => false

/-- The EventBuilder is booted, and a configuration is asked for. -/
def configuration_requested (silent : ProcCall → Bool) : System :=
  ((boot_requested (builder_env silent)).tick (builder_env silent)).requested (builder_env silent)
    "configuring" ⟨none, some ["demo"], none⟩

/-- The world in which the configuration starts. -/
def configuration_begun (silent : ProcCall → Bool) : World :=
  (exec (builder_env silent) (.begin .config) (configuration_requested silent).world).2

/-- The configuration. -/
def configuration (silent : ProcCall → Bool) : Program.Outcome String Unit × World :=
  run (exec (builder_env silent)) (action (builder_env silent).settings .config)
    (configuration_begun silent).fresh

instance (log : List Event) : Decidable (WentOn log) :=
  inferInstanceAs (Decidable (∃ e ∈ log, e.goesOn = true))

end DaqInterface
