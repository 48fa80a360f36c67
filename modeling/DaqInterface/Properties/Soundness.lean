import DaqInterface.Properties.Recovery

/-!
# Soundness of the state machine

The state is written by accepted requests, completed transitions, reverted transitions and
recoveries.  All of them write a state of the machine, except for three: a request under a
name that no table has, the completion of `Shutdown` (whose text stays empty) and the
reversion of `terminating` (whose text in the table is a list).  `state_machine_sound` says
that these are the only ones, and that a transition that succeeds leads to its target.
-/

namespace DaqInterface

open Program

/-! ## Valid states -/

/-- The requests that the tables or `state_change` know. -/
def known_requests : List String :=
  dict_state_from.map Prod.fst ++ ["recovering", "enabling", "disabling"]

/-- The events that can write a text which is no state. -/
def Event.Unsound : Event → Prop
  | .accepted requested => requested ∉ known_requests
  | .complete t => t = ""
  | .reverted s => s = "terminating"
  | _ => False

instance : DecidablePred Event.Unsound
  | .accepted requested => inferInstanceAs (Decidable (requested ∉ known_requests))
  | .complete t => inferInstanceAs (Decidable (t = ""))
  | .reverted s => inferInstanceAs (Decidable (s = "terminating"))
  | .rejected _ | .state _ | .begin _ | .recover | .requests_cleared | .failed _ | .sent _ _
  | .init_sent _ _ | .outcome _ _ | .joined _ _ _ _ _ _ => Decidable.isFalse id

/-- The state is valid, and so was every state written before. -/
structure ValidStates (w : World) : Prop where
  /-- The present state. -/
  current : w.daq.state ∈ valid_states
  /-- The states written so far. -/
  written : ∀ s, Event.state s ∈ w.log → s ∈ valid_states

theorem ValidStates.emit {w : World} (h : ValidStates w) {e : Event}
    (he : ∀ s, e ≠ .state s) : ValidStates (w.emit e) where
  current := h.current
  written := fun s hs => (List.mem_cons.mp hs).elim (fun heq => absurd heq.symm (he s)) (h.written s)

theorem ValidStates.writeState {w : World} (h : ValidStates w) {c : Component}
    (hc : c.state ∈ valid_states) : ValidStates (w.writeState c) where
  current := hc
  written := fun s hs => (List.mem_cons.mp hs).elim
    (fun heq => by cases heq; exact hc) (h.written s)

/-- A known request leads to a state of the machine. -/
theorem accept_valid {c : Component} {requested : String} (state_args : RunParams)
    (hc : c.state ∈ valid_states) (hr : requested ∈ known_requests) :
    (c.accept requested state_args).state ∈ valid_states := by
  have hall : ∀ r ∈ known_requests, r ≠ "enabling" ∧ r ≠ "disabling" → r ∈ valid_states := by
    decide
  unfold Component.accept
  dsimp only
  split
  · rename_i h
    exact hall requested hr h
  · exact hc

theorem revert_state (c : Component) :
    (c.revert_state_change c.name c.state).state =
      (dict_state_from.lookup c.state).getD c.state := by
  rw [Component.revert_state_change, if_neg (not_not_intro rfl)]

/-- A completed transition leads to a state of the machine. -/
theorem complete_valid {c : Component} {t : String} {a : Action} (ha : a.completes = some t)
    (ht : t ≠ "") : (c.complete_state_change c.name t).state ∈ valid_states := by
  have hall : ∀ a ∈ Action.all, ∀ t ∈ a.completes, t ≠ "" →
      (dict_state_to.lookup t).getD t ∈ valid_states := by decide
  rw [complete_state]
  exact hall a a.mem_all t ha ht

/-- A reverted transition, other than `terminating`, leads to a state of the machine. -/
theorem revert_valid {c : Component} (hc : c.state ∈ valid_states)
    (ht : c.state ≠ "terminating") :
    (c.revert_state_change c.name c.state).state ∈ valid_states := by
  have hall : ∀ s ∈ valid_states, s ≠ "terminating" →
      (dict_state_from.lookup s).getD s ∈ valid_states := by decide
  rw [revert_state]
  exact hall _ hc ht

/-- Something unsound happened, or all states are valid. -/
def SoundSoFar (w : World) : Prop := (∃ e ∈ w.log, e.Unsound) ∨ ValidStates w

/-- What changes neither the state nor the log keeps soundness. -/
theorem SoundSoFar.frame {w v : World} (h : SoundSoFar w) (hstate : v.daq.state = w.daq.state)
    (hlog : v.log = w.log) : SoundSoFar v := by
  rcases h with ⟨e, he, hun⟩ | hv
  · exact Or.inl ⟨e, hlog ▸ he, hun⟩
  · exact Or.inr ⟨hstate ▸ hv.current, hlog ▸ hv.written⟩

/-- Events that write no state keep soundness. -/
theorem SoundSoFar.emit {w : World} (h : SoundSoFar w) {e : Event} (he : ∀ s, e ≠ .state s) :
    SoundSoFar (w.emit e) := by
  rcases h with ⟨e', he', hun⟩ | hv
  · exact Or.inl ⟨e', List.mem_cons_of_mem _ he', hun⟩
  · exact Or.inr (hv.emit he)

/-- A write that is valid or announced as unsound keeps soundness. -/
theorem SoundSoFar.writeState {w : World} (h : SoundSoFar w) {e : Event} {c : Component}
    (he : ∀ s, e ≠ .state s)
    (hc : e.Unsound ∨ (w.daq.state ∈ valid_states → c.state ∈ valid_states)) :
    SoundSoFar ((w.emit e).writeState c) := by
  rcases h with ⟨e', he', hun⟩ | hv
  · exact Or.inl ⟨e', List.mem_cons_of_mem _ (List.mem_cons_of_mem _ he'), hun⟩
  · rcases hc with hun | hc
    · exact Or.inl ⟨e, List.mem_cons_of_mem _ List.mem_cons_self, hun⟩
    · exact Or.inr ((hv.emit he).writeState (hc hv.current))

theorem SoundSoFar.apply (files : ConfigTree × Tools) (i : Interference) (w : World)
    (h : SoundSoFar w) : SoundSoFar (i.apply files w) := by
  cases i with
  | state_change name requested state_args =>
    by_cases hname : name = w.daq.name
    · by_cases hu : w.daq.toComponent.unable requested = true
      · rw [apply_state_change_rejected hname hu]
        exact h.emit nofun
      · rw [apply_state_change_accepted hname hu]
        refine h.writeState nofun ?_
        by_cases hr : requested ∈ known_requests
        · exact Or.inr fun hc => accept_valid state_args hc hr
        · exact Or.inl hr
    · rwa [apply_state_change_other hname]
  | trace_get name args => exact h.frame (by simp [Interference.apply, Component.trace_get]; split <;> rfl) rfl
  | trace_set name args => exact h.frame (by simp [Interference.apply, Component.trace_set]; split <;> rfl) rfl
  | setdaqcomps comps => exact h.frame rfl rfl
  | prepare boot => exact h.frame (by simp [Interference.apply]) rfl

theorem SoundSoFar.settle {env : Env} {w : World} (h : SoundSoFar w) :
    SoundSoFar (DaqInterface.settle env w) :=
  settle_preserves SoundSoFar.apply h

theorem SoundSoFar.exec {env : Env} (c : Cmd) (hc : Legal c) (w : World) (h : SoundSoFar w) :
    SoundSoFar (exec env c w).2 := by
  cases c with
  | call op =>
    have hw : SoundSoFar { DaqInterface.settle env w with clock := w.clock + 1 } :=
      h.settle.frame rfl rfl
    exact hw.emit nofun
  | sleep => exact h.settle.frame rfl rfl
  | complete_state_change t =>
    obtain ⟨a, ha⟩ := hc
    refine h.writeState nofun ?_
    by_cases ht : t = ""
    · exact Or.inl ht
    · exact Or.inr fun _ => complete_valid ha ht
  | revert_state_change =>
    refine h.writeState nofun ?_
    by_cases ht : w.daq.state = "terminating"
    · exact Or.inl ht
    · exact Or.inr fun hs => revert_valid hs ht
  | skip_recovery =>
    have hw : SoundSoFar { w with daq := { w.daq with in_recovery := false } } := h.frame rfl rfl
    refine SoundSoFar.writeState hw nofun (Or.inr fun _ => ?_)
    rw [complete_state]
    decide
  | finish_recovery =>
    have hw : SoundSoFar { w with daq := { w.daq with in_recovery := false } } := h.frame rfl rfl
    have hcleared : SoundSoFar (World.emit _ .requests_cleared) := hw.emit nofun
    refine hcleared.writeState nofun (Or.inr fun _ => ?_)
    rw [complete_state]
    decide
  | begin a =>
    have hw : SoundSoFar { w with daq := w.daq.clear_request a } := h.frame rfl rfl
    exact hw.emit nofun
  | begin_recovery =>
    have hw : SoundSoFar { w with daq := { w.daq with in_recovery := true } } := h.frame rfl rfl
    exact hw.emit nofun
  | fail cause =>
    have hw : SoundSoFar { w with daq := { w.daq with exception := true } } := h.frame rfl rfl
    exact hw.emit nofun
  | send c i =>
    simp only [DaqInterface.exec]
    have hsent : SoundSoFar (w.emit (.sent c i)) := h.emit fun s hs => by cases hs
    split
    · exact hsent.emit fun s hs => by cases hs
    · exact hsent
  | join_prep =>
    simp only [DaqInterface.exec]
    split
    · exact h
    · rename_i boot _
      have hw : SoundSoFar { w with daq :=
          { (finish_prep (env.files w.clock) boot w.daq).2.2 with
            prep := { (finish_prep (env.files w.clock) boot w.daq).2.2.prep with
              config_prep_thread := none } } } :=
        h.frame (by simp) rfl
      exact hw.emit fun s hs => by cases hs
  | _ => exact h.frame rfl rfl

/-! ## Transitions that succeed -/

/-- Recoveries and reversions. -/
def Event.interrupts : Event → Bool
  | .recover => true
  | .reverted _ => true
  | _ => false

/-- Something unsound happened, or the transition was interrupted. -/
def Interrupted (log : List Event) : Prop := ∃ e ∈ log, e.Unsound ∨ e.interrupts = true

/-- Where the program returns, the state is `target`, unless the transition was interrupted. -/
def Finishes (target : String) (p : Control Unit) : Prop :=
  ∀ env w, p.wp (exec env) (fun _ v => v.daq.state = target ∨ Interrupted v.log)
    (fun _ _ => True) w

/-- The program says `false` only where the transition was interrupted. -/
def Confirms (p : Control Bool) : Prop :=
  ∀ env w, p.wp (exec env) (fun b v => b = true ∨ Interrupted v.log) (fun _ _ => True) w

section Finishes

variable {target : String} {α : Type}

theorem finishes_raise (e : String) : Finishes target (raise e) := fun _ _ => trivial

theorem finishes_bind {p : Control α} {f : α → Control Unit} (hf : ∀ a, Finishes target (f a)) :
    Finishes target (p >>= f) :=
  fun env _ => wp_bind.mpr (wp.of_forall (fun a t => hf a env t) fun _ _ => trivial)

theorem finishes_attempt {p : Control α} {handler : String → Control Unit}
    {rest : α → Control Unit} (hh : ∀ e, Finishes target (handler e))
    (hr : ∀ a, Finishes target (rest a)) : Finishes target (p.attempt handler rest) :=
  fun env _ => wp_attempt.mpr (wp.of_forall (fun a t => hr a env t) fun e t => hh e env t)

theorem finishes_ite {P : Prop} [Decidable P] {p q : Control Unit} (hp : Finishes target p)
    (hq : Finishes target q) : Finishes target (if P then p else q) :=
  fun env w => wp_ite.mpr ⟨fun _ => hp env w, fun _ => hq env w⟩

/-- A part that confirms may decide whether the program goes on. -/
theorem finishes_of_confirms {p : Control Bool} {q : Control Unit} (hp : Confirms p)
    (hq : Finishes target q) : Finishes target (p >>= fun b => onlyIf (b = true) q) := by
  intro env w
  refine wp_bind.mpr ((hp env w).mono (fun b v hv => ?_) fun _ _ h => h)
  refine wp_onlyIf.mpr ⟨fun _ => hq env v, fun hb => ?_⟩
  exact hv.elim (fun h => absurd h hb) Or.inr

theorem interrupted_of_recover {w v : World} (h : RecoverySince (.recover :: w.log) v.log) :
    Interrupted v.log :=
  ⟨_, h.mem_recover, Or.inr rfl⟩

theorem finishes_alert (extrainfo : String) : Finishes target (alert_and_recover extrainfo) :=
  fun _ w => (wp_alert_and_recover extrainfo w).mono
    (fun _ _ h => Or.inr (interrupted_of_recover h.log)) fun _ _ _ => trivial

theorem finishes_revert : Finishes target (issue .revert_state_change) :=
  fun _ _ => (wp_issue .revert_state_change).mpr
    (Or.inr ⟨_, List.mem_cons_of_mem _ List.mem_cons_self, Or.inr rfl⟩)

theorem finishes_complete {t : String} (h : dict_state_to.lookup t = some target) :
    Finishes target (issue (.complete_state_change t)) := by
  refine fun _ w => (wp_issue (.complete_state_change t)).mpr (Or.inl ?_)
  have hstate := complete_state w.daq.toComponent t
  rw [h] at hstate
  exact hstate

/-- The completion of `Shutdown` is unsound. -/
theorem finishes_complete_shutdown : Finishes target (issue (.complete_state_change "")) :=
  fun _ _ => (wp_issue (.complete_state_change "")).mpr
    (Or.inr ⟨_, List.mem_cons_of_mem _ List.mem_cons_self, Or.inl rfl⟩)

theorem confirms_false (extrainfo : String) :
    Confirms (do alert_and_recover extrainfo; return false) :=
  fun _ w => wp_bind.mpr ((wp_alert_and_recover extrainfo w).mono
    (fun _ _ h => Or.inr (interrupted_of_recover h.log)) fun _ _ _ => trivial)

theorem confirms_bind {p : Control α} {f : α → Control Bool} (hf : ∀ a, Confirms (f a)) :
    Confirms (p >>= f) :=
  fun env _ => wp_bind.mpr (wp.of_forall (fun a t => hf a env t) fun _ _ => trivial)

theorem confirms_attempt {p : Control α} {handler : String → Control Bool}
    {rest : α → Control Bool} (hh : ∀ e, Confirms (handler e)) (hr : ∀ a, Confirms (rest a)) :
    Confirms (p.attempt handler rest) :=
  fun env _ => wp_attempt.mpr (wp.of_forall (fun a t => hr a env t) fun e t => hh e env t)

theorem confirms_true : Confirms (return true) := fun _ _ => Or.inl rfl

/-! ### The functions -/

theorem confirms_create_servers (members : List ℕ) : Confirms (create_servers members) := by
  induction members with
  | nil => exact confirms_true
  | cons i rest ih => exact confirms_attempt (fun _ => confirms_false _) fun _ => ih

theorem confirms_check_processes {missing : Control Bool} (h : Confirms missing) :
    Confirms (check_processes missing) :=
  confirms_bind fun _ => confirms_bind fun _ env w =>
    wp_ite.mpr ⟨fun _ => Or.inl rfl, fun _ => confirms_bind (fun _ => h) env w⟩

theorem confirms_wait_for_processes (n : ℕ) : Confirms (wait_for_processes n) := by
  induction n with
  | zero => exact confirms_check_processes (confirms_bind fun _ => confirms_false _)
  | succ n ih => exact confirms_check_processes ih

theorem confirms_shutdown_processes (members : List ℕ) : Confirms (shutdown_processes members) := by
  induction members with
  | nil => exact confirms_true
  | cons i rest ih =>
    exact confirms_bind fun _ => confirms_attempt (fun _ => confirms_false _) fun _ =>
      confirms_bind fun _ => confirms_bind fun _ => ih

theorem finishes_do_command {command : Command} {t : String} (hv : verbing command = some t)
    (ht : Finishes target (issue (.complete_state_change t))) :
    Finishes target (do_command command) := by
  refine finishes_bind fun _ => finishes_bind fun self => finishes_bind fun _ =>
    finishes_bind fun now => finishes_bind fun _ => finishes_bind fun _ => finishes_bind fun _ =>
      finishes_attempt (fun _ => finishes_raise _) fun _ => ?_
  rw [hv]
  exact ht

theorem finishes_associate_logfiles (settings : Settings) (manage_processes : Bool) :
    Finishes "booted" (associate_logfiles settings manage_processes) := by
  have hcomplete : Finishes "booted" (complete_boot settings) :=
    finishes_bind fun _ => finishes_complete (by decide)
  exact finishes_ite (finishes_attempt (fun _ => finishes_alert _) fun _ => hcomplete) hcomplete

theorem finishes_wait_for_msgviewer (settings : Settings) (manage_processes launched : Bool) :
    Finishes "booted" (wait_for_msgviewer settings manage_processes launched) := by
  have hlogfiles := finishes_associate_logfiles settings manage_processes
  refine finishes_ite (finishes_bind fun fine => finishes_ite hlogfiles ?_) hlogfiles
  exact finishes_ite (finishes_alert _) (finishes_raise _)

theorem finishes_launch (settings : Settings) (launched : Bool) :
    Finishes "booted" (launch settings launched) := by
  refine finishes_bind fun self => finishes_ite ?_ (finishes_wait_for_msgviewer _ _ _)
  refine finishes_bind fun _ => finishes_bind fun _ => finishes_bind fun _ => finishes_bind fun _ =>
    finishes_bind fun _ => finishes_attempt (fun _ => finishes_alert _) fun _ =>
      finishes_bind fun _ => ?_
  refine finishes_of_confirms (confirms_wait_for_processes _) (finishes_bind fun self => ?_)
  exact finishes_of_confirms (confirms_create_servers _)
    (finishes_bind fun _ => finishes_wait_for_msgviewer _ _ _)

theorem finishes_revert_failed_boot : Finishes target revert_failed_boot :=
  finishes_bind fun _ => finishes_revert

theorem finishes_do_boot_impl (settings : Settings) :
    Finishes "booted" (do_boot_impl settings) := by
  refine finishes_bind fun self => finishes_ite finishes_revert (finishes_bind fun _ =>
    finishes_bind fun self => ?_)
  split
  · exact finishes_raise _
  · refine finishes_bind fun _ => finishes_bind fun _ => finishes_bind fun _ =>
      finishes_attempt (fun _ => finishes_revert_failed_boot) fun info => ?_
    refine finishes_bind fun _ => finishes_bind fun _ => finishes_bind fun self =>
      finishes_ite finishes_revert_failed_boot (finishes_bind fun _ => finishes_bind fun _ => ?_)
    exact finishes_attempt (fun _ => finishes_alert _) (finishes_launch settings)

theorem finishes_init_and_complete (settings : Settings) :
    Finishes "ready" (init_and_complete settings) := by
  refine finishes_bind fun _ => finishes_bind fun _ => finishes_bind fun _ =>
    finishes_ite (finishes_bind fun _ => ?_) (finishes_bind fun _ => finishes_complete (by decide))
  exact finishes_attempt (fun _ => finishes_alert _) fun _ => finishes_bind fun _ =>
    finishes_bind fun _ => finishes_bind fun _ => finishes_complete (by decide)

theorem finishes_fail_config (failure : PrepFailure) : Finishes target (fail_config failure) := by
  cases failure with
  | revert => exact finishes_revert
  | raise e => exact finishes_raise e
  | recover extrainfo => exact finishes_alert extrainfo

theorem finishes_do_config (settings : Settings) : Finishes "ready" (do_config settings) := by
  refine finishes_bind fun _ => finishes_bind fun self => ?_
  split
  · exact finishes_raise _
  · refine finishes_bind fun _ => finishes_bind fun _ => finishes_bind fun _ =>
      finishes_ite ?_ ?_
    · exact finishes_bind fun _ => finishes_bind fun _ => finishes_bind fun _ =>
        finishes_init_and_complete settings
    · refine finishes_attempt (fun _ => finishes_revert) fun files => finishes_bind fun self =>
        finishes_bind fun _ => ?_
      split
      · exact finishes_fail_config _
      · refine finishes_bind fun _ => finishes_bind fun _ => finishes_bind fun _ =>
          finishes_bind fun _ => ?_
        split
        · exact finishes_fail_config _
        · exact finishes_init_and_complete settings

theorem finishes_do_start_running (settings : Settings) :
    Finishes "running" (do_start_running settings) := by
  have hcomplete : ∀ manage_processes, Finishes "running" (complete_start manage_processes) :=
    fun _ => finishes_bind fun _ => finishes_bind fun _ => finishes_bind fun _ =>
      finishes_complete (by decide)
  refine finishes_bind fun self => ?_
  split
  · exact finishes_raise _
  · refine finishes_bind fun _ => finishes_bind fun _ => finishes_bind fun _ =>
      finishes_bind fun _ => finishes_bind fun _ => finishes_ite ?_ (finishes_alert _)
    refine finishes_attempt (fun _ => finishes_alert _) fun _ => finishes_bind fun _ =>
      finishes_attempt (fun _ => finishes_alert _) fun _ => finishes_bind fun _ =>
        finishes_bind fun _ => finishes_bind fun _ => finishes_ite ?_ (hcomplete _)
    exact finishes_bind fun _ => finishes_attempt (fun _ => finishes_alert _) fun _ => hcomplete _

theorem finishes_do_stop_running (settings : Settings) :
    Finishes "ready" (do_stop_running settings) := by
  have hcomplete : Finishes "ready" complete_stop :=
    finishes_bind fun _ => finishes_complete (by decide)
  refine finishes_bind fun _ => finishes_bind fun _ => finishes_bind fun _ =>
    finishes_attempt (fun _ => finishes_alert _) fun _ => finishes_bind fun _ =>
      finishes_bind fun _ => finishes_bind fun _ => finishes_ite ?_ hcomplete
  exact finishes_bind fun _ => finishes_attempt (fun _ => finishes_alert _) fun _ => hcomplete

theorem finishes_do_terminate : Finishes "stopped" do_terminate := by
  have hcomplete : Finishes "stopped" (issue (.complete_state_change "terminating")) :=
    finishes_complete (by decide)
  refine finishes_bind fun self => finishes_ite (finishes_bind fun _ => ?_) hcomplete
  exact finishes_of_confirms (confirms_shutdown_processes _)
    (finishes_attempt (fun _ => finishes_alert _) fun _ => hcomplete)

/-- The recovery always finishes: its own call does not count as an interruption. -/
theorem wp_do_recover_stopped (env : Env) (w : World) :
    do_recover.wp (exec env) (fun _ v => v.daq.state = "stopped") (fun _ _ => True) w :=
  (wp_do_recover w).mono (fun _ _ h => h.state) fun _ _ _ => trivial

/-- Every transition that returns without an interruption has reached its target. -/
theorem finishes_action (settings : Settings) {a : Action} {t : String} (hr : a ≠ .recover)
    (ha : a.transition = some t) (ht : dict_state_to.lookup t = some target) :
    Finishes target (action settings a) := by
  have htarget : ∀ {s}, dict_state_to.lookup t = some s → s = target := fun h =>
    Option.some.inj (h.symm.trans ht)
  cases a with
  | recover => exact absurd rfl hr
  | trace_get | trace_set => cases ha
  | enable | disable =>
    cases ha
    cases ht
  | boot => cases ha; cases htarget rfl; exact finishes_do_boot_impl settings
  | config => cases ha; cases htarget rfl; exact finishes_do_config settings
  | start => cases ha; cases htarget rfl; exact finishes_do_start_running settings
  | stop => cases ha; cases htarget rfl; exact finishes_do_stop_running settings
  | terminate => cases ha; cases htarget rfl; exact finishes_do_terminate
  | shutdown => exact finishes_do_command rfl finishes_complete_shutdown
  | pause => cases ha; exact finishes_do_command rfl (finishes_complete ht)
  | resume => cases ha; exact finishes_do_command rfl (finishes_complete ht)

end Finishes

/-! ## The state machine -/

/-- The turn that starts the action `a` ends with neither a recovery nor a reversion; the
recovery itself only has to return. -/
def System.Succeeds (env : Env) (s : System) (a : Action) : Prop :=
  (s.tick env).loop = .running ∧
    (a = .recover ∨ ∀ e ∈ s.events env, e.interrupts = false)

instance (env : Env) (s : System) (a : Action) : Decidable (s.Succeeds env a) :=
  inferInstanceAs (Decidable ((s.tick env).loop = .running ∧
    (a = .recover ∨ ∀ e ∈ s.events env, e.interrupts = false)))

/-- The turn of the recovery ends in `stopped`. -/
theorem wp_runner_recover {env : Env} {settings : Settings} {w : World}
    (hexc : w.daq.exception = false) (hnext : next_action w.daq = some .recover) :
    (runner settings).wp (exec env) (fun _ v => v.daq.state = "stopped") (fun _ _ => True) w := by
  refine (wp_runner_of_starts hexc hnext).mpr ((wp_do_recover_stopped env _).mono
    (fun _ _ h => h) fun e v _ => ?_)
  exact (wp_handle_exception e v).mono (fun _ _ h => h.state) fun _ _ _ => trivial

/-- The turn of a transition ends in its target, or it was interrupted. -/
theorem wp_runner_finishes {env : Env} {settings : Settings} {w : World} {a : Action}
    {t target : String} (hexc : w.daq.exception = false) (hnext : next_action w.daq = some a)
    (hr : a ≠ .recover) (ha : a.transition = some t) (ht : dict_state_to.lookup t = some target) :
    (runner settings).wp (exec env) (fun _ v => v.daq.state = target ∨ Interrupted v.log)
      (fun _ _ => True) w := by
  refine (wp_runner_of_starts hexc hnext).mpr ((finishes_action settings hr ha ht env _).mono
    (fun _ _ h => h) fun e v _ => ?_)
  exact (wp_handle_exception e v).mono (fun _ _ h => Or.inr (interrupted_of_recover h.log))
    fun _ _ _ => trivial

/-- In a run in which no request has an unknown name, no `Shutdown` is completed and no
`terminating` is reverted, every state is one of the state machine, and every transition that
succeeds leads to its target. -/
theorem state_machine_sound {env : Env} {name : String} {s : System} (hs : Reachable env name s)
    (hsound : ∀ e ∈ s.world.log, ¬ e.Unsound) :
    ValidStates s.world ∧
      ∀ a t target, s.Starts a → a.transition = some t → dict_state_to.lookup t = some target →
        (∀ e ∈ s.events env, ¬ e.Unsound) → s.Succeeds env a →
          (s.tick env).world.daq.state = target := by
  constructor
  · have hstart : SoundSoFar (System.start name).world :=
      Or.inr ⟨List.mem_append_left _ List.mem_cons_self, nofun⟩
    have hfar := System.invariant_of_commands hs hstart SoundSoFar.apply SoundSoFar.exec
    exact hfar.resolve_left fun ⟨e, he, hun⟩ => hsound e he hun
  · rintro a t target ⟨-, hexc, hnext⟩ ha ht hun ⟨hloop, hsucceeds⟩
    have hreturned := System.returned_of_running hloop
    have hexc' : s.world.fresh.daq.exception = false := hexc
    have hnext' : next_action s.world.fresh.daq = some a := hnext
    rw [System.tick_daq]
    by_cases hr : a = .recover
    · subst hr
      cases ha
      cases ht
      exact (wp_runner_recover hexc' hnext').returned hreturned
    · have hrun := (wp_runner_finishes hexc' hnext' hr ha ht).returned hreturned
      refine hrun.resolve_right fun ⟨e, he, hint⟩ => ?_
      have hnot := hsucceeds.resolve_left hr e he
      rcases hint with hun' | hint
      · exact hun e he hun'
      · exact Bool.false_ne_true (hnot.symm.trans hint)

/-- The first boot leads to `booted`. -/
theorem first_boot_sound :
    ValidStates (boot_requested (smooth (one_reader true))).world ∧
      ((boot_requested (smooth (one_reader true))).tick (smooth (one_reader true))).world.daq.state =
        "booted" := by
  have hsound := state_machine_sound (boot_requested_reachable (smooth (one_reader true)))
    (by decide +kernel)
  exact ⟨hsound.1, hsound.2 .boot "booting" "booted" (by decide +kernel) rfl rfl (by decide +kernel)
    (by decide +kernel)⟩

/-- The processes have been booted and configured, and are asked to shut down. -/
def shutdown_requested : System :=
  let env := smooth (one_reader true)
  let booted := (boot_requested env).tick env
  let configured := (booted.requested env "configuring" ⟨none, some ["demo"], none⟩).tick env
  configured.requested env "shutting" ⟨none, none, none⟩

theorem shutdown_requested_reachable :
    Reachable (smooth (one_reader true)) "daqint" shutdown_requested := by
  have hbooted := (boot_requested_reachable (smooth (one_reader true))).tick rfl
  have hconfigured := (hbooted.outside (.state_change "daqint" "configuring"
    ⟨none, some ["demo"], none⟩)).tick (by decide +kernel)
  exact hconfigured.outside _

/-- A shutdown that succeeds leaves the empty text as the state. -/
theorem shutdown_leaves_no_state :
    ∃ env name s, Reachable env name s ∧ s.Starts .shutdown ∧ s.Succeeds env .shutdown ∧
      (s.tick env).world.daq.state = "" ∧ "" ∉ valid_states ∧
        dict_state_to.lookup "shutting" = some "booted" := by
  refine ⟨smooth (one_reader true), "daqint", shutdown_requested, shutdown_requested_reachable,
    ?_, ?_, ?_, ?_, rfl⟩
  · decide +kernel
  · decide +kernel
  · decide +kernel
  · decide

end DaqInterface
