import DaqInterface.Properties.Recovery

/-!
# How a recovery ends

Whatever the outside operations answer, a recovery does not hang, and the only exception that
gets out of it, and out of the runner, is one of a pid lookup (`recovery_ends`).  When it
returns, no request is left in the queue, except where the recovery left the processes alone
(`nothing_queued_iff`).
-/

namespace DaqInterface

open Program

variable {env : Env}

/-! ## No recovery hangs -/

theorem ends_call (op : Op) : (call op).Ends := fun result => by cases result <;> trivial

theorem ends_send_recover_command (i : ℕ) (command : Command) :
    (send_recover_command i command).Ends := by
  refine ends_bind (ends_perform _) fun _ => ends_bind (ends_call _) fun answer =>
    ends_bind (ends_perform _) fun _ => ?_
  split
  · exact ends_perform _
  · trivial

theorem ends_with_status {i : ℕ} {rest : String → Control Unit}
    (h : ∀ answer, (rest answer).Ends) : (with_status i rest).Ends :=
  ends_attempt (ends_call _) (fun _ => trivial) fun answer =>
    ends_bind (ends_perform _) fun _ => ends_bind (ends_perform _) fun _ => h answer

theorem ends_ignoring {p : Control Unit} (h : p.Ends) : (ignoring p).Ends :=
  ends_attempt h (fun _ => trivial) fun _ => trivial

theorem ends_shutdown_if_ready (i : ℕ) (state : String) : (shutdown_if_ready i state).Ends := by
  unfold shutdown_if_ready
  split
  · exact ends_ignoring (ends_send_recover_command _ _)
  · trivial

theorem ends_attempted_stop (i : ℕ) : (attempted_stop i).Ends := by
  refine ends_bind (ends_call _) fun found => ?_
  split
  · refine ends_with_status fun state => ?_
    split
    · exact ends_attempt (ends_send_recover_command _ _) (fun _ => trivial) fun _ =>
        ends_with_status (ends_shutdown_if_ready i)
    · exact ends_shutdown_if_ready _ _
  · trivial

theorem ends_wind_down (name : ProcType) : (wind_down name).Ends := by
  refine ends_bind (ends_perform _) fun self => ends_forEach fun priority _ =>
    ends_bind (ends_perform _) fun sched => ends_parallel fun p hp => ?_
  obtain ⟨i, -, rfl⟩ := List.mem_map.mp hp
  exact ends_attempted_stop i

theorem ends_clean_up (self : DAQInterface) : (clean_up self).Ends :=
  ends_bind (ends_onlyIf (ends_ignoring (ends_call _))) fun _ =>
    ends_bind (ends_onlyIf (ends_forEach fun name _ => ends_wind_down name)) fun _ =>
      ends_onlyIf (ends_ignoring (ends_bind (ends_call _) fun _ => ends_perform _))

theorem ends_do_recover : do_recover.Ends := by
  refine ends_bind (ends_perform _) fun _ => ends_bind (ends_perform _) fun self => ?_
  split
  · exact ends_perform _
  · exact ends_bind (ends_clean_up self) fun _ => ends_perform _

/-! ## What a recovery can raise -/

/-- A pid lookup raises. -/
def LookupFailure : (c : Cmd) → Resp c → Prop
  | .call (.probe (.get_pid_for_process _)), .error _ => True
  | _, _ => False

/-- A pid lookup has raised. -/
def LookupFailed (log : List Event) : Prop :=
  ∃ i e, Event.outcome (.probe (.get_pid_for_process i)) (.error e) ∈ log

theorem raisesAfter_issue (c : Cmd) : (issue c).RaisesAfter LookupFailure := raisesAfter_perform c

theorem raisesAfter_ignoring (p : Control Unit) : (ignoring p).RaisesAfter LookupFailure :=
  raisesAfter_attempt (fun _ => trivial) fun _ => trivial

theorem raisesAfter_with_status {i : ℕ} {rest : String → Control Unit}
    (h : ∀ answer, (rest answer).RaisesAfter LookupFailure) :
    (with_status i rest).RaisesAfter LookupFailure :=
  raisesAfter_attempt (fun _ => trivial) fun answer =>
    raisesAfter_bind (raisesAfter_issue _) fun _ =>
      raisesAfter_bind (raisesAfter_issue _) fun _ => h answer

theorem raisesAfter_shutdown_if_ready (i : ℕ) (state : String) :
    (shutdown_if_ready i state).RaisesAfter LookupFailure := by
  unfold shutdown_if_ready
  split
  · exact raisesAfter_ignoring _
  · trivial

theorem raisesAfter_attempted_stop (i : ℕ) : (attempted_stop i).RaisesAfter LookupFailure := by
  have hlookup : (call (.probe (.get_pid_for_process i))).RaisesAfter LookupFailure := by
    intro result
    cases result with
    | ok found => exact Or.inr trivial
    | error e => exact Or.inl trivial
  refine raisesAfter_bind hlookup fun found => ?_
  split
  · refine raisesAfter_with_status fun state => ?_
    split
    · exact raisesAfter_attempt (fun _ => trivial) fun _ =>
        raisesAfter_with_status (raisesAfter_shutdown_if_ready i)
    · exact raisesAfter_shutdown_if_ready _ _
  · trivial

theorem raisesAfter_wind_down (name : ProcType) :
    (wind_down name).RaisesAfter LookupFailure := by
  refine raisesAfter_bind (raisesAfter_issue _) fun self => raisesAfter_forEach fun priority _ =>
    raisesAfter_bind (raisesAfter_issue _) fun sched => raisesAfter_parallel fun p hp => ?_
  obtain ⟨i, -, rfl⟩ := List.mem_map.mp hp
  exact raisesAfter_attempted_stop i

theorem raisesAfter_do_recover : do_recover.RaisesAfter LookupFailure := by
  refine raisesAfter_bind (raisesAfter_issue _) fun _ =>
    raisesAfter_bind (raisesAfter_issue _) fun self => ?_
  split
  · exact raisesAfter_issue _
  · refine raisesAfter_bind ?_ fun _ => raisesAfter_issue _
    exact raisesAfter_bind (raisesAfter_onlyIf (raisesAfter_ignoring _)) fun _ =>
      raisesAfter_bind (raisesAfter_onlyIf (raisesAfter_forEach fun name _ =>
        raisesAfter_wind_down name)) fun _ => raisesAfter_onlyIf (raisesAfter_ignoring _)

theorem raisesAfter_runner (settings : Settings) :
    (runner settings).RaisesAfter LookupFailure :=
  raisesAfter_attempt (fun _ => raisesAfter_bind (raisesAfter_issue _) fun _ =>
      raisesAfter_bind (raisesAfter_bind (raisesAfter_issue _) fun _ =>
        raisesAfter_bind raisesAfter_do_recover fun _ => raisesAfter_issue _) fun _ =>
          raisesAfter_bind (raisesAfter_issue _) fun _ => raisesAfter_issue _)
    fun _ => trivial

/-- A lookup that raises is recorded. -/
theorem lookupFailed_of_failure (c : Cmd) (w : World) (h : LookupFailure c (exec env c w).1) :
    LookupFailed (exec env c w).2.log := by
  unfold LookupFailure at h
  split at h
  · rename_i i e heq
    refine ⟨i, e, ?_⟩
    have hlog : Event.outcome (.probe (.get_pid_for_process i))
        (exec env (.call (.probe (.get_pid_for_process i))) w).1 ∈
          (exec env (.call (.probe (.get_pid_for_process i))) w).2.log := List.mem_cons_self
    rwa [heq] at hlog
  · exact absurd h id

/-- A recovery or a runner that raises has seen a lookup raise. -/
theorem wp_lookupFailed {α : Type} {p : Control α} (h : p.RaisesAfter LookupFailure) (w : World) :
    p.wp (exec env) (fun _ _ => True) (fun _ v => LookupFailed v.log) w :=
  h.wp lookupFailed_of_failure
    (fun c _ ⟨i, e, hmem⟩ => ⟨i, e, mem_log_of_exec env c hmem⟩) w

/-! ## The processes are killed -/

/-- The event of an attempt to kill the processes. -/
def Event.killAttempt : Event → Bool
  | .outcome (.outside .kill_procs) _ => true
  | _ => false

/-- `kill_procs` was attempted. -/
def KillAttempted (log : List Event) : Prop := ∃ e ∈ log, e.killAttempt = true

instance (log : List Event) : Decidable (KillAttempted log) :=
  inferInstanceAs (Decidable (∃ e ∈ log, e.killAttempt = true))

/-- Only the call of `kill_procs` attempts it. -/
theorem killAttempted_of_exec (c : Cmd) {w : World} (hc : c ≠ .call (.outside .kill_procs))
    (h : KillAttempted (exec env c w).2.log) : KillAttempted w.log := by
  obtain ⟨e, hmem, hkill⟩ := h
  unfold Event.killAttempt at hkill
  split at hkill
  · rcases exec_log env c hmem with hmem | hout | hrec
    · exact ⟨_, hmem, rfl⟩
    · exact absurd hout id
    · cases c with
      | call op =>
        have hop : Op.outside .kill_procs = op := hrec
        exact absurd (hop ▸ rfl) hc
      | _ => exact absurd hrec id
  · exact absurd hkill Bool.false_ne_true

theorem wp_kill_procs (w : World) :
    kill_procs.wp (exec env) (fun _ v => KillAttempted v.log) (fun _ v => KillAttempted v.log)
      w := by
  have hcalled : KillAttempted (called env (.outside .kill_procs) w).log :=
    ⟨_, List.mem_cons_self, rfl⟩
  refine wp_bind.mpr ((wp_call (.outside .kill_procs)).mpr ⟨fun _ _ => ?_, fun _ _ => hcalled⟩)
  exact (wp_issue (.processes .clear)).mpr hcalled

theorem wp_clean_up (self : DAQInterface) {w : World} (hw : ¬ KillAttempted w.log) :
    (clean_up self).wp (exec env)
      (fun _ v => KillAttempted v.log ↔ self.vars.manage_processes = true) (fun _ _ => True) w := by
  by_cases hm : self.vars.manage_processes = true
  · refine wp_bind.mpr (wp.of_forall (fun _ _ => wp_bind.mpr (wp.of_forall (fun _ v => ?_)
      fun _ _ => trivial)) fun _ _ => trivial)
    refine wp_onlyIf.mpr ⟨fun _ => wp_attempt.mpr ?_, fun h => absurd hm h⟩
    exact (wp_kill_procs v).mono (fun _ _ h => ⟨fun _ => hm, fun _ => h⟩)
      fun _ _ h => ⟨fun _ => hm, fun _ => h⟩
  · have huses : (clean_up self).Uses fun c => c ≠ .call (.outside .kill_procs) :=
      uses_bind (uses_onlyIf fun _ => uses_ignoring (uses_call nofun)) fun _ =>
        uses_bind (uses_onlyIf fun h => absurd h hm) fun _ => uses_onlyIf fun h => absurd h hm
    have hkeep : ∀ c, c ≠ .call (.outside .kill_procs) → ∀ v : World, ¬ KillAttempted v.log →
        ¬ KillAttempted (exec env c v).2.log := fun c hc v hv h => hv (killAttempted_of_exec c hc h)
    refine (wp_of_uses huses hkeep hw).mono (fun _ _ h => ?_) fun _ _ _ => trivial
    exact ⟨fun h' => absurd h' h, fun h' => absurd h' hm⟩

/-- A recovery that returns has attempted to kill the processes exactly where the program
manages them and the recovery did not leave them alone. -/
theorem wp_do_recover_killAttempted {w : World} (hw : ¬ KillAttempted w.log) :
    do_recover.wp (exec env)
      (fun _ v => KillAttempted v.log ↔
        w.daq.vars.manage_processes = true ∧ w.daq.leaves_alone = false)
      (fun _ _ => True) w := by
  have hbegun : ¬ KillAttempted (exec env .begin_recovery w).2.log := fun h =>
    hw (killAttempted_of_exec .begin_recovery nofun h)
  refine wp_bind.mpr ((wp_issue .begin_recovery).mpr (wp_bind.mpr (wp_look.mpr
    (wp_ite.mpr ⟨fun h => ?_, fun h => ?_⟩))))
  · have halone : w.daq.leaves_alone = true := h
    refine (wp_issue .skip_recovery).mpr ⟨fun h' => ?_, fun h' => ?_⟩
    · exact absurd (killAttempted_of_exec .skip_recovery nofun h') hbegun
    · exact absurd (halone.symm.trans h'.2) nofun
  · have halone : w.daq.leaves_alone = false := Bool.eq_false_iff.mpr h
    refine wp_bind.mpr ((wp_clean_up _ hbegun).mono (fun _ v hv => ?_) fun _ _ _ => trivial)
    refine (wp_issue .finish_recovery).mpr ⟨fun h' => ?_, fun h' => ?_⟩
    · exact ⟨hv.mp (killAttempted_of_exec .finish_recovery nofun h'), halone⟩
    · obtain ⟨e, hmem, hkill⟩ := hv.mpr h'.1
      exact ⟨e, mem_log_of_exec env .finish_recovery hmem, hkill⟩

/-! ## The end of a recovery -/

/-- A recovery that returned: its state, and whether it attempted to kill the processes. -/
structure RecoveryComplete (w v : World) : Prop where
  /-- The state is the target of the transition. -/
  state : v.daq.state = "stopped"
  /-- The recovery is over. -/
  in_recovery : v.daq.in_recovery = false
  /-- `kill_procs` was attempted where the program manages the processes, except by a recovery
  that leaves them alone. -/
  killed : KillAttempted v.log ↔
    w.daq.vars.manage_processes = true ∧ w.daq.leaves_alone = false

/-- A program that ends is run to a value or to an exception. -/
theorem returned_or_raised {α : Type} {p : Control α} (h : p.Ends) (w : World) :
    (∃ a v, run (exec env) p w = (.returned a, v)) ∨ ∃ e v, run (exec env) p w = (.raised e, v) := by
  have hne : (run (exec env) p w).1 ≠ .hung := h.run_ne_hung w
  cases hout : (run (exec env) p w).1 with
  | returned a => exact Or.inl ⟨a, _, Prod.ext hout rfl⟩
  | raised e => exact Or.inr ⟨e, _, Prod.ext hout rfl⟩
  | hung => exact absurd hout hne

/-- A recovery ends in `stopped` unless one of its pid lookups raises, and so does every turn
of the runner from which an exception escapes. -/
theorem recovery_ends (env : Env) :
    (∀ w : World, (∃ v, run (exec env) do_recover w.fresh = (.returned (), v) ∧ RecoveryComplete w v) ∨
      ∃ e v, run (exec env) do_recover w.fresh = (.raised e, v) ∧ LookupFailed v.log) ∧
    ∀ s : System, (s.tick env).loop ≠ .dead ∨ LookupFailed (s.events env) := by
  constructor
  · intro w
    have hends : (∃ a v, run (exec env) do_recover w.fresh = (.returned a, v)) ∨
        ∃ e v, run (exec env) do_recover w.fresh = (.raised e, v) :=
      returned_or_raised ends_do_recover w.fresh
    rcases hends with ⟨⟨⟩, v, hrun⟩ | ⟨e, v, hrun⟩
    · have hspec := (wp_do_recover w.fresh).returned hrun
      have hnone : ¬ KillAttempted w.fresh.log := by simp [KillAttempted]
      have hkill := (wp_do_recover_killAttempted hnone).returned hrun
      exact Or.inl ⟨v, hrun, hspec.state, hspec.in_recovery, hkill⟩
    · exact Or.inr ⟨e, v, hrun, (wp_lookupFailed raisesAfter_do_recover w.fresh).raised hrun⟩
  · intro s
    cases hout : (run (exec env) (runner env.settings) s.world.fresh).1 with
    | returned u => exact Or.inl (by rw [System.tick_loop, hout]; nofun)
    | hung => exact Or.inl (by rw [System.tick_loop, hout]; nofun)
    | raised e =>
      exact Or.inr ((wp_lookupFailed (raisesAfter_runner env.settings) s.world.fresh).raised
        (Prod.ext hout rfl))

/-- The environment of a boot in which every pid lookup of a recovery raises. -/
def lookups_raise (info : BootInfo) : Env :=
  { smooth info with
    outcome := fun t op =>
      match op with
      | .probe (.get_pid_for_process _) => .error "ssh failed"
      | op => (smooth info).outcome t op }

/-- A recovery before the first boot does not attempt to kill anything, and after a boot a
recovery whose pid lookups raise ends the loop of the runner. -/
theorem recovery_skips_or_kills_runner :
    ¬ KillAttempted (run (exec (smooth (one_reader true))) do_recover
        (System.start "daqint").world).2.log ∧
      ∃ env s, Reachable env "daqint" s ∧ s.Starts .recover ∧ (s.tick env).loop = .dead := by
  constructor
  · decide +kernel
  · let env := lookups_raise (one_reader true)
    refine ⟨env, ((boot_requested env).tick env).requested env "recovering" ⟨none, none, none⟩,
      ((boot_requested_reachable env).tick ?_).outside _, ?_, ?_⟩
    · decide +kernel
    · decide +kernel
    · decide +kernel

/-! ## The queue after a recovery -/

/-- The event of a turn that starts an action. -/
def Event.begins : Event → Bool
  | .begin _ => true
  | _ => false

/-- No request is left: the state is `stopped`, no flag is set, and the next turn of the runner
starts no action. -/
structure NothingQueued (env : Env) (v : World) : Prop where
  /-- The state is the target of the recovery. -/
  state : v.daq.state = "stopped"
  /-- No flag is set. -/
  pending : ∀ a, v.daq.pending a = false
  /-- The next turn starts no action. -/
  idle : ∀ e ∈ (System.mk v .running).events env, e.begins = false

theorem next_action_eq_none {self : DAQInterface} (h : ∀ a, self.pending a = false) :
    next_action self = none :=
  List.find?_eq_none.mpr fun a _ => by simp [h a]

/-- Only the runner records the start of an action. -/
theorem not_begins_of_exec (c : Cmd) {w : World} (hc : ∀ a, c ≠ .begin a)
    (h : ∀ e ∈ w.log, e.begins = false) : ∀ e ∈ (exec env c w).2.log, e.begins = false := by
  intro e he
  rcases exec_log env c he with he | hout | hrec
  · exact h e he
  · cases e <;> first | rfl | exact absurd hout id
  · cases e with
    | begin a =>
      cases c with
      | begin a' => exact absurd rfl (hc a')
      | _ => exact absurd hrec id
    | _ => rfl

/-- A turn that finds no flag set starts no action. -/
theorem idle_of_no_request {s : System} (h : ∀ a, s.world.daq.pending a = false) :
    ∀ e ∈ s.events env, e.begins = false := by
  have hturn : (turn_with env.settings s.world.daq).Uses fun c => ∀ a, c ≠ .begin a := by
    rw [turn_with, next_action_eq_none h]
    refine uses_ite (fun _ => trivial) fun _ => uses_ite (fun _ => ?_) fun _ => trivial
    refine uses_look_after_processes.mono fun c hc a hca => ?_
    subst hca
    exact hc
  have hhandle : ∀ e, (handle_exception e).Uses fun c => ∀ a, c ≠ .begin a := fun e =>
    uses_bind (uses_issue fun a ha => by cases ha) fun _ =>
      uses_bind ((uses_alert_and_recover e).mono fun c hc a hca => by subst hca; exact hc) fun _ =>
        uses_bind (uses_issue fun a ha => by cases ha) fun _ =>
          uses_issue fun a ha => by cases ha
  have hrunner := uses_attempt hturn hhandle fun _ => uses_pure ()
  have hkeep : ∀ c, (∀ a, c ≠ .begin a) → ∀ w : World, (∀ e ∈ w.log, e.begins = false) →
      ∀ e ∈ (exec env c w).2.log, e.begins = false := fun c hc _ => not_begins_of_exec c hc
  have hnil : ∀ e ∈ s.world.fresh.log, e.begins = false := fun e he => absurd he List.not_mem_nil
  exact run_preserves hrunner hkeep hnil

/-- A recovery that returns leaves nothing in the queue exactly where it did not leave the
processes alone, or nothing was in the queue before. -/
theorem nothing_queued_iff {env : Env} {w v : World}
    (h : run (exec env) do_recover w = (.returned (), v)) :
    NothingQueued env v ↔ w.daq.leaves_alone = false ∨ ∀ a, w.daq.pending a = false := by
  have hspec := (wp_do_recover w).returned h
  have hpending := hspec.pending
  constructor
  · intro hq
    by_cases halone : w.daq.leaves_alone = true
    · rw [if_pos halone] at hpending
      exact Or.inr fun a => hpending ▸ hq.pending a
    · exact Or.inl (Bool.eq_false_iff.mpr halone)
  · intro hor
    have hclear : ∀ a, v.daq.pending a = false := by
      intro a
      rw [hpending]
      split
      · rename_i halone
        exact hor.resolve_left (by simp [halone]) a
      · rfl
    exact ⟨hspec.state, hclear, idle_of_no_request hclear⟩

/-- A recovery after a boot, to which the processes were asked to be configured. -/
theorem recovery_clears_configuring :
    NothingQueued (smooth (one_reader true))
      (run (exec (smooth (one_reader true))) do_recover
        (((boot_requested (smooth (one_reader true))).tick (smooth (one_reader true))).requested
          (smooth (one_reader true)) "configuring" ⟨none, some ["demo"], none⟩).world).2 :=
  (nothing_queued_iff (Prod.ext (by decide +kernel) rfl)).mpr (Or.inl (by decide +kernel))

/-- A boot that turns recoveries off. -/
def unrecovered_reader : BootInfo := { one_reader true with disable_recovery := true }

/-- A run is about to start when a recovery is asked for. -/
def start_then_recover : System :=
  let env := smooth unrecovered_reader
  let booted := (boot_requested env).tick env
  let configured := (booted.requested env "configuring" ⟨none, some ["demo"], none⟩).tick env
  (configured.requested env "starting" ⟨none, none, some 1⟩).requested env "recovering"
    ⟨none, none, none⟩

theorem start_then_recover_reachable :
    Reachable (smooth unrecovered_reader) "daqint" start_then_recover := by
  have hbooted := (boot_requested_reachable (smooth unrecovered_reader)).tick rfl
  have hconfigured := (hbooted.outside (.state_change "daqint" "configuring"
    ⟨none, some ["demo"], none⟩)).tick (by decide +kernel)
  exact (hconfigured.outside _).outside _

/-- Where recoveries are turned off, the turn behind the recovery starts the run that was asked
for before. -/
theorem start_survives_recovery :
    ∃ env s, Reachable env "daqint" s ∧ s.Starts .recover ∧
      (s.tick env).world.daq.state = "stopped" ∧
        ¬ (∀ a, (s.tick env).world.daq.pending a = false) ∧ (s.tick env).Starts .start := by
  refine ⟨smooth unrecovered_reader, start_then_recover, start_then_recover_reachable,
    ?_, ?_, fun h => ?_, ?_⟩
  · decide +kernel
  · decide +kernel
  · have hstart : (start_then_recover.tick (smooth unrecovered_reader)).world.daq.pending .start =
        true := by decide +kernel
    exact Bool.false_ne_true ((h .start).symm.trans hstart)
  · decide +kernel

end DaqInterface
