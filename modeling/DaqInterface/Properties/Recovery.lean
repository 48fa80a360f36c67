import DaqInterface.Properties.History

/-!
# What a recovery does

`Recovered w v` collects what holds in `v` when a recovery that was called in `w` returns:
the state is `stopped`, and the flags of all requests are clear unless the recovery left the
processes alone.  `wp_do_recover` and `wp_alert_and_recover` are the specifications that the
properties of the actions use; the only way in which a recovery does not return is an
exception of a pid lookup.
-/

namespace DaqInterface

open Program

variable {env : Env}

/-! ## Frames -/

/-- The name of the program and `exception` belong to the runner. -/
theorem apply_exception (files : ConfigTree × Tools) (w : World) (i : Interference) :
    (i.apply files w).daq.exception = w.daq.exception := by
  cases i with
  | state_change name requested state_args =>
    by_cases hname : name = w.daq.name
    · by_cases hu : w.daq.toComponent.unable requested = true
      · rw [apply_state_change_rejected hname hu]
        rfl
      · rw [apply_state_change_accepted hname hu]
        rfl
    · rw [apply_state_change_other hname]
  | prepare boot => exact prep_step_exception _ _ _
  | _ => rfl

@[simp] theorem settle_exception (env : Env) (w : World) :
    (settle env w).daq.exception = w.daq.exception := by
  have hstep : ∀ files w' (i : Interference), w'.daq.exception = w.daq.exception →
      (i.apply files w').daq.exception = w.daq.exception :=
    fun files w' i h => (apply_exception files w' i).trans h
  exact settle_preserves (fun files i w' h => hstep files w' i h) rfl

/-- A recovery does not touch `exception`. -/
theorem exec_exception_of_recovering {c : Cmd} (hc : Recovering c) (w : World) :
    (exec env c w).2.daq.exception = w.daq.exception := by
  cases c with
  | call op => exact settle_exception env w
  | sleep => exact settle_exception env w
  | fail | clear_exception | reset_variables | join_prep | send => exact absurd hc id
  | _ => rfl

/-- A completed transition leads to its target, or to the text itself. -/
theorem complete_state (c : Component) (t : String) :
    (c.complete_state_change c.name t).state = (dict_state_to.lookup t).getD t := by
  rw [Component.complete_state_change, if_neg (not_not_intro rfl)]

theorem complete_pending (c : Component) (t : String) :
    (c.complete_state_change c.name t).pending = c.pending := by
  rw [Component.complete_state_change, if_neg (not_not_intro rfl)]

/-! ## The events of a recovery -/

/-- Events that a recovery can cause. -/
def Event.OfRecovery : Event → Prop
  | .accepted _ => True
  | .rejected _ => True
  | .state _ => True
  | .recover => True
  | .requests_cleared => True
  | .outcome op _ => op.Safe
  | .complete t => t = "recovering"
  | _ => False

theorem Event.FromOutside.ofRecovery {e : Event} (h : e.FromOutside) : e.OfRecovery := by
  cases e <;> trivial

theorem Recovering.records {c : Cmd} (hc : Recovering c) {e : Event} (h : c.Records e) :
    e.OfRecovery := by
  cases c with
  | call op =>
    cases e with
    | outcome op' result => exact (show op' = op from h) ▸ hc
    | _ => exact absurd h id
  | _ => cases e <;> trivial

/-- The log consists of events of a recovery and a past. -/
def RecoverySince (past log : List Event) : Prop :=
  ∃ new, log = new ++ past ∧ ∀ e ∈ new, e.OfRecovery

theorem RecoverySince.refl (log : List Event) : RecoverySince log log :=
  ⟨[], rfl, fun _ h => absurd h List.not_mem_nil⟩

theorem RecoverySince.cons {past log : List Event} {e : Event} (h : RecoverySince past log)
    (he : e.OfRecovery) : RecoverySince past (e :: log) := by
  obtain ⟨new, rfl, hnew⟩ := h
  refine ⟨e :: new, rfl, fun e' he' => ?_⟩
  rcases List.mem_cons.mp he' with rfl | he'
  · exact he
  · exact hnew e' he'

/-- What holds after a part of a recovery, whether it returns or raises. -/
structure Progress (w v : World) : Prop where
  /-- It does not touch `exception`. -/
  exception : v.daq.exception = w.daq.exception
  /-- Its events are events of a recovery. -/
  log : RecoverySince w.log v.log

/-- A program whose commands are those of a recovery makes progress. -/
theorem wp_of_recovering {α : Type} {p : Control α} (hp : p.Uses Recovering) (w : World) :
    p.wp (exec env) (fun _ => Progress w) (fun _ => Progress w) w := by
  have hexc : p.wp (exec env) (fun _ v => v.daq.exception = w.daq.exception)
      (fun _ v => v.daq.exception = w.daq.exception) w :=
    wp_of_uses hp (fun c hc v hv => (exec_exception_of_recovering hc v).trans hv) rfl
  have hlog : p.wp (exec env) (fun _ v => RecoverySince w.log v.log)
      (fun _ v => RecoverySince w.log v.log) w :=
    wp_events hp (fun _ => Event.FromOutside.ofRecovery) (fun _ hc _ => hc.records) w
  exact (hexc.and hlog).mono (fun _ _ h => ⟨h.1, h.2⟩) fun _ _ h => ⟨h.1, h.2⟩

/-! ## The specification -/

/-- The recovery leaves the processes alone. -/
def DAQInterface.leaves_alone (self : DAQInterface) : Bool :=
  self.vars.disable_recovery || !self.vars.called_launch_procs

/-- What a recovery that was called in `w` leaves behind in `v`. -/
structure Recovered (w v : World) : Prop where
  /-- The state is the target of the transition. -/
  state : v.daq.state = "stopped"
  /-- The recovery is over. -/
  in_recovery : v.daq.in_recovery = false
  /-- A recovery that leaves the processes alone also leaves the flags alone. -/
  pending : v.daq.pending = if w.daq.leaves_alone then w.daq.pending else fun _ => false
  /-- It does not touch `exception`. -/
  exception : v.daq.exception = w.daq.exception
  /-- The call is recorded, and behind it only events of a recovery. -/
  log : RecoverySince (.recover :: w.log) v.log

/-- A recovery that raises has been recorded, too. -/
structure Aborted (w v : World) : Prop where
  /-- It does not touch `exception`. -/
  exception : v.daq.exception = w.daq.exception
  /-- The call is recorded, and behind it only events of a recovery. -/
  log : RecoverySince (.recover :: w.log) v.log

/-- The specification of `do_recover`. -/
theorem wp_do_recover (w : World) :
    do_recover.wp (exec env) (fun _ => Recovered w) (fun _ => Aborted w) w := by
  refine wp_bind.mpr ((wp_issue .begin_recovery).mpr (wp_bind.mpr (wp_look.mpr
    (wp_ite.mpr ⟨fun h => ?_, fun h => ?_⟩))))
  · have halone : w.daq.leaves_alone = true := h
    refine (wp_issue .skip_recovery).mpr ⟨complete_state _ _, rfl, ?_, rfl, ?_⟩
    · rw [halone]
      exact complete_pending _ _
    · have hcomplete : RecoverySince (.recover :: w.log) (.complete "recovering" :: .recover :: w.log) :=
        (RecoverySince.refl _).cons rfl
      exact hcomplete.cons trivial
  · have halone : w.daq.leaves_alone = false := Bool.eq_false_iff.mpr h
    refine wp_bind.mpr ((wp_of_recovering (uses_clean_up _) _).mono (fun _ v hv => ?_)
      fun _ v hv => ⟨hv.exception, hv.log⟩)
    refine (wp_issue .finish_recovery).mpr ⟨complete_state _ _, rfl, ?_, hv.exception, ?_⟩
    · rw [halone]
      exact complete_pending _ _
    · have hcleared : RecoverySince (.recover :: w.log) (.requests_cleared :: v.log) :=
        hv.log.cons trivial
      have hcomplete : RecoverySince (.recover :: w.log)
          (.complete "recovering" :: .requests_cleared :: v.log) := hcleared.cons rfl
      exact hcomplete.cons trivial

/-- Assignments around a recovery do not change what it leaves behind. -/
theorem Recovered.of_assign {w v : World} {f g : Vars → Vars}
    (h : Recovered (exec env (.assign f) w).2 v)
    (hf : (exec env (.assign f) w).2.daq.leaves_alone = w.daq.leaves_alone) :
    Recovered w (exec env (.assign g) v).2 where
  state := h.state
  in_recovery := h.in_recovery
  pending := by
    have hpending := h.pending
    rw [hf] at hpending
    exact hpending
  exception := h.exception
  log := h.log

/-- The specification of `alert_and_recover`. -/
theorem wp_alert_and_recover (extrainfo : String) (w : World) :
    (alert_and_recover extrainfo).wp (exec env) (fun _ => Recovered w) (fun _ => Aborted w) w := by
  refine wp_bind.mpr ((wp_issue (.assign _)).mpr (wp_bind.mpr ?_))
  refine (wp_do_recover _).mono (fun _ v hv => ?_) fun _ v hv => ⟨hv.exception, hv.log⟩
  exact (wp_issue (.assign _)).mpr (hv.of_assign rfl)

/-- What the answer of the runner to an exception leaves behind. -/
structure Handled (w v : World) : Prop where
  /-- The state is the target of the recovery. -/
  state : v.daq.state = "stopped"
  /-- The recovery is over. -/
  in_recovery : v.daq.in_recovery = false
  /-- A recovery that leaves the processes alone also leaves the flags alone. -/
  pending : v.daq.pending = if w.daq.leaves_alone then w.daq.pending else fun _ => false
  /-- The runner is ready for the next request. -/
  exception : v.daq.exception = false
  /-- The recovery is recorded, and behind it only events of a recovery. -/
  log : RecoverySince (.recover :: w.log) v.log

/-- The specification of the runner's handler. -/
theorem wp_handle_exception (e : String) (w : World) :
    (handle_exception e).wp (exec env) (fun _ => Handled w) (fun _ => Aborted w) w := by
  refine wp_bind.mpr ((wp_issue (.in_recovery true)).mpr (wp_bind.mpr ?_))
  refine (wp_alert_and_recover e _).mono (fun _ v hv => ?_) fun _ v hv => ⟨hv.exception, hv.log⟩
  exact wp_bind.mpr ((wp_issue (.in_recovery false)).mpr ((wp_issue .clear_exception).mpr
    ⟨hv.state, rfl, hv.pending, rfl, hv.log⟩))

/-- A recovery is recorded. -/
theorem RecoverySince.mem_recover {w v : World} (h : RecoverySince (.recover :: w.log) v.log) :
    Event.recover ∈ v.log := by
  obtain ⟨new, hlog, -⟩ := h
  rw [hlog]
  exact List.mem_append_right _ List.mem_cons_self

end DaqInterface
