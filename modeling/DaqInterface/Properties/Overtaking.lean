import DaqInterface.Properties.Requests
import DaqInterface.Properties.Soundness

/-!
# Recoveries that are owed

A request for a recovery is accepted in every state, and like all requests it only sets a flag.
The runner looks at the flags in one order, in which the boot, the shutdown and the configuration
come first: these three can begin while a recovery is owed, and nothing else can.  Where none of
them is owed when the recovery is asked for between two turns, nothing begins before it, and the
state stays `recovering` until the recovery makes it `stopped` (`recovery_not_overtaken`).
-/

namespace DaqInterface

open Program

variable {env : Env}

/-- The actions that the runner looks for before it looks for a recovery. -/
def Action.precedes_recovery : Action → Bool
  | .boot => true
  | .shutdown => true
  | .config => true
  | _ => false

theorem Action.before_or_behind (a : Action) :
    a = .recover ∨ a.precedes_recovery = true ∨ Action.recover.Before a := by
  unfold Action.Before
  cases a <;> decide

/-! ## Flags and the other threads -/

theorem accept_recovering_pending (c : Component) (state_args : RunParams) :
    (c.accept "recovering" state_args).pending = Function.update c.pending .recover true :=
  accept_pending (show Action.of_request "recovering" = some .recover by decide)

/-- No table turns a recovery down. -/
theorem unable_recovering (c : Component) : ¬ c.unable "recovering" = true := by
  rw [Component.unable, show dict_state_from.lookup "recovering" = none by decide]
  exact Bool.false_ne_true

/-- Setting a flag clears none. -/
theorem update_pending {pending : Action → Bool} (a : Action) {b : Action}
    (h : pending b = true) : Function.update pending a true b = true := by
  by_cases hb : b = a
  · subst hb
    exact Function.update_self ..
  · exact (Function.update_of_ne hb ..).trans h

/-- The other threads clear no flag. -/
theorem apply_pending (files : ConfigTree × Tools) (w : World) (i : Interference) {a : Action}
    (h : w.daq.pending a = true) : (i.apply files w).daq.pending a = true := by
  cases i with
  | state_change name requested state_args =>
    by_cases hname : name = w.daq.name
    · by_cases hu : w.daq.toComponent.unable requested = true
      · rw [apply_state_change_rejected hname hu]
        exact h
      · rw [apply_state_change_accepted hname hu]
        have hkept : (w.daq.toComponent.accept requested state_args).pending a = true := by
          cases hr : Action.of_request requested with
          | none => rwa [accept_pending_none hr]
          | some b =>
            rw [accept_pending hr]
            exact update_pending b h
        exact hkept
    · rwa [apply_state_change_other hname]
  | trace_get name args =>
    have hkept : (w.daq.toComponent.trace_get name args).pending a = true := by
      unfold Component.trace_get
      split
      · exact h
      · exact update_pending _ h
    exact hkept
  | trace_set name args =>
    have hkept : (w.daq.toComponent.trace_set name args).pending a = true := by
      unfold Component.trace_set
      split
      · exact h
      · exact update_pending _ h
    exact hkept
  | setdaqcomps comps => exact h
  | prepare boot =>
    exact (congrFun (congrArg Component.pending (prep_step_component _ _ _)) a).trans h

/-! ## A recovery that is next -/

/-- What can happen behind the events `before` while a recovery is next. -/
def AllowedBehind (before : List Event) : Event → Prop
  | .begin a => a = .recover
  | .state s => s = "recovering" ∨ s = "stopped" ∧ before.head? = some (.complete "recovering")
  | _ => True

/-- Up to the state `stopped` no action but the recovery begins, and the state stays `recovering`
until the recovery is complete; the events are given newest first. -/
def NotOvertaken : List Event → Prop
  | [] => True
  | e :: before => (Event.state "stopped" ∈ before ∨ AllowedBehind before e) ∧ NotOvertaken before

/-- Behind the state `stopped` everything may happen. -/
theorem NotOvertaken.append {new : List Event} (h : NotOvertaken new)
    (hdone : Event.state "stopped" ∈ new) (newer : List Event) : NotOvertaken (newer ++ new) := by
  induction newer with
  | nil => exact h
  | cons e newer ih => exact ⟨Or.inl (List.mem_append_right newer hdone), ih⟩

/-- No boot, no shutdown and no configuration is owed, and the state is that of a recovery. -/
structure Waiting (w : World) : Prop where
  /-- The state of the request. -/
  state : w.daq.state = "recovering"
  /-- Nothing comes before the recovery. -/
  first : ∀ a : Action, a.precedes_recovery = true → w.daq.pending a = false

/-- No request under a name that no table has. -/
def Event.known : Event → Bool
  | .accepted requested => requested ∈ known_requests
  | _ => true

/-- There was a request under a name that no table has. -/
def UnknownRequest (log : List Event) : Prop := ∃ e ∈ log, e.known = false

/-- Behind the events `past` the recovery is still next, or it has been carried out. -/
def Served (past : List Event) (w : World) : Prop :=
  UnknownRequest w.log ∨ ∃ new, w.log = new ++ past ∧ NotOvertaken new ∧
    (Event.state "stopped" ∈ new ∨ Waiting w)

section Served

variable {past : List Event} {w v : World}

theorem UnknownRequest.append {log : List Event} (h : UnknownRequest log) (newer : List Event) :
    UnknownRequest (newer ++ log) :=
  h.imp fun _ h => h.imp (List.mem_append_right newer) id

theorem Served.frame (h : Served past w) (hstate : v.daq.state = w.daq.state)
    (hpending : v.daq.pending = w.daq.pending) (hlog : v.log = w.log) : Served past v := by
  refine h.imp (fun h => hlog ▸ h) ?_
  rintro ⟨new, hnew, hnot, hor⟩
  exact ⟨new, hlog.trans hnew, hnot, hor.imp id fun hw =>
    ⟨hstate.trans hw.state, fun a ha => (congrFun hpending a).trans (hw.first a ha)⟩⟩

/-- One more event that may happen while the recovery is next. -/
theorem Served.emit (h : Served past w) {e : Event} (hlog : v.log = e :: w.log)
    (hallowed : ∀ before, Waiting w → AllowedBehind before e) (hwaiting : Waiting w → Waiting v) :
    Served past v := by
  rw [Served, hlog]
  refine h.imp (fun h => h.append [e]) ?_
  rintro ⟨new, hnew, hnot, hor⟩
  refine ⟨e :: new, congrArg (e :: ·) hnew, ⟨hor.imp id (hallowed new), hnot⟩, ?_⟩
  exact hor.imp (List.mem_cons_of_mem e) hwaiting

/-- The recovery is complete. -/
theorem Served.complete (h : Served past w)
    (hlog : v.log = .state "stopped" :: .complete "recovering" :: w.log) : Served past v := by
  rw [Served, hlog]
  refine h.imp (fun h => h.append [.state "stopped", .complete "recovering"]) ?_
  rintro ⟨new, hnew, hnot, -⟩
  refine ⟨.state "stopped" :: .complete "recovering" :: new, by rw [hnew]; rfl,
    ⟨Or.inr (Or.inr ⟨rfl, rfl⟩), Or.inr trivial, hnot⟩, Or.inl List.mem_cons_self⟩

/-- In the state `recovering` the tables turn every request down. -/
theorem unable_of_waiting (h : Waiting w) {requested : String}
    (hr : requested ∈ dict_state_from.map Prod.fst) :
    w.daq.toComponent.unable requested = true := by
  have hall : ∀ entry ∈ dict_state_from, contains "recovering" entry.2 = false := by decide
  obtain ⟨⟨requested, val⟩, hmem, rfl⟩ := List.mem_map.mp hr
  rw [Component.unable_of_mem hmem, h.state, hall _ hmem]
  rfl

theorem Waiting.accept (h : Waiting w) {requested : String} {state_args : RunParams}
    (hknown : requested ∈ known_requests) (hu : ¬ w.daq.toComponent.unable requested = true) :
    (w.daq.toComponent.accept requested state_args).state = "recovering" ∧
      ∀ a : Action, a.precedes_recovery = true →
        (w.daq.toComponent.accept requested state_args).pending a = false := by
  have hrest : requested ∈ ["recovering", "enabling", "disabling"] :=
    (List.mem_append.mp hknown).resolve_left fun hr => hu (unable_of_waiting h hr)
  simp only [List.mem_cons, List.not_mem_nil, or_false] at hrest
  rcases hrest with rfl | rfl | rfl
  · refine ⟨rfl, fun a ha => ?_⟩
    exact (Function.update_of_ne (by rintro rfl; exact Bool.false_ne_true ha) ..).trans (h.first a ha)
  · refine ⟨h.state, fun a ha => ?_⟩
    exact (Function.update_of_ne (by rintro rfl; exact Bool.false_ne_true ha) ..).trans (h.first a ha)
  · refine ⟨h.state, fun a ha => ?_⟩
    exact (Function.update_of_ne (by rintro rfl; exact Bool.false_ne_true ha) ..).trans (h.first a ha)

theorem Served.apply (files : ConfigTree × Tools) (i : Interference) (w : World)
    (h : Served past w) : Served past (i.apply files w) := by
  cases i with
  | state_change name requested state_args =>
    by_cases hname : name = w.daq.name
    · by_cases hu : w.daq.toComponent.unable requested = true
      · rw [apply_state_change_rejected hname hu]
        exact h.emit rfl (fun _ _ => trivial) fun hw => ⟨hw.state, hw.first⟩
      · rw [apply_state_change_accepted hname hu]
        by_cases hknown : requested ∈ known_requests
        · have hw : Served past (w.emit (.accepted requested)) :=
            h.emit rfl (fun _ _ => trivial) fun hw => ⟨hw.state, hw.first⟩
          refine hw.emit rfl (fun _ hw => Or.inl ?_) fun hw => ⟨?_, ?_⟩
          · exact (hw.accept hknown hu).1
          · exact (hw.accept hknown hu).1
          · exact (hw.accept hknown hu).2
        · exact Or.inl ⟨.accepted requested, List.mem_cons_of_mem _ List.mem_cons_self,
            decide_eq_false hknown⟩
    · rwa [apply_state_change_other hname]
  | trace_get name args =>
    refine h.imp id ?_
    rintro ⟨new, hnew, hnot, hor⟩
    refine ⟨new, hnew, hnot, hor.imp id fun hw => ?_⟩
    unfold Interference.apply Component.trace_get
    dsimp only
    split
    · exact hw
    · refine ⟨hw.state, fun a ha => ?_⟩
      exact (Function.update_of_ne (by rintro rfl; exact Bool.false_ne_true ha) ..).trans
        (hw.first a ha)
  | trace_set name args =>
    refine h.imp id ?_
    rintro ⟨new, hnew, hnot, hor⟩
    refine ⟨new, hnew, hnot, hor.imp id fun hw => ?_⟩
    unfold Interference.apply Component.trace_set
    dsimp only
    split
    · exact hw
    · refine ⟨hw.state, fun a ha => ?_⟩
      exact (Function.update_of_ne (by rintro rfl; exact Bool.false_ne_true ha) ..).trans
        (hw.first a ha)
  | setdaqcomps comps => exact h.frame rfl rfl rfl
  | prepare boot =>
    exact h.frame (congrArg Component.state (prep_step_component _ _ _))
      (congrArg Component.pending (prep_step_component _ _ _)) rfl

theorem Served.settle (h : Served past w) : Served past (DaqInterface.settle env w) :=
  settle_preserves Served.apply h

/-- The commands of a turn that carries the recovery out. -/
def Answering : Cmd → Prop
  | .begin a => a = .recover
  | .in_recovery _ => True
  | .clear_exception => True
  | c => Recovering c

theorem Recovering.answering {c : Cmd} (h : Recovering c) : Answering c := by
  cases c <;> first | exact h | exact absurd h id

theorem Served.exec (c : Cmd) (hc : Answering c) (w : World) (h : Served past w) :
    Served past (exec env c w).2 := by
  cases c with
  | begin a =>
    obtain rfl : a = .recover := hc
    refine h.emit rfl (fun _ _ => rfl) fun hw => ⟨hw.state, fun a ha => ?_⟩
    exact (Function.update_of_ne (by rintro rfl; exact Bool.false_ne_true ha) ..).trans
      (hw.first a ha)
  | call op =>
    have hw : Served past { DaqInterface.settle env w with clock := w.clock + 1 } :=
      h.settle.frame rfl rfl rfl
    exact hw.emit rfl (fun _ _ => trivial) fun hw => ⟨hw.state, hw.first⟩
  | sleep => exact h.settle.frame rfl rfl rfl
  | begin_recovery => exact h.emit rfl (fun _ _ => trivial) fun hw => ⟨hw.state, hw.first⟩
  | skip_recovery =>
    refine h.complete ?_
    have hstate := complete_state w.daq.toComponent "recovering"
    exact congrArg (fun s => Event.state s :: .complete "recovering" :: w.log) hstate
  | finish_recovery =>
    have hw : Served past (w.emit .requests_cleared) :=
      h.emit rfl (fun _ _ => trivial) fun hw => ⟨hw.state, hw.first⟩
    refine hw.complete ?_
    have hstate := complete_state ({ w.daq.toComponent with pending := fun _ => false }) "recovering"
    exact congrArg (fun s => Event.state s :: .complete "recovering" :: .requests_cleared :: w.log)
      hstate
  | complete_state_change | revert_state_change | fail | reset_variables | send | start_prep
  | join_prep => exact absurd hc id
  | _ => exact h.frame rfl rfl rfl

end Served

/-- The recovery is next, or it has been carried out: a loop that goes on finds the flag. -/
def Awaited (past : List Event) (s : System) : Prop :=
  UnknownRequest s.world.log ∨ ∃ new, s.world.log = new ++ past ∧ NotOvertaken new ∧
    (Event.state "stopped" ∈ new ∨
      Waiting s.world ∧ (s.loop = .running → s.world.daq.pending .recover = true))

section Awaited

variable {past : List Event} {s : System}

theorem Awaited.served (h : Awaited past s) : Served past s.world :=
  h.imp id fun ⟨new, hnew, hnot, hor⟩ => ⟨new, hnew, hnot, hor.imp id And.left⟩

/-- The flag of a recovery is found when none of the first three is set. -/
theorem next_action_of_waiting {self : DAQInterface}
    (hfirst : ∀ a : Action, a.precedes_recovery = true → self.pending a = false)
    (hp : self.pending .recover = true) : next_action self = some .recover := by
  have hboot := hfirst .boot rfl
  have hshutdown := hfirst .shutdown rfl
  have hconfig := hfirst .config rfl
  simp [next_action, Action.all, hboot, hshutdown, hconfig, hp]

/-- A turn that finds the recovery next and returns has carried it out. -/
theorem stopped_of_turn {w : World} (hw : Waiting w) (hp : w.daq.pending .recover = true) :
    (run (exec env) (runner env.settings) w).1 = .returned () →
      (run (exec env) (runner env.settings) w).2.daq.state = "stopped" := by
  intro hret
  have hrun : run (exec env) (runner env.settings) w =
      (.returned (), (run (exec env) (runner env.settings) w).2) := Prod.ext hret rfl
  by_cases hexc : w.daq.exception = true
  · rw [run_runner, if_pos hexc] at hrun ⊢
    exact ((wp_handle_exception _ w).returned hrun).state
  · have hnext : next_action w.daq = some .recover := by
      have hboot := hw.first .boot rfl
      have hshutdown := hw.first .shutdown rfl
      have hconfig := hw.first .config rfl
      simp [next_action, Action.all, hboot, hshutdown, hconfig, hp]
    exact (wp_runner_recover (Bool.eq_false_iff.mpr hexc) hnext).returned hrun

/-- The commands of a turn that finds the recovery next. -/
theorem served_turn {w : World} (h : Served past w)
    (hnext : w.daq.exception = true ∨ next_action w.daq = some .recover) :
    Served past (run (exec env) (runner env.settings) w).2 := by
  have hhandle : ∀ e, (handle_exception e).Uses Answering := fun e =>
    uses_bind (uses_issue trivial) fun _ =>
      uses_bind ((uses_alert_and_recover e).mono fun _ => Recovering.answering) fun _ =>
        uses_bind (uses_issue trivial) fun _ => uses_issue trivial
  rw [run_runner]
  split
  · exact run_preserves (hhandle _) Served.exec h
  · rename_i hexc
    rw [hnext.resolve_left hexc]
    have haction : (action env.settings .recover).Uses Answering :=
      uses_do_recover.mono fun _ => Recovering.answering
    exact run_preserves (uses_attempt haction hhandle fun _ => uses_pure ()) Served.exec
      (Served.exec (.begin .recover) rfl w h)

/-- The other threads put new events in front of the log. -/
theorem System.outside_log (s : System) (i : Interference) :
    ∃ new, (s.outside env i).world.log = new ++ s.world.log := by
  refine ⟨(i.apply (env.files s.world.clock) s.world.fresh).log, ?_⟩
  have hsince := apply_since (env.files s.world.clock) s.world.fresh s.world.log i
  rw [World.fresh_since] at hsince
  exact congrArg World.log hsince

theorem System.step_log {t : System} (hstep : System.Step env s t) :
    ∃ new, t.world.log = new ++ s.world.log := by
  cases hstep with
  | outside i => exact s.outside_log i
  | tick => exact ⟨s.events env, s.tick_log env⟩

theorem Awaited.step {t : System} (h : Awaited past s) (hstep : System.Step env s t) :
    Awaited past t := by
  obtain ⟨newer, hlog⟩ := System.step_log hstep
  rcases h with hunknown | ⟨new, hnew, hnot, hdone | ⟨hw, hp⟩⟩
  · exact Or.inl (hlog ▸ hunknown.append newer)
  · refine Or.inr ⟨newer ++ new, ?_, hnot.append hdone newer,
      Or.inl (List.mem_append_right newer hdone)⟩
    rw [hlog, hnew, List.append_assoc]
  · have hserved : Served past s.world := Or.inr ⟨new, hnew, hnot, Or.inr hw⟩
    cases hstep with
    | outside i =>
      refine (hserved.apply _ i _).imp id ?_
      rintro ⟨new', hnew', hnot', hor⟩
      exact ⟨new', hnew', hnot', hor.imp id fun hw' =>
        ⟨hw', fun hloop => apply_pending _ _ i (hp hloop)⟩⟩
    | tick hloop =>
      have hnext := next_action_of_waiting hw.first (hp hloop)
      refine (served_turn hserved (Or.inr hnext)).imp id ?_
      rintro ⟨new', hnew', hnot', hor⟩
      refine ⟨new', hnew', hnot', hor.imp id fun hw' => ⟨hw', fun hrun => ?_⟩⟩
      -- a turn that returned has left the state of the request
      have hret : (run (exec env) (runner env.settings) s.world).1 = .returned () := by
        have hafter : Loop.after (run (exec env) (runner env.settings) s.world).1 = .running := hrun
        cases hout : (run (exec env) (runner env.settings) s.world).1 with
        | returned u => rfl
        | raised e => simp [hout, Loop.after] at hafter
        | hung => simp [hout, Loop.after] at hafter
      have hstopped := stopped_of_turn hw (hp hloop) hret
      exact absurd (hw'.state.symm.trans hstopped) (by decide)

end Awaited

/-- While a recovery is owed only a boot, a shutdown or a configuration can begin before it.  Where
none of these is owed when the recovery is asked for between two turns, no action begins before it
and the state stays that of the request up to `stopped`, whatever happens, as long as all requests
have names that the tables know. -/
theorem recovery_not_overtaken {name : String} {s : System} (hs : Reachable env name s) :
    (∀ newer a older, s.world.log = newer ++ .begin a :: older → owed .recover older = true →
        a = .recover ∨ a.precedes_recovery = true) ∧
      ∀ (state_args : RunParams) (t : System),
        (∀ a : Action, a.precedes_recovery = true → s.world.daq.pending a = false) →
        Relation.ReflTransGen (System.Step env) (s.requested env "recovering" state_args) t →
        (∀ e ∈ t.world.log, e.known = true) →
        ∃ new, t.world.log = new ++ (s.requested env "recovering" state_args).world.log ∧
          NotOvertaken new ∧
            (Event.state "stopped" ∈ new ∨ t.world.daq.state = "recovering") := by
  refine ⟨fun newer a older hlog howed => ?_, fun state_args t hfirst hsteps hknown => ?_⟩
  · rcases a.before_or_behind with ha | ha | ha
    · exact Or.inl ha
    · exact Or.inr ha
    · have hnot := ((accounted_of_reachable hs).order newer a older hlog).2 .recover ha rfl
      exact absurd (howed.symm.trans hnot) (by decide)
  have haccepted : (s.requested env "recovering" state_args).world =
      (s.world.emit (.accepted "recovering")).writeState
        (s.world.daq.toComponent.accept "recovering" state_args) :=
    @apply_state_change_accepted (env.files s.world.clock) s.world s.world.daq.name "recovering"
      state_args rfl (unable_recovering _)
  have hstart : Awaited (s.requested env "recovering" state_args).world.log
      (s.requested env "recovering" state_args) := by
    refine Or.inr ⟨[], rfl, trivial, Or.inr ⟨?_, fun _ => ?_⟩⟩
    · rw [haccepted]
      refine ⟨rfl, fun a ha => ?_⟩
      exact (Function.update_of_ne (by rintro rfl; exact Bool.false_ne_true ha) ..).trans
        (hfirst a ha)
    · rw [haccepted]
      have hflag := congrFun (accept_recovering_pending s.world.daq.toComponent state_args) .recover
      exact hflag.trans (Function.update_self ..)
  have hawaited : Awaited (s.requested env "recovering" state_args).world.log t := by
    induction hsteps with
    | refl => exact hstart
    | tail _ hstep ih =>
      refine (ih fun e he => hknown e ?_).step hstep
      obtain ⟨newer, hlog⟩ := System.step_log hstep
      rw [hlog]
      exact List.mem_append_right newer he
  rcases hawaited with ⟨e, he, hunknown⟩ | ⟨new, hnew, hnot, hor⟩
  · exact absurd (hknown e he) (by rw [hunknown]; decide)
  · exact ⟨new, hnew, hnot, hor.imp id fun hw => hw.1.state⟩

/-- A recovery that is asked for behind a boot. -/
theorem asked_behind_boot :
    ∃ new, ((((boot_requested (smooth (one_reader true))).tick (smooth (one_reader true))).requested
          (smooth (one_reader true)) "recovering" ⟨none, none, none⟩).tick
            (smooth (one_reader true))).world.log =
        new ++ (((boot_requested (smooth (one_reader true))).tick
          (smooth (one_reader true))).requested (smooth (one_reader true)) "recovering"
            ⟨none, none, none⟩).world.log ∧ NotOvertaken new ∧
      (Event.state "stopped" ∈ new ∨
        ((((boot_requested (smooth (one_reader true))).tick (smooth (one_reader true))).requested
          (smooth (one_reader true)) "recovering" ⟨none, none, none⟩).tick
            (smooth (one_reader true))).world.daq.state = "recovering") :=
  (recovery_not_overtaken ((boot_requested_reachable (smooth (one_reader true))).tick
    (by decide +kernel))).2 ⟨none, none, none⟩ _
      (fun a _ => by cases a <;> decide +kernel)
      (Relation.ReflTransGen.single (.tick _ (by decide +kernel))) (by decide +kernel)

/-- A boot that was asked for before the recovery is begun before it, and ends in `booted`. -/
theorem boot_overtakes_recovery :
    ∃ (env : Env) (s : System), Reachable env "daqint" s ∧ owed .recover s.world.log = true ∧
      s.world.daq.state = "recovering" ∧ s.Starts .boot ∧
        (s.tick env).world.daq.state = "booted" ∧ owed .recover (s.tick env).world.log = true :=
  ⟨smooth (one_reader true), (boot_requested (smooth (one_reader true))).requested
      (smooth (one_reader true)) "recovering" ⟨none, none, none⟩,
    (boot_requested_reachable (smooth (one_reader true))).outside _,
    by decide +kernel, by decide +kernel, by decide +kernel, by decide +kernel, by decide +kernel⟩

end DaqInterface
