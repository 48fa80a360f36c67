import DaqInterface.Properties.Footprint

/-!
# Histories

The program never reads the log, so a run from a longer history does the same and only adds
its own events (`run_since`).  The events of a turn of the runner are therefore the log of
the turn from the empty history, and an invariant of the commands and of the other threads is
an invariant of all reachable systems (`System.invariant`).
-/

namespace DaqInterface

open Program

/-! ## Specifications of single commands -/

section Primitives

variable {env : Env} {w : World} {R : String → World → Prop}

theorem wp_issue (c : Cmd) {Q : Resp c → World → Prop} :
    (issue c).wp (exec env) Q R w ↔ Q (exec env c w).1 (exec env c w).2 := Iff.rfl

theorem wp_look {Q : DAQInterface → World → Prop} : look.wp (exec env) Q R w ↔ Q w.daq w := Iff.rfl

/-- The world after an outside operation. -/
def called (env : Env) (op : Op) (w : World) : World := (exec env (.call op) w).2

/-- An outside operation returns or raises as the environment says. -/
theorem wp_call (op : Op) {Q : op.Answer → World → Prop} :
    (call op).wp (exec env) Q R w ↔
      (∀ answer, env.outcome w.clock op = .ok answer → Q answer (called env op w)) ∧
        ∀ e, env.outcome w.clock op = .error e → R e (called env op w) := by
  have hstep : (call op).wp (exec env) Q R w ↔
      (match env.outcome w.clock op with
        | .ok answer => Program.ret answer
        | .error e => Program.raise e : Control op.Answer).wp (exec env) Q R (called env op w) :=
    Iff.rfl
  rw [hstep]
  cases env.outcome w.clock op <;> simp

end Primitives

/-! ## Requests -/

section Requests

variable {files : ConfigTree × Tools} {w : World} {name requested : String}
  {state_args : RunParams}

theorem apply_state_change_other (h : name ≠ w.daq.name) :
    Interference.apply files w (.state_change name requested state_args) = w := if_pos h

theorem apply_state_change_rejected (h : name = w.daq.name)
    (hu : w.daq.toComponent.unable requested = true) :
    Interference.apply files w (.state_change name requested state_args) =
      w.emit (.rejected requested) :=
  (if_neg (not_not_intro h)).trans (if_pos hu)

theorem apply_state_change_accepted (h : name = w.daq.name)
    (hu : ¬ w.daq.toComponent.unable requested = true) :
    Interference.apply files w (.state_change name requested state_args) =
      (w.emit (.accepted requested)).writeState
        (w.daq.toComponent.accept requested state_args) := by
  have hc : (w.daq.toComponent.state_change name requested state_args).2 =
      w.daq.toComponent.accept requested state_args := by
    rw [Component.state_change, if_neg (not_not_intro h), if_neg hu]
  exact (if_neg (not_not_intro h)).trans ((if_neg hu).trans (by rw [hc]))

end Requests

/-! ## The log is only written -/

/-- The world with older events behind its own. -/
def World.since (w : World) (past : List Event) : World := { w with log := w.log ++ past }

/-- The world without its history. -/
def World.fresh (w : World) : World := { w with log := [] }

@[simp] theorem World.since_daq (w : World) (past : List Event) : (w.since past).daq = w.daq := rfl

@[simp] theorem World.since_clock (w : World) (past : List Event) :
    (w.since past).clock = w.clock := rfl

@[simp] theorem World.since_log (w : World) (past : List Event) :
    (w.since past).log = w.log ++ past := rfl

@[simp] theorem World.fresh_daq (w : World) : w.fresh.daq = w.daq := rfl

@[simp] theorem World.fresh_clock (w : World) : w.fresh.clock = w.clock := rfl

@[simp] theorem World.fresh_log (w : World) : w.fresh.log = [] := rfl

theorem World.fresh_since (w : World) : w.fresh.since w.log = w := rfl

theorem apply_since (files : ConfigTree × Tools) (w : World) (past : List Event)
    (i : Interference) : i.apply files (w.since past) = (i.apply files w).since past := by
  cases i with
  | state_change name requested state_args =>
    by_cases hname : name = w.daq.name
    · by_cases hu : w.daq.toComponent.unable requested = true
      · rw [apply_state_change_rejected hname hu]
        exact apply_state_change_rejected hname hu
      · rw [apply_state_change_accepted hname hu]
        exact apply_state_change_accepted hname hu
    · rw [apply_state_change_other hname]
      exact apply_state_change_other hname
  | _ => rfl

theorem foldl_apply_since (files : ConfigTree × Tools) (is : List Interference) (w : World)
    (past : List Event) :
    is.foldl (Interference.apply files) (w.since past) =
      (is.foldl (Interference.apply files) w).since past := by
  induction is generalizing w with
  | nil => rfl
  | cons i is ih => rw [List.foldl_cons, List.foldl_cons, apply_since, ih]

theorem settle_since (env : Env) (w : World) (past : List Event) :
    settle env (w.since past) = (settle env w).since past :=
  foldl_apply_since _ _ _ _

/-- A command does the same with any history. -/
theorem exec_since (env : Env) (c : Cmd) (w : World) (past : List Event) :
    exec env c (w.since past) = ((exec env c w).1, (exec env c w).2.since past) := by
  cases c with
  | call op => simp only [exec, settle_since]; rfl
  | sleep => simp only [exec, settle_since]; rfl
  | send c i =>
    simp only [exec]
    split <;> rfl
  | join_prep =>
    simp only [exec, World.since_daq]
    split <;> rfl
  | _ => rfl

/-- A program does the same with any history. -/
theorem run_since {α : Type} (env : Env) (p : Control α) (w : World) (past : List Event) :
    run (exec env) p (w.since past) =
      ((run (exec env) p w).1, (run (exec env) p w).2.since past) := by
  induction p generalizing w with
  | ret a => rfl
  | raise e => rfl
  | hang => rfl
  | step c k ih =>
    rw [run_step, run_step, exec_since]
    exact ih _ _

/-- The events of a run are those of the run without history. -/
theorem run_eq_fresh {α : Type} (env : Env) (p : Control α) (w : World) :
    run (exec env) p w =
      ((run (exec env) p w.fresh).1, (run (exec env) p w.fresh).2.since w.log) :=
  run_since env p w.fresh w.log

/-- What a program does from a history is what it does without one, and the history behind it. -/
theorem wp_since {α : Type} {env : Env} {p : Control α} {Q : α → World → Prop}
    {R : String → World → Prop} {w : World} {past : List Event} :
    p.wp (exec env) Q R (w.since past) ↔
      p.wp (exec env) (fun a v => Q a (v.since past)) (fun e v => R e (v.since past)) w := by
  induction p generalizing w with
  | ret a => exact Iff.rfl
  | raise e => exact Iff.rfl
  | hang => exact Iff.rfl
  | step c k ih =>
    rw [wp_step, wp_step, exec_since]
    exact ih _

theorem wp_fresh {α : Type} {env : Env} {p : Control α} {Q : α → World → Prop}
    {R : String → World → Prop} {w : World} :
    p.wp (exec env) Q R w ↔
      p.wp (exec env) (fun a v => Q a (v.since w.log)) (fun e v => R e (v.since w.log)) w.fresh := by
  rw [← wp_since, World.fresh_since]

/-- A run forgets nothing. -/
theorem mem_log_of_run {α : Type} (env : Env) (p : Control α) {w : World} {e : Event}
    (h : e ∈ w.log) : e ∈ (run (exec env) p w).2.log := by
  rw [run_eq_fresh]
  exact List.mem_append_right _ h

/-- A command forgets nothing. -/
theorem mem_log_of_exec (env : Env) (c : Cmd) {w : World} {e : Event} (h : e ∈ w.log) :
    e ∈ (exec env c w).2.log :=
  mem_log_of_run env (issue c) h

/-! ## The events of a turn -/

/-- What happens in a turn of the runner. -/
def System.events (env : Env) (s : System) : List Event :=
  (run (exec env) (runner env.settings) s.world.fresh).2.log

theorem System.tick_log (env : Env) (s : System) :
    (s.tick env).world.log = s.events env ++ s.world.log := by
  simp only [System.tick, System.events]
  rw [run_eq_fresh]
  rfl

/-- The next turn of the runner starts the action. -/
def System.Starts (s : System) (a : Action) : Prop :=
  s.loop = .running ∧ s.world.daq.exception = false ∧ next_action s.world.daq = some a

instance (s : System) (a : Action) : Decidable (s.Starts a) :=
  inferInstanceAs (Decidable (s.loop = .running ∧ s.world.daq.exception = false ∧
    next_action s.world.daq = some a))

/-- The world after a turn. -/
theorem System.tick_daq (env : Env) (s : System) :
    (s.tick env).world.daq = (run (exec env) (runner env.settings) s.world.fresh).2.daq := by
  simp only [System.tick]
  rw [run_eq_fresh]
  rfl

theorem System.tick_loop (env : Env) (s : System) :
    (s.tick env).loop = Loop.after (run (exec env) (runner env.settings) s.world.fresh).1 := by
  simp only [System.tick]
  rw [run_eq_fresh]

/-- The loop goes on after a turn that returns. -/
theorem System.returned_of_running {env : Env} {s : System} (h : (s.tick env).loop = .running) :
    run (exec env) (runner env.settings) s.world.fresh =
      (.returned (), (run (exec env) (runner env.settings) s.world.fresh).2) := by
  rw [System.tick_loop] at h
  cases hout : (run (exec env) (runner env.settings) s.world.fresh).1 with
  | returned u => exact Prod.ext hout rfl
  | raised e => simp [hout, Loop.after] at h
  | hung => simp [hout, Loop.after] at h

/-- A turn that starts an action is the action, with the answer of the runner to its
exceptions. -/
theorem wp_runner_of_starts {env : Env} {settings : Settings} {w : World} {a : Action}
    {Q : Unit → World → Prop} {R : String → World → Prop} (hexc : w.daq.exception = false)
    (hnext : next_action w.daq = some a) :
    (runner settings).wp (exec env) Q R w ↔
      (action settings a).wp (exec env) Q (fun e => (handle_exception e).wp (exec env) Q R)
        (exec env (.begin a) w).2 := by
  rw [runner, wp_attempt, turn, wp_bind, wp_look, turn_with, if_neg (by simp [hexc]), hnext]
  exact Iff.rfl

/-! ## Invariants -/

/-- Reachability by steps of the system. -/
def Reachable (env : Env) (name : String) (s : System) : Prop :=
  Relation.ReflTransGen (System.Step env) (System.start name) s

theorem Reachable.outside {env : Env} {name : String} {s : System} (h : Reachable env name s)
    (i : Interference) : Reachable env name (s.outside env i) :=
  h.tail (.outside s i)

theorem Reachable.tick {env : Env} {name : String} {s : System} (h : Reachable env name s)
    (hloop : s.loop = .running) : Reachable env name (s.tick env) :=
  h.tail (.tick s hloop)

section Invariant

variable {env : Env} {I : World → Prop}

/-- What the other threads keep, they keep while the runner waits. -/
theorem settle_preserves (h : ∀ files i w, I w → I (Interference.apply files w i)) {w : World}
    (hw : I w) : I (settle env w) := by
  have hfold : ∀ (is : List Interference) (v : World), I v →
      I (is.foldl (Interference.apply (env.files w.clock)) v) := by
    intro is
    induction is with
    | nil => exact fun _ hv => hv
    | cons i is ih => exact fun v hv => ih _ (h _ i v hv)
  exact hfold _ w hw

/-- An invariant of the other threads and of the turns is an invariant of the system. -/
theorem System.invariant {name : String} {s : System} (hs : Reachable env name s)
    (hstart : I (System.start name).world)
    (houtside : ∀ files i w, I w → I (Interference.apply files w i))
    (htick : ∀ s : System, s.loop = .running → I s.world → I (s.tick env).world) :
    I s.world := by
  induction hs with
  | refl => exact hstart
  | tail _ hstep ih =>
    cases hstep with
    | outside i => exact houtside _ i _ ih
    | tick h => exact htick _ h ih

end Invariant

/-! ## What a command adds to the log -/

/-- Events that the other threads can cause. -/
def Event.FromOutside : Event → Prop
  | .accepted _ => True
  | .rejected _ => True
  | .state _ => True
  | _ => False

/-- Events, other than the new state, that a command records. -/
def Cmd.Records : Cmd → Event → Prop
  | .call op, .outcome op' _ => op' = op
  | .complete_state_change t, .complete t' => t' = t
  | .revert_state_change, .reverted _ => True
  | .begin a, .begin a' => a' = a
  | .begin_recovery, .recover => True
  | .skip_recovery, .complete t => t = "recovering"
  | .finish_recovery, .requests_cleared => True
  | .finish_recovery, .complete t => t = "recovering"
  | .fail cause, .failed cause' => cause' = cause
  | .send c i, .sent c' i' => c' = c ∧ i' = i
  | .send c _, .init_sent _ _ => c = .Init
  | .join_prep, .joined _ _ _ _ _ _ => True
  | _, _ => False

theorem apply_log (files : ConfigTree × Tools) (i : Interference) {w : World} {e : Event}
    (h : e ∈ (i.apply files w).log) : e ∈ w.log ∨ e.FromOutside := by
  cases i with
  | state_change name requested state_args =>
    by_cases hname : name = w.daq.name
    · by_cases hu : w.daq.toComponent.unable requested = true
      · rw [apply_state_change_rejected hname hu] at h
        exact (List.mem_cons.mp h).elim (fun heq => Or.inr (heq ▸ trivial)) Or.inl
      · rw [apply_state_change_accepted hname hu] at h
        rcases List.mem_cons.mp h with rfl | h
        · exact Or.inr trivial
        · exact (List.mem_cons.mp h).elim (fun heq => Or.inr (heq ▸ trivial)) Or.inl
    · rw [apply_state_change_other hname] at h
      exact Or.inl h
  | _ => exact Or.inl h

theorem settle_log (env : Env) {w : World} {e : Event} (h : e ∈ (settle env w).log) :
    e ∈ w.log ∨ e.FromOutside := by
  have hstep : ∀ files (i : Interference) (v : World), (∀ e ∈ v.log, e ∈ w.log ∨ e.FromOutside) →
      ∀ e ∈ (i.apply files v).log, e ∈ w.log ∨ e.FromOutside :=
    fun files i v hv e he => (apply_log files i he).elim (hv e) Or.inr
  exact settle_preserves hstep (fun _ he => Or.inl he) e h

/-- A command adds to the log what it records and what the other threads do meanwhile. -/
theorem exec_log (env : Env) (c : Cmd) {w : World} {e : Event} (h : e ∈ (exec env c w).2.log) :
    e ∈ w.log ∨ e.FromOutside ∨ c.Records e := by
  cases c with
  | call op =>
    rcases List.mem_cons.mp h with rfl | h
    · exact Or.inr (Or.inr rfl)
    · exact (settle_log env h).imp id Or.inl
  | sleep => exact (settle_log env h).imp id Or.inl
  | complete_state_change t | revert_state_change | skip_recovery =>
    rcases List.mem_cons.mp h with rfl | h
    · exact Or.inr (Or.inl trivial)
    · rcases List.mem_cons.mp h with rfl | h
      · exact Or.inr (Or.inr (by first | rfl | trivial))
      · exact Or.inl h
  | finish_recovery =>
    rcases List.mem_cons.mp h with rfl | h
    · exact Or.inr (Or.inl trivial)
    · rcases List.mem_cons.mp h with rfl | h
      · exact Or.inr (Or.inr rfl)
      · rcases List.mem_cons.mp h with rfl | h
        · exact Or.inr (Or.inr trivial)
        · exact Or.inl h
  | begin a | begin_recovery | fail cause =>
    rcases List.mem_cons.mp h with rfl | h
    · exact Or.inr (Or.inr (by first | rfl | trivial))
    · exact Or.inl h
  | send c i =>
    simp only [exec] at h
    split at h
    · rename_i hc
      rcases List.mem_cons.mp h with rfl | h
      · exact Or.inr (Or.inr hc)
      · rcases List.mem_cons.mp h with rfl | h
        · exact Or.inr (Or.inr ⟨rfl, rfl⟩)
        · exact Or.inl h
    · rcases List.mem_cons.mp h with rfl | h
      · exact Or.inr (Or.inr ⟨rfl, rfl⟩)
      · exact Or.inl h
  | join_prep =>
    simp only [exec] at h
    split at h
    · exact Or.inl h
    · rcases List.mem_cons.mp h with rfl | h
      · exact Or.inr (Or.inr trivial)
      · exact Or.inl h
  | _ => exact Or.inl h

/-- A command puts new events in front of the log. -/
theorem exec_appends (env : Env) (c : Cmd) (w : World) :
    ∃ new, (exec env c w).2.log = new ++ w.log ∧ ∀ e ∈ new, e.FromOutside ∨ c.Records e := by
  refine ⟨(exec env c w.fresh).2.log, ?_, fun e he => ?_⟩
  · have hsince := exec_since env c w.fresh w.log
    rw [World.fresh_since] at hsince
    rw [hsince]
    rfl
  · exact (exec_log env c he).resolve_left List.not_mem_nil

/-- An outside operation records its result behind what the other threads did meanwhile. -/
theorem called_log (env : Env) (op : Op) (w : World) :
    ∃ new, (called env op w).log = .outcome op (env.outcome w.clock op) :: (new ++ w.log) ∧
      ∀ e ∈ new, e.FromOutside := by
  refine ⟨(settle env w.fresh).log, ?_, fun e he => ?_⟩
  · have hsince := settle_since env w.fresh w.log
    rw [World.fresh_since] at hsince
    have hlog : (called env op w).log =
        .outcome op (env.outcome w.clock op) :: (settle env w).log := rfl
    rw [hlog, hsince]
    rfl
  · exact (settle_log env he).resolve_left List.not_mem_nil

/-- Every event of a program is one that its commands record or that the other threads cause. -/
theorem wp_events {α : Type} {C : Cmd → Prop} {P : Event → Prop} {p : Control α} {env : Env}
    (hp : p.Uses C) (hout : ∀ e, e.FromOutside → P e) (hrec : ∀ c, C c → ∀ e, c.Records e → P e)
    (w : World) :
    p.wp (exec env) (fun _ v => ∃ new, v.log = new ++ w.log ∧ ∀ e ∈ new, P e)
      (fun _ v => ∃ new, v.log = new ++ w.log ∧ ∀ e ∈ new, P e) w := by
  have hstep : ∀ c, C c → ∀ v : World, (∀ e ∈ v.log, P e) → ∀ e ∈ (exec env c v).2.log, P e := by
    intro c hc v hv e he
    rcases exec_log env c he with he | he | he
    · exact hv e he
    · exact hout e he
    · exact hrec c hc e he
  have hnil : ∀ e ∈ w.fresh.log, P e := fun e he => absurd he List.not_mem_nil
  exact wp_fresh.mpr ((wp_of_uses hp hstep hnil).mono (fun _ v hv => ⟨v.log, rfl, hv⟩)
    fun _ v hv => ⟨v.log, rfl, hv⟩)

/-! ## Everything the runner can do -/

/-- The commands of the runner: a completed transition is one of the actions'. -/
def Legal : Cmd → Prop
  | .complete_state_change t => ∃ a : Action, a.completes = some t
  | _ => True

theorem Recovering.legal {c : Cmd} (h : Recovering c) : Legal c := by
  cases c <;> trivial

theorem Allowed.legal {a : Action} {c : Cmd} (h : Allowed a c) : Legal c := by
  cases c <;> first | trivial | exact ⟨a, h⟩

theorem Tending.legal {c : Cmd} (h : Tending c) : Legal c := by
  cases c <;> trivial

theorem uses_turn_with (settings : Settings) (self : DAQInterface) :
    (turn_with settings self).Uses Legal := by
  refine uses_ite (fun _ => trivial) fun _ => ?_
  split
  · rename_i a _
    exact uses_bind (uses_issue trivial) fun _ => (uses_action settings a).mono fun _ => Allowed.legal
  · exact uses_ite (fun _ => uses_look_after_processes.mono fun _ => Tending.legal)
      fun _ => uses_pure _

theorem uses_turn (settings : Settings) : (turn settings).Uses Legal :=
  uses_bind (uses_look trivial) fun self => uses_turn_with settings self

theorem uses_handle_exception (e : String) : (handle_exception e).Uses Legal :=
  uses_bind (uses_issue trivial) fun _ =>
    uses_bind ((uses_alert_and_recover e).mono fun _ => Recovering.legal) fun _ =>
      uses_bind (uses_issue trivial) fun _ => uses_issue trivial

theorem uses_runner (settings : Settings) : (runner settings).Uses Legal :=
  uses_attempt (uses_turn settings) uses_handle_exception fun _ => uses_pure _

/-- An invariant of the other threads and of the runner's commands is an invariant of the
system. -/
theorem System.invariant_of_commands {env : Env} {I : World → Prop} {name : String} {s : System}
    (hs : Reachable env name s) (hstart : I (System.start name).world)
    (houtside : ∀ files i w, I w → I (Interference.apply files w i))
    (hexec : ∀ c, Legal c → ∀ w, I w → I (exec env c w).2) : I s.world :=
  System.invariant hs hstart houtside fun _ _ hI =>
    run_preserves (uses_runner env.settings) hexec hI

/-! ## A world in which everything succeeds -/

/-- Settings that ask for nothing special. -/
def plain_settings : Settings where
  disable_unique_rootfile_labels := false
  boardreader_priorities_on_config := none
  boardreader_priorities_on_start := none
  boardreader_priorities_on_stop := none
  max_num_launch_procs_checks := 1
  use_messageviewer := false
  tmp_run_record := "/tmp/run_record_attempted"
  external_run_control := false
  re_search := fun _ _ => true

/-- A configuration with one file, and tools that change nothing. -/
def plain_files : ConfigTree × Tools where
  fst := {
    common_code := false
    copytree := fun _ subconfig => .ok ["/tmp/" ++ subconfig]
    walk := fun _ => [("/tmp/demo", ["component01.fcl"])]
    file_at := fun _ => some (.text [])
    recursion_limit := 2 }
  snd := {
    fhicl_dump := some
    bookkeeping := fun _ documents => .ok documents
    check_config := fun _ => true }

/-- Outside operations that succeed, for a boot of the given processes. -/
def smooth_outcome (info : BootInfo) : (op : Op) → Except String op.Answer
  | .process _ _ => .ok "Success"
  | .probe (.get_pid_for_process _) => .ok true
  | .probe (.run_record_file_exists _) => .ok true
  | .probe .tmp_run_record_exists => .ok true
  | .probe what => .ok (what = .boot_file_exists)
  | .outside _ => .ok ()
  | .find_processes => .ok (List.range info.procinfos.length)
  | .get_boot_info => .ok info
  | .build_procinfos => .ok info.procinfos
  | .config_files => .ok plain_files

/-- An environment in which everything succeeds and nothing interferes. -/
def smooth (info : BootInfo) : Env where
  outcome := fun _ => smooth_outcome info
  meanwhile := fun _ => []
  schedule := fun _ => [1]
  files := fun _ => plain_files
  settings := plain_settings

/-- A boot of one BoardReader. -/
def one_reader (manage_processes : Bool) : BootInfo where
  procinfos := [Procinfo.new .BoardReader "component01" "1"]
  subsystems := [("1", ⟨[], none, true⟩)]
  manage_processes := manage_processes
  disable_recovery := false

/-- The program has been told its components and is asked for a transition. -/
def System.requested (env : Env) (requested : String) (state_args : RunParams) (s : System) :
    System :=
  s.outside env (.state_change s.world.daq.name requested state_args)

/-- The program at its start, with one component, asked to boot. -/
def boot_requested (env : Env) : System :=
  ((System.start "daqint").outside env (.setdaqcomps ["component01"])).requested env "booting"
    ⟨some "boot.txt", none, none⟩

theorem boot_requested_reachable (env : Env) : Reachable env "daqint" (boot_requested env) :=
  (Relation.ReflTransGen.refl.tail (.outside _ _)).tail (.outside _ _)

end DaqInterface
