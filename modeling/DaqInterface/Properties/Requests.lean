import DaqInterface.Properties.Ending

/-!
# What becomes of requests

An accepted request sets a flag, the runner clears it when it starts the action, and a recovery
clears all flags.  The flags are therefore a record of what is owed according to the history
(`requests_accounted`): no accepted request is lost otherwise, none is carried out twice
(`begun_at_most_once`), actions begin in the order in which the runner looks for them, and whatever
is sent to a process belongs to the action that began last (`effects_of_requests`).  When nobody
asks for anything more the flags run out (`requests_served`).
-/

namespace DaqInterface

open Program

variable {env : Env}

/-! ## What is owed -/

/-- Whether an event makes the program owe an action, or settles it. -/
def Event.owes (a : Action) : Event → Option Bool
  | .accepted requested => if a.transition = some requested then some true else none
  | .begin b => if b = a then some false else none
  | .requests_cleared => some false
  | _ => none

/-- The action was asked for, and neither begun nor cleared since; the events are given newest
first. -/
def owed (a : Action) : List Event → Bool
  | [] => false
  | e :: log => (e.owes a).getD (owed a log)

/-- The runner looks for the one action before it looks for the other. -/
def Action.Before (b a : Action) : Prop := Action.all.idxOf b < Action.all.idxOf a

/-- Actions begin when they are owed, and no action before them in the order is. -/
def InOrder (log : List Event) : Prop :=
  ∀ newer a older, log = newer ++ .begin a :: older →
    (a.transition.isSome = true → owed a older = true) ∧
      ∀ b : Action, b.Before a → b.transition.isSome = true → owed b older = false

theorem InOrder.cons {log : List Event} {e : Event} (h : InOrder log)
    (he : ∀ a, e = .begin a → (a.transition.isSome = true → owed a log = true) ∧
      ∀ b : Action, b.Before a → b.transition.isSome = true → owed b log = false) :
    InOrder (e :: log) := by
  intro newer a older hlog
  cases newer with
  | nil =>
    obtain ⟨rfl, rfl⟩ := List.cons.inj hlog
    exact he a rfl
  | cons e' newer => exact h newer a older (List.cons.inj hlog).2

theorem InOrder.cons_other {log : List Event} {e : Event} (h : InOrder log)
    (he : e.begins = false) : InOrder (e :: log) :=
  h.cons fun a ha => by
    rw [ha] at he
    cases he

/-- The flag that is found first is set, and those before it are not. -/
theorem next_action_first {self : DAQInterface} {a : Action} (h : next_action self = some a) :
    self.pending a = true ∧ ∀ b : Action, b.Before a → self.pending b = false := by
  obtain ⟨hset, i, hi, ha, hbefore⟩ := List.find?_eq_some_iff_getElem.mp h
  refine ⟨hset, fun b hb => ?_⟩
  have hle : Action.all.idxOf a ≤ i := by
    rw [← ha, List.Nodup.idxOf_getElem (by decide)]
  have hlt : Action.all.idxOf b < i := lt_of_lt_of_le hb hle
  have hnot := hbefore (Action.all.idxOf b) hlt
  rw [List.getElem_idxOf] at hnot
  simpa using hnot

/-- The flags tell what is owed, and everything began in order. -/
structure RequestsAccounted (w : World) : Prop where
  /-- The flags tell what is owed. -/
  owed : ∀ a : Action, a.transition.isSome = true → w.daq.pending a = DaqInterface.owed a w.log
  /-- So far everything began in order. -/
  order : InOrder w.log

section Flags

variable {c : Component} {requested : String} {state_args : RunParams}

theorem accept_pending {a : Action} (h : Action.of_request requested = some a) :
    (c.accept requested state_args).pending = Function.update c.pending a true := by
  unfold Component.accept
  rw [h]

theorem accept_pending_none (h : Action.of_request requested = none) :
    (c.accept requested state_args).pending = c.pending := by
  unfold Component.accept
  rw [h]

/-- An accepted request sets the flag of its action and no other. -/
theorem accept_pending_eq (a : Action) :
    (c.accept requested state_args).pending a =
      ((Event.accepted requested).owes a).getD (c.pending a) := by
  unfold Event.owes
  dsimp only
  cases hr : Action.of_request requested with
  | none =>
    rw [accept_pending_none hr, if_neg]
    · rfl
    · intro ha
      rw [Action.of_request_eq_some.mpr ha] at hr
      cases hr
  | some b =>
    rw [accept_pending hr]
    by_cases hb : a = b
    · subst hb
      rw [Function.update_self, if_pos (Action.of_request_eq_some.mp hr)]
      rfl
    · rw [Function.update_of_ne hb, if_neg]
      · rfl
      · intro ha
        rw [Action.of_request_eq_some.mpr ha] at hr
        exact hb (Option.some.inj hr)

theorem revert_pending (c : Component) (t : String) :
    (c.revert_state_change c.name t).pending = c.pending := by
  rw [Component.revert_state_change, if_neg (not_not_intro rfl)]

/-- A request that is about traces touches no other flag. -/
theorem trace_get_pending {name : String} {a : Action} (ha : a.transition.isSome = true) :
    (c.trace_get name state_args).pending a = c.pending a := by
  unfold Component.trace_get
  split
  · rfl
  · exact Function.update_of_ne (by rintro rfl; cases ha) ..

theorem trace_set_pending {name : String} {a : Action} (ha : a.transition.isSome = true) :
    (c.trace_set name state_args).pending a = c.pending a := by
  unfold Component.trace_set
  split
  · rfl
  · exact Function.update_of_ne (by rintro rfl; cases ha) ..

end Flags

section RequestsAccounted

variable {w v : World}

theorem RequestsAccounted.frame (h : RequestsAccounted w)
    (hpending : ∀ a : Action, a.transition.isSome = true → v.daq.pending a = w.daq.pending a)
    (hlog : v.log = w.log) : RequestsAccounted v :=
  ⟨fun a ha => by rw [hpending a ha, hlog, h.owed a ha], hlog ▸ h.order⟩

/-- One event, with the flags that go with it. -/
theorem RequestsAccounted.emit (h : RequestsAccounted w) {e : Event} (hlog : v.log = e :: w.log)
    (hpending : ∀ a : Action, a.transition.isSome = true →
      v.daq.pending a = (e.owes a).getD (w.daq.pending a))
    (hbegin : e.begins = false) : RequestsAccounted v := by
  refine ⟨fun a ha => ?_, hlog ▸ h.order.cons_other hbegin⟩
  rw [hpending a ha, hlog, DaqInterface.owed, h.owed a ha]

theorem RequestsAccounted.apply (files : ConfigTree × Tools) (i : Interference) (w : World)
    (h : RequestsAccounted w) : RequestsAccounted (i.apply files w) := by
  cases i with
  | state_change name requested state_args =>
    by_cases hname : name = w.daq.name
    · by_cases hu : w.daq.toComponent.unable requested = true
      · rw [apply_state_change_rejected hname hu]
        exact h.emit rfl (fun _ _ => rfl) rfl
      · rw [apply_state_change_accepted hname hu]
        refine ⟨fun a ha => ?_, (h.order.cons_other rfl).cons_other rfl⟩
        have hflag : (w.daq.toComponent.accept requested state_args).pending a =
            ((Event.accepted requested).owes a).getD (w.daq.pending a) := accept_pending_eq a
        rw [h.owed a ha] at hflag
        exact hflag
    · rwa [apply_state_change_other hname]
  | trace_get name args => exact h.frame (fun a ha => trace_get_pending ha) rfl
  | trace_set name args => exact h.frame (fun a ha => trace_set_pending ha) rfl
  | setdaqcomps comps => exact h.frame (fun _ _ => rfl) rfl
  | prepare boot =>
    exact h.frame (fun a _ => congrArg (Component.pending · a) (prep_step_component _ _ _)) rfl

theorem RequestsAccounted.settle (h : RequestsAccounted w) : RequestsAccounted (DaqInterface.settle env w) :=
  settle_preserves RequestsAccounted.apply h

/-- No command but the start of an action begins one. -/
def Quiet (c : Cmd) : Prop := ∀ a, c ≠ .begin a

theorem RequestsAccounted.exec (c : Cmd) (hc : Quiet c) (w : World) (h : RequestsAccounted w) :
    RequestsAccounted (exec env c w).2 := by
  cases c with
  | begin a => exact absurd rfl (hc a)
  | call op =>
    have hw : RequestsAccounted { DaqInterface.settle env w with clock := w.clock + 1 } :=
      h.settle.frame (fun _ _ => rfl) rfl
    exact hw.emit rfl (fun _ _ => rfl) rfl
  | sleep => exact h.settle.frame (fun _ _ => rfl) rfl
  | complete_state_change t =>
    have hw : RequestsAccounted (w.emit (.complete t)) := h.emit rfl (fun _ _ => rfl) rfl
    exact hw.emit rfl (fun a _ => congrFun (complete_pending _ _) a) rfl
  | revert_state_change =>
    have hw : RequestsAccounted (w.emit (.reverted w.daq.state)) := h.emit rfl (fun _ _ => rfl) rfl
    exact hw.emit rfl (fun a _ => congrFun (revert_pending _ _) a) rfl
  | begin_recovery => exact h.emit rfl (fun _ _ => rfl) rfl
  | skip_recovery =>
    have hw : RequestsAccounted ({ w with daq := { w.daq with in_recovery := false } }.emit
        (.complete "recovering")) := h.emit rfl (fun _ _ => rfl) rfl
    exact hw.emit rfl (fun a _ => congrFun (complete_pending _ _) a) rfl
  | finish_recovery =>
    refine ⟨fun a _ => ?_, ((h.order.cons_other rfl).cons_other rfl).cons_other rfl⟩
    exact congrFun (complete_pending { w.daq.toComponent with pending := fun _ => false } _) a
  | fail cause => exact h.emit rfl (fun _ _ => rfl) rfl
  | send c i =>
    simp only [DaqInterface.exec]
    have hsent : RequestsAccounted (w.emit (.sent c i)) := h.emit rfl (fun _ _ => rfl) rfl
    split
    · exact hsent.emit rfl (fun _ _ => rfl) rfl
    · exact hsent
  | join_prep =>
    simp only [DaqInterface.exec]
    split
    · exact h
    · exact h.emit rfl
        (fun a _ => congrArg (Component.pending · a) (finish_prep_component _ _ _)) rfl
  | _ => exact h.frame (fun _ _ => rfl) rfl

/-- The action whose flag is found first begins in order. -/
theorem RequestsAccounted.begin (h : RequestsAccounted w) {a : Action} (ha : next_action w.daq = some a) :
    RequestsAccounted (DaqInterface.exec env (.begin a) w).2 := by
  obtain ⟨hset, hfirst⟩ := next_action_first ha
  refine ⟨fun b hb => ?_, h.order.cons fun a' ha' => ?_⟩
  · have hflag : Function.update w.daq.pending a false b =
        ((Event.begin a).owes b).getD (DaqInterface.owed b w.log) := by
      unfold Event.owes
      dsimp only
      by_cases hab : b = a
      · subst hab
        rw [Function.update_self, if_pos rfl]
        rfl
      · rw [Function.update_of_ne hab, if_neg (Ne.symm hab), h.owed b hb]
        rfl
    exact hflag
  · cases ha'
    refine ⟨fun hreq => (h.owed a hreq).symm.trans hset, fun b hb hreq => ?_⟩
    exact (h.owed b hreq).symm.trans (hfirst b hb)

end RequestsAccounted

/-! ## What a turn of the runner is -/

/-- A turn answers an exception, does what is owed, or looks after the processes. -/
theorem run_runner (env : Env) (w : World) :
    run (exec env) (runner env.settings) w =
      if w.daq.exception then
        run (exec env)
          (handle_exception "Error: at some point DAQInterface set an exception state") w
      else match next_action w.daq with
        | some a =>
          run (exec env) ((action env.settings a).attempt handle_exception fun _ => return ())
            (exec env (.begin a) w).2
        | none =>
          run (exec env) ((if w.daq.vars.manage_processes ∧ w.daq.state ≠ "stopped" ∧
              w.daq.state ≠ "booting" ∧ w.daq.state ≠ "terminating" then look_after_processes
            else return ()).attempt handle_exception fun _ => return ()) w := by
  have hlook : run (exec env) (runner env.settings) w =
      run (exec env) ((turn_with env.settings w.daq).attempt handle_exception fun _ => return ())
        w := rfl
  rw [hlook, turn_with]
  split
  · rfl
  · cases next_action w.daq <;> rfl

/-- What commands that start no action keep, and the start of an owed action keeps, a turn keeps. -/
theorem System.tick_of_quiet {I : World → Prop} {s : System}
    (hexec : ∀ c, Quiet c → ∀ w, I w → I (exec env c w).2)
    (hbegin : ∀ a, next_action s.world.daq = some a → I s.world →
      I (exec env (.begin a) s.world).2) (h : I s.world) : I (s.tick env).world := by
  have hhandle : ∀ e, (handle_exception e).Uses Quiet := fun e =>
    uses_bind (uses_issue nofun) fun _ =>
      uses_bind ((uses_alert_and_recover e).mono fun c hc a ha => by subst ha; exact hc) fun _ =>
        uses_bind (uses_issue nofun) fun _ => uses_issue nofun
  unfold System.tick
  rw [run_runner]
  split
  · exact run_preserves (hhandle _) hexec h
  · split
    · rename_i a ha
      have hquiet : (action env.settings a).Uses Quiet :=
        (uses_action env.settings a).mono fun c hc a' ha' => by subst ha'; exact hc
      exact run_preserves (uses_attempt hquiet hhandle fun _ => uses_pure ()) hexec (hbegin a ha h)
    · refine run_preserves (uses_attempt ?_ hhandle fun _ => uses_pure ()) hexec h
      refine uses_ite (fun _ => ?_) fun _ => trivial
      exact uses_look_after_processes.mono fun c hc a ha => by subst ha; exact hc

theorem accounted_of_reachable {name : String} {s : System} (hs : Reachable env name s) :
    RequestsAccounted s.world := by
  refine System.invariant hs ⟨fun _ _ => rfl, fun newer a older hlog => ?_⟩ RequestsAccounted.apply
    fun s _ h => System.tick_of_quiet RequestsAccounted.exec (fun a ha hw => hw.begin ha) h
  cases newer <;> cases hlog

/-- In every reachable state the flags of the requests are what the history says is owed: the last
thing that happened to the request is that it was accepted, neither begun nor cleared by a recovery.
And whenever an action began it was owed, and none before it in the order of the runner was. -/
theorem requests_accounted {name : String} {s : System} (hs : Reachable env name s) :
    (∀ a : Action, a.transition.isSome = true →
      s.world.daq.pending a = owed a s.world.log) ∧ InOrder s.world.log :=
  ⟨(accounted_of_reachable hs).owed, (accounted_of_reachable hs).order⟩

theorem boot_accounted :
    (∀ a : Action, a.transition.isSome = true →
      (boot_requested (smooth (one_reader true))).world.daq.pending a =
        owed a (boot_requested (smooth (one_reader true))).world.log) ∧
      InOrder (boot_requested (smooth (one_reader true))).world.log :=
  requests_accounted (boot_requested_reachable (smooth (one_reader true)))

/-! ## Nothing is carried out twice -/

/-- The event of the start of an action. -/
def Event.starts (a : Action) : Event → Bool
  | .begin b => b = a
  | _ => false

/-- The event of a request for an action. -/
def Event.asks (a : Action) : Event → Bool
  | .accepted requested => a.transition = some requested
  | _ => false

theorem InOrder.tail {e : Event} {log : List Event} (h : InOrder (e :: log)) : InOrder log :=
  fun newer a older hlog => h (e :: newer) a older (congrArg (e :: ·) hlog)

/-- Every start settles a request of its own. -/
theorem starts_le {a : Action} (ha : a.transition.isSome = true) {log : List Event}
    (h : InOrder log) :
    log.countP (Event.starts a) + (if owed a log then 1 else 0) ≤ log.countP (Event.asks a) := by
  induction log with
  | nil => exact Nat.le_refl 0
  | cons e log ih =>
    have hrest := ih h.tail
    rw [List.countP_cons, List.countP_cons, owed]
    have hother : e.starts a = false → e.asks a = false → e.owes a = none →
        log.countP (Event.starts a) + (if e.starts a = true then 1 else 0) +
            (if (e.owes a).getD (owed a log) = true then 1 else 0) ≤
          log.countP (Event.asks a) + if e.asks a = true then 1 else 0 := by
      intro hstarts hasks howes
      rw [hstarts, hasks, howes]
      exact hrest
    cases e with
    | accepted requested =>
      by_cases hreq : a.transition = some requested
      · simp only [Event.starts, Event.asks, Event.owes, hreq, if_true, decide_true,
          Option.getD_some]
        split at hrest <;> simp only [Bool.false_eq_true, if_false] <;> omega
      · exact hother rfl (decide_eq_false hreq) (if_neg hreq)
    | begin b =>
      by_cases hb : b = a
      · subst hb
        have howed := (h [] b log rfl).1 ha
        rw [howed] at hrest
        simpa [Event.starts, Event.asks, Event.owes] using hrest
      · exact hother (decide_eq_false hb) rfl (if_neg hb)
    | requests_cleared =>
      simp only [Event.starts, Event.asks, Event.owes, Option.getD_some, Bool.false_eq_true,
        if_false]
      omega
    | _ => exact hother rfl rfl rfl

/-- An action begins at most as often as it was asked for with success, the request that is still
pending included. -/
theorem begun_at_most_once {name : String} {s : System} (hs : Reachable env name s) (a : Action)
    (ha : a.transition.isSome = true) :
    s.world.log.countP (Event.starts a) + (if s.world.daq.pending a then 1 else 0) ≤
      s.world.log.countP (Event.asks a) := by
  rw [(accounted_of_reachable hs).owed a ha]
  exact starts_le ha (accounted_of_reachable hs).order

theorem boot_begun_once :
    ((boot_requested (smooth (one_reader true))).tick (smooth (one_reader true))).world.log.countP
        (Event.starts .boot) + 0 ≤
      ((boot_requested (smooth (one_reader true))).tick (smooth (one_reader true))).world.log.countP
        (Event.asks .boot) :=
  begun_at_most_once ((boot_requested_reachable (smooth (one_reader true))).tick rfl) .boot rfl

/-! ## What is done belongs to the action that began last -/

/-- The action that began last; the events are given newest first. -/
def begun_last : List Event → Option Action
  | [] => none
  | .begin a :: _ => some a
  | _ :: log => begun_last log

/-- What an action does to the processes and to the state; the end of a recovery is not counted. -/
def Event.isEffect : Event → Bool
  | .sent _ _ => true
  | .init_sent _ _ => true
  | .failed _ => true
  | .complete t => t ≠ "recovering"
  | .reverted _ => true
  | .joined _ _ _ _ _ _ => true
  | _ => false

/-- The effects that belong to an action. -/
def Event.BelongsTo (a : Action) : Event → Prop
  | .sent c _ => a.command = some c
  | .init_sent _ _ => a.command = some .Init
  | .failed cause => a.fails cause
  | .complete t => a.completes = some t
  | .reverted _ => a = .boot ∨ a = .config
  | .joined _ _ _ _ _ _ => a = .config
  | _ => False

/-- Every effect belongs to the action that began last. -/
def Attributed (log : List Event) : Prop :=
  ∀ newer e older, log = newer ++ e :: older → e.isEffect = true →
    ∃ a, begun_last older = some a ∧ e.BelongsTo a

theorem Attributed.cons {log : List Event} {e : Event} (h : Attributed log)
    (he : e.isEffect = true → ∃ a, begun_last log = some a ∧ e.BelongsTo a) :
    Attributed (e :: log) := by
  intro newer e' older hlog heffect
  cases newer with
  | nil =>
    obtain ⟨rfl, rfl⟩ := List.cons.inj hlog
    exact he heffect
  | cons e'' newer => exact h newer e' older (List.cons.inj hlog).2 heffect

theorem begun_last_cons {log : List Event} {e : Event} (he : e.begins = false) :
    begun_last (e :: log) = begun_last log := by
  cases e <;> first | rfl | cases he

/-- Effects of the action that began last, and no other start. -/
theorem Attributed.append {log new : List Event} {a : Action} (h : Attributed log)
    (hlast : begun_last log = some a)
    (hnew : ∀ e ∈ new, e.begins = false ∧ (e.isEffect = true → e.BelongsTo a)) :
    begun_last (new ++ log) = some a ∧ Attributed (new ++ log) := by
  induction new with
  | nil => exact ⟨hlast, h⟩
  | cons e new ih =>
    obtain ⟨hbegun, hattributed⟩ := ih fun e' he' => hnew e' (List.mem_cons_of_mem e he')
    obtain ⟨hbegins, hbelongs⟩ := hnew e List.mem_cons_self
    exact ⟨(begun_last_cons hbegins).trans hbegun,
      hattributed.cons fun heffect => ⟨a, hbegun, hbelongs heffect⟩⟩

theorem Attributed.append_quiet {log new : List Event} (h : Attributed log)
    (hnew : ∀ e ∈ new, e.isEffect = false) : Attributed (new ++ log) := by
  induction new with
  | nil => exact h
  | cons e new ih =>
    refine (ih fun e' he' => hnew e' (List.mem_cons_of_mem e he')).cons fun heffect => ?_
    rw [hnew e List.mem_cons_self] at heffect
    cases heffect

theorem Event.FromOutside.without_effect {e : Event} (h : e.FromOutside) :
    e.begins = false ∧ e.isEffect = false := by
  cases e <;> first | exact ⟨rfl, rfl⟩ | exact absurd h id

/-- What an action may record belongs to it. -/
theorem Allowed.belongs {a : Action} {c : Cmd} (hc : Allowed a c) {e : Event} (h : c.Records e) :
    e.begins = false ∧ (e.isEffect = true → e.BelongsTo a) := by
  cases c with
  | call op => cases e <;> first | exact absurd h id | exact ⟨rfl, nofun⟩
  | complete_state_change t =>
    cases e with
    | complete t' =>
      obtain rfl : t' = t := h
      exact ⟨rfl, fun _ => hc⟩
    | _ => exact absurd h id
  | revert_state_change =>
    cases e with
    | reverted s => exact ⟨rfl, fun _ => hc⟩
    | _ => exact absurd h id
  | begin b => exact absurd hc id
  | begin_recovery => cases e <;> first | exact absurd h id | exact ⟨rfl, nofun⟩
  | skip_recovery =>
    cases e with
    | complete t =>
      obtain rfl : t = "recovering" := h
      exact ⟨rfl, nofun⟩
    | _ => exact absurd h id
  | finish_recovery =>
    cases e with
    | requests_cleared => exact ⟨rfl, nofun⟩
    | complete t =>
      obtain rfl : t = "recovering" := h
      exact ⟨rfl, nofun⟩
    | _ => exact absurd h id
  | fail cause =>
    cases e with
    | failed cause' =>
      obtain rfl : cause' = cause := h
      exact ⟨rfl, fun _ => hc⟩
    | _ => exact absurd h id
  | send c i =>
    cases e with
    | sent c' i' =>
      obtain ⟨rfl, rfl⟩ : c' = c ∧ i' = i := h
      exact ⟨rfl, fun _ => hc⟩
    | init_sent origin subconfigs =>
      obtain rfl : c = .Init := h
      exact ⟨rfl, fun _ => hc⟩
    | _ => exact absurd h id
  | join_prep =>
    cases e with
    | joined => exact ⟨rfl, fun _ => hc⟩
    | _ => exact absurd h id
  | _ => cases e <;> exact absurd h id

/-- Commands behind which no effect is recorded. -/
def Effectless (c : Cmd) : Prop := ∀ e, c.Records e → e.begins = false ∧ e.isEffect = false

theorem Recovering.effectless {c : Cmd} (hc : Recovering c) : Effectless c := by
  intro e h
  have hrecovery := hc.records h
  cases e with
  | complete t =>
    obtain rfl : t = "recovering" := hrecovery
    exact ⟨rfl, rfl⟩
  | _ => first | exact ⟨rfl, rfl⟩ | exact absurd hrecovery id

theorem Tending.effectless {c : Cmd} (hc : Tending c) : Effectless c := by
  intro e h
  cases c <;> cases e <;> first | exact ⟨rfl, rfl⟩ | exact absurd h id | exact absurd hc id

/-- The commands of the runner's answer to an exception. -/
theorem effectless_handle_exception (e : String) : (handle_exception e).Uses Effectless :=
  uses_bind (uses_issue fun _ h => absurd h id) fun _ =>
    uses_bind ((uses_alert_and_recover e).mono fun _ => Recovering.effectless) fun _ =>
      uses_bind (uses_issue fun _ h => absurd h id) fun _ => uses_issue fun _ h => absurd h id

theorem Attributed.exec_effectless {w : World} {c : Cmd} (hc : Effectless c)
    (h : Attributed w.log) : Attributed (exec env c w).2.log := by
  obtain ⟨new, hlog, hnew⟩ := exec_appends env c w
  rw [hlog]
  exact h.append_quiet fun e he => (hnew e he).elim (fun hout => hout.without_effect.2) fun hrec => (hc e hrec).2

/-- The action began last, and all effects are attributed. -/
def AttributedTo (a : Action) (w : World) : Prop := begun_last w.log = some a ∧ Attributed w.log

theorem AttributedTo.exec {a : Action} {w : World} {c : Cmd} (hc : Allowed a c ∨ Effectless c)
    (h : AttributedTo a w) : AttributedTo a (exec env c w).2 := by
  obtain ⟨new, hlog, hnew⟩ := exec_appends env c w
  unfold AttributedTo
  rw [hlog]
  refine h.2.append h.1 fun e he => ?_
  rcases hnew e he with hout | hrec
  · exact ⟨hout.without_effect.1, fun heffect => absurd (hout.without_effect.2.symm.trans heffect) nofun⟩
  · rcases hc with hc | hc
    · exact hc.belongs hrec
    · exact ⟨(hc e hrec).1, fun heffect => absurd ((hc e hrec).2.symm.trans heffect) nofun⟩

/-- All effects so far are attributed. -/
def World.Attributed (w : World) : Prop := DaqInterface.Attributed w.log

theorem Attributed.tick {s : System} (h : Attributed s.world.log) :
    Attributed (s.tick env).world.log := by
  have hexec : ∀ c, Effectless c → ∀ w : World, w.Attributed → (exec env c w).2.Attributed :=
    fun c hc w hw => hw.exec_effectless hc
  have hworld : s.world.Attributed := h
  unfold System.tick
  rw [run_runner]
  split
  · exact run_preserves (effectless_handle_exception _) hexec hworld
  · split
    · rename_i a ha
      have hprogram := uses_attempt ((uses_action env.settings a).mono fun _ => Or.inl)
        (fun e => (effectless_handle_exception e).mono fun _ => Or.inr) fun _ => uses_pure ()
      have hbegun : AttributedTo a (exec env (.begin a) s.world).2 :=
        ⟨rfl, h.cons nofun⟩
      exact (run_preserves hprogram (fun c hc w hw => hw.exec hc) hbegun).2
    · have hlook : look_after_processes.Uses Effectless :=
        uses_look_after_processes.mono fun _ => Tending.effectless
      refine run_preserves (uses_attempt (uses_ite (fun _ => hlook) fun _ => uses_pure ())
        effectless_handle_exception fun _ => uses_pure ()) hexec hworld

theorem attributed_of_reachable {name : String} {s : System} (hs : Reachable env name s) :
    Attributed s.world.log := by
  refine @System.invariant env World.Attributed name s hs
    (fun newer e older hlog => ?_) (fun files i w hw => ?_) fun _ _ h => h.tick
  · cases newer with
    | nil => exact nomatch hlog
    | cons => exact nomatch hlog
  · have hsince := apply_since files w.fresh w.log i
    rw [World.fresh_since] at hsince
    unfold World.Attributed
    rw [hsince]
    exact Attributed.append_quiet hw fun e he =>
      ((apply_log files i he).resolve_left List.not_mem_nil).without_effect.2

theorem exists_begin {log : List Event} {a : Action} (h : begun_last log = some a) :
    ∃ newer older, log = newer ++ .begin a :: older := by
  induction log with
  | nil => cases h
  | cons e log ih =>
    by_cases hb : ∃ b, e = .begin b
    · obtain ⟨b, rfl⟩ := hb
      obtain rfl : b = a := Option.some.inj h
      exact ⟨[], log, rfl⟩
    · have hrest : begun_last log = some a := by
        cases e <;> first | exact h | exact absurd ⟨_, rfl⟩ hb
      obtain ⟨newer, older, rfl⟩ := ih hrest
      exact ⟨e :: newer, older, rfl⟩

theorem exists_accepted {log : List Event} {a : Action} (h : owed a log = true) :
    ∃ requested, a.transition = some requested ∧ Event.accepted requested ∈ log := by
  induction log with
  | nil => cases h
  | cons e log ih =>
    have hrest : owed a log = true → ∃ requested, a.transition = some requested ∧
        Event.accepted requested ∈ e :: log := fun h => by
      obtain ⟨requested, hreq, hmem⟩ := ih h
      exact ⟨requested, hreq, List.mem_cons_of_mem e hmem⟩
    rw [owed] at h
    cases e with
    | accepted requested =>
      by_cases hreq : a.transition = some requested
      · exact ⟨requested, hreq, List.mem_cons_self⟩
      · exact hrest (by simpa [Event.owes, hreq] using h)
    | begin b =>
      by_cases hb : b = a
      · simp [Event.owes, hb] at h
      · exact hrest (by simpa [Event.owes, hb] using h)
    | requests_cleared => cases h
    | _ => exact hrest h

/-- Whatever is sent to a process, fails, completes or reverts a transition belongs to the action
that began last, and that action, unless it is about traces, had been asked for. -/
theorem effects_of_requests {name : String} {s : System} (hs : Reachable env name s)
    {newer older : List Event} {e : Event} (hlog : s.world.log = newer ++ e :: older)
    (he : e.isEffect = true) :
    ∃ a, begun_last older = some a ∧ e.BelongsTo a ∧
      (a.transition.isSome = true → ∃ requested, a.transition = some requested ∧
        Event.accepted requested ∈ older) := by
  obtain ⟨a, hlast, hbelongs⟩ := attributed_of_reachable hs newer e older hlog he
  refine ⟨a, hlast, hbelongs, fun hreq => ?_⟩
  obtain ⟨between, before, rfl⟩ := exists_begin hlast
  have hbegin : s.world.log = (newer ++ e :: between) ++ .begin a :: before := by
    rw [hlog, List.append_assoc]
    rfl
  have howed := ((accounted_of_reachable hs).order _ a before hbegin).1 hreq
  obtain ⟨requested, htransition, hmem⟩ := exists_accepted howed
  exact ⟨requested, htransition, List.mem_append_right _ (List.mem_cons_of_mem _ hmem)⟩

/-- A boot that is carried out. -/
theorem boot_effect_requested :
    ∃ (newer older : List Event) (e : Event) (a : Action),
      ((boot_requested (smooth (one_reader true))).tick (smooth (one_reader true))).world.log =
        newer ++ e :: older ∧ begun_last older = some a ∧ e.BelongsTo a ∧
        (a.transition.isSome = true → ∃ requested, a.transition = some requested ∧
          Event.accepted requested ∈ older) := by
  have hreach := (boot_requested_reachable (smooth (one_reader true))).tick rfl
  have hsome : ∃ e ∈ ((boot_requested (smooth (one_reader true))).tick
      (smooth (one_reader true))).world.log, e.isEffect = true := by decide +kernel
  obtain ⟨e, hmem, heffect⟩ := hsome
  obtain ⟨newer, older, hlog⟩ := List.append_of_mem hmem
  obtain ⟨a, ha⟩ := effects_of_requests hreach hlog heffect
  exact ⟨newer, older, e, a, hlog, ha⟩

/-! ## Requests run out -/

/-- Other threads ask for something. -/
def Interference.asks : Interference → Bool
  | .state_change _ _ _ => true
  | .trace_get _ _ => true
  | .trace_set _ _ => true
  | _ => false

/-- Nobody asks for anything while the runner is at work. -/
def Env.Silent (env : Env) : Prop := ∀ t, ∀ i ∈ env.meanwhile t, i.asks = false

theorem settle_component (h : env.Silent) (w : World) :
    (settle env w).daq.toComponent = w.daq.toComponent := by
  have hfold : ∀ (is : List Interference) (v : World), (∀ i ∈ is, i.asks = false) →
      (is.foldl (Interference.apply (env.files w.clock)) v).daq.toComponent =
        v.daq.toComponent := by
    intro is
    induction is with
    | nil => exact fun _ _ => rfl
    | cons i is ih =>
      intro v hsilent
      rw [List.foldl_cons, ih _ fun j hj => hsilent j (List.mem_cons_of_mem i hj)]
      have hi := hsilent i List.mem_cons_self
      cases i with
      | setdaqcomps => rfl
      | prepare boot => exact prep_step_component _ _ _
      | _ => cases hi
  exact hfold _ w (h w.clock)

/-- No flag is set that was not among the given ones. -/
def FlagsWithin (pending : Action → Bool) (w : World) : Prop :=
  ∀ a, w.daq.pending a = true → pending a = true

theorem FlagsWithin.exec (hsilent : env.Silent) {pending : Action → Bool} (c : Cmd) (w : World)
    (h : FlagsWithin pending w) : FlagsWithin pending (exec env c w).2 := by
  intro a ha
  cases c with
  | call op | sleep =>
    refine h a ?_
    rw [← settle_component hsilent w]
    exact ha
  | complete_state_change t | skip_recovery =>
    refine h a ?_
    rw [← congrFun (complete_pending w.daq.toComponent _) a]
    exact ha
  | revert_state_change =>
    refine h a ?_
    rw [← congrFun (revert_pending w.daq.toComponent w.daq.state) a]
    exact ha
  | finish_recovery =>
    have hclear := congrFun (complete_pending
      { w.daq.toComponent with pending := fun _ => false } "recovering") a
    exact absurd (hclear.symm.trans ha) Bool.false_ne_true
  | begin b =>
    have hupdate : Function.update w.daq.pending b false a = true := ha
    by_cases hb : a = b
    · subst hb
      rw [Function.update_self] at hupdate
      cases hupdate
    · rw [Function.update_of_ne hb] at hupdate
      exact h a hupdate
  | send c i =>
    simp only [DaqInterface.exec] at ha
    split at ha <;> exact h a ha
  | join_prep =>
    simp only [DaqInterface.exec] at ha
    split at ha
    · exact h a ha
    · refine h a ?_
      rw [← finish_prep_component (env.files w.clock) _ w.daq]
      exact ha
  | _ => exact h a ha

/-- The number of flags that are set. -/
def flags (self : DAQInterface) : ℕ := Action.all.countP self.pending

/-- Each flag can take two turns, and the mark of a failure one. -/
def load (self : DAQInterface) : ℕ := 2 * flags self + if self.exception then 1 else 0

theorem flags_le {self : DAQInterface} {w : World} (h : FlagsWithin self.pending w) :
    flags w.daq ≤ flags self :=
  List.countP_mono_left fun a _ => h a

theorem flags_eq_zero {self : DAQInterface} : flags self = 0 ↔ ∀ a, self.pending a = false := by
  unfold flags
  rw [List.countP_eq_zero]
  exact ⟨fun h a => Bool.eq_false_iff.mpr (h a a.mem_all), fun h a _ => by simp [h a]⟩

theorem flags_update {pending : Action → Bool} {a : Action} (h : pending a = true) :
    Action.all.countP (Function.update pending a false) + 1 = Action.all.countP pending := by
  have hsplit : ∀ l : List Action, l.Nodup → (a ∈ l →
      l.countP (Function.update pending a false) + 1 = l.countP pending) ∧
      (a ∉ l → l.countP (Function.update pending a false) = l.countP pending) := by
    intro l
    induction l with
    | nil => exact fun _ => ⟨fun h => absurd h List.not_mem_nil, fun _ => rfl⟩
    | cons b l ih =>
      intro hnodup
      obtain ⟨hb, hnodup⟩ := List.nodup_cons.mp hnodup
      obtain ⟨hin, hout⟩ := ih hnodup
      rw [List.countP_cons, List.countP_cons]
      by_cases hab : a = b
      · subst hab
        refine ⟨fun _ => ?_, fun hnot => absurd List.mem_cons_self hnot⟩
        rw [hout hb, Function.update_self, h]
        rfl
      · rw [Function.update_of_ne (Ne.symm hab)]
        refine ⟨fun hmem => ?_, fun hnot => ?_⟩
        · have hrest := hin ((List.mem_cons.mp hmem).resolve_left hab)
          omega
        · rw [hout fun hmem => hnot (List.mem_cons_of_mem b hmem)]
  exact (hsplit Action.all (by decide)).1 a.mem_all

theorem FlagsWithin.tick (hsilent : env.Silent) {s : System} {pending : Action → Bool}
    (h : FlagsWithin pending s.world) : FlagsWithin pending (s.tick env).world :=
  run_preserves (uses_runner env.settings) (fun c _ w hw => hw.exec hsilent c w) h

/-- A turn that returns settles a request or answers a failure, unless there is nothing to do. -/
theorem load_tick (hsilent : env.Silent) {s : System} (hrun : (s.tick env).loop = .running) :
    flags s.world.daq = 0 ∨ load (s.tick env).world.daq < load s.world.daq := by
  have hret : run (exec env) (runner env.settings) s.world =
      (.returned (), (s.tick env).world) := by
    refine Prod.ext ?_ rfl
    have hafter : Loop.after (run (exec env) (runner env.settings) s.world).1 = .running := hrun
    cases hout : (run (exec env) (runner env.settings) s.world).1 with
    | returned u => rfl
    | raised e => simp [hout, Loop.after] at hafter
    | hung => simp [hout, Loop.after] at hafter
  have hwithin : FlagsWithin s.world.daq.pending (s.tick env).world :=
    FlagsWithin.tick hsilent fun _ h => h
  by_cases hexc : s.world.daq.exception = true
  · refine Or.inr ?_
    have hhandle := hret
    rw [run_runner, if_pos hexc] at hhandle
    have hcleared := ((wp_handle_exception _ s.world).returned hhandle).exception
    have hle := flags_le hwithin
    unfold load
    rw [hexc, hcleared, if_pos rfl, if_neg Bool.false_ne_true]
    omega
  · cases hnext : next_action s.world.daq with
    | none =>
      refine Or.inl (flags_eq_zero.mpr fun a => ?_)
      have hnot := List.find?_eq_none.mp hnext a a.mem_all
      exact Bool.eq_false_iff.mpr hnot
    | some a =>
      refine Or.inr ?_
      have hset := (next_action_first hnext).1
      have hbegun : FlagsWithin (Function.update s.world.daq.pending a false) (s.tick env).world := by
        have haction : s.tick env = ⟨(run (exec env) ((action env.settings a).attempt
            handle_exception fun _ => return ()) (exec env (.begin a) s.world).2).2, .running⟩ := by
          have hworld := congrArg Prod.snd hret
          rw [run_runner, if_neg hexc, hnext] at hworld
          rw [← hrun]
          exact congrArg (System.mk · (s.tick env).loop) hworld.symm
        rw [haction]
        have hall : ∀ p : Control Unit, p.Uses fun _ => True := fun p => by
          induction p with
          | ret => trivial
          | raise => trivial
          | hang => trivial
          | step c k ih => exact ⟨trivial, ih⟩
        exact run_preserves (hall _) (fun c _ w hw => hw.exec hsilent c w) fun _ h => h
      have hle : flags (s.tick env).world.daq ≤
          Action.all.countP (Function.update s.world.daq.pending a false) :=
        List.countP_mono_left fun b _ => hbegun b
      have hupdate := flags_update hset
      have hone : (if (s.tick env).world.daq.exception then 1 else 0) ≤ 1 := by
        split <;> omega
      unfold load
      unfold flags at hle ⊢
      omega

/-- When nobody asks for anything more, no request is pending behind as many turns as there are
flags, twice over, and one for a failure, as long as the loop goes on. -/
theorem requests_served (hsilent : env.Silent) {s : System} {n : ℕ}
    (hn : load s.world.daq ≤ n) (hrun : ∀ k ≤ n, ((System.tick env)^[k] s).loop = .running) :
    ∀ a, ((System.tick env)^[n] s).world.daq.pending a = false := by
  have hdone : ∀ (n : ℕ) (s : System), flags s.world.daq = 0 →
      ∀ a, ((System.tick env)^[n] s).world.daq.pending a = false := by
    intro n
    induction n with
    | zero => exact fun s h => flags_eq_zero.mp h
    | succ n ih =>
      intro s h
      rw [Function.iterate_succ_apply]
      refine ih _ (flags_eq_zero.mpr fun a => ?_)
      have hwithin : FlagsWithin s.world.daq.pending (s.tick env).world :=
        FlagsWithin.tick hsilent fun _ h => h
      refine Bool.eq_false_iff.mpr fun ha => ?_
      exact absurd ((flags_eq_zero.mp h a).symm.trans (hwithin a ha)) Bool.false_ne_true
  induction n generalizing s with
  | zero =>
    refine hdone 0 s ?_
    unfold load at hn
    omega
  | succ n ih =>
    have hfirst : (s.tick env).loop = .running := hrun 1 (by omega)
    rcases load_tick hsilent hfirst with hzero | hless
    · exact hdone (n + 1) s hzero
    · rw [Function.iterate_succ_apply]
      refine ih (by omega) fun k hk => ?_
      have hlater := hrun (k + 1) (by omega)
      rwa [Function.iterate_succ_apply] at hlater

/-- A boot is the only request, and nobody asks for anything more. -/
theorem boot_served :
    ((System.tick (smooth (one_reader true)))^[2]
      (boot_requested (smooth (one_reader true)))).world.daq.pending .boot = false :=
  requests_served (fun _ _ hi => absurd hi List.not_mem_nil) (by decide +kernel)
    (by decide +kernel) .boot

end DaqInterface
