import DaqInterface.Properties.Order
import DaqInterface.Properties.Ending

/-!
# How a command reaches the processes

The threads of a group send the command to one process each, at the same time.  The history
of a process in the log is what the command had to do with it: that it was sent, and how its
calls ended.  A thread relies on the others for leaving the history of its own process alone,
so it can be verified by itself (`under_process_command`); from the group (`wp_send_to_group`)
the proof goes to the loop over the groups and to `do_command` as a whole
(`delivered_in_order`).
-/

namespace DaqInterface

open Program

variable {env : Env} {command : Command}

/-! ## The history of one process -/

/-- What `do_command` has to do with process `i`. -/
def Event.about (i : ℕ) : Event → Bool
  | .sent _ j => j == i
  | .outcome (.process (.command _) j) _ => j == i
  | .outcome (.process .retry_start j) _ => j == i
  | _ => false

/-- The history of process `i`, newest event first. -/
def history (i : ℕ) (log : List Event) : List Event := log.filter (Event.about i)

/-- The answer of an old process to `Start`, which is then started once more. -/
def WantsRetry (command : Command) (answer : String) : Prop :=
  command = .Start ∧
    contains "The start message requires the run number as an argument" answer = true

/-- Histories of a process that was sent the command once and whose call has returned. -/
inductive Returned (command : Command) (i : ℕ) : List Event → Prop
  /-- The first call is the only one. -/
  | once {answer : String} (h : ¬ WantsRetry command answer) :
      Returned command i
        [.outcome (.process (.command command) i) (.ok answer), .sent command i]
  /-- The process was started once more. -/
  | retried {answer again : String} (h : WantsRetry command answer) :
      Returned command i
        [.outcome (.process .retry_start i) (.ok again),
          .outcome (.process (.command command) i) (.ok answer), .sent command i]

/-- The process was sent the command once, and the call has returned. -/
def Delivered (command : Command) (i : ℕ) (log : List Event) : Prop :=
  Returned command i (history i log)

/-- A call of the command to process `i` has raised. -/
def CallRaised (command : Command) (i : ℕ) (log : List Event) : Prop :=
  ∃ e, Event.outcome (.process (.command command) i) (.error e) ∈ log ∨
    Event.outcome (.process .retry_start i) (.error e) ∈ log

/-- A call of the command has raised. -/
def CallFailed (command : Command) (log : List Event) : Prop := ∃ i, CallRaised command i log

theorem history_append (i : ℕ) (new old : List Event) :
    history i (new ++ old) = history i new ++ history i old := List.filter_append _ _

theorem history_eq_nil {i : ℕ} {new : List Event} (h : ∀ e ∈ new, e.about i = false) :
    history i new = [] :=
  List.filter_eq_nil_iff.mpr fun e he => Bool.eq_false_iff.mp (h e he)

theorem CallFailed.mono {log log' : List Event} (h : CallFailed command log)
    (hsub : ∀ e ∈ log, e ∈ log') : CallFailed command log' := by
  obtain ⟨i, e, hmem⟩ := h
  exact ⟨i, e, hmem.imp (hsub _) (hsub _)⟩

/-- What is in the history of a process is in the log. -/
theorem CallFailed.of_history {i : ℕ} {log : List Event} (h : CallFailed command (history i log)) :
    CallFailed command log :=
  h.mono fun _ => List.mem_of_mem_filter

/-- No other thread has to do with the command. -/
theorem Event.FromOutside.about {e : Event} (h : e.FromOutside) (i : ℕ) : e.about i = false := by
  cases e <;> first | rfl | exact absurd h id

/-- The command has nothing to do with any process. -/
def Cmd.Mute (c : Cmd) : Prop := ∀ e, c.Records e → ∀ i, e.about i = false

theorem Harmless.mute {c : Cmd} (hc : Harmless c) : c.Mute := by
  intro e he i
  cases c with
  | call op =>
    cases e with
    | outcome op' result =>
      obtain rfl : op' = op := he
      cases op' with
      | process call j => cases call <;> first | rfl | exact absurd hc id
      | _ => rfl
    | _ => exact absurd he id
  | _ => first | exact absurd he id | exact absurd hc id

theorem history_of_mute {c : Cmd} (hc : c.Mute) (i : ℕ) (w : World) :
    history i (exec env c w).2.log = history i w.log := by
  obtain ⟨new, hlog, hnew⟩ := exec_appends env c w
  have hnil : history i new = [] :=
    history_eq_nil fun e he => (hnew e he).elim (fun h => h.about i) fun h => hc e h i
  rw [hlog, history_append, hnil, List.nil_append]

/-! ## Logs in which the groups take their turns -/

/-- It is the turn of process `j`: it was not sent the command, and the calls of the groups
before its own have returned. -/
structure InTurn (command : Command) (procs : List Procinfo) (gs : List Group) (j : ℕ)
    (older : List Event) : Prop where
  /-- It was not sent the command. -/
  unsent : history j older = []
  /-- The groups before its own are through. -/
  place : ∃ q done rest, procs[j]? = some q ∧ gs = done ++ q.group :: rest ∧
    ∀ i p, procs[i]? = some p → p.group ∈ done → Delivered command i older

/-- Whenever a process was sent a command, it was this command and the turn of the process. -/
def Orderly (command : Command) (procs : List Procinfo) (gs : List Group) : List Event → Prop
  | [] => True
  | e :: older => Orderly command procs gs older ∧
      ∀ c j, e = .sent c j → c = command ∧ InTurn command procs gs j older

section Orderly

variable {procs : List Procinfo} {gs : List Group}

theorem Orderly.append {new old : List Event} (h : Orderly command procs gs old)
    (hnew : ∀ e ∈ new, ∀ c j, e ≠ .sent c j) : Orderly command procs gs (new ++ old) := by
  induction new with
  | nil => exact h
  | cons e new ih =>
    refine ⟨ih fun e' he' => hnew e' (List.mem_cons_of_mem e he'), fun c j heq => ?_⟩
    exact absurd heq (hnew e List.mem_cons_self c j)

theorem Orderly.of_mute {c : Cmd} (hc : c.Mute) {w : World}
    (h : Orderly command procs gs w.log) :
    Orderly command procs gs (exec env c w).2.log := by
  obtain ⟨new, hlog, hnew⟩ := exec_appends env c w
  rw [hlog]
  refine h.append fun e he c' j heq => ?_
  have habout : e.about j = false := (hnew e he).elim (fun h => h.about j) fun h => hc e h j
  rw [heq] at habout
  simp [Event.about] at habout

/-- The place of a `sent` event in an orderly log. -/
theorem Orderly.inTurn {newer older : List Event} {c : Command} {j : ℕ}
    (h : Orderly command procs gs (newer ++ .sent c j :: older)) :
    InTurn command procs gs j older := by
  induction newer with
  | nil => exact (h.2 c j rfl).2
  | cons e newer ih => exact ih h.1

end Orderly

/-! ## The threads of a group -/

/-- What holds while the threads of a group run that were started in `start`. -/
structure Underway (command : Command) (procs : List Procinfo) (gs : List Group)
    (members : List ℕ) (start v : World) : Prop where
  /-- The groups take their turns. -/
  orderly : Orderly command procs gs v.log
  /-- There is a reason for `exception`. -/
  failed : v.daq.exception = true → CallFailed command v.log
  /-- No thread clears `exception`. -/
  kept : start.daq.exception = true → v.daq.exception = true
  /-- Only the processes of the group are sent the command. -/
  others : ∀ i ∉ members, history i v.log = history i start.log

/-- The contract of the thread of process `i`. -/
def courier (J : World → Prop) (i : ℕ) : Contract World where
  rely s t := (J s → J t) ∧ (s.daq.exception = true → t.daq.exception = true) ∧
    history i t.log = history i s.log
  guarantee s t := (J s → J t) ∧ (s.daq.exception = true → t.daq.exception = true) ∧
    ∀ j, j ≠ i → history j t.log = history j s.log
  refl _ := ⟨id, id, rfl⟩
  trans h h' := ⟨h'.1 ∘ h.1, h'.2.1 ∘ h.2.1, h'.2.2.trans h.2.2⟩

/-- The contract of no thread. -/
def idle : Contract World where
  rely _ _ := True
  guarantee _ _ := False
  refl _ := trivial
  trans _ _ := trivial

/-- The threads of some processes. -/
def couriers (J : World → Prop) (members : List ℕ) (hnodup : members.Nodup) : Team World where
  contract k := members[k]?.elim idle (courier J)
  inv := J
  compatible := by
    intro k k' s t hne hg
    cases hk : members[k]? with
    | none => rw [hk] at hg; exact absurd hg id
    | some i =>
      cases hk' : members[k']? with
      | none => trivial
      | some i' =>
        rw [hk] at hg
        have hlt : k' < members.length := (List.getElem?_eq_some_iff.mp hk').1
        have hii : i' ≠ i := fun heq =>
          hne ((List.getElem?_inj hlt hnodup).mp (hk'.trans (heq ▸ hk.symm))).symm
        exact ⟨hg.1, hg.2.1, hg.2.2 i' hii⟩
  keeps := by
    intro k s t hg
    cases hk : members[k]? with
    | none => rw [hk] at hg; exact absurd hg id
    | some i => rw [hk] at hg; exact hg.1

section Threads

variable {procs : List Procinfo} {gs : List Group} {members : List ℕ} {start s : World} {i : ℕ}

/-- A mute command that keeps `exception` keeps the contract. -/
theorem guarantee_of_mute {c : Cmd} (hc : c.Mute)
    (hexc : (exec env c s).2.daq.exception = s.daq.exception) :
    (courier (Underway command procs gs members start) i).guarantee s (exec env c s).2 := by
  refine ⟨fun h => ⟨h.orderly.of_mute hc, fun he => ?_, fun he => ?_, fun j hj => ?_⟩, fun he => ?_,
    fun j _ => history_of_mute hc j s⟩
  · exact (h.failed (hexc ▸ he)).mono fun e => mem_log_of_exec env c
  · exact hexc ▸ h.kept he
  · exact (history_of_mute hc j s).trans (h.others j hj)
  · exact hexc ▸ he

/-- A harmless program keeps what the history of its process says. -/
theorem under_harmless {α : Type} {p : Control α} (hp : p.Uses Harmless) {P : List Event → Prop}
    (hP : P (history i s.log)) :
    p.under (exec env) (courier (Underway command procs gs members start) i)
      (fun _ v => P (history i v.log)) (fun _ v => P (history i v.log)) s := by
  refine under_of_uses hp (fun t u ht hrely => hrely.2.2 ▸ ht) (fun c hc t ht => ⟨?_, ?_⟩) hP
  · exact guarantee_of_mute hc.mute (exec_exception_of_recovering hc.recovering t)
  · exact (history_of_mute hc.mute i t).symm ▸ ht

/-- A harmless program keeps `exception` set. -/
theorem under_exception {α : Type} {p : Control α} (hp : p.Uses Harmless)
    (h : s.daq.exception = true) :
    p.under (exec env) (courier (Underway command procs gs members start) i)
      (fun _ v => v.daq.exception = true) (fun _ v => v.daq.exception = true) s := by
  refine under_of_uses hp (fun t u ht hrely => hrely.2.1 ht) (fun c hc t ht => ⟨?_, ?_⟩) h
  · exact guarantee_of_mute hc.mute (exec_exception_of_recovering hc.recovering t)
  · exact (exec_exception_of_recovering hc.recovering t).trans ht

/-- The rule of outside operations under interference. -/
theorem under_call {K : Contract World} (op : Op) {Q : op.Answer → World → Prop}
    {R : String → World → Prop}
    (h : ∀ t, K.rely s t → K.guarantee t (called env op t) ∧ ∀ u, K.rely (called env op t) u →
      (∀ answer, env.outcome t.clock op = .ok answer → Q answer u) ∧
        ∀ e, env.outcome t.clock op = .error e → R e u) :
    (call op).under (exec env) K Q R s := by
  intro t ht
  obtain ⟨hg, hrest⟩ := h t ht
  refine ⟨hg, ?_⟩
  have hresult : (exec env (.call op) t).1 = env.outcome t.clock op := rfl
  rw [hresult]
  cases hout : env.outcome t.clock op with
  | ok answer => exact fun u hu => (hrest u hu).1 answer hout
  | error e => exact fun u hu => (hrest u hu).2 e hout

/-- The result of a call goes to the history of its process alone. -/
theorem history_of_call (op : Op) (hop : ∀ result j, (Event.outcome op result).about j = (i == j))
    (j : ℕ) (w : World) :
    history j (called env op w).log =
      if i = j then .outcome op (env.outcome w.clock op) :: history j w.log
      else history j w.log := by
  obtain ⟨new, hlog, hnew⟩ := called_log env op w
  have hnil : history j new = [] := history_eq_nil fun e he => (hnew e he).about j
  have habout := hop (env.outcome w.clock op) j
  rw [hlog, history, List.filter_cons, habout, ← history, history_append, hnil, List.nil_append]
  simp

/-- A call to the process of a thread keeps the contract. -/
theorem guarantee_of_call {op : Op} (hi : i ∈ members)
    (hop : ∀ result j, (Event.outcome op result).about j = (i == j)) :
    (courier (Underway command procs gs members start) i).guarantee s (called env op s) := by
  obtain ⟨new, hlog, hnew⟩ := called_log env op s
  have hexc : (called env op s).daq.exception = s.daq.exception := settle_exception env s
  have hother : ∀ j, j ≠ i → history j (called env op s).log = history j s.log := fun j hj => by
    rw [history_of_call op hop, if_neg hj.symm]
  refine ⟨fun h => ⟨?_, fun he => ?_, fun he => ?_, fun j hj => ?_⟩, fun he => ?_, hother⟩
  · have hsent : ∀ e ∈ .outcome op (env.outcome s.clock op) :: new, ∀ c j, e ≠ .sent c j := by
      rintro e he c j rfl
      rcases List.mem_cons.mp he with heq | he
      · cases heq
      · exact hnew _ he
    rw [hlog]
    exact h.orderly.append hsent
  · exact (h.failed (hexc ▸ he)).mono fun e => mem_log_of_exec env (.call op)
  · exact hexc ▸ h.kept he
  · exact (hother j fun hji => hj (hji ▸ hi)).trans (h.others j hj)
  · exact hexc ▸ he

/-- A harmless command keeps the history of its process. -/
theorem under_issue (c : Cmd) (hc : Harmless c) {h : List Event} {R : String → World → Prop}
    (hs : history i s.log = h) :
    (issue c).under (exec env) (courier (Underway command procs gs members start) i)
      (fun _ v => history i v.log = h) R s := by
  refine under_perform fun t ht => ⟨?_, fun u hu => ?_⟩
  · exact guarantee_of_mute hc.mute (exec_exception_of_recovering hc.recovering t)
  · exact hu.2.2.trans ((history_of_mute hc.mute i t).trans (ht.2.2.trans hs))

theorem under_set_lastreturned {j : ℕ} {answer : String} {h : List Event}
    {R : String → World → Prop} (hs : history i s.log = h) :
    (set_lastreturned j answer).under (exec env)
      (courier (Underway command procs gs members start) i) (fun _ v => history i v.log = h) R s :=
  under_issue (.processes (.lastreturned j answer)) trivial hs

theorem under_set_proc_state {j : ℕ} {state : String} {h : List Event}
    {R : String → World → Prop} (hs : history i s.log = h) :
    (set_proc_state j state).under (exec env)
      (courier (Underway command procs gs members start) i) (fun _ v => history i v.log = h) R s :=
  under_issue (.processes (.state j state)) trivial hs

theorem under_look {K : Contract World} {Q : DAQInterface → World → Prop}
    {R : String → World → Prop}
    (h : ∀ t, K.rely s t → K.guarantee t t ∧ ∀ u, K.rely t u → Q t.daq u) :
    look.under (exec env) K Q R s := h

/-- A call of `remote_call`: what is next, in terms of the history. -/
theorem under_process_call {op : Op} {β : Type} {f : op.Answer → Control β}
    {Q : β → World → Prop} {R : String → World → Prop} (hi : i ∈ members)
    (hop : ∀ result j, (Event.outcome op result).about j = (i == j))
    (hok : ∀ answer u, history i u.log = .outcome op (.ok answer) :: history i s.log →
      (f answer).under (exec env) (courier (Underway command procs gs members start) i) Q R u)
    (herror : ∀ e u, history i u.log = .outcome op (.error e) :: history i s.log → R e u) :
    (call op >>= f).under (exec env) (courier (Underway command procs gs members start) i) Q R
      s := by
  refine under_bind (under_call op fun t ht => ⟨guarantee_of_call hi hop, fun u hu => ?_⟩)
  have hcall : history i u.log = .outcome op (env.outcome t.clock op) :: history i s.log := by
    rw [hu.2.2, history_of_call op hop, if_pos rfl, ht.2.2]
  exact ⟨fun answer hout => hok answer u (hout ▸ hcall),
    fun e hout => herror e u (hout ▸ hcall)⟩

/-- The remote call of a process that was just sent the command. -/
theorem under_remote_call (hi : i ∈ members) (h : history i s.log = [.sent command i]) :
    (remote_call command i).under (exec env) (courier (Underway command procs gs members start) i)
      (fun _ v => Delivered command i v.log) (fun _ v => CallFailed command (history i v.log))
      s := by
  refine under_process_call hi (fun _ _ => rfl) (fun answer u hu => ?_) fun e u hu => ?_
  · rw [h] at hu
    refine under_bind ((under_set_lastreturned hu).mono (fun _ v hv => ?_) fun _ _ h => h)
    split
    · rename_i hretry
      refine under_process_call hi (fun _ _ => rfl) (fun again u' hu' => ?_) fun e u' hu' => ?_
      · rw [hv] at hu'
        refine under_bind ((under_set_lastreturned hu').mono (fun _ v' hv' => ?_) fun _ _ h => h)
        intro x hx
        have hx : history i x.log = _ := hx.2.2.trans hv'
        exact (congrArg (Returned command i) hx).mpr (.retried hretry)
      · exact ⟨i, e, Or.inr (hu' ▸ List.mem_cons_self)⟩
    · rename_i hretry
      intro x hx
      have hx : history i x.log = _ := hx.2.2.trans hv
      exact (congrArg (Returned command i) hx).mpr (.once hretry)
  · exact ⟨i, e, Or.inl (hu ▸ List.mem_cons_self)⟩

/-- The answer of a process is recorded. -/
theorem under_record_answer (answer : String) {R : String → World → Prop}
    (h : Delivered command i s.log) :
    (record_answer command i answer).under (exec env)
      (courier (Underway command procs gs members start) i) (fun _ v => Delivered command i v.log)
      R s := by
  have hdeliver : ∀ {v : World}, history i v.log = history i s.log → Delivered command i v.log :=
    fun hv => (congrArg (Returned command i) hv).mpr h
  refine under_bind (under_look fun t ht => ⟨⟨id, id, fun _ _ => rfl⟩, fun u hu => ?_⟩)
  refine under_bind ((under_set_lastreturned (hu.2.2.trans ht.2.2)).mono (fun _ v hv => ?_)
    fun _ _ h => h)
  unfold onlyIf
  split
  · exact (under_set_proc_state hv).mono (fun _ _ hx => hdeliver hx) fun _ _ h => h
  · exact fun x hx => hdeliver (hx.2.2.trans hv)

/-- A call that raised sets `exception`. -/
theorem under_command_failed (h : CallFailed command (history i s.log)) :
    (command_failed command i).under (exec env)
      (courier (Underway command procs gs members start) i)
      (fun _ v => v.daq.exception = true) (fun _ v => v.daq.exception = true) s := by
  refine under_bind (under_perform fun t ht => ⟨?_, fun u hu => ?_⟩)
  · have hmute : (Cmd.fail (.command command)).Mute := fun e he j => by
      cases e <;> first | rfl | exact absurd he id
    refine ⟨fun hJ => ⟨hJ.orderly.of_mute hmute, fun _ => ?_, fun _ => rfl, hJ.others⟩, fun _ => rfl,
      fun _ _ => rfl⟩
    have hfailed : CallFailed command t.log := (ht.2.2 ▸ h).of_history
    exact hfailed.mono fun e => List.mem_cons_of_mem _
  · exact under_exception (uses_call trivial) (hu.2.1 rfl)

/-- What sending the command adds to the log. -/
theorem send_log (env : Env) (command : Command) (i : ℕ) (w : World) :
    ∃ new, (exec env (.send command i) w).2.log = new ++ .sent command i :: w.log ∧
      (∀ e ∈ new, ∀ j, e.about j = false) ∧ (exec env (.send command i) w).2.daq = w.daq := by
  simp only [exec]
  split
  · refine ⟨[_], rfl, fun e he j => ?_, rfl⟩
    rw [List.mem_singleton.mp he]
    rfl
  · exact ⟨[], rfl, fun e he => absurd he List.not_mem_nil, rfl⟩

theorem history_of_send (w : World) :
    history i (exec env (.send command i) w).2.log = .sent command i :: history i w.log := by
  obtain ⟨new, hlog, hnew, -⟩ := send_log env command i w
  have habout : (Event.sent command i).about i = true := beq_self_eq_true i
  rw [hlog, history_append, history_eq_nil fun e he => hnew e he i, List.nil_append, history,
    List.filter_cons_of_pos habout, ← history]

/-- A process that is in its turn may be sent the command. -/
theorem guarantee_of_send (hi : i ∈ members)
    (hturn : Underway command procs gs members start s → InTurn command procs gs i s.log) :
    (courier (Underway command procs gs members start) i).guarantee s
      (exec env (.send command i) s).2 := by
  obtain ⟨new, hlog, hnew, hdaq⟩ := send_log env command i s
  have hother : ∀ j, j ≠ i → history j (exec env (.send command i) s).2.log = history j s.log := by
    intro j hj
    have habout : (Event.sent command i).about j = false := beq_false_of_ne hj.symm
    rw [hlog, history_append, history_eq_nil fun e he => hnew e he j, List.nil_append, history,
      List.filter_cons, habout]
    rfl
  refine ⟨fun hJ => ⟨?_, fun he => ?_, fun he => ?_, fun j hj => ?_⟩, fun he => ?_, hother⟩
  · rw [hlog]
    refine Orderly.append ⟨hJ.orderly, fun c j heq => ?_⟩ fun e he c j heq => ?_
    · cases heq
      exact ⟨rfl, hturn hJ⟩
    · have habout := hnew e he j
      rw [heq] at habout
      simp [Event.about] at habout
  · rw [hdaq] at he
    exact (hJ.failed he).mono fun e => mem_log_of_exec env (.send command i)
  · rw [hdaq]
    exact hJ.kept he
  · exact (hother j fun hji => hj (hji ▸ hi)).trans (hJ.others j hj)
  · rw [hdaq]
    exact he

/-- The thread of a process: it does nothing once `exception` is set, and otherwise it sends the
command to its process, whose turn it is. -/
theorem under_process_command (hi : i ∈ members)
    (h : s.daq.exception = true ∨ history i s.log = [] ∧
      ∀ t, Underway command procs gs members start t → history i t.log = [] →
        InTurn command procs gs i t.log) :
    (process_command command i).under (exec env)
      (courier (Underway command procs gs members start) i)
      (fun _ v => v.daq.exception = true ∨ Delivered command i v.log)
      (fun _ v => v.daq.exception = true) s := by
  refine under_bind (under_look fun t ht => ⟨⟨id, id, fun _ _ => rfl⟩, fun u hu => ?_⟩)
  split
  · rename_i hexc
    exact fun v hv => Or.inl (hv.2.1 (hu.2.1 hexc))
  · rename_i hexc
    obtain ⟨hnil, hturn⟩ := h.resolve_left fun hs => hexc (ht.2.1 hs)
    have hu' : history i u.log = [] := hu.2.2.trans (ht.2.2.trans hnil)
    refine under_bind ((under_set_proc_state hu').mono (fun _ v hv => ?_) fun _ _ h => h)
    refine under_bind (under_perform fun x hx => ?_)
    have hx' : history i x.log = [] := hx.2.2.trans hv
    refine ⟨guarantee_of_send hi fun hJ => hturn x hJ hx', fun y hy => ?_⟩
    have hy' : history i y.log = [.sent command i] := by
      rw [hy.2.2, history_of_send, hx']
    refine under_attempt ((under_remote_call hi hy').mono (fun answer z hz => ?_) fun e z hz => ?_)
    · exact (under_record_answer answer hz).mono (fun _ _ h => Or.inr h) fun _ _ h => h
    · exact (under_command_failed hz).mono (fun _ _ h => Or.inl h) fun _ _ h => h

end Threads

/-! ## The groups -/

/-- Processes of one group have different labels: the boot refuses repeated ones. -/
def DistinctLabels (procs : List Procinfo) : Prop :=
  procs.Pairwise fun p q => p.group = q.group → p.label ≠ q.label

/-- What holds between two groups, when those of `done` are through. -/
structure Boundary (command : Command) (procs : List Procinfo) (gs done : List Group)
    (v : World) : Prop where
  /-- The groups take their turns. -/
  orderly : Orderly command procs gs v.log
  /-- There is a reason for `exception`. -/
  failed : v.daq.exception = true → CallFailed command v.log
  /-- Without an exception, exactly the processes of `done` got the command. -/
  progress : v.daq.exception = true ∨
    (∀ i p, procs[i]? = some p → p.group ∈ done → Delivered command i v.log) ∧
      ∀ i, (∀ p, procs[i]? = some p → p.group ∉ done) → history i v.log = []

section Groups

variable {procs : List Procinfo} {gs done rest : List Group} {g : Group}

theorem mem_indices_of {test : Procinfo → Bool} {i : ℕ} :
    i ∈ indices_of procs test ↔ ∃ p, procs[i]? = some p ∧ test p = true := by
  unfold indices_of
  rw [List.mem_filter, List.mem_range]
  constructor
  · rintro ⟨hlt, htest⟩
    refine ⟨procs[i], List.getElem?_eq_getElem hlt, ?_⟩
    simpa [List.getElem?_eq_getElem hlt] using htest
  · rintro ⟨p, hp, htest⟩
    exact ⟨(List.getElem?_eq_some_iff.mp hp).1, by simp [hp, htest]⟩

theorem mem_members {i : ℕ} : i ∈ g.members procs ↔ ∃ p, procs[i]? = some p ∧ p.group = g := by
  simp [Group.members, mem_indices_of]

theorem nodup_members : (g.members procs).Nodup := List.nodup_range.filter _

/-- A dictionary with different keys keeps every thread. -/
theorem mem_kept_threads {labels : List String} (h : labels.Nodup) {k : ℕ}
    (hk : k < labels.length) : k ∈ kept_threads labels := by
  refine List.mem_map.mpr ⟨labels[k], List.mem_eraseDups.mpr (List.getElem_mem hk), ?_⟩
  have hrev : labels.reverse[labels.length - 1 - k]? = some labels[k] := by
    rw [List.getElem?_reverse (by omega)]
    have hidx : labels.length - 1 - (labels.length - 1 - k) = k := by omega
    rw [hidx, List.getElem?_eq_getElem hk]
  obtain ⟨hlt, hget⟩ := List.getElem?_eq_some_iff.mp hrev
  have hidx : labels.reverse.idxOf labels[k] = labels.length - 1 - k := by
    rw [← hget]
    exact (List.nodup_reverse.mpr h).idxOf_getElem _ hlt
  rw [hidx]
  omega

theorem length_labels_of : (labels_of procs (g.members procs)).length = (g.members procs).length := by
  have hsome : ∀ i ∈ g.members procs, procs[i]?.map Procinfo.label =
      some ((procs[i]?.map Procinfo.label).getD "") := by
    intro i hi
    obtain ⟨p, hp, -⟩ := mem_members.mp hi
    simp [hp]
  rw [labels_of, List.filterMap_congr hsome]
  simp

theorem distinct_of_labels (h : DistinctLabels procs) {i j : ℕ} {p q : Procinfo}
    (hp : procs[i]? = some p) (hq : procs[j]? = some q) (hgroup : p.group = q.group)
    (hij : i ≠ j) : p.label ≠ q.label := by
  obtain ⟨hi, rfl⟩ := List.getElem?_eq_some_iff.mp hp
  obtain ⟨hj, rfl⟩ := List.getElem?_eq_some_iff.mp hq
  have hpair := List.pairwise_iff_getElem.mp h
  rcases Nat.lt_or_gt_of_ne hij with hlt | hgt
  · exact hpair i j hi hj hlt hgroup
  · exact (hpair j i hj hi hgt hgroup.symm).symm

theorem nodup_labels_of (h : DistinctLabels procs) : (labels_of procs (g.members procs)).Nodup := by
  refine List.pairwise_filterMap.mpr ?_
  refine List.Pairwise.imp_of_mem (fun {i j} hi hj hij a ha b hb => ?_) nodup_members
  obtain ⟨p, hp, rfl⟩ := mem_members.mp hi
  obtain ⟨q, hq, hgroup⟩ := mem_members.mp hj
  obtain rfl : p.label = a := by simpa [hp] using ha
  obtain rfl : q.label = b := by simpa [hq] using hb
  exact distinct_of_labels h hp hq hgroup.symm hij

/-- One group: when its threads are joined, all its processes got the command. -/
theorem wp_send_to_group (hlabels : DistinctLabels procs) (hsplit : gs = done ++ g :: rest)
    (hnew : g ∉ done) {v : World} (h : Boundary command procs gs done v) :
    (send_to_group command procs g).wp (exec env)
      (fun _ => Boundary command procs gs (done ++ [g]))
      (fun _ u => Orderly command procs gs u.log ∧ CallFailed command u.log) v := by
  refine wp_bind.mpr ((wp_issue .schedule).mpr ?_)
  have hinv : Underway command procs gs (g.members procs) v { v with clock := v.clock + 1 } :=
    ⟨h.orderly, h.failed, id, fun _ _ => rfl⟩
  have hthreads : ∀ (k : ℕ) (p : Control Unit),
      ((g.members procs).map (process_command command))[k]? = some p →
        p.under (exec env)
          ((couriers (Underway command procs gs (g.members procs) v) (g.members procs)
            nodup_members).contract k)
          (fun _ t => ∀ i, (g.members procs)[k]? = some i →
            t.daq.exception = true ∨ Delivered command i t.log)
          (fun _ t => t.daq.exception = true) { v with clock := v.clock + 1 } := by
    intro k p hk
    rw [List.getElem?_map] at hk
    obtain ⟨i, hi, rfl⟩ := Option.map_eq_some_iff.mp hk
    have hmem : i ∈ g.members procs := List.mem_of_getElem? hi
    have hready : ({ v with clock := v.clock + 1 } : World).daq.exception = true ∨
        history i ({ v with clock := v.clock + 1 } : World).log = [] ∧
          ∀ t, Underway command procs gs (g.members procs) v t → history i t.log = [] →
            InTurn command procs gs i t.log := by
      refine h.progress.imp id fun ⟨hdone, hnil⟩ => ?_
      obtain ⟨q, hq, hqg⟩ := mem_members.mp hmem
      refine ⟨hnil i fun p hp => ?_, fun t ht htnil => ⟨htnil, q, done, rest, hq, hqg ▸ hsplit, ?_⟩⟩
      · rw [hq] at hp
        cases hp
        exact hqg ▸ hnew
      · intro i' p hp hpg
        have hother : i' ∉ g.members procs := fun hmem' => by
          obtain ⟨p', hp', rfl⟩ := mem_members.mp hmem'
          rw [hp] at hp'
          cases hp'
          exact hnew hpg
        exact (congrArg (Returned command i') (ht.others i' hother)).mpr (hdone i' p hp hpg)
    have hcontract : (couriers (Underway command procs gs (g.members procs) v) (g.members procs)
        nodup_members).contract k = courier (Underway command procs gs (g.members procs) v) i := by
      simp [couriers, hi]
    rw [hcontract]
    refine (under_process_command hmem hready).mono (fun _ t ht => ?_) fun _ _ ht => ht
    intro i' hi'
    rw [hi] at hi'
    cases hi'
    exact ht
  refine (wp_parallel hinv hthreads).mono (fun _ u hu => ?_) fun _ u hu => ?_
  · obtain ⟨hinv', hall⟩ := hu
    refine ⟨hinv'.orderly, hinv'.failed, ?_⟩
    by_cases hexc : u.daq.exception = true
    · exact Or.inl hexc
    · obtain ⟨hdone, hnil⟩ := h.progress.resolve_left fun he => hexc (hinv'.kept he)
      refine Or.inr ⟨fun i p hp hpg => ?_, fun i hi => ?_⟩
      · by_cases hmem : i ∈ g.members procs
        · obtain ⟨k, hk, rfl⟩ := List.getElem_of_mem hmem
          have hnodup : (labels_of procs (g.members procs)).Nodup := nodup_labels_of hlabels
          have hlt : k < (labels_of procs (g.members procs)).length := length_labels_of ▸ hk
          exact (hall k (mem_kept_threads hnodup hlt) (by simpa using hk) _ (List.getElem?_eq_getElem hk)).resolve_left hexc
        · have hpdone : p.group ∈ done := by
            rcases List.mem_append.mp hpg with hpdone | hpg
            · exact hpdone
            · exact absurd (mem_members.mpr ⟨p, hp, List.mem_singleton.mp hpg⟩) hmem
          exact (congrArg (Returned command i) (hinv'.others i hmem)).mpr (hdone i p hp hpdone)
      · have hmem : i ∉ g.members procs := fun hmem => by
          obtain ⟨p, hp, rfl⟩ := mem_members.mp hmem
          exact hi p hp (List.mem_append_right _ List.mem_cons_self)
        exact (hinv'.others i hmem).trans
          (hnil i fun p hp hpg => hi p hp (List.mem_append_left _ hpg))
  · obtain ⟨hinv', -, -, hexc⟩ := hu
    exact ⟨hinv'.orderly, hinv'.failed hexc⟩

/-- All groups, one after the other. -/
theorem wp_send_to_all (hlabels : DistinctLabels procs) (hnodup : gs.Nodup)
    (hsplit : gs = done ++ rest) {v : World} (h : Boundary command procs gs done v) :
    (forEach (send_to_group command procs) rest).wp (exec env)
      (fun _ => Boundary command procs gs gs)
      (fun _ u => Orderly command procs gs u.log ∧ CallFailed command u.log) v := by
  induction rest generalizing done v with
  | nil =>
    rw [List.append_nil] at hsplit
    subst hsplit
    exact h
  | cons g rest ih =>
    have hnew : g ∉ done := by
      rw [hsplit] at hnodup
      exact fun hg => (List.nodup_append.mp hnodup).2.2 g hg g List.mem_cons_self rfl
    refine wp_bind.mpr ((wp_send_to_group hlabels hsplit hnew h).mono (fun _ u hu => ?_)
      fun _ _ hu => hu)
    exact ih (by rw [hsplit, List.append_assoc]; rfl) hu

end Groups

/-! ## The command as a whole -/

/-- The event of sending the command to process `i`. -/
def Event.sends (command : Command) (i : ℕ) : Event → Bool
  | .sent c j => c == command && j == i
  | _ => false

/-- How the log of a command looks like, newest event first. -/
structure DeliveredInOrder (command : Command) (procs : List Procinfo)
    (subsystems : List (String × Subsystem)) (log : List Event) : Prop where
  /-- No process is sent the command twice. -/
  once : ∀ i, log.countP (Event.sends command i) ≤ 1
  /-- If no call raises, each process is sent it once. -/
  all : ¬ CallFailed command log → ∀ i < procs.length, log.countP (Event.sends command i) = 1
  /-- What precedes a process got the command before it: the calls have returned. -/
  precedes : ∀ newer older i j p q, log = newer ++ .sent command j :: older →
    procs[i]? = some p → procs[j]? = some q → Precedes command subsystems p.group q.group →
      Delivered command i older
  /-- The groups take their turns, in an order with every process: when a process of one is sent
  the command, the calls to all processes of the groups before have returned, and none of these
  calls has raised. -/
  groups : ∃ gs : List Group, gs.Nodup ∧ (∀ p ∈ procs, p.group ∈ gs) ∧
    ∀ newer older j, log = newer ++ .sent command j :: older →
      ∃ q done rest, procs[j]? = some q ∧ gs = done ++ q.group :: rest ∧
        ∀ i p, procs[i]? = some p → p.group ∈ done →
          Delivered command i older ∧ ¬ CallRaised command i older

section Whole

variable {procs : List Procinfo} {subsystems : List (String × Subsystem)} {gs : List Group}
  {ordered : List String} {log : List Event}

/-- A process that got the command was called without an exception. -/
theorem Delivered.not_raised {i : ℕ} (h : Delivered command i log) :
    ¬ CallRaised command i log := by
  rintro ⟨e, hmem⟩
  have hhist : Event.outcome (.process (.command command) i) (.error e) ∈ history i log ∨
      Event.outcome (.process .retry_start i) (.error e) ∈ history i log :=
    hmem.imp (fun h => List.mem_filter.mpr ⟨h, beq_self_eq_true i⟩)
      fun h => List.mem_filter.mpr ⟨h, beq_self_eq_true i⟩
  unfold Delivered at h
  cases hreturned : history i log with
  | nil => simp [hreturned] at hhist
  | cons e' rest =>
    rw [hreturned] at h hhist
    cases h <;> simp at hhist

/-- A process without a history was not sent the command. -/
theorem countP_sends_of_nil {i : ℕ} (h : history i log = []) :
    log.countP (Event.sends command i) = 0 := by
  refine List.countP_eq_zero.mpr fun e he hsends => ?_
  have habout := List.filter_eq_nil_iff.mp h e he
  cases e with
  | sent c j => exact habout (Bool.and_eq_true _ _ ▸ hsends).2
  | _ => exact Bool.false_ne_true hsends

/-- In an orderly log no process is sent the command twice. -/
theorem Orderly.countP_le (h : Orderly command procs gs log) (i : ℕ) :
    log.countP (Event.sends command i) ≤ 1 := by
  induction log with
  | nil => exact Nat.zero_le 1
  | cons e older ih =>
    rw [List.countP_cons]
    split
    · rename_i hsends
      cases e with
      | sent c j =>
        obtain ⟨-, hj⟩ := Bool.and_eq_true _ _ ▸ hsends
        obtain rfl : j = i := beq_iff_eq.mp hj
        rw [countP_sends_of_nil (h.2 c j rfl).2.unsent]
      | _ => exact absurd hsends Bool.false_ne_true
    · exact ih h.1

theorem Delivered.countP_pos {i : ℕ} (h : Delivered command i log) :
    0 < log.countP (Event.sends command i) := by
  have hmem : Event.sent command i ∈ history i log := by
    unfold Delivered at h
    cases hreturned : history i log with
    | nil => rw [hreturned] at h; cases h
    | cons e' rest =>
      rw [hreturned] at h
      cases h <;> simp
  exact List.countP_pos_iff.mpr ⟨_, List.mem_of_mem_filter hmem, by simp [Event.sends]⟩

/-- What `do_command` makes of the log. -/
structure Sent (command : Command) (procs : List Procinfo) (gs : List Group) (v : World) :
    Prop where
  /-- The groups take their turns. -/
  orderly : Orderly command procs gs v.log
  /-- A call raised, or every process got the command. -/
  through : CallFailed command v.log ∨
    ∀ i p, procs[i]? = some p → Delivered command i v.log

theorem Sent.of_mute {c : Cmd} (hc : c.Mute) {v : World} (h : Sent command procs gs v) :
    Sent command procs gs (exec env c v).2 where
  orderly := h.orderly.of_mute hc
  through := h.through.imp (fun hf => hf.mono fun _ => mem_log_of_exec env c) fun hall i p hp =>
    (congrArg (Returned command i) (history_of_mute hc i v)).mpr (hall i p hp)

theorem Completing.mute {c : Cmd} (hc : Completing command c) : c.Mute := by
  rcases hc.completes_or_harmless with ⟨t, rfl, -⟩ | hharmless
  · intro e he i
    cases e <;> first | rfl | exact absurd he id
  · exact hharmless.mute

/-- When all groups are through, what is left of `do_command` sends nothing. -/
theorem Boundary.sent {v : World} (h : Boundary command procs gs gs v)
    (hall : ∀ p ∈ procs, p.group ∈ gs) : Sent command procs gs v where
  orderly := h.orderly
  through := h.progress.imp h.failed fun hdone i p hp =>
    hdone.1 i p hp (hall p (List.mem_of_getElem? hp))

theorem send_to_groups_eq {self : DAQInterface}
    (h : subsystems_in_order command self.vars.subsystems = some ordered) :
    send_to_groups command self =
      forEach (send_to_group command self.procinfos)
        (groups_in_order command self.procinfos ordered) := by
  rw [send_to_groups, h]

/-- Before the first group. -/
theorem Boundary.start {v : World} (hlog : v.log = []) (hexc : v.daq.exception = false) :
    Boundary command procs gs [] v := by
  refine ⟨hlog ▸ trivial, fun h => absurd h (by simp [hexc]),
    Or.inr ⟨fun _ _ _ h => absurd h List.not_mem_nil, fun i _ => ?_⟩⟩
  rw [hlog]
  rfl

/-- The command, for the attributes it looked at. -/
theorem wp_send_and_finish {self : DAQInterface} {v : World}
    (hlabels : DistinctLabels self.procinfos)
    (hdecl : ∀ p ∈ self.procinfos, p.subsystem ∈ self.vars.subsystems.map Prod.fst)
    (hord : subsystems_in_order command self.vars.subsystems = some ordered)
    (hv : Boundary command self.procinfos (groups_in_order command self.procinfos ordered) [] v) :
    (send_to_groups command self >>= fun _ => finish_command command self).wp (exec env)
      (fun _ => Sent command self.procinfos (groups_in_order command self.procinfos ordered))
      (fun _ => Sent command self.procinfos (groups_in_order command self.procinfos ordered)) v := by
  have hall : ∀ p ∈ self.procinfos, p.group ∈ groups_in_order command self.procinfos ordered :=
    fun p hp => mem_groups hord hp (hdecl p hp)
  have hnodup : (groups_in_order command self.procinfos ordered).Nodup :=
    (groups_pairwise hord).imp fun h => h.1
  rw [send_to_groups_eq hord]
  refine wp_bind.mpr ((wp_send_to_all hlabels hnodup (List.nil_append _).symm hv).mono
    (fun _ v hv => ?_) fun _ v hv => ⟨hv.1, Or.inl hv.2⟩)
  exact wp_of_uses (uses_finish_command command self) (fun c hc _ h => h.of_mute hc.mute)
    (hv.sent hall)

theorem wp_do_command {w : World} (hlog : w.log = []) (hexc : w.daq.exception = false)
    (hlabels : DistinctLabels w.daq.procinfos)
    (hdecl : ∀ p ∈ w.daq.procinfos, p.subsystem ∈ w.daq.vars.subsystems.map Prod.fst)
    (hord : subsystems_in_order command w.daq.vars.subsystems = some ordered) :
    (do_command command).wp (exec env)
      (fun _ => Sent command w.daq.procinfos (groups_in_order command w.daq.procinfos ordered))
      (fun _ => Sent command w.daq.procinfos (groups_in_order command w.daq.procinfos ordered))
      w :=
  wp_bind.mpr ((wp_issue (.assign _)).mpr (wp_bind.mpr (wp_look.mpr
    (wp_send_and_finish hlabels hdecl hord (Boundary.start hlog hexc)))))

/-- In terms of the log of the whole command. -/
theorem Sent.deliveredInOrder {v : World}
    (h : Sent command procs (groups_in_order command procs ordered) v)
    (hdecl : ∀ p ∈ procs, p.subsystem ∈ subsystems.map Prod.fst)
    (hord : subsystems_in_order command subsystems = some ordered) :
    DeliveredInOrder command procs subsystems v.log where
  once := h.orderly.countP_le
  all hfailed i hi := by
    have hdelivered := h.through.resolve_left hfailed i procs[i] (List.getElem?_eq_getElem hi)
    exact Nat.le_antisymm (h.orderly.countP_le i) hdelivered.countP_pos
  precedes newer older i j p q hlog hp hq hprec := by
    obtain ⟨q', done, rest, hq', hsplit, hdone⟩ := (hlog ▸ h.orderly).inTurn.place
    rw [hq] at hq'
    cases hq'
    have hq := List.mem_of_getElem? hq
    have hp' := List.mem_of_getElem? hp
    have hself : ¬ Precedes command subsystems q.group q.group :=
      not_precedes_self hord ((subsystems_in_order_spec hord).1 _ (hdecl q hq))
    exact hdone i p hp (mem_of_precedes (groups_pairwise hord) hsplit
      (mem_groups hord hp' (hdecl p hp')) hprec hself)
  groups := by
    refine ⟨groups_in_order command procs ordered, (groups_pairwise hord).imp fun h => h.1,
      fun p hp => mem_groups hord hp (hdecl p hp), fun newer older j hlog => ?_⟩
    obtain ⟨q, done, rest, hq, hsplit, hdone⟩ := (hlog ▸ h.orderly).inTurn.place
    exact ⟨q, done, rest, hq, hsplit, fun i p hp hpg =>
      ⟨hdone i p hp hpg, (hdone i p hp hpg).not_raised⟩⟩

end Whole

/-! ## The command ends -/

theorem ends_set_lastreturned (i : ℕ) (answer : String) : (set_lastreturned i answer).Ends :=
  ends_perform _

theorem ends_process_command (command : Command) (i : ℕ) : (process_command command i).Ends := by
  have hremote : (remote_call command i).Ends := by
    refine ends_bind (ends_call _) fun answer => ends_bind (ends_perform _) fun _ => ?_
    split
    · exact ends_bind (ends_call _) fun again => ends_bind (ends_perform _) fun _ => trivial
    · trivial
  refine ends_bind (ends_perform _) fun self => ?_
  split
  · trivial
  · refine ends_bind (ends_perform _) fun _ => ends_bind (ends_perform _) fun _ =>
      ends_attempt hremote (fun _ => ends_bind (ends_perform _) fun _ => ends_call _) fun answer => ?_
    exact ends_bind (ends_perform _) fun _ => ends_bind (ends_perform _) fun _ =>
      ends_onlyIf (ends_perform _)

theorem ends_check_proc_transition (target_state : String) :
    (check_proc_transition target_state).Ends := by
  refine ends_bind (ends_perform _) fun self => ends_bind (ends_forEach fun entry _ => ?_) fun _ =>
    ends_onlyIf trivial
  exact ends_onlyIf (ends_bind (ends_onlyIf (ends_forEach fun _ _ => ends_perform _)) fun _ =>
    ends_bind (ends_perform _) fun _ => ends_bind (ends_call _) fun _ => ends_onlyIf (ends_call _))

theorem ends_finish_command (command : Command) (self : DAQInterface) :
    (finish_command command self).Ends := by
  refine ends_bind (ends_perform _) fun now => ends_bind (ends_onlyIf trivial) fun _ =>
    ends_bind (ends_perform _) fun _ => ends_bind ?_ fun _ =>
      ends_attempt (ends_check_proc_transition _) (fun _ => trivial) fun _ => ?_
  · unfold check_times
    split <;> trivial
  · split
    · exact ends_perform _
    · trivial

theorem ends_send_and_finish {command : Command} {self : DAQInterface} {ordered : List String}
    (hord : subsystems_in_order command self.vars.subsystems = some ordered) :
    (send_to_groups command self >>= fun _ => finish_command command self).Ends := by
  rw [send_to_groups_eq hord]
  refine ends_bind (ends_forEach fun g _ => ends_bind (ends_perform _) fun sched =>
    ends_parallel fun p hp => ?_) fun _ => ends_finish_command command _
  obtain ⟨i, -, rfl⟩ := List.mem_map.mp hp
  exact ends_process_command command i

/-- Where the loop that orders the subsystems ends, the command ends. -/
theorem run_do_command_ne_hung {command : Command} {w : World} {ordered : List String}
    (hord : subsystems_in_order command w.daq.vars.subsystems = some ordered) :
    (run (exec env) (do_command command) w).1 ≠ .hung := by
  rw [do_command, run_bind]
  exact (ends_send_and_finish hord).run_ne_hung _

/-- A run of two BoardReaders that feed an EventBuilder in another subsystem. -/
def running_chain : World where
  daq := { initial "daqint" with
    state := "stopping"
    procinfos := [Procinfo.new .EventBuilder "EventBuilder1" "2",
      Procinfo.new .BoardReader "component01" "1", Procinfo.new .BoardReader "component02" "1"]
    vars := { (initial "daqint").vars with
      subsystems := [("2", ⟨["1"], none, true⟩), ("1", ⟨[], some "2", true⟩)] } }
  clock := 0
  log := []

end DaqInterface
