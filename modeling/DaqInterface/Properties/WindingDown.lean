import DaqInterface.Program.Ledger
import DaqInterface.Properties.Delivery

/-!
# How a recovery winds the processes down

A recovery has a thread for each process, which looks for its pid, asks for its state, and stops and
shuts it down as its state says.  `next_call` is what comes next in the history of a process.
Whatever the processes answer and whatever else goes on, the threads do this and nothing else, a
process is only approached when all those before it are through, and the processes are only killed
when all of them are (`wound_down_in_order`).
-/

namespace DaqInterface

open Program

variable {env : Env}

/-! ## The history of a process -/

/-- What a recovery has to do with process `i`. -/
def Event.winds (i : ℕ) : Event → Bool
  | .outcome (.probe (.get_pid_for_process j)) _ => j == i
  | .outcome (.process .status j) _ => j == i
  | .outcome (.process (.recover_command _) j) _ => j == i
  | _ => false

/-- The log, and what it says about the winding down of a process. -/
def winding : Ledger World Event where
  log := World.log
  about := Event.winds

/-- An answer to a command with which a recovery goes on. -/
def Accepts (command : Command) (answer : String) : Prop :=
  answer = "Success" ∨ answer = target_states command

instance (command : Command) (answer : String) : Decidable (Accepts command answer) :=
  inferInstanceAs (Decidable (_ ∨ _))

/-- A process that is ready is shut down. -/
def shutdown_call (i : ℕ) (state : String) : Option Op :=
  if state = "Ready" then some (.process (.recover_command .Shutdown) i) else none

/-- What a recovery does next with process `i`, by what it did with it before. -/
def next_call (i : ℕ) : List Event → Option Op
  | [] => some (.probe (.get_pid_for_process i))
  | .outcome (.probe (.get_pid_for_process _)) (.ok found) :: _ =>
    if found = true then some (.process .status i) else none
  -- the state that the process has at first
  | [.outcome (.process .status _) (.ok state), _] =>
    if state = "Running" then some (.process (.recover_command .Stop) i) else shutdown_call i state
  -- the state that it has when it was stopped
  | .outcome (.process .status _) (.ok state) :: _ => shutdown_call i state
  | .outcome (.process (.recover_command .Stop) _) (.ok answer) :: _ =>
    if Accepts .Stop answer then some (.process .status i) else none
  | _ => none

/-- A recovery has done with process `i` all it does with it. -/
def Through (i : ℕ) (log : List Event) : Prop := next_call i (winding.said i log) = none

/-- The processes are killed. -/
def Event.kills : Event → Prop
  | .outcome (.outside .kill_procs) _ => True
  | _ => False

/-- An event has to do with one process at most. -/
theorem Event.winds_unique {e : Event} {i j : ℕ} (hi : e.winds i = true) (hj : e.winds j = true) :
    i = j := by
  unfold Event.winds at hi hj
  split at hi <;> first | exact absurd hi Bool.false_ne_true | simp_all

theorem Event.kills.not_winds {e : Event} (h : e.kills) (i : ℕ) : e.winds i = false := by
  unfold Event.kills at h
  split at h
  · rfl
  · exact absurd h id

/-- The type and the priority of a process: a recovery goes through them one after the other. -/
def Procinfo.round (p : Procinfo) : ProcType × ℕ := (p.name, p.priority)

/-- The types in the order in which a recovery winds them down. -/
def recovery_order : List ProcType :=
  [.BoardReader, .EventBuilder, .DataLogger, .Dispatcher, .RoutingManager]

/-- A recovery comes to one type and priority before it comes to another one. -/
def WoundBefore (g g' : ProcType × ℕ) : Prop :=
  recovery_order.idxOf g.1 < recovery_order.idxOf g'.1 ∨ g.1 = g'.1 ∧ g'.2 < g.2

/-- An event may come behind others: a process is only approached for what is next with it, and when
those before it are through; the processes are only killed when all are through. -/
structure Due (rounds : List (ProcType × ℕ)) (older : List Event) (e : Event) : Prop where
  /-- It is the result of what is next with its process. -/
  next : ∀ i, e.winds i = true → ∃ op result, e = .outcome op result ∧
    next_call i (winding.said i older) = some op
  /-- It is the turn of the process. -/
  turn : ∀ i, e.winds i = true → ∃ g, rounds[i]? = some g ∧
    ∀ (j : ℕ) g', rounds[j]? = some g' → WoundBefore g' g → Through j older
  /-- Nobody is killed before. -/
  last : e.kills → ∀ i < rounds.length, Through i older

/-- An event that has nothing to do with any process. -/
def Event.Apart (e : Event) : Prop := (∀ i, e.winds i = false) ∧ ¬ e.kills

variable {rounds : List (ProcType × ℕ)} {older : List Event} {e : Event}

theorem Event.Apart.due (h : e.Apart) : Due rounds older e where
  next i hi := absurd ((h.1 i).symm.trans hi) Bool.false_ne_true
  turn i hi := absurd ((h.1 i).symm.trans hi) Bool.false_ne_true
  last hk := absurd hk h.2

theorem Event.FromOutside.apart (h : e.FromOutside) : e.Apart := by
  cases e <;> first | exact absurd h id | exact ⟨fun _ => rfl, id⟩

theorem said_append_of_apart {new old : List Event} (h : ∀ e ∈ new, e.Apart) (i : ℕ) :
    winding.said i (new ++ old) = winding.said i old :=
  Ledger.said_append_of_not_about fun e he => (h e he).1 i

theorem Due.append {new old : List Event} (h : Chained (Due rounds) old)
    (hnew : ∀ e ∈ new, e.Apart) : Chained (Due rounds) (new ++ old) :=
  h.append fun e he _ => (hnew e he).due

/-- What is said about a process follows what is next with it. -/
theorem chained_next_call {log : List Event} (h : Chained (Due rounds) log) (i : ℕ) :
    Chained (fun older e => ∃ op result, e = .outcome op result ∧ next_call i older = some op)
      (winding.said i log) := by
  induction log with
  | nil => trivial
  | cons e log ih =>
    cases hwinds : e.winds i with
    | true =>
      rw [Ledger.said_cons_of_about hwinds]
      exact ⟨h.1.next i hwinds, ih h.2⟩
    | false =>
      rw [Ledger.said_cons_of_not_about hwinds]
      exact ih h.2

/-- Whether a recovery is through with a process depends on what is said about it. -/
theorem Through.of_said_eq {log : List Event} {i : ℕ} (h : Through i older)
    (hsaid : winding.said i log = winding.said i older) : Through i log :=
  (congrArg (next_call i) hsaid).trans h

/-- A recovery that is through with a process leaves it alone. -/
theorem Through.left_alone {newer : List Event} (h : Chained (Due rounds) (newer ++ older)) {i : ℕ}
    (hthrough : Through i older) : winding.said i newer = [] := by
  refine Ledger.said_eq_nil_of_through (chained_next_call h i) ?_
  rintro e ⟨op, result, -, hnext⟩
  cases hthrough.symm.trans hnext

/-! ## The other threads -/

theorem assign_documents_rounds (procs : List Procinfo) (documents origin : List String) :
    (assign_documents procs documents origin).map Procinfo.round = procs.map Procinfo.round := by
  refine List.ext_getElem (by simp [assign_documents]) fun i h₁ h₂ => ?_
  simp only [assign_documents, List.getElem_map, List.getElem_mapIdx]
  split <;> rfl

theorem prep_step_rounds (files : ConfigTree × Tools) (boot : ℕ) (self : DAQInterface) :
    (prep_step files boot self).procinfos.map Procinfo.round =
      self.procinfos.map Procinfo.round := by
  unfold prep_step
  split
  · rfl
  · split
    · rfl
    · dsimp only
      unfold PrepThread.advance
      split
      · rfl
      · split
        · exact assign_documents_rounds _ _ _
        · rfl
      · rfl
      · rfl

/-- No other thread changes the types and priorities of the processes. -/
theorem settle_rounds (env : Env) (w : World) :
    (settle env w).daq.procinfos.map Procinfo.round = w.daq.procinfos.map Procinfo.round := by
  have hstep : ∀ files (i : Interference) (v : World),
      v.daq.procinfos.map Procinfo.round = w.daq.procinfos.map Procinfo.round →
        (i.apply files v).daq.procinfos.map Procinfo.round =
          w.daq.procinfos.map Procinfo.round := by
    intro files i v hv
    cases i with
    | state_change name requested state_args =>
      by_cases hname : name = v.daq.name
      · by_cases hu : v.daq.toComponent.unable requested = true
        · rwa [apply_state_change_rejected hname hu]
        · rwa [apply_state_change_accepted hname hu]
      · rwa [apply_state_change_other hname]
    | prepare boot => exact (prep_step_rounds files boot v.daq).trans hv
    | _ => exact hv
  exact settle_preserves (fun files i v hv => hstep files i v hv) rfl

theorem modify_rounds {procs : List Procinfo} {i : ℕ} {f : Procinfo → Procinfo}
    (hf : ∀ p, (f p).round = p.round) :
    (procs.modify i f).map Procinfo.round = procs.map Procinfo.round := by
  refine List.ext_getElem (by simp) fun j h₁ h₂ => ?_
  simp only [List.getElem_map, List.getElem_modify]
  split
  · exact hf _
  · rfl

/-- Assignments to what is known of the states of the processes. -/
def Notes : Cmd → Prop
  | .processes (.state _ _) => True
  | .processes (.lastreturned _ _) => True
  | _ => False

/-! ## The threads of a round -/

/-- What holds while the threads of some processes run that were started in `start`. -/
structure WindingDown (rounds : List (ProcType × ℕ)) (members : List ℕ) (start v : World) :
    Prop where
  /-- The processes are the same. -/
  same : v.daq.procinfos.map Procinfo.round = rounds
  /-- Every event may be where it is. -/
  due : Chained (Due rounds) v.log
  /-- Nothing is done with other processes. -/
  others : ∀ i ∉ members, winding.history i v = winding.history i start

section Threads

variable {members : List ℕ} {start s : World} {i : ℕ}

theorem guarantee_of_note {c : Cmd} (hc : Notes c) :
    (winding.keeper (WindingDown rounds members start) i).guarantee s (exec env c s).2 := by
  cases c with
  | processes u =>
    have hsame : ∀ j, winding.history j (exec env (.processes u) s).2 = winding.history j s :=
      fun _ => rfl
    refine ⟨fun h => ⟨?_, h.due, fun j hj => (hsame j).trans (h.others j hj)⟩, fun j _ => hsame j⟩
    refine Eq.trans ?_ h.same
    cases u with
    | state j state => exact modify_rounds fun _ => rfl
    | lastreturned j answer => exact modify_rounds fun _ => rfl
    | _ => exact absurd hc id
  | _ => exact absurd hc id

/-- A note keeps the history of its process. -/
theorem under_note {c : Cmd} (hc : Notes c) {h : List Event} {R : String → World → Prop}
    (hs : winding.history i s = h) :
    (issue c).under (exec env) (winding.keeper (WindingDown rounds members start) i)
      (fun _ v => winding.history i v = h) R s := by
  refine under_perform fun t ht => ⟨guarantee_of_note hc, fun u hu => ?_⟩
  have hsame : winding.history i (exec env c t).2 = winding.history i t := by
    cases c with
    | processes u => rfl
    | _ => exact absurd hc id
  exact hu.2.trans (hsame.trans (ht.2.trans hs))

theorem under_note_state {j : ℕ} {state : String} {h : List Event} {R : String → World → Prop}
    (hs : winding.history i s = h) :
    (set_proc_state j state).under (exec env) (winding.keeper (WindingDown rounds members start) i)
      (fun _ v => winding.history i v = h) R s :=
  under_note (c := .processes (.state j state)) trivial hs

theorem under_note_answer {j : ℕ} {answer : String} {h : List Event}
    {R : String → World → Prop} (hs : winding.history i s = h) :
    (set_lastreturned j answer).under (exec env)
      (winding.keeper (WindingDown rounds members start) i)
      (fun _ v => winding.history i v = h) R s :=
  under_note (c := .processes (.lastreturned j answer)) trivial hs

/-- The result of a call is said about its process alone. -/
theorem history_of_wind_call {op : Op}
    (hop : ∀ result j, (Event.outcome op result).winds j = (i == j)) (j : ℕ) (w : World) :
    winding.history j (called env op w) =
      if i = j then .outcome op (env.outcome w.clock op) :: winding.history j w
      else winding.history j w := by
  obtain ⟨new, hlog, hnew⟩ := called_log env op w
  have hsaid : winding.said j (new ++ w.log) = winding.history j w :=
    said_append_of_apart (fun e he => (hnew e he).apart) j
  have hhistory : winding.history j (called env op w) =
      winding.said j (.outcome op (env.outcome w.clock op) :: (new ++ w.log)) :=
    congrArg (winding.said j) hlog
  have hwinds : winding.about j (.outcome op (env.outcome w.clock op)) = (i == j) := hop _ _
  rw [hhistory]
  split_ifs with hij
  · rw [Ledger.said_cons_of_about (hwinds.trans (beq_iff_eq.mpr hij)), hsaid]
  · rw [Ledger.said_cons_of_not_about (hwinds.trans (beq_false_of_ne hij)), hsaid]

/-- It is the turn of a process. -/
def Turn (rounds : List (ProcType × ℕ)) (members : List ℕ) (start : World) (i : ℕ) : Prop :=
  i ∈ members ∧ ∃ g, rounds[i]? = some g ∧ ∀ (j : ℕ) g', rounds[j]? = some g' → WoundBefore g' g →
    j ∉ members ∧ Through j start.log

/-- A call that is next with a process whose turn it is. -/
theorem guarantee_of_wind_call {op : Op}
    (hop : ∀ result j, (Event.outcome op result).winds j = (i == j))
    (hkill : ∀ result, ¬ (Event.outcome op result).kills) (hturn : Turn rounds members start i)
    (hnext : next_call i (winding.history i s) = some op) :
    (winding.keeper (WindingDown rounds members start) i).guarantee s (called env op s) := by
  obtain ⟨hmem, g, hg, hearlier⟩ := hturn
  have hother : ∀ j, j ≠ i → winding.history j (called env op s) = winding.history j s :=
    fun j hj => by rw [history_of_wind_call hop, if_neg hj.symm]
  refine ⟨fun h => ⟨?_, ?_, fun j hj => ?_⟩, hother⟩
  · exact (settle_rounds env s).trans h.same
  · obtain ⟨new, hlog, hnew⟩ := called_log env op s
    have hapart : ∀ e ∈ new, e.Apart := fun e he => (hnew e he).apart
    rw [hlog]
    refine ⟨⟨fun j hj => ?_, fun j hj => ?_, fun hk => absurd hk (hkill _)⟩,
      Due.append h.due hapart⟩
    · obtain rfl : i = j := beq_iff_eq.mp ((hop _ j).symm.trans hj)
      exact ⟨op, _, rfl, (congrArg (next_call i) (said_append_of_apart hapart i)).trans hnext⟩
    · obtain rfl : i = j := beq_iff_eq.mp ((hop _ j).symm.trans hj)
      refine ⟨g, hg, fun k g' hk hbefore => ?_⟩
      obtain ⟨hnot, hthrough⟩ := hearlier k g' hk hbefore
      have hsaid : winding.said k (new ++ s.log) = winding.said k start.log :=
        (said_append_of_apart hapart k).trans (h.others k hnot)
      exact hthrough.of_said_eq hsaid
  · exact (hother j fun hji => hj (hji ▸ hmem)).trans (h.others j hj)

/-- The rule of calls that are next: their results go to the history. -/
theorem under_wind_call {op : Op} {h : List Event}
    (hop : ∀ result j, (Event.outcome op result).winds j = (i == j))
    (hkill : ∀ result, ¬ (Event.outcome op result).kills) (hturn : Turn rounds members start i)
    (hs : winding.history i s = h) (hnext : next_call i h = some op) :
    (call op).under (exec env) (winding.keeper (WindingDown rounds members start) i)
      (fun answer v => winding.history i v = .outcome op (.ok answer) :: h)
      (fun e v => winding.history i v = .outcome op (.error e) :: h) s := by
  refine under_call op fun t ht => ?_
  have ht' : winding.history i t = h := ht.2.trans hs
  refine ⟨guarantee_of_wind_call hop hkill hturn (ht' ▸ hnext), fun u hu => ?_⟩
  have hcall : winding.history i u = .outcome op (env.outcome t.clock op) :: h := by
    rw [hu.2, history_of_wind_call hop, if_pos rfl, ht']
  exact ⟨fun answer hout => hout ▸ hcall, fun e hout => hout ▸ hcall⟩

/-- The thread of a process is through with it. -/
def EndsThrough (env : Env) (rounds : List (ProcType × ℕ)) (members : List ℕ) (start : World)
    (i : ℕ) (p : Control Unit) (s : World) : Prop :=
  p.under (exec env) (winding.keeper (WindingDown rounds members start) i)
    (fun _ v => next_call i (winding.history i v) = none) (fun _ _ => True) s

theorem ends_of_through {h : List Event} (hs : winding.history i s = h)
    (hend : next_call i h = none) : EndsThrough env rounds members start i (.ret ()) s :=
  fun _ ht => (congrArg (next_call i) (ht.2.trans hs)).trans hend

/-- A command of the recovery: what is done behind it, and what is next if it fails. -/
theorem under_send_recover_command {command : Command} {h : List Event}
    (hturn : Turn rounds members start i) (hs : winding.history i s = h)
    (hnext : next_call i h = some (.process (.recover_command command) i)) :
    (send_recover_command i command).under (exec env)
      (winding.keeper (WindingDown rounds members start) i)
      (fun _ v => ∃ answer, Accepts command answer ∧
        winding.history i v = .outcome (.process (.recover_command command) i) (.ok answer) :: h)
      (fun _ v => ∃ result : Except String String,
        winding.history i v = .outcome (.process (.recover_command command) i) result :: h ∧
          ∀ answer, result = .ok answer → ¬ Accepts command answer) s := by
  refine under_bind ((under_note_state hs).mono (fun _ t ht => ?_) fun _ _ h => h)
  refine under_bind ((under_wind_call (fun _ _ => rfl) (fun _ => id) hturn ht hnext).mono
    (fun answer u hu => ?_) fun e u hu => ⟨.error e, hu, fun _ heq => by cases heq⟩)
  refine under_bind ((under_note_answer hu).mono (fun _ v hv => ?_) fun _ _ h => h)
  split
  · rename_i haccepts
    exact (under_note_state hv).mono (fun _ x hx => ⟨answer, haccepts, hx⟩) fun _ _ h => h
  · rename_i hnot
    refine fun x hx => ⟨.ok answer, hx.2.trans hv, fun answer' heq => ?_⟩
    cases heq
    exact hnot

/-- A question for the state. -/
theorem under_with_status {rest : String → Control Unit} {h : List Event}
    (hturn : Turn rounds members start i) (hs : winding.history i s = h)
    (hnext : next_call i h = some (.process .status i))
    (hrest : ∀ state v, winding.history i v = .outcome (.process .status i) (.ok state) :: h →
      EndsThrough env rounds members start i (rest state) v) :
    EndsThrough env rounds members start i (with_status i rest) s := by
  refine under_attempt ((under_wind_call (fun _ _ => rfl) (fun _ => id) hturn hs hnext).mono
    (fun state t ht => ?_) fun e t ht => ends_of_through ht rfl)
  refine under_bind ((under_note_answer ht).mono (fun _ u hu => ?_) fun _ _ h => h)
  exact under_bind ((under_note_state hu).mono (fun _ v hv => hrest state v hv) fun _ _ h => h)

theorem under_shutdown_if_ready {state : String} {h : List Event}
    (hturn : Turn rounds members start i) (hs : winding.history i s = h)
    (hnext : next_call i h = shutdown_call i state) :
    EndsThrough env rounds members start i (shutdown_if_ready i state) s := by
  unfold shutdown_if_ready
  by_cases hready : state = "Ready"
  · rw [if_pos hready]
    have hcall : next_call i h = some (.process (.recover_command .Shutdown) i) :=
      hnext.trans (if_pos hready)
    refine under_attempt ((under_send_recover_command hturn hs hcall).mono ?_ ?_)
    · rintro _ v ⟨answer, -, hv⟩
      exact ends_of_through hv rfl
    · rintro e v ⟨result, hv, -⟩
      exact ends_of_through hv (by cases result <;> rfl)
  · rw [if_neg hready]
    exact ends_of_through hs (hnext.trans (if_neg hready))

/-- The thread of a process does with it what is next until it is through. -/
theorem under_attempted_stop (hturn : Turn rounds members start i)
    (hs : winding.history i s = []) :
    EndsThrough env rounds members start i (attempted_stop i) s := by
  refine under_bind ((under_wind_call (fun _ _ => rfl) (fun _ => id) hturn hs rfl).mono
    (fun found t ht => ?_) fun _ _ _ => trivial)
  by_cases hfound : found = true
  · rw [if_pos hfound]
    refine under_with_status hturn ht (if_pos hfound) fun state u hu => ?_
    by_cases hrunning : state = "Running"
    · rw [if_pos hrunning]
      refine under_attempt ((under_send_recover_command hturn hu (if_pos hrunning)).mono ?_ ?_)
      · rintro _ v ⟨answer, haccepts, hv⟩
        refine under_with_status hturn hv (if_pos haccepts) fun state' x hx => ?_
        exact under_shutdown_if_ready hturn hx rfl
      · rintro e v ⟨result, hv, hrefused⟩
        refine ends_of_through hv ?_
        cases result with
        | ok answer => exact if_neg (hrefused answer rfl)
        | error e => rfl
    · rw [if_neg hrunning]
      exact under_shutdown_if_ready hturn hu (if_neg hrunning)
  · rw [if_neg hfound]
    exact ends_of_through ht (if_neg hfound)

end Threads

/-! ## The rounds -/

/-- What holds between two rounds, when some are wound. -/
structure Stage (rounds : List (ProcType × ℕ)) (wound : ProcType × ℕ → Prop) (v : World) :
    Prop where
  /-- The processes are the same. -/
  same : v.daq.procinfos.map Procinfo.round = rounds
  /-- Every event may be where it is. -/
  due : Chained (Due rounds) v.log
  /-- The processes of rounds that are wound are through. -/
  through : ∀ (i : ℕ) g, rounds[i]? = some g → wound g → Through i v.log
  /-- The others were left alone. -/
  fresh : ∀ i : ℕ, (∀ g, rounds[i]? = some g → ¬ wound g) → winding.said i v.log = []

section Rounds

variable {wound wound' : ProcType × ℕ → Prop} {v : World} {name : ProcType} {priority : ℕ}

theorem Stage.of_iff (h : Stage rounds wound v) (hover : ∀ g ∈ rounds, wound g ↔ wound' g) :
    Stage rounds wound' v where
  same := h.same
  due := h.due
  through i g hg hover' := h.through i g hg ((hover g (List.mem_of_getElem? hg)).mpr hover')
  fresh i hi := h.fresh i fun g hg => mt (hover g (List.mem_of_getElem? hg)).mp (hi g hg)

/-- The processes of a type and a priority. -/
def round_members (procs : List Procinfo) (g : ProcType × ℕ) : List ℕ :=
  indices_of procs fun p => p.name == g.1 && p.priority == g.2

theorem mem_round_members {procs : List Procinfo} {g : ProcType × ℕ} {i : ℕ} :
    i ∈ round_members procs g ↔ (procs.map Procinfo.round)[i]? = some g := by
  unfold round_members
  rw [mem_indices_of, List.getElem?_map, Option.map_eq_some_iff]
  refine exists_congr fun p => and_congr_right fun _ => ?_
  rw [Bool.and_eq_true, beq_iff_eq, beq_iff_eq]
  exact ⟨fun h => Prod.ext h.1 h.2, fun h => ⟨congrArg Prod.fst h, congrArg Prod.snd h⟩⟩

theorem not_woundBefore_self (g : ProcType × ℕ) : ¬ WoundBefore g g := by
  rintro (h | h)
  · exact absurd h (lt_irrefl _)
  · exact absurd h.2 (lt_irrefl _)

/-- What comes earlier in a list without repetitions stands in front. -/
theorem mem_of_idxOf_lt {all done rest : List ProcType} {name name' : ProcType}
    (hsplit : all = done ++ name :: rest) (hnew : name ∉ done)
    (h : all.idxOf name' < all.idxOf name) : name' ∈ done := by
  by_contra hnot
  rw [hsplit, List.idxOf_append_of_notMem hnot, List.idxOf_append_of_notMem hnew,
    List.idxOf_cons_self] at h
  omega

/-- A round: when its threads are joined, its processes are through. -/
theorem wp_round {procs : List Procinfo} {g : ProcType × ℕ}
    (hprocs : procs.map Procinfo.round = rounds)
    (hearlier : ∀ g' ∈ rounds, WoundBefore g' g → wound g') (hnew : ¬ wound g)
    (h : Stage rounds wound v) :
    (in_threads attempted_stop (round_members procs g)).wp (exec env)
      (fun _ => Stage rounds fun g' => wound g' ∨ g' = g)
      (fun _ u => Chained (Due rounds) u.log) v := by
  have hmembers : ∀ i, i ∈ round_members procs g ↔ rounds[i]? = some g := fun i =>
    hprocs ▸ mem_round_members
  refine wp_bind.mpr ((wp_issue .schedule).mpr ?_)
  have hstart : WindingDown rounds (round_members procs g) v { v with clock := v.clock + 1 } :=
    ⟨h.same, h.due, fun _ _ => rfl⟩
  have hthreads : ∀ i ∈ round_members procs g, (attempted_stop i).under (exec env)
      (winding.keeper (WindingDown rounds (round_members procs g) v) i)
      (fun _ u => next_call i (winding.history i u) = none) (fun _ _ => True)
      { v with clock := v.clock + 1 } := by
    intro i hi
    have hg := (hmembers i).mp hi
    refine under_attempted_stop ⟨hi, g, hg, fun j g' hj hbefore => ?_⟩ (h.fresh i fun g' hg' => ?_)
    · refine ⟨fun hmem => ?_, h.through j g' hj (hearlier g' (List.mem_of_getElem? hj) hbefore)⟩
      have hgj := (hmembers j).mp hmem
      rw [hj, Option.some.injEq] at hgj
      exact not_woundBefore_self g (hgj ▸ hbefore)
    · rw [hg, Option.some.injEq] at hg'
      exact hg' ▸ hnew
  have hnodup : (round_members procs g).Nodup := List.nodup_range.filter _
  refine (Ledger.wp_keepers (D := fun i said => next_call i said = none) hnodup hstart
    hthreads).mono (fun _ u hu => ?_) fun _ u hu => hu.1.due
  obtain ⟨hkept, hthrough⟩ := hu
  refine ⟨hkept.same, hkept.due, fun i g' hg' hover => ?_, fun i hi => ?_⟩
  · by_cases hmem : i ∈ round_members procs g
    · exact hthrough i hmem
    · have hdone : wound g' := hover.resolve_right fun heq => hmem ((hmembers i).mpr (heq ▸ hg'))
      exact (h.through i g' hg' hdone).of_said_eq (hkept.others i hmem)
  · have hmem : i ∉ round_members procs g := fun hmem =>
      hi g ((hmembers i).mp hmem) (Or.inr rfl)
    exact (hkept.others i hmem).trans (h.fresh i fun g' hg' hover => hi g' hg' (Or.inl hover))

/-- The priorities of a type, one after the other. -/
theorem wp_wind_down {done rest : List ProcType} (hsplit : recovery_order = done ++ name :: rest)
    (h : Stage rounds (fun g => g.1 ∈ done) v) :
    (wind_down name).wp (exec env) (fun _ => Stage rounds fun g => g.1 ∈ done ++ [name])
      (fun _ u => Chained (Due rounds) u.log) v := by
  refine wp_bind.mpr (wp_look.mpr ?_)
  obtain ⟨priorities, hpriorities⟩ : ∃ priorities,
      priorities = (priorities_used v.daq.procinfos fun p => p.name == name).reverse := ⟨_, rfl⟩
  have hmem : ∀ g ∈ rounds, g.1 = name → g.2 ∈ priorities := by
    intro g hg hname
    rw [← h.same] at hg
    obtain ⟨p, hp, rfl⟩ := List.mem_map.mp hg
    rw [hpriorities, List.mem_reverse]
    exact mem_priorities_used hp (beq_iff_eq.mpr hname)
  have hsorted : priorities.Pairwise fun a b => b < a := by
    rw [hpriorities, List.pairwise_reverse]
    exact priorities_used_pairwise _ _
  have hnodup : recovery_order.Nodup := by decide
  rw [hsplit] at hnodup
  have hnotdone : name ∉ done := fun hname =>
    (List.nodup_append.mp hnodup).2.2 name hname name List.mem_cons_self rfl
  have hloop : (forEach (fun priority => in_threads attempted_stop
      (round_members v.daq.procinfos (name, priority))) priorities).wp (exec env)
        (fun _ => Stage rounds fun g => g.1 ∈ done ∨ g.1 = name ∧ g.2 ∈ priorities)
        (fun _ u => Chained (Due rounds) u.log) v := by
    refine wp_forEach_split (I := fun past => Stage rounds fun g =>
      g.1 ∈ done ∨ g.1 = name ∧ g.2 ∈ past) (fun past priority later hpast u hu => ?_) ?_
    · rw [hpast] at hsorted
      obtain ⟨-, hlater, hbetween⟩ := List.pairwise_append.mp hsorted
      have hearlier : ∀ g' ∈ rounds, WoundBefore g' (name, priority) →
          g'.1 ∈ done ∨ g'.1 = name ∧ g'.2 ∈ past := by
        rintro g' hg' (hlt | ⟨hname, hgt⟩)
        · exact Or.inl (mem_of_idxOf_lt hsplit hnotdone hlt)
        · have hused := hmem g' hg' hname
          rw [hpast] at hused
          refine Or.inr ⟨hname, (List.mem_append.mp hused).resolve_right fun hnext => ?_⟩
          rcases List.mem_cons.mp hnext with heq | hnext
          · exact absurd hgt (heq ▸ lt_irrefl _)
          · exact absurd hgt (List.rel_of_pairwise_cons hlater hnext).asymm
      have hnew : ¬ (name ∈ done ∨ name = name ∧ priority ∈ past) := by
        rintro (hname | ⟨-, hpriority⟩)
        · exact hnotdone hname
        · exact absurd (hbetween priority hpriority priority List.mem_cons_self) (lt_irrefl _)
      refine (wp_round h.same hearlier hnew hu).mono (fun _ t ht => ht.of_iff fun g _ => ?_)
        fun _ _ h => h
      rw [List.mem_append, List.mem_singleton, Prod.ext_iff]
      tauto
    · exact h.of_iff fun g _ => by simp
  rw [← hpriorities]
  refine hloop.mono (fun _ u hu => hu.of_iff fun g hg => ?_) fun _ _ h => h
  rw [List.mem_append, List.mem_singleton]
  exact or_congr_right ⟨fun h => h.1, fun hname => ⟨hname, hmem g hg hname⟩⟩

end Rounds

/-! ## The recovery -/

/-- Everything a recovery has to do with the processes is done. -/
structure AllWoundDown (rounds : List (ProcType × ℕ)) (v : World) : Prop where
  /-- Every event may be where it is. -/
  due : Chained (Due rounds) v.log
  /-- All processes are through. -/
  through : ∀ i < rounds.length, Through i v.log
  /-- An attempt was made to kill them. -/
  killed : ∃ result, Event.outcome (.outside .kill_procs) result ∈ v.log

section Whole

variable {wound : ProcType × ℕ → Prop} {v : World}

theorem Stage.called (h : Stage rounds wound v) {op : Op}
    (hop : ∀ result, (Event.outcome op result).Apart) : Stage rounds wound (called env op v) := by
  obtain ⟨new, hlog, hnew⟩ := called_log env op v
  have hapart : ∀ e ∈ .outcome op (env.outcome v.clock op) :: new, e.Apart :=
    List.forall_mem_cons.mpr ⟨hop _, fun e he => (hnew e he).apart⟩
  have hsaid : ∀ i, winding.said i (DaqInterface.called env op v).log = winding.said i v.log := by
    intro i
    rw [hlog, ← List.cons_append]
    exact said_append_of_apart hapart i
  refine ⟨(settle_rounds env v).trans h.same, ?_, fun i g hg hover => ?_, fun i hi => ?_⟩
  · rw [hlog, ← List.cons_append]
    exact Due.append h.due hapart
  · exact (h.through i g hg hover).of_said_eq (hsaid i)
  · exact (hsaid i).trans (h.fresh i hi)

theorem AllWoundDown.cons (h : AllWoundDown rounds v) {u : World} {new : List Event}
    (hlog : u.log = new ++ v.log) (hnew : ∀ e ∈ new, e.Apart) : AllWoundDown rounds u where
  due := hlog ▸ Due.append h.due hnew
  through i hi := by
    have hsaid : winding.said i u.log = winding.said i v.log :=
      hlog ▸ said_append_of_apart hnew i
    exact (h.through i hi).of_said_eq hsaid
  killed := by
    obtain ⟨result, hmem⟩ := h.killed
    exact ⟨result, hlog ▸ List.mem_append_right new hmem⟩

/-- The processes are killed when all are through. -/
theorem Stage.killed (h : Stage rounds (fun g => g.1 ∈ recovery_order) v) :
    AllWoundDown rounds (DaqInterface.called env (.outside .kill_procs) v) := by
  obtain ⟨new, hlog, hnew⟩ := called_log env (.outside .kill_procs) v
  have hapart : ∀ e ∈ new, e.Apart := fun e he => (hnew e he).apart
  have hthrough : ∀ i < rounds.length, Through i (new ++ v.log) := by
    intro i hi
    have hname : rounds[i].1 ∈ recovery_order := by
      cases rounds[i].1 <;> decide
    have hover : Through i v.log := h.through i _ (List.getElem?_eq_getElem hi) hname
    exact hover.of_said_eq (said_append_of_apart hapart i)
  have hsaid : ∀ i, winding.said i (DaqInterface.called env (.outside .kill_procs) v).log =
      winding.said i (new ++ v.log) := fun i =>
    (congrArg (winding.said i) hlog).trans (Ledger.said_cons_of_not_about rfl)
  refine ⟨?_, fun i hi => ?_, _, hlog ▸ List.mem_cons_self⟩
  · rw [hlog]
    exact ⟨⟨fun _ hi => absurd hi Bool.false_ne_true, fun _ hi => absurd hi Bool.false_ne_true,
      fun _ => hthrough⟩, Due.append h.due hapart⟩
  · exact (hthrough i hi).of_said_eq (hsaid i)

theorem wp_clean_up_winds {self : DAQInterface} (hmanaged : self.vars.manage_processes = true)
    (h : Stage rounds (fun g => g.1 ∈ []) v) :
    (clean_up self).wp (exec env) (fun _ => AllWoundDown rounds)
      (fun _ u => Chained (Due rounds) u.log) v := by
  have hscript : ∀ {u : World}, Stage rounds (fun g => g.1 ∈ []) u →
      (forEach wind_down recovery_order).wp (exec env)
        (fun _ => Stage rounds fun g => g.1 ∈ recovery_order)
        (fun _ u => Chained (Due rounds) u.log) u := by
    intro u hu
    refine wp_forEach_split (I := fun done => Stage rounds fun g => g.1 ∈ done)
      (fun done name rest hsplit t ht => ?_) hu
    exact wp_wind_down hsplit ht
  have hrest : ∀ {u : World}, Stage rounds (fun g => g.1 ∈ []) u →
      (onlyIf (self.vars.manage_processes = true) (forEach wind_down recovery_order) >>= fun _ =>
        onlyIf (self.vars.manage_processes = true) (ignoring kill_procs)).wp (exec env)
          (fun _ => AllWoundDown rounds) (fun _ u => Chained (Due rounds) u.log) u := by
    intro u hu
    refine wp_bind.mpr (wp_onlyIf.mpr ⟨fun _ => ?_, fun h => absurd hmanaged h⟩)
    refine (hscript hu).mono (fun _ t ht => ?_) fun _ _ h => h
    refine wp_onlyIf.mpr ⟨fun _ => wp_attempt.mpr (wp_bind.mpr ?_), fun h => absurd hmanaged h⟩
    have hkilled : AllWoundDown rounds (called env (.outside .kill_procs) t) := ht.killed
    refine (wp_call (.outside .kill_procs)).mpr ⟨fun _ _ => ?_, fun _ _ => ?_⟩
    · refine (wp_issue (.processes .clear)).mpr ?_
      exact hkilled.cons (List.nil_append _).symm fun e he => absurd he List.not_mem_nil
    · exact hkilled
  refine wp_bind.mpr (wp_onlyIf.mpr ⟨fun _ => wp_attempt.mpr ?_, fun _ => hrest h⟩)
  have hafter : Stage rounds (fun g => g.1 ∈ [])
      (called env (.outside (.execute_trace_script "stop")) v) :=
    h.called fun _ => ⟨fun _ => rfl, id⟩
  exact (wp_call _).mpr ⟨fun _ _ => hrest hafter, fun _ _ => hrest hafter⟩

theorem wp_do_recover_winds {w : World} (hlog : w.log = [])
    (hrecovers : w.daq.leaves_alone = false) (hmanaged : w.daq.vars.manage_processes = true) :
    do_recover.wp (exec env) (fun _ => AllWoundDown (w.daq.procinfos.map Procinfo.round))
      (fun _ u => Chained (Due (w.daq.procinfos.map Procinfo.round)) u.log) w := by
  refine wp_bind.mpr ((wp_issue .begin_recovery).mpr (wp_bind.mpr (wp_look.mpr
    (wp_ite.mpr ⟨fun h => ?_, fun _ => ?_⟩))))
  · have halone : w.daq.leaves_alone = true := h
    cases halone.symm.trans hrecovers
  · have hbegun : Stage (w.daq.procinfos.map Procinfo.round) (fun g => g.1 ∈ [])
        (exec env .begin_recovery w).2 := by
      have hbegin : (exec env .begin_recovery w).2.log = [.recover] := by
        rw [← hlog]
        rfl
      refine ⟨rfl, ?_, fun i g _ hover => absurd hover List.not_mem_nil, fun i _ => ?_⟩
      · rw [hbegin]
        have hapart : Event.Apart .recover := ⟨fun _ => rfl, id⟩
        exact ⟨hapart.due, trivial⟩
      · rw [hbegin]
        rfl
    refine wp_bind.mpr ((wp_clean_up_winds hmanaged hbegun).mono (fun _ v hv => ?_) fun _ _ h => h)
    obtain ⟨state, hlog⟩ : ∃ state, (exec env .finish_recovery v).2.log =
        [.state state, .complete "recovering", .requests_cleared] ++ v.log := ⟨_, rfl⟩
    refine (wp_issue .finish_recovery).mpr (hv.cons hlog fun e he => ?_)
    simp only [List.mem_cons, List.not_mem_nil, or_false] at he
    rcases he with rfl | rfl | rfl <;> exact ⟨fun _ => rfl, id⟩

end Whole

/-- A recovery that does not leave the processes alone does with each process what is next with it
by its answers so far, and nothing else.  It approaches a process only when those of the types
before its own and those of its type with higher priority numbers are through, and leaves these
alone then.  It kills the processes only when all are through, and when it returns it has done
so. -/
theorem wound_down_in_order {w : World} (hrecovers : w.daq.leaves_alone = false)
    (hmanaged : w.daq.vars.manage_processes = true) :
    (∀ newer older e i, (run (exec env) do_recover w.fresh).2.log = newer ++ e :: older →
      e.winds i = true → (∃ op result, e = .outcome op result ∧
          next_call i (winding.said i older) = some op) ∧
        ∃ q, w.daq.procinfos[i]? = some q ∧ ∀ j p, w.daq.procinfos[j]? = some p →
          WoundBefore p.round q.round → Through j older ∧ winding.said j newer = []) ∧
      (∀ newer older e, (run (exec env) do_recover w.fresh).2.log = newer ++ e :: older → e.kills →
        ∀ i < w.daq.procinfos.length, Through i older ∧ winding.said i newer = []) ∧
      ((run (exec env) do_recover w.fresh).1 = .returned () →
        (∃ result, Event.outcome (.outside .kill_procs) result ∈
          (run (exec env) do_recover w.fresh).2.log) ∧
        ∀ i < w.daq.procinfos.length, Through i (run (exec env) do_recover w.fresh).2.log) := by
  have hwp : do_recover.wp (exec env) (fun _ => AllWoundDown (w.daq.procinfos.map Procinfo.round))
      (fun _ u => Chained (Due (w.daq.procinfos.map Procinfo.round)) u.log) w.fresh :=
    wp_do_recover_winds (w := w.fresh) rfl hrecovers hmanaged
  have hdue : Chained (Due (w.daq.procinfos.map Procinfo.round))
      (run (exec env) do_recover w.fresh).2.log := by
    rcases @returned_or_raised env _ _ ends_do_recover w.fresh with ⟨_, v, hrun⟩ | ⟨e, v, hrun⟩
    · rw [hrun]
      exact (hwp.returned hrun).due
    · rw [hrun]
      exact hwp.raised hrun
  have hleft : ∀ {newer older : List Event} {e : Event} {j : ℕ},
      (run (exec env) do_recover w.fresh).2.log = newer ++ e :: older → e.winds j = false →
        Through j older → winding.said j newer = [] := by
    intro newer older e j hlog hnot hthrough
    have hstill : Through j (e :: older) :=
      hthrough.of_said_eq (Ledger.said_cons_of_not_about hnot)
    rw [hlog] at hdue
    exact Through.left_alone hdue hstill
  refine ⟨fun newer older e i hlog hwinds => ?_, fun newer older e hlog hkills i hi => ?_,
    fun hout => ?_⟩
  · have hplace := (hlog ▸ hdue : Chained _ (newer ++ e :: older)).place
    obtain ⟨g, hg, hearlier⟩ := hplace.turn i hwinds
    rw [List.getElem?_map] at hg
    obtain ⟨q, hq, rfl⟩ := Option.map_eq_some_iff.mp hg
    refine ⟨hplace.next i hwinds, q, hq, fun j p hp hbefore => ?_⟩
    have hthrough := hearlier j p.round (by rw [List.getElem?_map, hp]; rfl) hbefore
    refine ⟨hthrough, hleft hlog (Bool.eq_false_iff.mpr fun hj => ?_) hthrough⟩
    obtain rfl := Event.winds_unique hwinds hj
    rw [hp, Option.some.injEq] at hq
    exact not_woundBefore_self _ (hq ▸ hbefore)
  · have hplace := (hlog ▸ hdue : Chained _ (newer ++ e :: older)).place
    have hthrough := hplace.last hkills i (by rwa [List.length_map])
    exact ⟨hthrough, hleft hlog (hkills.not_winds i) hthrough⟩
  · obtain ⟨v, hrun⟩ : ∃ v, run (exec env) do_recover w.fresh = (.returned (), v) :=
      ⟨_, Prod.ext hout rfl⟩
    rw [hrun]
    have hall := hwp.returned hrun
    refine ⟨hall.killed, fun i hi => hall.through i ?_⟩
    rwa [List.length_map]

/-- The chain with processes that were launched. -/
def launched_chain : World :=
  { running_chain with daq := { running_chain.daq with
    vars := { running_chain.daq.vars with called_launch_procs := true } } }

/-- The recovery of the chain. -/
theorem chain_wound_down :
    (∃ result, Event.outcome (.outside .kill_procs) result ∈
      (run (exec (smooth (one_reader true))) do_recover launched_chain.fresh).2.log) ∧
      ∀ i < 3, Through i
        (run (exec (smooth (one_reader true))) do_recover launched_chain.fresh).2.log :=
  (wound_down_in_order rfl rfl).2.2 (by decide)

end DaqInterface
