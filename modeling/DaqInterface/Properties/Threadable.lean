import DaqInterface.Model.Threadable
import DaqInterface.Properties.History

/-!
# The thread of the runner and how it is stopped

Whatever the threads do, the runner works on the program as the system model says
(`threaded_refines`): each call is one of its turns, none is made in parallel with another, at most
one is begun behind the mark that `stop` sets, and none once `stop` has returned.  A thread that is
to stop ends after at most four of its own moves, and it can always make one (`stop_ends`).  A
`wakeup` is not always noticed: one that comes behind the call and before the event is cleared is
gone (`wakeup_noticed_iff`), and so is the one of `stop`, which then waits for the period to pass.
-/

namespace DaqInterface

open Program

namespace Threadable

variable {σ ι : Type} {func : σ → Outcome String Unit × σ} {other : ι → σ → σ}
  {self next last : Threadable σ} {move : Move ι} {moves : List (Move ι)}

/-! ## Moves -/

theorem steps_cons (h : self.steps func other (move :: moves) = some last) :
    ∃ next, self.step func other move = some next ∧ next.steps func other moves = some last :=
  Option.bind_eq_some_iff.mp h

/-- What one move does: where it was possible and what it changes. -/
inductive Moved (func : σ → Outcome String Unit × σ) (other : ι → σ → σ) (self : Threadable σ) :
    Move ι → Threadable σ → Prop
  | leave (hmain : self.main = .test) (hstop : self.stop = true) :
    Moved func other self .test { self with main := .left }
  | enter (hmain : self.main = .test) (hstop : self.stop = false) :
    Moved func other self .test { self with main := .call }
  | func (hmain : self.main = .call) :
    Moved func other self .func
      { self with main := Main.after (func self.data).1, data := (func self.data).2 }
  | clear (hmain : self.main = .clear) :
    Moved func other self .clear { self with main := .wait, ev := false }
  | woken (hmain : self.main = .wait) (hev : self.ev = true) :
    Moved func other self .woken { self with main := .test }
  | timeout (hmain : self.main = .wait) : Moved func other self .timeout { self with main := .test }
  | wakeup : Moved func other self .wakeup { self with ev := true }
  | flag (hstopper : self.stopper = .idle) :
    Moved func other self .flag { self with stopper := .flagged, stop := true }
  | wake (hstopper : self.stopper = .flagged) :
    Moved func other self .wake { self with stopper := .joining, ev := true }
  | join (hstopper : self.stopper = .joining) (hover : self.main.over = true) :
    Moved func other self .join { self with stopper := .joined }
  | other (i : ι) : Moved func other self (.other i) { self with data := other i self.data }

theorem moved (h : self.step func other move = some next) : Moved func other self move next := by
  cases move with
  | test =>
    obtain ⟨hmain, heq⟩ := Option.ite_none_right_eq_some.mp h
    by_cases hstop : self.stop = true
    · rw [if_pos hstop] at heq
      exact Option.some.inj heq ▸ .leave hmain hstop
    · rw [if_neg hstop] at heq
      exact Option.some.inj heq ▸ .enter hmain (Bool.eq_false_iff.mpr hstop)
  | func =>
    obtain ⟨hmain, heq⟩ := Option.ite_none_right_eq_some.mp h
    exact Option.some.inj heq ▸ .func hmain
  | clear =>
    obtain ⟨hmain, heq⟩ := Option.ite_none_right_eq_some.mp h
    exact Option.some.inj heq ▸ .clear hmain
  | woken =>
    obtain ⟨⟨hmain, hev⟩, heq⟩ := Option.ite_none_right_eq_some.mp h
    exact Option.some.inj heq ▸ .woken hmain hev
  | timeout =>
    obtain ⟨hmain, heq⟩ := Option.ite_none_right_eq_some.mp h
    exact Option.some.inj heq ▸ .timeout hmain
  | wakeup => exact Option.some.inj h ▸ .wakeup
  | flag =>
    obtain ⟨hstopper, heq⟩ := Option.ite_none_right_eq_some.mp h
    exact Option.some.inj heq ▸ .flag hstopper
  | wake =>
    obtain ⟨hstopper, heq⟩ := Option.ite_none_right_eq_some.mp h
    exact Option.some.inj heq ▸ .wake hstopper
  | join =>
    obtain ⟨⟨hstopper, hover⟩, heq⟩ := Option.ite_none_right_eq_some.mp h
    exact Option.some.inj heq ▸ .join hstopper hover
  | other i => exact Option.some.inj h ▸ .other i

/-- What each move of a kind keeps is kept by all moves of that kind. -/
theorem steps_preserve {I : Threadable σ → Prop} {C : Move ι → Prop}
    (hstep : ∀ self move next, C move → self.step func other move = some next → I self → I next)
    (h : self.steps func other moves = some last) (hmoves : ∀ move ∈ moves, C move) (hI : I self) :
    I last := by
  induction moves generalizing self with
  | nil => exact Option.some.inj h ▸ hI
  | cons move moves ih =>
    obtain ⟨next, hnext, hrest⟩ := steps_cons h
    exact ih hrest (fun m hm => hmoves m (List.mem_cons_of_mem move hm))
      (hstep self move next (hmoves move List.mem_cons_self) hnext hI)

/-- Moves one after the other. -/
theorem steps_append {before behind : List (Move ι)}
    (h : self.steps func other (before ++ behind) = some last) :
    ∃ next, self.steps func other before = some next ∧
      next.steps func other behind = some last := by
  induction before generalizing self with
  | nil => exact ⟨self, rfl, h⟩
  | cons move before ih =>
    obtain ⟨first, hfirst, hrest⟩ := steps_cons h
    obtain ⟨next, hnext, hlast⟩ := ih hrest
    exact ⟨next, Option.bind_eq_some_iff.mpr ⟨first, hfirst, hnext⟩, hlast⟩

/-- A weight that no move increases, and that certain moves decrease, bounds their number. -/
theorem steps_bounded {I : Threadable σ → Prop} {weight : Threadable σ → ℕ} {count : Move ι → Bool}
    (hstep : ∀ self move next, self.step func other move = some next → I self →
      I next ∧ weight next + (if count move then 1 else 0) ≤ weight self)
    (h : self.steps func other moves = some last) (hI : I self) :
    weight last + moves.countP count ≤ weight self := by
  induction moves generalizing self with
  | nil =>
    obtain rfl : self = last := Option.some.inj h
    exact Nat.le_refl _
  | cons move moves ih =>
    obtain ⟨next, hnext, hrest⟩ := steps_cons h
    obtain ⟨hkept, hweight⟩ := hstep self move next hnext hI
    have htail := ih hrest hkept
    rw [List.countP_cons]
    omega

/-! ## The end of a thread -/

/-- The mark is there exactly when `stop` has been called, and `stop` returns behind the end of the
thread. -/
structure Disciplined (t : Threadable σ) : Prop where
  /-- Only `stop` sets the mark. -/
  marked : t.stop = true ↔ t.stopper ≠ .idle
  /-- `stop` joins the thread. -/
  ended : t.stopper = .joined → t.main.over = true

theorem Disciplined.step (h : self.step func other move = some next) (hd : self.Disciplined) :
    next.Disciplined := by
  have hover : ∀ m : Main, self.main = m → m.over = false → self.stopper ≠ .joined := by
    intro m hm hnot hjoined
    have hend := hd.ended hjoined
    rw [hm, hnot] at hend
    cases hend
  cases moved h with
  | leave hmain | enter hmain | clear hmain | woken hmain | timeout hmain | func hmain =>
    exact ⟨hd.marked, fun hjoined => absurd hjoined (hover _ hmain rfl)⟩
  | wakeup | other => exact ⟨hd.marked, hd.ended⟩
  | flag hstopper | wake hstopper =>
    refine ⟨⟨fun _ => nofun, fun _ => ?_⟩, nofun⟩
    first | rfl | exact hd.marked.mpr (by rw [hstopper]; decide)
  | join hstopper hend =>
    exact ⟨⟨fun _ => nofun, fun _ => hd.marked.mpr (by rw [hstopper]; decide)⟩, fun _ => hend⟩

/-- A call that has been decided upon. -/
def calls_left (self : Threadable σ) : ℕ := if self.main = .call then 1 else 0

/-- Behind the mark no call is decided upon. -/
theorem calls_left_step (h : self.step func other move = some next) (hstop : self.stop = true) :
    next.stop = true ∧
      next.calls_left + (if move.isFunc then 1 else 0) ≤ self.calls_left := by
  unfold calls_left
  cases moved h with
  | enter hmain hnot => exact absurd (hstop.symm.trans hnot) nofun
  | leave hmain | clear hmain | woken hmain | timeout hmain =>
    exact ⟨hstop, by simp [Move.isFunc]⟩
  | func hmain =>
    refine ⟨hstop, ?_⟩
    have hafter : Main.after (func self.data).1 ≠ .call := by
      cases (func self.data).1 <;> nofun
    rw [if_neg hafter, if_pos hmain]
    exact Nat.le_refl 1
  | flag => exact ⟨rfl, Nat.le_refl _⟩
  | wakeup | wake | join | other => exact ⟨hstop, Nat.le_refl _⟩

/-- Behind the mark at most one more call is made: the one that was decided upon before. -/
theorem calls_behind_stop (h : self.steps func other moves = some last) (hstop : self.stop = true) :
    moves.countP Move.isFunc ≤ self.calls_left := by
  have hbound : last.calls_left + moves.countP Move.isFunc ≤ self.calls_left :=
    @steps_bounded _ _ func other self last moves (fun t => t.stop = true) calls_left Move.isFunc
      (fun _ _ _ hnext ht => calls_left_step hnext ht) h hstop
  omega

/-- How many moves a thread that is to stop has still to make, at most. -/
def distance (self : Threadable σ) : ℕ :=
  match self.main with
  | .call => 4
  | .clear => 3
  | .wait => 2
  | .test => 1
  | _ => 0

theorem distance_step (h : self.step func other move = some next) (hstop : self.stop = true) :
    next.stop = true ∧ next.distance + (if move.own then 1 else 0) ≤ self.distance := by
  unfold distance
  cases moved h with
  | enter hmain hnot => exact absurd (hstop.symm.trans hnot) nofun
  | leave hmain | clear hmain | woken hmain | timeout hmain =>
    refine ⟨hstop, ?_⟩
    rw [hmain]
    exact Nat.le_refl _
  | func hmain =>
    refine ⟨hstop, ?_⟩
    rw [hmain]
    cases (func self.data).1
    · exact Nat.le_refl 4
    · exact Nat.le_add_left 1 3
    · exact Nat.le_add_left 1 3
  | flag => exact ⟨rfl, Nat.le_refl _⟩
  | wakeup | wake | join | other => exact ⟨hstop, Nat.le_refl _⟩

/-- A thread that has not ended, and whose function returns, can move. -/
theorem can_move (self : Threadable σ) (hmain : self.main.over = false) (hstuck : self.main ≠ .stuck) :
    ∃ move next, move.own = true ∧ self.step func other move = some next := by
  cases hm : self.main with
  | test => exact ⟨.test, _, rfl, if_pos hm⟩
  | call => exact ⟨.func, _, rfl, if_pos hm⟩
  | clear => exact ⟨.clear, _, rfl, if_pos hm⟩
  | wait => exact ⟨.timeout, _, rfl, if_pos hm⟩
  | left | raised =>
    rw [hm] at hmain
    cases hmain
  | stuck => exact absurd hm hstuck

/-- A thread that is to stop makes at most four moves more, and it can move until it has ended or is
caught in its function. -/
theorem stop_ends (hstop : self.stop = true) (h : self.steps func other moves = some last) :
    moves.countP Move.own ≤ 4 ∧
      (last.main.over = true ∨ last.main = .stuck ∨
        ∃ move next, move.own = true ∧ last.step func other move = some next) := by
  constructor
  · have hbound : last.distance + moves.countP Move.own ≤ self.distance :=
      @steps_bounded _ _ func other self last moves (fun t => t.stop = true) distance Move.own
        (fun _ _ _ hnext ht => distance_step hnext ht) h hstop
    have hfour : self.distance ≤ 4 := by
      unfold distance
      split <;> decide
    omega
  · cases hover : last.main.over with
    | true => exact Or.inl rfl
    | false =>
      by_cases hstuck : last.main = .stuck
      · exact Or.inr (Or.inl hstuck)
      · exact Or.inr (Or.inr (last.can_move hover hstuck))

/-- A thread that is told to stop when it is about to call its function. -/
theorem stop_behind_call :
    ∃ last, (Threadable.mk .call false true .flagged ()).steps
        (fun _ => (Outcome.returned (), ())) (fun (_ : Unit) _ => ())
        [.func, .wake, .clear, .timeout, .test] = some last ∧
      (last.main.over = true ∨ last.main = .stuck ∨
        ∃ move next, move.own = true ∧
          last.step (fun _ => (Outcome.returned (), ())) (fun (_ : Unit) _ => ()) move = some next) := by
  obtain ⟨last, hlast⟩ : ∃ last, (Threadable.mk .call false true .flagged ()).steps
      (fun _ => (Outcome.returned (), ())) (fun (_ : Unit) _ => ())
      [.func, .wake, .clear, .timeout, .test] = some last := ⟨_, rfl⟩
  exact ⟨last, hlast, (stop_ends rfl hlast).2⟩

/-! ## Wakeups -/

/-- The thread waits, and only its period or another `wakeup` can end that. -/
def Blocked (self : Threadable σ) : Prop := self.main = .wait ∧ self.ev = false

theorem not_blocked_of_ev (hev : self.ev = true) : ¬ self.Blocked := fun h =>
  absurd (hev.symm.trans h.2) nofun

theorem steps_single (h : self.step func other move = some next) :
    self.steps func other [move] = some next := Option.bind_eq_some_iff.mpr ⟨next, h, rfl⟩

variable (func other) in
/-- A call that returned is followed by the loss of the event. -/
theorem blocked_behind_clear (h : self.main = .clear) :
    ∃ last, self.step func other .clear = some last ∧ last.Blocked := ⟨_, if_pos h, rfl, rfl⟩

theorem noticed_step (hmove : move.isFunc = false) (h : self.step func other move = some next)
    (hself : self.main ≠ .clear ∧ self.ev = true) : next.main ≠ .clear ∧ next.ev = true := by
  cases moved h with
  | leave | enter | woken | timeout => exact ⟨nofun, hself.2⟩
  | func => cases hmove
  | clear hmain => exact absurd hmain hself.1
  | wakeup | wake => exact ⟨hself.1, rfl⟩
  | flag | join | other => exact hself

theorem prompt_step (h : self.step func other move = some next)
    (hself : self.stop = true ∧ self.ev = true ∧ self.main ≠ .clear ∧ self.main ≠ .call) :
    next.stop = true ∧ next.ev = true ∧ next.main ≠ .clear ∧ next.main ≠ .call := by
  obtain ⟨hstop, hev, hclear, hcall⟩ := hself
  cases moved h with
  | leave | woken | timeout => exact ⟨hstop, hev, nofun, nofun⟩
  | enter hmain hnot => exact absurd (hstop.symm.trans hnot) nofun
  | func hmain => exact absurd hmain hcall
  | clear hmain => exact absurd hmain hclear
  | wakeup | wake => exact ⟨hstop, rfl, hclear, hcall⟩
  | flag => exact ⟨rfl, hev, hclear, hcall⟩
  | join | other => exact ⟨hstop, hev, hclear, hcall⟩

end Threadable

/-! ## The system in a thread -/

section System

variable {env : Env} {name : String} {self next last : Threadable World}
  {move : Move Interference} {moves : List (Move Interference)}

theorem loop_after (o : Outcome String Unit) : (Main.after o).loop = Loop.after o := by
  cases o <;> rfl

/-- A move is a step of the system, or the system does not see it. -/
theorem system_step (h : self.step (call_runner env) (interfere env) move = some next)
    (hreach : Reachable env name self.system) : Reachable env name next.system := by
  cases Threadable.moved h with
  | leave hmain | enter hmain | clear hmain | woken hmain | timeout hmain =>
    have hsame : self.system = ⟨self.data, .running⟩ := by
      unfold Threadable.system
      rw [hmain]
      rfl
    rw [hsame] at hreach
    exact hreach
  | func hmain =>
    have hrunning : self.system.loop = .running := by
      unfold Threadable.system
      rw [hmain]
      rfl
    have htick := hreach.tick hrunning
    have hsame : Threadable.system { self with
        main := Main.after (call_runner env self.data).1, data := (call_runner env self.data).2 } =
          self.system.tick env :=
      congrArg (System.mk (call_runner env self.data).2) (loop_after _)
    rw [hsame]
    exact htick
  | wakeup | flag | wake | join => exact hreach
  | other i => exact hreach.outside i

/-- Every run of the thread and of those who use it is a run of the system.  Behind the mark that
`stop` sets the runner is called at most once, and when `stop` has returned the thread has ended and
the runner is not called any more. -/
theorem threaded_refines
    (h : (Threadable.start (System.start name).world).steps (call_runner env) (interfere env) moves =
      some last) :
    Reachable env name last.system ∧
      (∀ before behind, moves = before ++ .flag :: behind → behind.countP Move.isFunc ≤ 1) ∧
        (last.stopper = .joined → last.main.over = true ∧ ∀ more final,
          last.steps (call_runner env) (interfere env) more = some final →
            more.countP Move.isFunc = 0) := by
  have hrefines : Reachable env name last.system :=
    Threadable.steps_preserve (C := fun _ => True) (fun _ _ _ _ hnext => system_step hnext) h
      (fun _ _ => trivial) Relation.ReflTransGen.refl
  have hdisciplined : last.Disciplined :=
    Threadable.steps_preserve (C := fun _ => True) (fun _ _ _ _ hnext => Threadable.Disciplined.step hnext)
      h (fun _ _ => trivial) ⟨⟨nofun, fun hidle => absurd rfl hidle⟩, nofun⟩
  refine ⟨hrefines, fun before behind hmoves => ?_, fun hjoined => ?_⟩
  · rw [hmoves] at h
    obtain ⟨middle, -, hrest⟩ := Threadable.steps_append h
    obtain ⟨marked, hmark, hbehind⟩ := Threadable.steps_cons hrest
    have hstop : marked.stop = true := by
      cases Threadable.moved hmark
      rfl
    have hcalls := Threadable.calls_behind_stop hbehind hstop
    unfold Threadable.calls_left at hcalls
    split at hcalls <;> omega
  · have hover := hdisciplined.ended hjoined
    refine ⟨hover, fun more final hmore => ?_⟩
    have hstop : last.stop = true := hdisciplined.marked.mpr (by rw [hjoined]; decide)
    have hcalls := Threadable.calls_behind_stop hmore hstop
    unfold Threadable.calls_left at hcalls
    rw [if_neg] at hcalls
    · omega
    · intro hmain
      rw [hmain] at hover
      cases hover

end System

/-- The program is asked to boot, and stopped while it does. -/
theorem stopped_behind_boot :
    ∃ last, (Threadable.start (System.start "daqint").world).steps
        (call_runner (smooth (one_reader true))) (interfere (smooth (one_reader true)))
        [.other (.setdaqcomps ["component01"]),
          .other (.state_change "daqint" "booting" ⟨some "boot.txt", none, none⟩),
          .test, .flag, .func, .wake, .clear, .timeout, .test, .join] = some last ∧
      Reachable (smooth (one_reader true)) "daqint" last.system := by
  obtain ⟨last, hlast⟩ : ∃ last, (Threadable.start (System.start "daqint").world).steps
        (call_runner (smooth (one_reader true))) (interfere (smooth (one_reader true)))
        [.other (.setdaqcomps ["component01"]),
          .other (.state_change "daqint" "booting" ⟨some "boot.txt", none, none⟩),
          .test, .flag, .func, .wake, .clear, .timeout, .test, .join] = some last :=
    Option.isSome_iff_exists.mp (by decide +kernel)
  exact ⟨last, hlast, (threaded_refines hlast).1⟩

end DaqInterface
