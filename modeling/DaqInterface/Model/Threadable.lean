import DaqInterface.Model.Runner

/-!
# The threads that call a function again and again

A `Threadable` calls its function, waits for its event or for its period to pass, and calls it
again.  `wakeup` sets the event; `stop` sets the mark that ends the loop, sets the event and joins
the thread.  The moves of the thread, of the one who stops it and of everybody else interleave in
any order; the function itself is one move, since it reads neither the event nor the mark.
-/

namespace DaqInterface

open Program

/-- Where the thread is in `main`. -/
inductive Main
  /-- About to test the mark. -/
  | test
  /-- About to call the function. -/
  | call
  /-- About to clear the event. -/
  | clear
  /-- Waiting for the event. -/
  | wait
  /-- It left the loop. -/
  | left
  /-- An exception of the function ended it. -/
  | raised
  /-- The function does not return. -/
  | stuck
  deriving DecidableEq

/-- The thread can be joined. -/
def Main.over : Main → Bool
  | .left => true
  | .raised => true
  | _ => false

/-- Where the caller of `stop` is. -/
inductive Stopper
  /-- `stop` has not been called. -/
  | idle
  /-- It has set the mark. -/
  | flagged
  /-- It has set the event, and joins the thread. -/
  | joining
  /-- The thread has ended, and `stop` returned. -/
  | joined
  deriving DecidableEq

/-- The attributes of a `Threadable`, the places of its threads, and what its function works on. -/
structure Threadable (σ : Type) where
  main : Main
  /-- The event is set. -/
  ev : Bool
  /-- The mark that ends the loop. -/
  stop : Bool
  stopper : Stopper
  data : σ

/-- One move of one of the threads; `ι` are the things that others do to the data. -/
inductive Move (ι : Type)
  /-- The thread tests the mark. -/
  | test
  /-- The thread calls the function. -/
  | func
  /-- The thread clears the event. -/
  | clear
  /-- The event ends the wait. -/
  | woken
  /-- The period is over. -/
  | timeout
  /-- Somebody calls `wakeup`. -/
  | wakeup
  /-- `stop` sets the mark. -/
  | flag
  /-- `stop` calls `wakeup`. -/
  | wake
  /-- `stop` has joined the thread. -/
  | join
  /-- Something else happens. -/
  | other (i : ι)
  deriving DecidableEq

/-- The function is called. -/
def Move.isFunc {ι : Type} : Move ι → Bool
  | .func => true
  | _ => false

/-- The thread itself moves. -/
def Move.own {ι : Type} : Move ι → Bool
  | .test => true
  | .func => true
  | .clear => true
  | .woken => true
  | .timeout => true
  | _ => false

/-- What the thread does behind a call of its function. -/
def Main.after : Outcome String Unit → Main
  | .returned _ => .clear
  | .raised _ => .raised
  | .hung => .stuck

namespace Threadable

variable {σ ι : Type}

/-- The thread when it starts. -/
def start (data : σ) : Threadable σ := ⟨.test, false, false, .idle, data⟩

/-- The state behind a move, if the move is possible. -/
def step (func : σ → Outcome String Unit × σ) (other : ι → σ → σ) (self : Threadable σ) :
    Move ι → Option (Threadable σ)
  | .test =>
    if self.main = .test then some { self with main := if self.stop then .left else .call }
    else none
  | .func =>
    if self.main = .call then
      let result := func self.data
      some { self with main := Main.after result.1, data := result.2 }
    else none
  | .clear => if self.main = .clear then some { self with main := .wait, ev := false } else none
  | .woken => if self.main = .wait ∧ self.ev = true then some { self with main := .test } else none
  | .timeout => if self.main = .wait then some { self with main := .test } else none
  | .wakeup => some { self with ev := true }
  | .flag =>
    if self.stopper = .idle then some { self with stopper := .flagged, stop := true } else none
  | .wake =>
    if self.stopper = .flagged then some { self with stopper := .joining, ev := true } else none
  | .join =>
    if self.stopper = .joining ∧ self.main.over = true then some { self with stopper := .joined }
    else none
  | .other i => some { self with data := other i self.data }

/-- The state behind moves, if they are possible one after the other. -/
def steps (func : σ → Outcome String Unit × σ) (other : ι → σ → σ) (self : Threadable σ) :
    List (Move ι) → Option (Threadable σ)
  | [] => some self
  | move :: moves => (self.step func other move).bind fun next => next.steps func other moves

end Threadable

/-! ## The thread of the runner -/

/-- The function of the thread of the program is the runner. -/
def call_runner (env : Env) (w : World) : Outcome String Unit × World :=
  run (exec env) (runner env.settings) w

/-- What the other threads do. -/
def interfere (env : Env) (i : Interference) (w : World) : World := i.apply (env.files w.clock) w

/-- The loop of the runner, as far as the runner ended it. -/
def Main.loop : Main → Loop
  | .raised => .dead
  | .stuck => .stuck
  | _ => .running

/-- The system that runs in a thread. -/
def Threadable.system (self : Threadable World) : System := ⟨self.data, self.main.loop⟩

end DaqInterface
