import DaqInterface.Properties.Finality
import DaqInterface.Properties.Overtaking

/-!
# A failure that is recovered from twice

A call that raises in `do_command` sets `exception`, and makes `do_command` raise.  The routine
that sent the command answers the latter with a recovery and returns, but nobody clears the former:
the next turn of the runner takes it for a new failure.  Whatever is asked for between the two
turns is gone with the second recovery (`recovered_twice`).
-/

namespace DaqInterface

open Program

variable {env : Env}

/-! ## The mark of a failure -/

/-- Commands that take the mark of a failure away. -/
def Cmd.unmarks : Cmd → Bool
  | .clear_exception => true
  | .reset_variables => true
  | _ => false

theorem exec_exception_kept {c : Cmd} (hc : c.unmarks = false) {w : World}
    (h : w.daq.exception = true) : (exec env c w).2.daq.exception = true := by
  cases c with
  | clear_exception | reset_variables => cases hc
  | call op => exact (settle_exception env w).trans h
  | sleep => exact (settle_exception env w).trans h
  | fail cause => rfl
  | send c i =>
    simp only [exec]
    split <;> exact h
  | join_prep =>
    simp only [exec]
    split
    · exact h
    · exact (finish_prep_exception _ _ _).trans h
  | _ => exact h

/-- A failure behind the events `past` has left its mark. -/
def Marked (past : List Event) (w : World) : Prop :=
  ∃ new, w.log = new ++ past ∧ ((∃ cause, Event.failed cause ∈ new) → w.daq.exception = true)

theorem Marked.exec {past : List Event} (c : Cmd) (hc : c.unmarks = false) (w : World)
    (h : Marked past w) : Marked past (exec env c w).2 := by
  obtain ⟨new, hnew, hmark⟩ := h
  obtain ⟨newer, hlog, hrec⟩ := exec_appends env c w
  refine ⟨newer ++ new, by rw [hlog, hnew, List.append_assoc], ?_⟩
  rintro ⟨cause, hcause⟩
  rcases List.mem_append.mp hcause with hmem | hmem
  · rcases hrec _ hmem with hout | hrec
    · exact absurd hout id
    · cases c <;> first | rfl | exact absurd hrec id
  · exact exec_exception_kept hc (hmark ⟨cause, hmem⟩)

/-- Only a boot takes marks away. -/
theorem uses_action_keeps (settings : Settings) {a : Action} (ha : a ≠ .boot) :
    (action settings a).Uses fun c => c.unmarks = false :=
  (uses_action settings a).mono fun c hc => by
    cases c with
    | clear_exception => exact absurd hc id
    | reset_variables => exact absurd hc ha
    | _ => rfl

/-! ## Two turns -/

/-- The event of a call of `do_command` that raised. -/
def Event.commandFailed : Event → Bool
  | .failed (.command _) => true
  | _ => false

/-- In the turn that starts the action a call of `do_command` raises, and the action recovers and
returns. -/
structure System.RecoversInside (env : Env) (s : System) (a : Action) : Prop where
  /-- The turn starts the action. -/
  starts : s.Starts a
  /-- The action is one of those that send a command and answer its exception. -/
  sends : a = .config ∨ a = .start ∨ a = .stop
  /-- A call raised. -/
  failed : ∃ e ∈ s.events env, e.commandFailed = true
  /-- There was a recovery. -/
  recovered : HasRecovered (s.events env)
  /-- The action returned. -/
  returned : (run (exec env) (action env.settings a) (exec env (.begin a) s.world).2).1 =
    .returned ()

/-- A turn whose action returns is the action. -/
theorem System.tick_of_returned {s : System} {a : Action} (hs : s.Starts a)
    (h : (run (exec env) (action env.settings a) (exec env (.begin a) s.world).2).1 =
      .returned ()) :
    s.tick env =
      ⟨(run (exec env) (action env.settings a) (exec env (.begin a) s.world).2).2, .running⟩ := by
  obtain ⟨-, hexc, hnext⟩ := hs
  have hrun : run (exec env) (runner env.settings) s.world = (.returned (),
      (run (exec env) (action env.settings a) (exec env (.begin a) s.world).2).2) := by
    rw [run_runner, if_neg (by rw [hexc]; exact Bool.false_ne_true), hnext]
    dsimp only
    rw [run_attempt, show run (exec env) (action env.settings a) (exec env (.begin a) s.world).2 =
      (.returned (), (run (exec env) (action env.settings a) (exec env (.begin a) s.world).2).2)
      from Prod.ext h rfl]
    rfl
  unfold System.tick
  rw [hrun]
  rfl

theorem System.RecoversInside.exception {s : System} {a : Action} (h : s.RecoversInside env a) :
    (s.tick env).world.daq.exception = true := by
  have ha : a ≠ .boot := by
    rcases h.sends with rfl | rfl | rfl <;> decide
  have hmarked : Marked (.begin a :: s.world.log) (s.tick env).world := by
    rw [System.tick_of_returned h.starts h.returned]
    refine run_preserves (uses_action_keeps env.settings ha) (Marked.exec) ⟨[], rfl, ?_⟩
    rintro ⟨cause, hcause⟩
    exact absurd hcause List.not_mem_nil
  obtain ⟨new, hnew, hmark⟩ := hmarked
  obtain ⟨e, he, hfailed⟩ := h.failed
  have hevents : s.events env = new ++ [.begin a] := by
    have hsame : s.events env ++ s.world.log = (new ++ [.begin a]) ++ s.world.log := by
      rw [← System.tick_log, hnew, List.append_assoc]
      rfl
    exact List.append_cancel_right hsame
  rw [hevents] at he
  rcases List.mem_append.mp he with he | he
  · cases e with
    | failed cause => exact hmark ⟨cause, he⟩
    | _ => cases hfailed
  · rw [List.mem_singleton.mp he] at hfailed
    cases hfailed

/-- The other threads act, and the runner waits. -/
def OutsideSteps (env : Env) : System → System → Prop :=
  Relation.ReflTransGen fun s t => ∃ i, t = s.outside env i

theorem OutsideSteps.exception {s t : System} (h : OutsideSteps env s t) :
    t.world.daq.exception = s.world.daq.exception ∧ t.loop = s.loop := by
  induction h with
  | refl => exact ⟨rfl, rfl⟩
  | tail _ hstep ih =>
    obtain ⟨i, rfl⟩ := hstep
    exact ⟨(apply_exception _ _ i).trans ih.1, ih.2⟩

theorem ends_handle_exception (e : String) : (handle_exception e).Ends :=
  ends_bind (ends_perform _) fun _ =>
    ends_bind (ends_bind (ends_perform _) fun _ => ends_bind ends_do_recover fun _ =>
      ends_perform _) fun _ => ends_bind (ends_perform _) fun _ => ends_perform _

/-- A turn that finds the mark of a failure is a recovery. -/
theorem System.tick_of_exception {t : System} (h : t.world.daq.exception = true) :
    RecoverySince [.recover] (t.events env) ∧
      ((t.tick env).loop = .running → t.world.daq.leaves_alone = false →
        ∀ a, (t.tick env).world.daq.pending a = false) := by
  have hfresh : run (exec env) (runner env.settings) t.world.fresh = run (exec env)
      (handle_exception "Error: at some point DAQInterface set an exception state")
        t.world.fresh := (run_runner env t.world.fresh).trans (if_pos h)
  unfold System.events
  rw [System.tick_daq, System.tick_loop, hfresh]
  have hends := ends_handle_exception "Error: at some point DAQInterface set an exception state"
  have hwp := @wp_handle_exception env
    "Error: at some point DAQInterface set an exception state" t.world.fresh
  rcases @returned_or_raised env _ _ hends t.world.fresh with ⟨⟨⟩, v, hrun⟩ | ⟨e, v, hrun⟩
  · have hhandled := hwp.returned hrun
    rw [hrun]
    refine ⟨hhandled.log, fun _ halone a => ?_⟩
    rw [hhandled.pending, if_neg]
    exact fun halone' => Bool.false_ne_true (halone.symm.trans halone')
  · rw [hrun]
    exact ⟨(hwp.raised hrun).log, fun hloop => nomatch hloop⟩

/-- Behind an action that has recovered from a call that raised, the next turn is a second
recovery, without a new failure, whatever is asked for before it; and what is asked for is not
begun, but dropped, unless the recovery leaves the processes alone. -/
theorem recovered_twice {s : System} {a : Action} (h : s.RecoversInside env a) :
    (s.tick env).loop = .running ∧
      ∀ t, OutsideSteps env (s.tick env) t →
        (∃ new, t.events env = new ++ [.recover] ∧ ∀ e ∈ new, e.OfRecovery) ∧
          ((t.tick env).loop = .running → t.world.daq.leaves_alone = false →
            (t.tick env).world.daq.pending .boot = false) := by
  refine ⟨by rw [System.tick_of_returned h.starts h.returned], fun t ht => ?_⟩
  have hexc : t.world.daq.exception = true := ht.exception.1.trans h.exception
  have htick := @System.tick_of_exception env t hexc
  exact ⟨htick.1, fun hloop halone => htick.2 hloop halone .boot⟩

/-- An EventBuilder that does not answer `Init`. -/
theorem recoversInside_init :
    (configuration_requested deaf_to_init).RecoversInside (builder_env deaf_to_init) .config where
  starts := by decide +kernel
  sends := Or.inl rfl
  failed := by decide +kernel
  recovered := by decide +kernel
  returned := by decide +kernel

theorem unanswered_init_twice :
    ((configuration_requested deaf_to_init).tick (builder_env deaf_to_init)).loop = .running ∧
      ∃ new, ((configuration_requested deaf_to_init).tick (builder_env deaf_to_init)).events
          (builder_env deaf_to_init) = new ++ [.recover] ∧ ∀ e ∈ new, e.OfRecovery :=
  ⟨(recovered_twice recoversInside_init).1,
    ((recovered_twice recoversInside_init).2 _ Relation.ReflTransGen.refl).1⟩

/-- A boot that is accepted after the recovery from an `Init` without an answer is never begun. -/
theorem accepted_boot_dropped :
    ∃ (env : Env) (s : System), Reachable env "daqint" s ∧ s.RecoversInside env .config ∧
      (s.tick env).world.daq.state = "stopped" ∧
      ((s.tick env).requested env "booting" ⟨some "boot.txt", none, none⟩).world.daq.pending
        .boot = true ∧
      HasRecovered (((s.tick env).requested env "booting"
        ⟨some "boot.txt", none, none⟩).events env) ∧
      (∀ e ∈ ((s.tick env).requested env "booting" ⟨some "boot.txt", none, none⟩).events env,
        e.begins = false) ∧
      (((s.tick env).requested env "booting" ⟨some "boot.txt", none, none⟩).tick
        env).world.daq.pending .boot = false :=
  ⟨builder_env deaf_to_init, configuration_requested deaf_to_init,
    ((boot_requested_reachable (builder_env deaf_to_init)).tick rfl).outside _,
    recoversInside_init, by decide +kernel, by decide +kernel, by decide +kernel, by decide +kernel,
    by decide +kernel⟩

end DaqInterface
