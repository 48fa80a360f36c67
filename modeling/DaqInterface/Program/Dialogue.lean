import DaqInterface.Program.Triple

/-!
# Programs in a dialogue

Where every command is answered by a value of one type, the state of a run can be the dialogue so
far: the commands with their answers, newest first.  The answers come from outside and may depend
on everything said before.  `Each` is an invariant of the dialogue: it says what every command has to
do with what was said before it.  What a program can issue is all that it adds (`each_of_uses`).
-/

namespace Program

variable {Cmd R Exn α β ι : Type}

/-- The interpreter that records the dialogue. -/
def converse (reply : List (Cmd × R) → Cmd → R) (c : Cmd) (said : List (Cmd × R)) :
    R × List (Cmd × R) := (reply said c, (c, reply said c) :: said)

/-- A program whose commands are all answered by a value of one type. -/
abbrev Dialogue (Cmd R Exn α : Type) : Type := Program (fun _ : Cmd => R) Exn α

variable {reply : List (Cmd × R) → Cmd → R}

/-- Every command of a dialogue stands in a relation to what was said before it. -/
def Each (P : Cmd → List (Cmd × R) → Prop) : List (Cmd × R) → Prop
  | [] => True
  | line :: before => P line.1 before ∧ Each P before

theorem Each.of_mem {P : Cmd → List (Cmd × R) → Prop} {C : Cmd → Prop}
    (h : ∀ c before, P c before → C c) {said : List (Cmd × R)} (hsaid : Each P said) :
    ∀ line ∈ said, C line.1 := by
  induction said with
  | nil => exact fun line hline => absurd hline List.not_mem_nil
  | cons first before ih =>
    intro line hline
    rcases List.mem_cons.mp hline with rfl | hline
    · exact h _ before hsaid.1
    · exact ih hsaid.2 line hline

/-- What a program can issue is all that it adds. -/
theorem each_of_uses {C : Cmd → Prop} {P : Cmd → List (Cmd × R) → Prop}
    {p : Dialogue Cmd R Exn α} (hp : p.Uses C) (h : ∀ c before, C c → P c before)
    {said : List (Cmd × R)} (hsaid : Each P said) :
    p.wp (converse reply) (fun _ => Each P) (fun _ => Each P) said :=
  wp_of_uses hp (fun c hc before hbefore => ⟨h c before hc, hbefore⟩) hsaid

/-- Whatever way a run ends, it ends in a state that both postconditions allow. -/
theorem wp.state {p : Dialogue Cmd R Exn α} {I : List (Cmd × R) → Prop}
    {said : List (Cmd × R)} (h : p.wp (converse reply) (fun _ => I) (fun _ => I) said)
    (hends : p.Ends) : I (run (converse reply) p said).2 := by
  induction p generalizing said with
  | ret a => exact h
  | raise e => exact h
  | hang => exact absurd hends id
  | step c k ih => exact ih _ h (hends _)

/-- A run adds to the dialogue. -/
theorem suffix_of_run (p : Dialogue Cmd R Exn α) (said : List (Cmd × R)) :
    said <:+ (run (converse reply) p said).2 := by
  induction p generalizing said with
  | ret a => exact List.suffix_rfl
  | raise e => exact List.suffix_rfl
  | hang => exact List.suffix_rfl
  | step c k ih => exact (List.suffix_cons _ said).trans (ih _ _)

/-- The first part of a composition is said. -/
theorem suffix_of_run_bind (p : Dialogue Cmd R Exn α) (f : α → Dialogue Cmd R Exn β)
    (said : List (Cmd × R)) :
    (run (converse reply) p said).2 <:+ (run (converse reply) (p >>= f) said).2 := by
  rw [run_bind]
  split
  · rename_i a said' h
    rw [h]
    exact suffix_of_run (f a) said'
  · rename_i h
    rw [h]
  · rename_i h
    rw [h]

/-- Go on with a value that may be missing for an exception. -/
def ofExcept : Except Exn α → Dialogue Cmd R Exn α
  | .ok a => ret a
  | .error e => raise e

theorem uses_ofExcept {C : Cmd → Prop} (result : Except Exn α) :
    (ofExcept result : Dialogue Cmd R Exn α).Uses C := by
  cases result <;> trivial

theorem ends_ofExcept (result : Except Exn α) :
    (ofExcept result : Dialogue Cmd R Exn α).Ends := by
  cases result <;> trivial

theorem wp_ofExcept {result : Except Exn α} {Q : α → List (Cmd × R) → Prop}
    {S : Exn → List (Cmd × R) → Prop} {said : List (Cmd × R)} :
    (ofExcept result : Dialogue Cmd R Exn α).wp (converse reply) Q S said ↔
      (∀ a, result = .ok a → Q a said) ∧ ∀ e, result = .error e → S e said := by
  cases result <;> simp [ofExcept]

end Program
