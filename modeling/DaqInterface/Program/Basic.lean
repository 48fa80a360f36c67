import Mathlib.Tactic

/-!
# Programs over a set of commands

A `Program` is a tree of commands: it issues a command, receives the answer and
goes on, until it returns a value, raises an exception or hangs.  The meaning of
a command on a state is supplied by an interpreter `exec`; `run` threads the
state through the tree.  Exceptions keep the state reached when they were raised.

`Uses C p` says that every command the program can issue satisfies `C`, and
`Returns Q p` that every value it can return satisfies `Q`.  Both speak about the
tree alone, so they are proved once for a program and then carry every invariant
of the commands in `C` to the whole program (`run_preserves`).
-/

/-- A program over the commands `Cmd`, whose answers have the types `Resp`. -/
inductive Program {Cmd : Type} (Resp : Cmd → Type) (Exn : Type) (α : Type) : Type
  /-- Return a value. -/
  | ret (a : α)
  /-- Raise an exception. -/
  | raise (e : Exn)
  /-- Never end. -/
  | hang
  /-- Issue a command and go on with its answer. -/
  | step (c : Cmd) (k : Resp c → Program Resp Exn α)

namespace Program

variable {Cmd : Type} {Resp : Cmd → Type} {Exn α β γ σ ι : Type}

/-- How a run of a program ends. -/
inductive Outcome (Exn α : Type) : Type
  | returned (a : α)
  | raised (e : Exn)
  | hung
  deriving DecidableEq

/-! ## Composition -/

/-- Sequential composition. -/
def bind : Program Resp Exn α → (α → Program Resp Exn β) → Program Resp Exn β
  | ret a, f => f a
  | raise e, _ => raise e
  | hang, _ => hang
  | step c k, f => step c fun r => (k r).bind f

instance : Monad (Program Resp Exn) where
  pure := ret
  bind := bind

/-- Issue one command and return its answer. -/
def perform (c : Cmd) : Program Resp Exn (Resp c) := step c ret

/-- `try p except: handler`, where only a normal end of `p` goes on with `rest`:
an exception of `rest` is not caught. -/
def attempt : Program Resp Exn α → (Exn → Program Resp Exn β) →
    (α → Program Resp Exn β) → Program Resp Exn β
  | ret a, _, rest => rest a
  | raise e, handler, _ => handler e
  | hang, _, _ => hang
  | step c k, handler, rest => step c fun r => (k r).attempt handler rest

/-- `if P: p`, without an `else`. -/
def onlyIf (P : Prop) [Decidable P] (p : Program Resp Exn Unit) : Program Resp Exn Unit :=
  if P then p else ret ()

/-- Run a program for every element of a list, in order. -/
def forEach (f : ι → Program Resp Exn Unit) : List ι → Program Resp Exn Unit
  | [] => ret ()
  | i :: is => f i >>= fun _ => forEach f is

@[simp] theorem pure_eq_ret (a : α) : (pure a : Program Resp Exn α) = ret a := rfl

@[simp] theorem bind_eq (p : Program Resp Exn α) (f : α → Program Resp Exn β) :
    p.bind f = p >>= f := rfl

@[simp] theorem ret_bind (a : α) (f : α → Program Resp Exn β) : (ret a >>= f) = f a := rfl

@[simp] theorem raise_bind (e : Exn) (f : α → Program Resp Exn β) :
    ((raise e : Program Resp Exn α) >>= f) = raise e := rfl

@[simp] theorem hang_bind (f : α → Program Resp Exn β) :
    ((hang : Program Resp Exn α) >>= f) = hang := rfl

@[simp] theorem step_bind (c : Cmd) (k : Resp c → Program Resp Exn α)
    (f : α → Program Resp Exn β) : (step c k >>= f) = step c fun r => k r >>= f := rfl

theorem forEach_nil (f : ι → Program Resp Exn Unit) : forEach f [] = ret () := rfl

theorem forEach_cons (f : ι → Program Resp Exn Unit) (i : ι) (is : List ι) :
    forEach f (i :: is) = f i >>= fun _ => forEach f is := rfl

/-! ## Running a program -/

section Run

variable (exec : (c : Cmd) → σ → Resp c × σ)

/-- Run a program from a state with the interpreter `exec`. -/
def run : Program Resp Exn α → σ → Outcome Exn α × σ
  | ret a, s => (.returned a, s)
  | raise e, s => (.raised e, s)
  | hang, s => (.hung, s)
  | step c k, s => run (k (exec c s).1) (exec c s).2

@[simp] theorem run_ret (a : α) (s : σ) :
    run exec (ret a : Program Resp Exn α) s = (.returned a, s) := rfl

@[simp] theorem run_raise (e : Exn) (s : σ) :
    run exec (raise e : Program Resp Exn α) s = (.raised e, s) := rfl

@[simp] theorem run_hang (s : σ) : run exec (hang : Program Resp Exn α) s = (.hung, s) := rfl

@[simp] theorem run_step (c : Cmd) (k : Resp c → Program Resp Exn α) (s : σ) :
    run exec (step c k) s = run exec (k (exec c s).1) (exec c s).2 := rfl

@[simp] theorem run_perform (c : Cmd) (s : σ) :
    run exec (perform c : Program Resp Exn (Resp c)) s = (.returned (exec c s).1, (exec c s).2) :=
  rfl

/-- A composition runs its first part and, if that returns, the second one. -/
theorem run_bind (p : Program Resp Exn α) (f : α → Program Resp Exn β) (s : σ) :
    run exec (p >>= f) s =
      match run exec p s with
      | (.returned a, s') => run exec (f a) s'
      | (.raised e, s') => (.raised e, s')
      | (.hung, s') => (.hung, s') := by
  induction p generalizing s with
  | ret a => rfl
  | raise e => rfl
  | hang => rfl
  | step c k ih => exact ih _ _

/-- An `attempt` runs its body and then the handler or the rest. -/
theorem run_attempt (p : Program Resp Exn α) (handler : Exn → Program Resp Exn β)
    (rest : α → Program Resp Exn β) (s : σ) :
    run exec (p.attempt handler rest) s =
      match run exec p s with
      | (.returned a, s') => run exec (rest a) s'
      | (.raised e, s') => run exec (handler e) s'
      | (.hung, s') => (.hung, s') := by
  induction p generalizing s with
  | ret a => rfl
  | raise e => rfl
  | hang => rfl
  | step c k ih => exact ih _ _

end Run

/-! ## What a program can issue and return -/

/-- Every command the program can issue satisfies `C`. -/
def Uses (C : Cmd → Prop) : Program Resp Exn α → Prop
  | ret _ => True
  | raise _ => True
  | hang => True
  | step c k => C c ∧ ∀ r, (k r).Uses C

/-- Every value the program can return satisfies `Q`. -/
def Returns (Q : α → Prop) : Program Resp Exn α → Prop
  | ret a => Q a
  | raise _ => True
  | hang => True
  | step _ k => ∀ r, (k r).Returns Q

section Uses

variable {C D : Cmd → Prop}

@[simp] theorem uses_ret (a : α) : (ret a : Program Resp Exn α).Uses C := trivial

@[simp] theorem uses_raise (e : Exn) : (raise e : Program Resp Exn α).Uses C := trivial

@[simp] theorem uses_hang : (hang : Program Resp Exn α).Uses C := trivial

theorem uses_step {c : Cmd} {k : Resp c → Program Resp Exn α} :
    (step c k).Uses C ↔ C c ∧ ∀ r, (k r).Uses C := Iff.rfl

theorem uses_perform {c : Cmd} (h : C c) : (perform c : Program Resp Exn (Resp c)).Uses C :=
  ⟨h, fun _ => trivial⟩

/-- A composition uses what its parts use, the second one on the values the first
one can return. -/
theorem uses_bind_of_returns {Q : α → Prop} {p : Program Resp Exn α}
    {f : α → Program Resp Exn β} (hp : p.Uses C) (hq : p.Returns Q)
    (hf : ∀ a, Q a → (f a).Uses C) : (p >>= f).Uses C := by
  induction p with
  | ret a => exact hf a hq
  | raise e => trivial
  | hang => trivial
  | step c k ih => exact ⟨hp.1, fun r => ih r (hp.2 r) (hq r)⟩

theorem returns_true (p : Program Resp Exn α) : p.Returns fun _ => True := by
  induction p with
  | ret a => trivial
  | raise e => trivial
  | hang => trivial
  | step c k ih => exact ih

theorem uses_bind {p : Program Resp Exn α} {f : α → Program Resp Exn β} (hp : p.Uses C)
    (hf : ∀ a, (f a).Uses C) : (p >>= f).Uses C :=
  uses_bind_of_returns hp p.returns_true fun a _ => hf a

theorem uses_attempt {p : Program Resp Exn α} {handler : Exn → Program Resp Exn β}
    {rest : α → Program Resp Exn β} (hp : p.Uses C) (hh : ∀ e, (handler e).Uses C)
    (hr : ∀ a, (rest a).Uses C) : (p.attempt handler rest).Uses C := by
  induction p with
  | ret a => exact hr a
  | raise e => exact hh e
  | hang => trivial
  | step c k ih => exact ⟨hp.1, fun r => ih r (hp.2 r)⟩

theorem uses_onlyIf {P : Prop} [Decidable P] {p : Program Resp Exn Unit} (h : P → p.Uses C) :
    (onlyIf P p).Uses C := by
  unfold onlyIf
  split
  · exact h ‹_›
  · trivial

theorem uses_ite {P : Prop} [Decidable P] {p q : Program Resp Exn α} (hp : P → p.Uses C)
    (hq : ¬P → q.Uses C) : (if P then p else q).Uses C := by
  split
  · exact hp ‹_›
  · exact hq ‹_›

theorem uses_forEach {f : ι → Program Resp Exn Unit} {is : List ι}
    (hf : ∀ i ∈ is, (f i).Uses C) : (forEach f is).Uses C := by
  induction is with
  | nil => trivial
  | cons i is ih =>
    exact uses_bind (hf i List.mem_cons_self) fun _ =>
      ih fun j hj => hf j (List.mem_cons_of_mem i hj)

theorem Uses.mono {p : Program Resp Exn α} (hp : p.Uses C) (h : ∀ c, C c → D c) : p.Uses D := by
  induction p with
  | ret a => trivial
  | raise e => trivial
  | hang => trivial
  | step c k ih => exact ⟨h c hp.1, fun r => ih r (hp.2 r)⟩

theorem returns_bind {Q : α → Prop} {R : β → Prop} {p : Program Resp Exn α}
    {f : α → Program Resp Exn β} (hp : p.Returns Q) (hf : ∀ a, Q a → (f a).Returns R) :
    (p >>= f).Returns R := by
  induction p with
  | ret a => exact hf a hp
  | raise e => trivial
  | hang => trivial
  | step c k ih => exact fun r => ih r (hp r)

variable {exec : (c : Cmd) → σ → Resp c × σ}

/-- What every command of a program preserves, every run of the program preserves. -/
theorem run_preserves {I : σ → Prop} {p : Program Resp Exn α} (hp : p.Uses C)
    (hI : ∀ c, C c → ∀ s, I s → I (exec c s).2) {s : σ} (hs : I s) : I (run exec p s).2 := by
  induction p generalizing s with
  | ret a => exact hs
  | raise e => exact hs
  | hang => exact hs
  | step c k ih => exact ih _ (hp.2 _) (hI c hp.1 s hs)

end Uses

end Program
