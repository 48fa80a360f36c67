import DaqInterface.Program.Basic

/-!
# Weakest preconditions of programs

`wp exec p Q R s` says that running `p` from `s` ends, if it ends at all, with a
value and a state in `Q` or with an exception and a state in `R`.  It is computed
along the tree of `p`, so composition (`wp_bind`), exception handlers
(`wp_attempt`) and loops (`wp_forEach`) are rules about `wp` alone; `wp_returned`
and `wp_raised` lead back to `run`.  `Ends` is the missing half: no branch of the
tree hangs, so the run does end.  `RaisesAfter F` says which answers a program needs
to raise at all.
-/

namespace Program

variable {Cmd : Type} {Resp : Cmd → Type} {Exn α β σ ι : Type}
  {exec : (c : Cmd) → σ → Resp c × σ}

/-- From `s` the program ends, if it does, in `Q` or by an exception in `R`. -/
def wp (exec : (c : Cmd) → σ → Resp c × σ) (Q : α → σ → Prop) (R : Exn → σ → Prop) :
    Program Resp Exn α → σ → Prop
  | ret a, s => Q a s
  | raise e, s => R e s
  | hang, _ => True
  | step c k, s => wp exec Q R (k (exec c s).1) (exec c s).2

section Rules

variable {Q Q' : α → σ → Prop} {R R' : Exn → σ → Prop} {s : σ}

@[simp] theorem wp_ret {a : α} : (ret a : Program Resp Exn α).wp exec Q R s ↔ Q a s := Iff.rfl

@[simp] theorem wp_raise {e : Exn} : (raise e : Program Resp Exn α).wp exec Q R s ↔ R e s :=
  Iff.rfl

@[simp] theorem wp_hang : (hang : Program Resp Exn α).wp exec Q R s := trivial

@[simp] theorem wp_step {c : Cmd} {k : Resp c → Program Resp Exn α} :
    (step c k).wp exec Q R s ↔ (k (exec c s).1).wp exec Q R (exec c s).2 := Iff.rfl

@[simp] theorem wp_perform {c : Cmd} {Q : Resp c → σ → Prop} :
    (perform c : Program Resp Exn (Resp c)).wp exec Q R s ↔ Q (exec c s).1 (exec c s).2 := Iff.rfl

/-- The rule of sequential composition. -/
theorem wp_bind {p : Program Resp Exn α} {f : α → Program Resp Exn β} {Q : β → σ → Prop} :
    (p >>= f).wp exec Q R s ↔ p.wp exec (fun a => (f a).wp exec Q R) R s := by
  induction p generalizing s with
  | ret a => exact Iff.rfl
  | raise e => exact Iff.rfl
  | hang => exact Iff.rfl
  | step c k ih => exact ih _

/-- The rule of exception handlers. -/
theorem wp_attempt {p : Program Resp Exn α} {handler : Exn → Program Resp Exn β}
    {rest : α → Program Resp Exn β} {Q : β → σ → Prop} :
    (p.attempt handler rest).wp exec Q R s ↔
      p.wp exec (fun a => (rest a).wp exec Q R) (fun e => (handler e).wp exec Q R) s := by
  induction p generalizing s with
  | ret a => exact Iff.rfl
  | raise e => exact Iff.rfl
  | hang => exact Iff.rfl
  | step c k ih => exact ih _

/-- The rule of consequence. -/
theorem wp.mono {p : Program Resp Exn α} (h : p.wp exec Q R s)
    (hQ : ∀ a t, Q a t → Q' a t) (hR : ∀ e t, R e t → R' e t) : p.wp exec Q' R' s := by
  induction p generalizing s with
  | ret a => exact hQ a s h
  | raise e => exact hR e s h
  | hang => trivial
  | step c k ih => exact ih _ h

/-- A specification that every end of a program satisfies. -/
theorem wp.of_forall {p : Program Resp Exn α} (hQ : ∀ a t, Q a t) (hR : ∀ e t, R e t) :
    p.wp exec Q R s := by
  induction p generalizing s with
  | ret a => exact hQ a s
  | raise e => exact hR e s
  | hang => trivial
  | step c k ih => exact ih _

/-- Two specifications of one program hold together. -/
theorem wp.and {p : Program Resp Exn α} (h : p.wp exec Q R s) (h' : p.wp exec Q' R' s) :
    p.wp exec (fun a t => Q a t ∧ Q' a t) (fun e t => R e t ∧ R' e t) s := by
  induction p generalizing s with
  | ret a => exact ⟨h, h'⟩
  | raise e => exact ⟨h, h'⟩
  | hang => trivial
  | step c k ih => exact ih _ h h'

/-- The rule of conditionals. -/
theorem wp_ite {P : Prop} [Decidable P] {p q : Program Resp Exn α} :
    (if P then p else q).wp exec Q R s ↔ (P → p.wp exec Q R s) ∧ (¬P → q.wp exec Q R s) := by
  split <;> simp [*]

theorem wp_onlyIf {P : Prop} [Decidable P] {p : Program Resp Exn Unit} {Q : Unit → σ → Prop} :
    (onlyIf P p).wp exec Q R s ↔ (P → p.wp exec Q R s) ∧ (¬P → Q () s) := wp_ite

/-- The rule of loops: what the body keeps, the loop keeps, and an exception of the
loop is one of its body. -/
theorem wp_forEach {f : ι → Program Resp Exn Unit} {I : σ → Prop} {is : List ι}
    (hf : ∀ i ∈ is, ∀ t, I t → (f i).wp exec (fun _ => I) R t) (hs : I s) :
    (forEach f is).wp exec (fun _ => I) R s := by
  induction is generalizing s with
  | nil => exact hs
  | cons i is ih =>
    refine wp_bind.mpr ((hf i List.mem_cons_self s hs).mono (fun _ t ht => ?_) fun _ _ h => h)
    exact ih (fun j hj => hf j (List.mem_cons_of_mem i hj)) ht

/-- The rule of loops with an invariant that knows what the loop has done. -/
theorem wp_forEach_done {f : ι → Program Resp Exn Unit} {I : List ι → σ → Prop} {done is : List ι}
    (hf : ∀ done, ∀ i ∈ is, ∀ t, I done t → (f i).wp exec (fun _ => I (done ++ [i])) R t)
    (hs : I done s) : (forEach f is).wp exec (fun _ => I (done ++ is)) R s := by
  induction is generalizing s done with
  | nil => exact (List.append_nil done).symm ▸ hs
  | cons i is ih =>
    refine wp_bind.mpr ((hf done i List.mem_cons_self s hs).mono (fun _ t ht => ?_) fun _ _ h => h)
    have hrest := ih (fun done j hj => hf done j (List.mem_cons_of_mem i hj)) ht
    rwa [List.append_assoc, List.singleton_append] at hrest

/-- An invariant of the commands of a program is an invariant of its runs. -/
theorem wp_of_uses {C : Cmd → Prop} {I : σ → Prop} {p : Program Resp Exn α} (hp : p.Uses C)
    (hI : ∀ c, C c → ∀ t, I t → I (exec c t).2) (hs : I s) :
    p.wp exec (fun _ => I) (fun _ => I) s := by
  induction p generalizing s with
  | ret a => exact hs
  | raise e => exact hs
  | hang => trivial
  | step c k ih => exact ih _ (hp.2 _) (hI c hp.1 s hs)

/-- What holds of every returned value may be used in a postcondition. -/
theorem wp.of_returns {P : α → Prop} {p : Program Resp Exn α} (h : p.wp exec Q R s)
    (hp : p.Returns P) : p.wp exec (fun a t => Q a t ∧ P a) R s := by
  induction p generalizing s with
  | ret a => exact ⟨h, hp⟩
  | raise e => exact h
  | hang => trivial
  | step c k ih => exact ih _ h (hp _)

/-- A run that returns ends in the normal postcondition. -/
theorem wp.returned {p : Program Resp Exn α} (h : p.wp exec Q R s) {a : α} {t : σ}
    (hrun : run exec p s = (.returned a, t)) : Q a t := by
  induction p generalizing s with
  | ret b => simp only [run_ret, Prod.mk.injEq, Outcome.returned.injEq] at hrun
             obtain ⟨rfl, rfl⟩ := hrun
             exact h
  | raise e => simp at hrun
  | hang => simp at hrun
  | step c k ih => exact ih _ h hrun

/-- A run that raises ends in the exceptional postcondition. -/
theorem wp.raised {p : Program Resp Exn α} (h : p.wp exec Q R s) {e : Exn} {t : σ}
    (hrun : run exec p s = (.raised e, t)) : R e t := by
  induction p generalizing s with
  | ret b => simp at hrun
  | raise e => simp only [run_raise, Prod.mk.injEq, Outcome.raised.injEq] at hrun
               obtain ⟨rfl, rfl⟩ := hrun
               exact h
  | hang => simp at hrun
  | step c k ih => exact ih _ h hrun

end Rules

/-! ## Programs that end -/

/-- No branch of the program hangs. -/
def Ends : Program Resp Exn α → Prop
  | ret _ => True
  | raise _ => True
  | hang => False
  | step _ k => ∀ r, (k r).Ends

/-- The program raises only behind an answer in `F`. -/
def RaisesAfter (F : (c : Cmd) → Resp c → Prop) : Program Resp Exn α → Prop
  | ret _ => True
  | raise _ => False
  | hang => True
  | step c k => ∀ r, F c r ∨ (k r).RaisesAfter F

section Ends

@[simp] theorem ends_ret (a : α) : (ret a : Program Resp Exn α).Ends := trivial

@[simp] theorem ends_raise (e : Exn) : (raise e : Program Resp Exn α).Ends := trivial

@[simp] theorem ends_perform (c : Cmd) : (perform c : Program Resp Exn (Resp c)).Ends :=
  fun _ => trivial

theorem ends_bind {p : Program Resp Exn α} {f : α → Program Resp Exn β} (hp : p.Ends)
    (hf : ∀ a, (f a).Ends) : (p >>= f).Ends := by
  induction p with
  | ret a => exact hf a
  | raise e => trivial
  | hang => exact hp
  | step c k ih => exact fun r => ih r (hp r)

theorem ends_attempt {p : Program Resp Exn α} {handler : Exn → Program Resp Exn β}
    {rest : α → Program Resp Exn β} (hp : p.Ends) (hh : ∀ e, (handler e).Ends)
    (hr : ∀ a, (rest a).Ends) : (p.attempt handler rest).Ends := by
  induction p with
  | ret a => exact hr a
  | raise e => exact hh e
  | hang => exact hp
  | step c k ih => exact fun r => ih r (hp r)

theorem ends_onlyIf {P : Prop} [Decidable P] {p : Program Resp Exn Unit} (h : p.Ends) :
    (onlyIf P p).Ends := by
  unfold onlyIf
  split
  · exact h
  · trivial

theorem ends_forEach {f : ι → Program Resp Exn Unit} {is : List ι} (hf : ∀ i ∈ is, (f i).Ends) :
    (forEach f is).Ends := by
  induction is with
  | nil => trivial
  | cons i is ih =>
    exact ends_bind (hf i List.mem_cons_self) fun _ =>
      ih fun j hj => hf j (List.mem_cons_of_mem i hj)

/-- A program that ends is run to a value or to an exception. -/
theorem Ends.run_ne_hung {p : Program Resp Exn α} (h : p.Ends) (s : σ) :
    (run exec p s).1 ≠ .hung := by
  induction p generalizing s with
  | ret a => simp
  | raise e => simp
  | hang => exact absurd h id
  | step c k ih => exact ih _ (h _) _

end Ends

section RaisesAfter

variable {F : (c : Cmd) → Resp c → Prop}

@[simp] theorem raisesAfter_ret (a : α) : (ret a : Program Resp Exn α).RaisesAfter F := trivial

theorem raisesAfter_perform (c : Cmd) : (perform c : Program Resp Exn (Resp c)).RaisesAfter F :=
  fun _ => Or.inr trivial

theorem raisesAfter_bind {p : Program Resp Exn α} {f : α → Program Resp Exn β}
    (hp : p.RaisesAfter F) (hf : ∀ a, (f a).RaisesAfter F) : (p >>= f).RaisesAfter F := by
  induction p with
  | ret a => exact hf a
  | raise e => exact absurd hp id
  | hang => trivial
  | step c k ih => exact fun r => (hp r).imp id (ih r)

/-- What the body raises is caught. -/
theorem raisesAfter_attempt {p : Program Resp Exn α} {handler : Exn → Program Resp Exn β}
    {rest : α → Program Resp Exn β} (hh : ∀ e, (handler e).RaisesAfter F)
    (hr : ∀ a, (rest a).RaisesAfter F) : (p.attempt handler rest).RaisesAfter F := by
  induction p with
  | ret a => exact hr a
  | raise e => exact hh e
  | hang => trivial
  | step c k ih => exact fun r => Or.inr (ih r)

theorem raisesAfter_onlyIf {P : Prop} [Decidable P] {p : Program Resp Exn Unit}
    (h : p.RaisesAfter F) : (onlyIf P p).RaisesAfter F := by
  unfold onlyIf
  split
  · exact h
  · trivial

theorem raisesAfter_forEach {f : ι → Program Resp Exn Unit} {is : List ι}
    (hf : ∀ i ∈ is, (f i).RaisesAfter F) : (forEach f is).RaisesAfter F := by
  induction is with
  | nil => trivial
  | cons i is ih =>
    exact raisesAfter_bind (hf i List.mem_cons_self) fun _ =>
      ih fun j hj => hf j (List.mem_cons_of_mem i hj)

/-- Where every answer in `F` leaves a lasting mark on the state, a run that raises ends with
that mark. -/
theorem RaisesAfter.wp {p : Program Resp Exn α} (h : p.RaisesAfter F) {B : σ → Prop}
    (hmark : ∀ c t, F c (exec c t).1 → B (exec c t).2)
    (hkeep : ∀ c t, B t → B (exec c t).2) (s : σ) :
    p.wp exec (fun _ _ => True) (fun _ => B) s := by
  have hlast : ∀ (q : Program Resp Exn α) t, B t → q.wp exec (fun _ _ => True) (fun _ => B) t := by
    intro q
    induction q with
    | ret a => exact fun _ _ => trivial
    | raise e => exact fun _ ht => ht
    | hang => exact fun _ _ => trivial
    | step c k ih => exact fun t ht => ih _ _ (hkeep c t ht)
  induction p generalizing s with
  | ret a => trivial
  | raise e => exact absurd h id
  | hang => trivial
  | step c k ih =>
    rcases h (exec c s).1 with hF | hk
    · exact hlast (k _) _ (hmark c s hF)
    · exact ih _ hk _

end RaisesAfter

end Program
