import DaqInterface.Program.Triple

/-!
# Programs under interference

A thread of a pool does not run alone: between two of its commands the state may change.
A `Contract` says by how much (`rely`) and what its own commands do in return
(`guarantee`).  `under exec K Q R p s` is the weakest precondition of `p` where every
command may be preceded by a change in `K.rely`; its rules are those of `wp`.
-/

namespace Program

variable {Cmd : Type} {Resp : Cmd → Type} {Exn α β σ ι : Type}
  {exec : (c : Cmd) → σ → Resp c × σ}

/-- What a thread relies on, and what each of its commands guarantees. -/
structure Contract (σ : Type) where
  /-- The changes that other threads may make between two commands. -/
  rely : σ → σ → Prop
  /-- The changes that a command of the thread may make. -/
  guarantee : σ → σ → Prop
  /-- The others may do nothing. -/
  refl : ∀ s, rely s s
  /-- The others may do several things. -/
  trans : ∀ {s t u}, rely s t → rely t u → rely s u

/-- From `s`, with interference, the program keeps its guarantee and ends, if it does, in `Q`
or by an exception in `R`. -/
def under (exec : (c : Cmd) → σ → Resp c × σ) (K : Contract σ) (Q : α → σ → Prop)
    (R : Exn → σ → Prop) : Program Resp Exn α → σ → Prop
  | ret a, s => ∀ t, K.rely s t → Q a t
  | raise e, s => ∀ t, K.rely s t → R e t
  | hang, _ => True
  | step c k, s => ∀ t, K.rely s t →
      K.guarantee t (exec c t).2 ∧ under exec K Q R (k (exec c t).1) (exec c t).2

section Rules

variable {K : Contract σ} {Q Q' : α → σ → Prop} {R R' : Exn → σ → Prop} {s : σ}

/-- An assertion with interference survives interference. -/
theorem under.stable {p : Program Resp Exn α} (h : p.under exec K Q R s) {t : σ}
    (hst : K.rely s t) : p.under exec K Q R t := by
  cases p with
  | ret a => exact fun u hu => h u (K.trans hst hu)
  | raise e => exact fun u hu => h u (K.trans hst hu)
  | hang => trivial
  | step c k => exact fun u hu => h u (K.trans hst hu)

theorem under_perform {c : Cmd} {Q : Resp c → σ → Prop}
    (h : ∀ t, K.rely s t → K.guarantee t (exec c t).2 ∧
      ∀ u, K.rely (exec c t).2 u → Q (exec c t).1 u) :
    (perform c : Program Resp Exn (Resp c)).under exec K Q R s := h

theorem under_bind {p : Program Resp Exn α} {f : α → Program Resp Exn β} {Q : β → σ → Prop}
    (h : p.under exec K (fun a => (f a).under exec K Q R) R s) :
    (p >>= f).under exec K Q R s := by
  induction p generalizing s with
  | ret a => exact h s (K.refl s)
  | raise e => exact h
  | hang => trivial
  | step c k ih => exact fun t ht => ⟨(h t ht).1, ih _ (h t ht).2⟩

theorem under_attempt {p : Program Resp Exn α} {handler : Exn → Program Resp Exn β}
    {rest : α → Program Resp Exn β} {Q : β → σ → Prop}
    (h : p.under exec K (fun a => (rest a).under exec K Q R)
      (fun e => (handler e).under exec K Q R) s) : (p.attempt handler rest).under exec K Q R s := by
  induction p generalizing s with
  | ret a => exact h s (K.refl s)
  | raise e => exact h s (K.refl s)
  | hang => trivial
  | step c k ih => exact fun t ht => ⟨(h t ht).1, ih _ (h t ht).2⟩

/-- The rule of consequence. -/
theorem under.mono {p : Program Resp Exn α} (h : p.under exec K Q R s)
    (hQ : ∀ a t, Q a t → Q' a t) (hR : ∀ e t, R e t → R' e t) : p.under exec K Q' R' s := by
  induction p generalizing s with
  | ret a => exact fun t ht => hQ a t (h t ht)
  | raise e => exact fun t ht => hR e t (h t ht)
  | hang => trivial
  | step c k ih => exact fun t ht => ⟨(h t ht).1, ih _ (h t ht).2⟩

/-- What the commands of a program and the interference keep, the program keeps. -/
theorem under_of_uses {C : Cmd → Prop} {I : σ → Prop} {p : Program Resp Exn α} (hp : p.Uses C)
    (hrely : ∀ t u, I t → K.rely t u → I u)
    (hexec : ∀ c, C c → ∀ t, I t → K.guarantee t (exec c t).2 ∧ I (exec c t).2) (hs : I s) :
    p.under exec K (fun _ => I) (fun _ => I) s := by
  induction p generalizing s with
  | ret a => exact fun t ht => hrely s t hs ht
  | raise e => exact fun t ht => hrely s t hs ht
  | hang => trivial
  | step c k ih =>
    intro t ht
    obtain ⟨hg, hI⟩ := hexec c hp.1 t (hrely s t hs ht)
    exact ⟨hg, ih _ (hp.2 _) hI⟩

end Rules

end Program
