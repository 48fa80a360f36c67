import DaqInterface.Program.Rely

/-!
# Pools of threads

A thread is a program that returns nothing.  `parallel sched order pool` starts
the threads of `pool`, lets them issue commands in the order `sched` names them,
and then joins those of `order` one after the other: a thread that is joined runs
to its end, and its exception becomes the exception of the join.  A schedule can
be as long as all threads together, so every interleaving of them is the run of
some schedule.

The rule `wp_parallel` is of the rely/guarantee kind: each thread comes with a
`Contract`, the contracts of a pool form a `Team`, and each thread is verified by
itself, under the interference that its contract allows (`under`).
-/

namespace Program

variable {Cmd : Type} {Resp : Cmd → Type} {Exn α σ : Type}

/-- Let the threads named by the schedule issue one command each, in that order. -/
def interleave : List ℕ → List (Program Resp Exn Unit) →
    Program Resp Exn (List (Program Resp Exn Unit))
  | [], pool => ret pool
  | i :: sched, pool =>
    match pool[i]? with
    | some (step c k) => step c fun r => interleave sched (pool.set i (k r))
    | _ => interleave sched pool

/-- Join the threads of a list one after the other; the first exception ends it. -/
def join : List ℕ → List (Program Resp Exn Unit) → Program Resp Exn Unit
  | [], _ => ret ()
  | i :: order, pool =>
    match pool[i]? with
    | some p => p >>= fun _ => join order (pool.set i (ret ()))
    | none => join order pool

/-- Start all threads of the pool, interleave them and join those of `order`. -/
def parallel (sched order : List ℕ) (pool : List (Program Resp Exn Unit)) :
    Program Resp Exn Unit :=
  interleave sched pool >>= join order

/-! ## Properties of the tree -/

section Tree

variable {C : Cmd → Prop} {pool : List (Program Resp Exn Unit)}

/-- A property of thread programs that survives the commands of a thread holds of
every thread left by `interleave`. -/
theorem returns_interleave {S : Program Resp Exn Unit → Prop}
    (hS : ∀ c k, S (step c k) → ∀ r, S (k r)) (sched : List ℕ) (h : ∀ p ∈ pool, S p) :
    (interleave sched pool).Returns fun pool' => ∀ p ∈ pool', S p := by
  induction sched generalizing pool with
  | nil => exact h
  | cons i sched ih =>
    unfold interleave
    split
    · rename_i c k hi
      intro r
      refine ih fun p hp => ?_
      rcases List.mem_or_eq_of_mem_set hp with hp | rfl
      · exact h p hp
      · exact hS c k (h _ (List.mem_of_getElem? hi)) r
    · exact ih h

theorem uses_interleave (sched : List ℕ) (h : ∀ p ∈ pool, p.Uses C) :
    (interleave sched pool).Uses C := by
  induction sched generalizing pool with
  | nil => trivial
  | cons i sched ih =>
    unfold interleave
    split
    · rename_i c k hi
      have hck : (step c k).Uses C := h _ (List.mem_of_getElem? hi)
      refine ⟨hck.1, fun r => ih fun p hp => ?_⟩
      rcases List.mem_or_eq_of_mem_set hp with hp | rfl
      · exact h p hp
      · exact hck.2 r
    · exact ih h

theorem uses_join (order : List ℕ) (h : ∀ p ∈ pool, p.Uses C) : (join order pool).Uses C := by
  induction order generalizing pool with
  | nil => trivial
  | cons i order ih =>
    unfold join
    split
    · rename_i p hi
      refine uses_bind (h p (List.mem_of_getElem? hi)) fun _ => ih fun q hq => ?_
      rcases List.mem_or_eq_of_mem_set hq with hq | rfl
      · exact h q hq
      · trivial
    · exact ih h

/-- A pool uses what its threads use. -/
theorem uses_parallel {sched order : List ℕ} (h : ∀ p ∈ pool, p.Uses C) :
    (parallel sched order pool).Uses C :=
  uses_bind_of_returns (uses_interleave sched h)
    (returns_interleave (fun _ _ hck r => hck.2 r) sched h) fun _ h' => uses_join order h'

theorem ends_interleave (sched : List ℕ) : (interleave sched pool).Ends := by
  induction sched generalizing pool with
  | nil => trivial
  | cons i sched ih =>
    unfold interleave
    split
    · exact fun r => ih
    · exact ih

theorem ends_join (order : List ℕ) (h : ∀ p ∈ pool, p.Ends) : (join order pool).Ends := by
  induction order generalizing pool with
  | nil => trivial
  | cons i order ih =>
    unfold join
    split
    · rename_i p hi
      refine ends_bind (h p (List.mem_of_getElem? hi)) fun _ => ih fun q hq => ?_
      rcases List.mem_or_eq_of_mem_set hq with hq | rfl
      · exact h q hq
      · trivial
    · exact ih h

theorem ends_bind_of_returns {P : α → Prop} {β : Type} {p : Program Resp Exn α}
    {f : α → Program Resp Exn β} (hp : p.Ends) (hr : p.Returns P) (hf : ∀ a, P a → (f a).Ends) :
    (p >>= f).Ends := by
  induction p with
  | ret a => exact hf a hr
  | raise e => trivial
  | hang => exact hp
  | step c k ih => exact fun r => ih r (hp r) (hr r)

theorem ends_parallel {sched order : List ℕ} (h : ∀ p ∈ pool, p.Ends) :
    (parallel sched order pool).Ends :=
  ends_bind_of_returns (ends_interleave sched)
    (returns_interleave (fun _ _ hck r => hck r) sched h) fun _ h' => ends_join order h'

theorem raisesAfter_join {F : (c : Cmd) → Resp c → Prop} (order : List ℕ)
    (h : ∀ p ∈ pool, p.RaisesAfter F) : (join order pool).RaisesAfter F := by
  induction order generalizing pool with
  | nil => trivial
  | cons i order ih =>
    unfold join
    split
    · rename_i p hi
      refine raisesAfter_bind (h p (List.mem_of_getElem? hi)) fun _ => ih fun q hq => ?_
      rcases List.mem_or_eq_of_mem_set hq with hq | rfl
      · exact h q hq
      · trivial
    · exact ih h

/-- A pool raises only where one of its threads does. -/
theorem raisesAfter_parallel {F : (c : Cmd) → Resp c → Prop} {sched order : List ℕ}
    (h : ∀ p ∈ pool, p.RaisesAfter F) : (parallel sched order pool).RaisesAfter F := by
  unfold parallel
  induction sched generalizing pool with
  | nil => exact raisesAfter_join order h
  | cons i sched ih =>
    unfold interleave
    split
    · rename_i c k hi
      intro r
      refine (h _ (List.mem_of_getElem? hi) r).imp id fun hk => ih fun p hp => ?_
      rcases List.mem_or_eq_of_mem_set hp with hp | rfl
      · exact h p hp
      · exact hk
    · exact ih h

end Tree

/-! ## The rule of parallel composition -/

/-- The contracts of a pool: on what one thread guarantees the others can rely, and it keeps
the invariant of the pool. -/
structure Team (σ : Type) where
  /-- The contract of a thread. -/
  contract : ℕ → Contract σ
  /-- The invariant of the pool. -/
  inv : σ → Prop
  /-- What thread `i` guarantees is what thread `j` relies on. -/
  compatible : ∀ {i j s t}, i ≠ j → (contract i).guarantee s t → (contract j).rely s t
  /-- What thread `i` guarantees keeps the invariant. -/
  keeps : ∀ {i s t}, (contract i).guarantee s t → inv s → inv t

section Rule

variable {exec : (c : Cmd) → σ → Resp c × σ} {T : Team σ} {Q : ℕ → σ → Prop}
  {R : ℕ → Exn → σ → Prop} {pool : List (Program Resp Exn Unit)} {s : σ}

/-- The invariant of the pool holds, and every thread keeps its contract from here on. -/
structure Holds (exec : (c : Cmd) → σ → Resp c × σ) (T : Team σ) (Q : ℕ → σ → Prop)
    (R : ℕ → Exn → σ → Prop) (pool : List (Program Resp Exn Unit)) (s : σ) : Prop where
  /-- The invariant of the pool. -/
  inv : T.inv s
  /-- The rest of each thread. -/
  threads : ∀ (i : ℕ) (p : Program Resp Exn Unit), pool[i]? = some p →
    p.under exec (T.contract i) (fun _ => Q i) (R i) s

/-- One command of a thread leads to a pool that holds. -/
theorem Holds.step {i : ℕ} {c : Cmd} {k : Resp c → Program Resp Exn Unit}
    (h : Holds exec T Q R pool s) (hi : pool[i]? = some (step c k)) :
    Holds exec T Q R (pool.set i (k (exec c s).1)) (exec c s).2 := by
  obtain ⟨hg, hrest⟩ := h.threads i _ hi s ((T.contract i).refl s)
  refine ⟨T.keeps hg h.inv, fun j q hj => ?_⟩
  have hlt : i < pool.length := (List.getElem?_eq_some_iff.mp hi).1
  rw [List.getElem?_set] at hj
  split at hj
  · rename_i hij
    subst hij
    obtain rfl : k (exec c s).1 = q := by simpa [hlt] using hj
    exact hrest
  · rename_i hij
    exact (h.threads j q hj).stable (T.compatible hij hg)

theorem wp_interleave {R' : Exn → σ → Prop} (sched : List ℕ) (h : Holds exec T Q R pool s) :
    (interleave sched pool).wp exec
      (fun pool' t => pool'.length = pool.length ∧ Holds exec T Q R pool' t) R' s := by
  induction sched generalizing pool s with
  | nil => exact ⟨rfl, h⟩
  | cons i sched ih =>
    unfold interleave
    split
    · rename_i c k hi
      have hnext := ih (h.step hi)
      simpa using hnext
    · exact ih h

/-- Writing back what a pool has at an index changes nothing. -/
theorem set_of_getElem? {i : ℕ} {p : Program Resp Exn Unit} (hi : pool[i]? = some p) :
    pool.set i p = pool := by
  obtain ⟨hlt, rfl⟩ := List.getElem?_eq_some_iff.mp hi
  exact List.set_getElem_self hlt

/-- A thread that is run alone keeps the pool. -/
theorem wp_thread {i : ℕ} (p : Program Resp Exn Unit) (h : Holds exec T Q R pool s)
    (hi : pool[i]? = some p) :
    p.wp exec (fun _ t => Holds exec T Q R (pool.set i (ret ())) t)
      (fun e t => T.inv t ∧ R i e t) s := by
  induction p generalizing pool s with
  | ret a => rwa [wp_ret, set_of_getElem? hi]
  | raise e => exact ⟨h.inv, h.threads i _ hi s ((T.contract i).refl s)⟩
  | hang => trivial
  | step c k ih =>
    have hlt : i < pool.length := (List.getElem?_eq_some_iff.mp hi).1
    have hnext := ih (exec c s).1 (h.step hi) (by simp [hlt])
    simpa using hnext

/-- A thread at its end satisfies its postcondition. -/
theorem Holds.ended {i : ℕ} (h : Holds exec T Q R pool s) (hi : pool[i]? = some (ret ())) :
    Q i s :=
  h.threads i _ hi s ((T.contract i).refl s)

theorem wp_join (order : List ℕ) (h : Holds exec T Q R pool s) :
    (join order pool).wp exec
      (fun _ t => ∃ pool' : List (Program Resp Exn Unit), Holds exec T Q R pool' t ∧
        (∀ i : ℕ, pool[i]? = some (ret ()) → pool'[i]? = some (ret ())) ∧
        ∀ i : ℕ, i ∈ order → i < pool.length → pool'[i]? = some (ret ()))
      (fun e t => T.inv t ∧ ∃ i ∈ order, R i e t) s := by
  induction order generalizing pool s with
  | nil => exact ⟨pool, h, fun _ hi => hi, fun i hi => absurd hi List.not_mem_nil⟩
  | cons i order ih =>
    unfold join
    split
    · rename_i p hi
      have hlt : i < pool.length := (List.getElem?_eq_some_iff.mp hi).1
      refine wp_bind.mpr ((wp_thread p h hi).mono (fun _ t ht => ?_) fun e t ht => ?_)
      · refine (ih ht).mono (fun _ u hu => ?_) fun e u hu => ?_
        · obtain ⟨pool', hhold, hkeep, hdone⟩ := hu
          rw [List.length_set] at hdone
          have hret : ∀ j : ℕ, (pool.set i (ret ()))[j]? = some (ret ()) →
              pool'[j]? = some (ret ()) := hkeep
          refine ⟨pool', hhold, fun j hj => hret j ?_, fun j hj hjlt => ?_⟩
          · by_cases hij : i = j
            · subst hij; simp [hlt]
            · simpa [List.getElem?_set, hij] using hj
          · rcases List.mem_cons.mp hj with rfl | hj
            · exact hret j (by simp [hlt])
            · exact hdone j hj hjlt
        · obtain ⟨hinv, j, hj, hraise⟩ := hu
          exact ⟨hinv, j, List.mem_cons_of_mem i hj, hraise⟩
      · exact ⟨ht.1, i, List.mem_cons_self, ht.2⟩
    · rename_i hi
      have hge : pool.length ≤ i := List.getElem?_eq_none_iff.mp hi
      refine (ih h).mono (fun _ u hu => ?_) fun e u hu => ?_
      · obtain ⟨pool', hhold, hkeep, hdone⟩ := hu
        refine ⟨pool', hhold, hkeep, fun j hj hjlt => ?_⟩
        rcases List.mem_cons.mp hj with rfl | hj
        · omega
        · exact hdone j hj hjlt
      · obtain ⟨hinv, j, hj, hraise⟩ := hu
        exact ⟨hinv, j, List.mem_cons_of_mem i hj, hraise⟩

/-- The rule of parallel composition: when the pool is joined, the invariant holds and every
joined thread satisfies its postcondition; an exception is the one of a joined thread. -/
theorem wp_parallel {sched order : List ℕ} (hinv : T.inv s)
    (h : ∀ (i : ℕ) (p : Program Resp Exn Unit), pool[i]? = some p →
      p.under exec (T.contract i) (fun _ => Q i) (R i) s) :
    (parallel sched order pool).wp exec
      (fun _ t => T.inv t ∧ ∀ i : ℕ, i ∈ order → i < pool.length → Q i t)
      (fun e t => T.inv t ∧ ∃ i ∈ order, R i e t) s := by
  refine wp_bind.mpr ((wp_interleave sched ⟨hinv, h⟩).mono (fun pool₁ t ht => ?_) fun _ _ hr => hr)
  obtain ⟨hlen, hhold⟩ := ht
  refine (wp_join order hhold).mono (fun _ u hu => ?_) fun e u hu => hu
  obtain ⟨pool', hhold', -, hdone⟩ := hu
  exact ⟨hhold'.inv, fun i hi hlt => hhold'.ended (hdone i hi (by omega))⟩

end Rule

end Program
