import DaqInterface.Program.Pool

/-!
# Items with histories

What happens is recorded in a log, newest entry first, and entries may be about items.  The history
of an item is what the log says about it.  Threads that have one item each rely on the others to
leave its history alone (`keeper`), so that each can be verified by itself (`wp_keepers`).  Whether
entries may come at the place where they are is said by a relation to the entries before them
(`Chained`).
-/

namespace Program

variable {Cmd : Type} {Resp : Cmd → Type} {Exn α β σ Ev : Type}

/-! ## Loops -/

section Loops

variable {ι : Type} {exec : (c : Cmd) → σ → Resp c × σ} {R : Exn → σ → Prop} {s : σ}

/-- The rule of loops with an invariant that knows which turns are over. -/
theorem wp_forEach_split {f : ι → Program Resp Exn Unit} {I : List ι → σ → Prop} {is : List ι}
    (hf : ∀ done i rest, is = done ++ i :: rest → ∀ t, I done t →
      (f i).wp exec (fun _ => I (done ++ [i])) R t)
    (hs : I [] s) : (forEach f is).wp exec (fun _ => I is) R s := by
  have hrest : ∀ rest done t, is = done ++ rest → I done t →
      (forEach f rest).wp exec (fun _ => I is) R t := by
    intro rest
    induction rest with
    | nil =>
      intro done t hsplit hdone
      rw [List.append_nil] at hsplit
      exact hsplit ▸ hdone
    | cons i rest ih =>
      intro done t hsplit hdone
      refine wp_bind.mpr ((hf done i rest hsplit t hdone).mono (fun _ u hu => ?_) fun _ _ h => h)
      refine ih (done ++ [i]) u ?_ hu
      rw [hsplit, List.append_assoc, List.singleton_append]
  exact hrest is [] s rfl hs

end Loops

/-! ## Logs -/

/-- Every entry of a log is allowed by those before it. -/
def Chained (allowed : List Ev → Ev → Prop) : List Ev → Prop
  | [] => True
  | e :: older => allowed older e ∧ Chained allowed older

section Chained

variable {allowed : List Ev → Ev → Prop} {new old older : List Ev} {e : Ev}

theorem Chained.append (h : Chained allowed old) (hnew : ∀ e ∈ new, ∀ older, allowed older e) :
    Chained allowed (new ++ old) := by
  induction new with
  | nil => exact h
  | cons e new ih =>
    obtain ⟨he, hrest⟩ := List.forall_mem_cons.mp hnew
    exact ⟨he _, ih hrest⟩

theorem Chained.right (h : Chained allowed (new ++ old)) : Chained allowed old := by
  induction new with
  | nil => exact h
  | cons e new ih => exact ih h.2

/-- The place of an entry. -/
theorem Chained.place (h : Chained allowed (new ++ e :: older)) : allowed older e := h.right.1

end Chained

/-- A log, and which of its entries are about which item. -/
structure Ledger (σ Ev : Type) where
  /-- The entries so far, newest first. -/
  log : σ → List Ev
  /-- The entry is about the item. -/
  about : ℕ → Ev → Bool

namespace Ledger

variable (L : Ledger σ Ev)

/-- What a log says about an item. -/
def said (i : ℕ) (log : List Ev) : List Ev := log.filter (L.about i)

/-- The history of an item. -/
def history (i : ℕ) (s : σ) : List Ev := L.said i (L.log s)

variable {L} {i : ℕ} {new old : List Ev} {e : Ev}

theorem said_append : L.said i (new ++ old) = L.said i new ++ L.said i old :=
  List.filter_append _ _

theorem said_cons_of_about (h : L.about i e = true) : L.said i (e :: old) = e :: L.said i old :=
  List.filter_cons_of_pos h

theorem said_cons_of_not_about (h : L.about i e = false) : L.said i (e :: old) = L.said i old :=
  List.filter_cons_of_neg (Bool.eq_false_iff.mp h)

theorem said_eq_nil (h : ∀ e ∈ new, L.about i e = false) : L.said i new = [] :=
  List.filter_eq_nil_iff.mpr fun e he => Bool.eq_false_iff.mp (h e he)

theorem said_append_of_not_about (h : ∀ e ∈ new, L.about i e = false) :
    L.said i (new ++ old) = L.said i old := by
  rw [said_append, said_eq_nil h, List.nil_append]

/-- If nothing may follow an item's history, nothing is said about it any more. -/
theorem said_eq_nil_of_through {allowed : List Ev → Ev → Prop}
    (h : Chained allowed (L.said i (new ++ old))) (hend : ∀ e, ¬ allowed (L.said i old) e) :
    L.said i new = [] := by
  rw [said_append] at h
  rcases List.eq_nil_or_concat (L.said i new) with hnil | ⟨newer, e, heq⟩
  · exact hnil
  · rw [heq, List.concat_eq_append, List.append_assoc] at h
    exact absurd h.place (hend e)

/-! ## Threads with one item each -/

variable (L) in
/-- The contract of the thread of an item, in a pool that keeps an invariant. -/
def keeper (J : σ → Prop) (i : ℕ) : Contract σ where
  rely s t := (J s → J t) ∧ L.history i t = L.history i s
  guarantee s t := (J s → J t) ∧ ∀ j, j ≠ i → L.history j t = L.history j s
  refl _ := ⟨id, rfl⟩
  trans h h' := ⟨h'.1 ∘ h.1, h'.2.trans h.2⟩

/-- The contract of no thread. -/
def absent : Contract σ where
  rely _ _ := True
  guarantee _ _ := False
  refl _ := trivial
  trans _ _ := trivial

variable (L) in
/-- The threads of some items. -/
def keepers (J : σ → Prop) (items : List ℕ) (hnodup : items.Nodup) : Team σ where
  contract k := items[k]?.elim absent (L.keeper J)
  inv := J
  compatible := by
    intro k k' s t hne hg
    cases hk : items[k]? with
    | none => rw [hk] at hg; exact absurd hg id
    | some i =>
      cases hk' : items[k']? with
      | none => trivial
      | some i' =>
        rw [hk] at hg
        have hlt : k' < items.length := (List.getElem?_eq_some_iff.mp hk').1
        have hii : i' ≠ i := fun heq =>
          hne ((List.getElem?_inj hlt hnodup).mp (hk'.trans (heq ▸ hk.symm))).symm
        exact ⟨hg.1, hg.2 i' hii⟩
  keeps := by
    intro k s t hg
    cases hk : items[k]? with
    | none => rw [hk] at hg; exact absurd hg id
    | some i => rw [hk] at hg; exact hg.1

variable {exec : (c : Cmd) → σ → Resp c × σ} {J : σ → Prop} {items sched : List ℕ}
  {f : ℕ → Program Resp Exn Unit} {D : ℕ → List Ev → Prop} {R : Exn → σ → Prop} {s : σ}

/-- The rule of pools whose threads have one item each: when they are joined, the history of each
item is as its thread leaves it. -/
theorem wp_keepers (hnodup : items.Nodup) (hs : J s)
    (h : ∀ i ∈ items, (f i).under exec (L.keeper J i) (fun _ t => D i (L.history i t)) R s) :
    (parallel sched (List.range items.length) (items.map f)).wp exec
      (fun _ t => J t ∧ ∀ i ∈ items, D i (L.history i t)) (fun e t => J t ∧ R e t) s := by
  have hthreads : ∀ (k : ℕ) (p : Program Resp Exn Unit), (items.map f)[k]? = some p →
      p.under exec ((L.keepers J items hnodup).contract k)
        (fun _ t => ∀ i, items[k]? = some i → D i (L.history i t)) R s := by
    intro k p hk
    rw [List.getElem?_map] at hk
    obtain ⟨i, hi, rfl⟩ := Option.map_eq_some_iff.mp hk
    have hcontract : (L.keepers J items hnodup).contract k = L.keeper J i := by
      simp [keepers, hi]
    rw [hcontract]
    refine (h i (List.mem_of_getElem? hi)).mono (fun _ t ht i' hi' => ?_) fun _ _ ht => ht
    rw [hi] at hi'
    cases hi'
    exact ht
  refine (wp_parallel (T := L.keepers J items hnodup) hs hthreads).mono
    (fun _ t ht => ⟨ht.1, fun i hi => ?_⟩) fun e t ht => ?_
  · obtain ⟨k, hk, rfl⟩ := List.getElem_of_mem hi
    exact ht.2 k (List.mem_range.mpr hk) (by simpa using hk) _ (List.getElem?_eq_getElem hk)
  · obtain ⟨hinv, -, -, hraise⟩ := ht
    exact ⟨hinv, hraise⟩

end Ledger

end Program
