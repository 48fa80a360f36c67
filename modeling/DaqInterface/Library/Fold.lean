import Mathlib.Tactic

/-!
# Loops that can fail

Computations in `Except` one after the other, and invariants of `List.foldlM`: an invariant
may speak about the part of the list that the loop has gone through.
-/

namespace Loop

variable {α β σ ε : Type}

/-- A computation that goes on with the result of another one. -/
theorem bind_eq_ok {x : Except ε α} {f : α → Except ε β} {b : β} :
    (x >>= f) = .ok b ↔ ∃ a, x = .ok a ∧ f a = .ok b := by
  cases x with
  | error e =>
    constructor
    · intro h
      cases h
    · rintro ⟨a, h, -⟩
      cases h
  | ok a =>
    constructor
    · exact fun h => ⟨a, rfl, h⟩
    · rintro ⟨a', h, hb⟩
      obtain rfl := Except.ok.inj h
      exact hb

/-- A computation whose result is changed. -/
theorem map_eq_ok {x : Except ε α} {f : α → β} {b : β} :
    x.map f = .ok b ↔ ∃ a, x = .ok a ∧ f a = b := by
  cases x with
  | error e =>
    constructor
    · intro h
      cases h
    · rintro ⟨a, h, -⟩
      cases h
  | ok a =>
    constructor
    · exact fun h => ⟨a, rfl, Except.ok.inj h⟩
    · rintro ⟨a', h, rfl⟩
      obtain rfl := Except.ok.inj h
      rfl

/-- Two computations one after the other whose results correspond. -/
theorem bind_map_eq {α' β' : Type} {x : Except ε α} {x' : Except ε α'} {f : α → Except ε β}
    {f' : α' → Except ε β'} (g : α → α') {h : β → β'} (hx : x' = x.map g)
    (hf : ∀ a, x = .ok a → f' (g a) = (f a).map h) : (x' >>= f') = (x >>= f).map h := by
  rw [hx]
  cases x with
  | error e => rfl
  | ok a => exact hf a rfl

/-- Two computations one after the other, the first of them the same. -/
theorem bind_same_eq {β' : Type} {x x' : Except ε α} {f : α → Except ε β}
    {f' : α → Except ε β'} {h : β → β'} (hx : x' = x)
    (hf : ∀ a, x = .ok a → f' a = (f a).map h) : (x' >>= f') = (x >>= f).map h := by
  rw [hx]
  cases x with
  | error e => rfl
  | ok a => exact hf a rfl

theorem toOption_eq_some {x : Except ε α} {a : α} : x.toOption = some a ↔ x = .ok a := by
  cases x with
  | error e =>
    constructor
    · intro h
      cases h
    · intro h
      cases h
  | ok b =>
    constructor
    · intro h
      rw [Option.some.inj h]
    · intro h
      rw [Except.ok.inj h]
      rfl

/-- Without the text of an exception. -/
theorem toOption_bind {x : Except ε α} {f : α → Except ε β} :
    (x >>= f).toOption = x.toOption.bind fun a => (f a).toOption := by
  cases x with
  | error e => rfl
  | ok a => rfl

/-- A computation that is seen to succeed has a result. -/
theorem exists_of_isOk {x : Except ε α} (h : x.isOk = true) : ∃ a, x = .ok a := by
  cases x with
  | error e => cases h
  | ok a => exact ⟨a, rfl⟩

/-- A computation whose result is seen to pass a test. -/
theorem exists_of_any {x : Except ε α} {test : α → Bool} (h : x.toOption.any test = true) :
    ∃ a, x = .ok a ∧ test a = true := by
  cases x with
  | error e => cases h
  | ok a => exact ⟨a, rfl, h⟩

theorem foldlM_cons {step : σ → α → Except ε σ} {a : α} {l : List α} {s t : σ} :
    (a :: l).foldlM step s = .ok t ↔ ∃ s', step s a = .ok s' ∧ l.foldlM step s' = .ok t := by
  rw [List.foldlM_cons, bind_eq_ok]

theorem foldlM_nil {step : σ → α → Except ε σ} {s t : σ} :
    ([] : List α).foldlM step s = .ok t ↔ t = s := by
  constructor
  · exact fun h => (Except.ok.inj h).symm
  · rintro rfl
    rfl

/-- What holds before a loop and is kept by each of its steps holds behind it. -/
theorem foldlM_induct {step : σ → α → Except ε σ} {P : List α → σ → Prop}
    (hstep : ∀ done a s s', P done s → step s a = .ok s' → P (done ++ [a]) s') {l : List α}
    {s t : σ} (hs : P [] s) (h : l.foldlM step s = .ok t) : P l t := by
  have hgeneral : ∀ done s, P done s → l.foldlM step s = .ok t → P (done ++ l) t := by
    clear hs h
    induction l with
    | nil =>
      intro done s hs h
      rw [foldlM_nil.mp h, List.append_nil]
      exact hs
    | cons a l ih =>
      intro done s hs h
      obtain ⟨s', hfirst, hrest⟩ := foldlM_cons.mp h
      have hnext := ih (done ++ [a]) s' (hstep done a s s' hs hfirst) hrest
      rwa [List.append_assoc, List.singleton_append] at hnext
  exact hgeneral [] s hs h

/-- A loop whose steps do not fail does not fail. -/
theorem foldlM_isOk {step : σ → α → Except ε σ} {l : List α}
    (h : ∀ a ∈ l, ∀ s, ∃ s', step s a = .ok s') (s : σ) : ∃ t, l.foldlM step s = .ok t := by
  induction l generalizing s with
  | nil => exact ⟨s, rfl⟩
  | cons a l ih =>
    obtain ⟨s', hfirst⟩ := h a List.mem_cons_self s
    obtain ⟨t, hrest⟩ := ih (fun b hb => h b (List.mem_cons_of_mem a hb)) s'
    exact ⟨t, foldlM_cons.mpr ⟨s', hfirst, hrest⟩⟩

/-- A map that can fail succeeds where it succeeds for each element. -/
theorem mapM_eq_ok {f : α → Except ε β} {l : List α} {r : List β} :
    l.mapM f = .ok r ↔ List.Forall₂ (fun a b => f a = .ok b) l r := by
  induction l generalizing r with
  | nil =>
    rw [List.mapM_nil, List.forall₂_nil_left_iff]
    constructor
    · exact fun h => (Except.ok.inj h).symm
    · rintro rfl
      rfl
  | cons a l ih =>
    rw [List.mapM_cons, bind_eq_ok, List.forall₂_cons_left_iff]
    constructor
    · rintro ⟨b, hb, h⟩
      obtain ⟨rest, hrest, h⟩ := bind_eq_ok.mp h
      exact ⟨b, rest, hb, ih.mp hrest, (Except.ok.inj h).symm⟩
    · rintro ⟨b, rest, hb, hrest, rfl⟩
      exact ⟨b, hb, bind_eq_ok.mpr ⟨rest, ih.mpr hrest, rfl⟩⟩

/-- Maps over two lists whose elements correspond have results that correspond. -/
theorem mapM_map_eq {α' β' : Type} {f : α → Except ε β} {f' : α' → Except ε β'} {g : α → α'}
    {h : β → β'} {l : List α} (hf : ∀ a ∈ l, f' (g a) = (f a).map h) :
    (l.map g).mapM f' = (l.mapM f).map (List.map h) := by
  induction l with
  | nil => rfl
  | cons a l ih =>
    rw [List.map_cons, List.mapM_cons, List.mapM_cons, hf a List.mem_cons_self,
      ih fun b hb => hf b (List.mem_cons_of_mem a hb)]
    cases f a with
    | error e => rfl
    | ok b =>
      cases l.mapM f with
      | error e => rfl
      | ok bs => rfl

/-- A loop over a mapped list whose steps are those over the list. -/
theorem foldlM_map_eq {α' : Type} {step : σ → α → Except ε σ} {step' : σ → α' → Except ε σ}
    {g : α → α'} {l : List α} (h : ∀ a ∈ l, ∀ s, step' s (g a) = step s a) (s : σ) :
    (l.map g).foldlM step' s = l.foldlM step s := by
  induction l generalizing s with
  | nil => rfl
  | cons a l ih =>
    rw [List.map_cons, List.foldlM_cons, List.foldlM_cons, h a List.mem_cons_self]
    congr 1
    funext s'
    exact ih (fun b hb => h b (List.mem_cons_of_mem a hb)) s'

/-- A loop from a corresponding state, whose steps keep the correspondence. -/
theorem foldlM_state_eq {step : σ → α → Except ε σ} {g : σ → σ}
    (h : ∀ s a, step (g s) a = (step s a).map g) (l : List α) (s : σ) :
    l.foldlM step (g s) = (l.foldlM step s).map g := by
  induction l generalizing s with
  | nil => rfl
  | cons a l ih =>
    rw [List.foldlM_cons, List.foldlM_cons]
    exact bind_map_eq g (h s a) fun s' _ => ih s'

/-- Two loops whose steps agree where an invariant of the loop holds. -/
theorem foldlM_congr {step step' : σ → α → Except ε σ} {P : List α → σ → Prop} {l : List α}
    (h : ∀ done a rest s, l = done ++ a :: rest → P done s → step' s a = step s a ∧
      ∀ s', step s a = .ok s' → P (done ++ [a]) s') {s : σ} (hs : P [] s) :
    l.foldlM step' s = l.foldlM step s := by
  have hgeneral : ∀ rest done s, l = done ++ rest → P done s →
      rest.foldlM step' s = rest.foldlM step s := by
    intro rest
    induction rest with
    | nil => exact fun _ _ _ _ => rfl
    | cons a rest ih =>
      intro done s hl hs
      obtain ⟨heq, hnext⟩ := h done a rest s hl hs
      rw [List.foldlM_cons, List.foldlM_cons, heq]
      cases hstep : step s a with
      | error e => rfl
      | ok s' =>
        have hl' : l = (done ++ [a]) ++ rest := by rw [hl, List.append_assoc, List.singleton_append]
        exact ih (done ++ [a]) s' hl' (hnext s' hstep)
  exact hgeneral l [] s rfl hs

/-- Checks over a mapped list that are those over the list. -/
theorem forM_map_eq {α' : Type} {check : α → Except ε Unit} {check' : α' → Except ε Unit}
    {g : α → α'} {l : List α} (h : ∀ a ∈ l, check' (g a) = check a) :
    (l.map g).forM check' = l.forM check := by
  induction l with
  | nil => rfl
  | cons a l ih =>
    have hcons : (a :: l).forM check = check a >>= fun _ => l.forM check := rfl
    have hcons' : ((a :: l).map g).forM check' = check' (g a) >>= fun _ => (l.map g).forM check' :=
      rfl
    rw [hcons, hcons', h a List.mem_cons_self, ih fun b hb => h b (List.mem_cons_of_mem a hb)]

/-- A loop over checks succeeds where each of them does. -/
theorem forM_eq_ok {check : α → Except ε Unit} {l : List α} :
    l.forM check = .ok () ↔ ∀ a ∈ l, check a = .ok () := by
  induction l with
  | nil =>
    constructor
    · exact fun _ a ha => absurd ha List.not_mem_nil
    · exact fun _ => rfl
  | cons a l ih =>
    have hcons : (a :: l).forM check = check a >>= fun _ => l.forM check := rfl
    rw [hcons, bind_eq_ok, List.forall_mem_cons]
    constructor
    · rintro ⟨⟨⟩, hfirst, hrest⟩
      exact ⟨hfirst, ih.mp hrest⟩
    · rintro ⟨hfirst, hrest⟩
      exact ⟨(), hfirst, ih.mpr hrest⟩

end Loop
