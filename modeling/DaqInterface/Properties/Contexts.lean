import DaqInterface.Model.Contexts

/-!
# When the contexts are released

A `with` statement should tell each manager that it entered to leave, once, in the reverse
order.  `__enter__` has no clean-up when a later manager fails, and `__exit__` ends with the
first manager that raises, so this holds only when no failure leaves others behind
(`released_iff`).
-/

namespace DaqInterface

namespace ContextObject

variable {V E : Type}

/-- The managers that were entered are told to leave exactly once, the last one first. -/
structure Released (events : List ContextEvent) : Prop where
  in_reverse : events.filterMap ContextEvent.exited? =
    (events.filterMap ContextEvent.entered?).reverse
  once : (events.filterMap ContextEvent.exited?).Nodup

/-- What a manager yields fits the names for it. -/
def Fits (names : List String) : Yielded V → Prop
  | .nothing => True
  | .scalar _ => names.length = 1
  | .several values => names.length = 1 ∨ values.length = names.length

/-- A manager enters and what it yields fits its names. -/
def Enters (vec : ContextVec V E) : Prop :=
  ∃ vals, vec.context.enter = .ok vals ∧ Fits vec.names vals

/-- No failure leaves a manager behind: the first one does not enter, or all of them enter and
only the one that leaves last may raise then. -/
def NoneLeft (body : Option (ContextError E)) : List (ContextVec V E) → Prop
  | [] => True
  | first :: rest =>
    (∃ e, first.context.enter = .error e) ∨
      (∀ vec ∈ first :: rest, Enters vec) ∧ ∀ vec ∈ rest, vec.context.exit body = none

/-! ## Entering -/

theorem set_attributes_ok_iff {names : List String} {attributes : List (String × Yielded V)}
    {vals : Yielded V} :
    (∃ attributes', set_attributes (E := E) names attributes vals = .ok attributes') ↔
      Fits names vals := by
  cases vals with
  | nothing => exact ⟨fun _ => trivial, fun _ => ⟨attributes, rfl⟩⟩
  | scalar value =>
    cases names with
    | nil => simp [set_attributes, Fits]
    | cons name names =>
      cases names with
      | nil => simp [set_attributes, Fits]
      | cons name' names => simp [set_attributes, Fits]
  | several values =>
    cases names with
    | nil =>
      simp only [set_attributes, Fits, List.length_nil]
      split_ifs with h <;> simp [h]
    | cons name names =>
      cases names with
      | nil => simp [set_attributes, Fits]
      | cons name' names =>
        simp only [set_attributes, Fits, List.length_cons]
        split_ifs with h <;> simp [h]

/-- While the managers are entered none is told to leave. -/
theorem enter_exits (place : Nat) (attributes : List (String × Yielded V))
    (contexts : List (ContextVec V E)) :
    (enter place attributes contexts).1.filterMap ContextEvent.exited? = [] := by
  induction contexts generalizing place attributes with
  | nil => rfl
  | cons vec rest ih =>
    rw [enter]
    cases henter : vec.context.enter with
    | error e => rfl
    | ok vals =>
      dsimp only
      cases hset : set_attributes vec.names attributes vals with
      | error e => rfl
      | ok attributes' => exact ih (place + 1) attributes'

/-- Where all enter, each of them is entered once, in the order of the list. -/
theorem enter_of_enters (place : Nat) (attributes : List (String × Yielded V))
    {contexts : List (ContextVec V E)} (h : ∀ vec ∈ contexts, Enters vec) :
    (∃ attributes', (enter place attributes contexts).2 = .ok attributes') ∧
      (enter place attributes contexts).1.filterMap ContextEvent.entered? =
        (contexts.zipIdx place).map Prod.snd := by
  induction contexts generalizing place attributes with
  | nil => exact ⟨⟨attributes, rfl⟩, rfl⟩
  | cons vec rest ih =>
    obtain ⟨vals, henter, hfits⟩ := h vec List.mem_cons_self
    obtain ⟨attributes', hset⟩ :=
      (@set_attributes_ok_iff V E vec.names attributes vals).mpr hfits
    obtain ⟨hok, hevents⟩ :=
      ih (place + 1) attributes' fun v hv => h v (List.mem_cons_of_mem _ hv)
    rw [enter, henter]
    dsimp only
    rw [hset]
    refine ⟨hok, ?_⟩
    have hcons : (ContextEvent.entered place ::
        (enter (place + 1) attributes' rest).1).filterMap ContextEvent.entered? =
        place :: (enter (place + 1) attributes' rest).1.filterMap ContextEvent.entered? := rfl
    rw [hcons, hevents]
    rfl

/-- Where one does not enter, `__enter__` fails. -/
theorem enters_of_enter {place : Nat} {attributes attributes' : List (String × Yielded V)}
    {contexts : List (ContextVec V E)} (h : (enter place attributes contexts).2 = .ok attributes') :
    ∀ vec ∈ contexts, Enters vec := by
  induction contexts generalizing place attributes with
  | nil => exact fun vec hvec => absurd hvec List.not_mem_nil
  | cons vec rest ih =>
    rw [enter] at h
    cases henter : vec.context.enter with
    | error e =>
      rw [henter] at h
      cases h
    | ok vals =>
      rw [henter] at h
      dsimp only at h
      cases hset : set_attributes vec.names attributes vals with
      | error e =>
        rw [hset] at h
        cases h
      | ok next =>
        rw [hset] at h
        have hrest := ih h
        intro v hv
        rcases List.mem_cons.mp hv with rfl | hv'
        · exact ⟨vals, henter, set_attributes_ok_iff.mp ⟨next, hset⟩⟩
        · exact hrest v hv'

/-- Nothing is entered only where there is nothing or the first one raises. -/
theorem enter_nothing_iff {place : Nat} {attributes : List (String × Yielded V)}
    {first : ContextVec V E} {rest : List (ContextVec V E)} :
    (enter place attributes (first :: rest)).1.filterMap ContextEvent.entered? = [] ↔
      ∃ e, first.context.enter = .error e := by
  rw [enter]
  cases henter : first.context.enter with
  | error e => simp
  | ok vals =>
    dsimp only
    cases hset : set_attributes first.names attributes vals with
    | error e => simp [ContextEvent.entered?]
    | ok attributes' => simp [ContextEvent.entered?]

/-! ## Leaving -/

/-- While the managers leave none is entered. -/
theorem exit_enters (args : Option (ContextError E)) (vecs : List (ContextVec V E × Nat)) :
    (exit args vecs).1.filterMap ContextEvent.entered? = [] := by
  induction vecs with
  | nil => rfl
  | cons entry rest ih =>
    obtain ⟨vec, place⟩ := entry
    rw [exit]
    cases hexit : vec.context.exit args with
    | some e => rfl
    | none => exact ih

/-- All are told to leave exactly when none but the last one raises. -/
theorem exit_all_iff (args : Option (ContextError E)) (vecs : List (ContextVec V E × Nat)) :
    (exit args vecs).1.filterMap ContextEvent.exited? = vecs.map Prod.snd ↔
      ∀ entry ∈ vecs.dropLast, entry.1.context.exit args = none := by
  induction vecs with
  | nil => simp [exit]
  | cons entry rest ih =>
    obtain ⟨vec, place⟩ := entry
    rw [exit]
    cases rest with
    | nil =>
      cases hexit : vec.context.exit args with
      | some e => simp [ContextEvent.exited?]
      | none => simp [exit, ContextEvent.exited?]
    | cons next rest =>
      rw [List.dropLast_cons_cons]
      cases hexit : vec.context.exit args with
      | some e => simp [ContextEvent.exited?, hexit]
      | none =>
        have hcons : (ContextEvent.exited place ::
            (exit args (next :: rest)).1).filterMap ContextEvent.exited? =
            place :: (exit args (next :: rest)).1.filterMap ContextEvent.exited? := rfl
        dsimp only
        rw [hcons, List.map_cons, List.cons_eq_cons, ih]
        simp [hexit]

/-! ## The whole statement -/

theorem places_nodup (contexts : List (ContextVec V E)) (place : Nat) :
    ((contexts.zipIdx place).map Prod.snd).Nodup := by
  rw [List.zipIdx_map_snd]
  exact List.nodup_range'

/-- The managers in the order in which they leave, without the last one of them. -/
theorem dropLast_reverse_zipIdx (first : ContextVec V E) (rest : List (ContextVec V E)) :
    ((first :: rest).zipIdx.reverse).dropLast = (rest.zipIdx 1).reverse := by
  rw [List.zipIdx_cons, List.reverse_cons, List.dropLast_concat]

/-- What the managers see where all of them enter. -/
theorem events_of_enters {contexts : List (ContextVec V E)}
    (attributes : List (String × Yielded V)) (body : Option (ContextError E))
    (h : ∀ vec ∈ contexts, Enters vec) :
    (with_statement contexts attributes body).1 =
      (enter 0 attributes contexts).1 ++ (exit body contexts.zipIdx.reverse).1 := by
  obtain ⟨⟨attributes', hok⟩, -⟩ := enter_of_enters 0 attributes h
  rw [with_statement]
  rcases henter : enter 0 attributes contexts with ⟨events, result⟩
  rw [henter] at hok
  obtain rfl : result = .ok attributes' := hok
  dsimp only
  rcases exit body contexts.zipIdx.reverse with ⟨exits, raised⟩
  cases raised <;> rfl

/-- Where not all of them enter nothing happens behind `__enter__`. -/
theorem events_of_not_enters {contexts : List (ContextVec V E)}
    (attributes : List (String × Yielded V)) (body : Option (ContextError E))
    (h : ¬ ∀ vec ∈ contexts, Enters vec) :
    (with_statement contexts attributes body).1 = (enter 0 attributes contexts).1 := by
  rw [with_statement]
  have hfail : ∀ attributes', (enter 0 attributes contexts).2 ≠ .ok attributes' :=
    fun attributes' hok => h (enters_of_enter hok)
  rcases henter : enter 0 attributes contexts with ⟨events, result⟩
  rw [henter] at hfail
  cases result with
  | error e => rfl
  | ok attributes' => exact absurd rfl (hfail attributes')

/-- Where all of them enter, they are released exactly when none but the first raises at its
exit. -/
theorem released_of_enters {contexts : List (ContextVec V E)}
    (attributes : List (String × Yielded V)) (body : Option (ContextError E))
    (h : ∀ vec ∈ contexts, Enters vec) :
    Released (with_statement contexts attributes body).1 ↔
      ∀ entry ∈ contexts.zipIdx.reverse.dropLast, entry.1.context.exit body = none := by
  have hentered := (enter_of_enters 0 attributes h).2
  have hexited : (with_statement contexts attributes body).1.filterMap ContextEvent.exited? =
      (exit body contexts.zipIdx.reverse).1.filterMap ContextEvent.exited? := by
    rw [events_of_enters attributes body h, List.filterMap_append, enter_exits, List.nil_append]
  have hall : (with_statement contexts attributes body).1.filterMap ContextEvent.entered? =
      contexts.zipIdx.map Prod.snd := by
    rw [events_of_enters attributes body h, List.filterMap_append, exit_enters, List.append_nil,
      hentered]
  rw [← exit_all_iff]
  constructor
  · intro hreleased
    have := hreleased.in_reverse
    rw [hexited, hall, ← List.map_reverse] at this
    exact this
  · intro hexits
    have hback : (with_statement contexts attributes body).1.filterMap ContextEvent.exited? =
        (contexts.zipIdx.map Prod.snd).reverse := by
      rw [hexited, hexits, List.map_reverse]
    refine ⟨by rw [hback, hall], ?_⟩
    rw [hback]
    exact List.nodup_reverse.mpr (places_nodup contexts 0)

/-- The managers are released exactly when no failure leaves one behind. -/
theorem released_iff (contexts : List (ContextVec V E)) (attributes : List (String × Yielded V))
    (body : Option (ContextError E)) :
    Released (with_statement contexts attributes body).1 ↔ NoneLeft body contexts := by
  cases contexts with
  | nil => exact ⟨fun _ => trivial, fun _ => ⟨rfl, List.nodup_nil⟩⟩
  | cons first rest =>
    by_cases h : ∀ vec ∈ first :: rest, Enters vec
    · -- all are entered: what counts is how they leave
      have hfirst : ¬ ∃ e, first.context.enter = .error e := by
        rintro ⟨e, he⟩
        obtain ⟨vals, hok, -⟩ := h first List.mem_cons_self
        rw [he] at hok
        cases hok
      rw [released_of_enters attributes body h, dropLast_reverse_zipIdx]
      constructor
      · intro hexits
        refine Or.inr ⟨h, fun vec hvec => ?_⟩
        obtain ⟨i, hi, rfl⟩ := List.getElem_of_mem hvec
        have hmem : (rest[i], 1 + i) ∈ rest.zipIdx 1 :=
          List.mk_add_mem_zipIdx_iff_getElem?.mpr (List.getElem?_eq_getElem hi)
        exact hexits _ (List.mem_reverse.mpr hmem)
      · rintro (hraises | ⟨-, hexits⟩)
        · exact absurd hraises hfirst
        · intro entry hentry
          exact hexits entry.1 (List.fst_mem_of_mem_zipIdx (List.mem_reverse.mp hentry))
    · -- the entering ends early: those that were entered stay so
      have hevents := events_of_not_enters attributes body h
      constructor
      · intro hreleased
        have hreverse := hreleased.in_reverse
        rw [hevents, enter_exits] at hreverse
        have hnone := List.reverse_eq_nil_iff.mp hreverse.symm
        exact Or.inl (enter_nothing_iff.mp hnone)
      · rintro (hraises | ⟨henters, -⟩)
        · have hnone : (enter 0 attributes (first :: rest)).1.filterMap
              ContextEvent.entered? = [] := enter_nothing_iff.mpr hraises
          refine ⟨?_, ?_⟩
          · rw [hevents, enter_exits, hnone]
            rfl
          · rw [hevents, enter_exits]
            exact List.nodup_nil
        · exact absurd henters h

/-- The runner of a component cannot start: its server keeps running. -/
theorem server_left_running :
    ¬ Released (with_statement
      (Component.contexts (V := Unit) ⟨.ok .nothing, fun _ => none⟩
        ⟨.error (.raised "can't start new thread"), fun _ => none⟩) [] none).1 := by
  intro h
  have hreverse := h.in_reverse
  revert hreverse
  decide

end ContextObject

end DaqInterface
