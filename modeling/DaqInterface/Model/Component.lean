import DaqInterface.Model.Text

/-!
# The component and its state machine

`Component` is the base class of the program: it holds the state that is shown to the
outside, accepts or rejects transition requests (`state_change`) and lets the runner
complete or revert a transition.  An accepted request only sets a flag, which the
runner finds at its next turn; the flags are the function `pending`.
-/

namespace DaqInterface

/-! ## Transition tables -/

/-- The actions of the runner that a request asks for by a flag. -/
inductive Action
  | boot
  | shutdown
  | config
  | recover
  | start
  | stop
  | terminate
  | pause
  | resume
  | enable
  | disable
  | trace_get
  | trace_set
  deriving DecidableEq, Repr

/-- All actions, in the order in which the runner looks at their flags. -/
def Action.all : List Action :=
  [.boot, .shutdown, .config, .recover, .start, .stop, .terminate, .pause, .resume, .enable,
    .disable, .trace_get, .trace_set]

theorem Action.mem_all (a : Action) : a ∈ Action.all := by cases a <;> decide

/-- Where a completed transition leads. -/
def dict_state_to : List (String × String) :=
  [("booting", "booted"), ("shutting", "booted"), ("stopping", "ready"),
    ("configuring", "ready"), ("starting", "running"), ("pausing", "paused"),
    ("resuming", "running"), ("terminating", "stopped"), ("recovering", "stopped")]

/-- From where a transition is accepted, alternatives separated by `|`. -/
def dict_state_from : List (String × String) :=
  [("booting", "stopped"), ("shutting", "ready"), ("stopping", "running"),
    ("configuring", "booted"), ("starting", "ready"), ("pausing", "running"),
    ("resuming", "paused"), ("terminating", "ready|booted")]

/-- The action that a request asks for, if it asks for one. -/
def Action.of_request (requested : String) : Option Action :=
  if requested = "starting" then some .start
  else if requested = "stopping" then some .stop
  else if requested = "pausing" then some .pause
  else if requested = "booting" then some .boot
  else if requested = "shutting" then some .shutdown
  else if requested = "configuring" then some .config
  else if requested = "resuming" then some .resume
  else if requested = "terminating" then some .terminate
  else if requested = "enabling" then some .enable
  else if requested = "disabling" then some .disable
  else if requested = "recovering" then some .recover
  else none

/-- The name under which an action is requested; trace actions have a method of their own. -/
def Action.transition : Action → Option String
  | .boot => some "booting"
  | .shutdown => some "shutting"
  | .config => some "configuring"
  | .recover => some "recovering"
  | .start => some "starting"
  | .stop => some "stopping"
  | .terminate => some "terminating"
  | .pause => some "pausing"
  | .resume => some "resuming"
  | .enable => some "enabling"
  | .disable => some "disabling"
  | .trace_get => none
  | .trace_set => none

theorem Action.of_request_eq_some {requested : String} {a : Action} :
    Action.of_request requested = some a ↔ a.transition = some requested := by
  constructor
  · intro h
    unfold Action.of_request at h
    split_ifs at h <;> simp_all [Action.transition] <;> subst h <;> rfl
  · intro h
    cases a <;> simp [Action.transition] at h <;> subst h <;> decide

/-! ## The component -/

/-- The arguments of a transition request, under the keys that the actions read. -/
structure RunParams where
  /-- The boot file, for `booting`. -/
  boot_filename : Option String
  /-- The subconfigurations, for `configuring`. -/
  config : Option (List String)
  /-- The run number, for `starting`. -/
  run_number : Option ℕ
  deriving DecidableEq, Repr

/-- The component as the outside sees it. -/
structure Component where
  /-- Requests for another name are ignored. -/
  name : String
  /-- The state reported to the outside. -/
  state : String
  /-- The arguments of the last request that has arguments. -/
  run_params : Option RunParams
  /-- The flags that requests set and the runner clears. -/
  pending : Action → Bool

namespace Component

/-- Set or clear one flag. -/
def setPending (self : Component) (a : Action) (b : Bool) : Component :=
  { self with pending := Function.update self.pending a b }

@[simp] theorem setPending_name (self : Component) (a : Action) (b : Bool) :
    (self.setPending a b).name = self.name := rfl

@[simp] theorem setPending_state (self : Component) (a : Action) (b : Bool) :
    (self.setPending a b).state = self.state := rfl

@[simp] theorem setPending_run_params (self : Component) (a : Action) (b : Bool) :
    (self.setPending a b).run_params = self.run_params := rfl

@[simp] theorem setPending_pending (self : Component) (a : Action) (b : Bool) :
    (self.setPending a b).pending = Function.update self.pending a b := rfl

/-- The transition has been carried out: the state becomes its target. -/
def complete_state_change (self : Component) (name requested : String) : Component :=
  if name ≠ self.name then self
  else { self with state := (dict_state_to.lookup requested).getD requested }

/-- The transition failed without harm: the state becomes the one it started from. -/
def revert_state_change (self : Component) (name requested : String) : Component :=
  if name ≠ self.name then self
  else { self with state := (dict_state_from.lookup requested).getD requested }

/-- The test that turns a request down: the name is in the table, and the state does not
occur in the text the table has for it. -/
def unable (self : Component) (requested : String) : Bool :=
  match dict_state_from.lookup requested with
  | some val => !contains self.state val
  | none => false

/-- The requests that a rejection offers instead. -/
def allowed_transitions (self : Component) : List String :=
  (dict_state_from.filter fun entry => contains self.state entry.2).map Prod.fst

/-- The requests whose arguments are kept. -/
def keeps_args (requested : String) : Bool :=
  requested == "starting" || requested == "booting" || requested == "configuring"

/-- The effect of an accepted request: the new state, the arguments and the flag. -/
def accept (self : Component) (requested : String) (state_args : RunParams) : Component :=
  { self with
    state := if requested ≠ "enabling" ∧ requested ≠ "disabling" then requested else self.state
    run_params := if keeps_args requested then some state_args else self.run_params
    pending := match Action.of_request requested with
      | some a => Function.update self.pending a true
      | none => self.pending }

/-- A transition request. -/
def state_change (self : Component) (name requested : String) (state_args : RunParams) :
    Except String Unit × Component :=
  if name ≠ self.name then (.ok (), self)
  else if self.unable requested then
    -- the list of alternatives is empty in every state that no request starts from
    if self.allowed_transitions.length > 0 then (.ok (), self)
    else (.error "Zero allowed transitions", self)
  else (.ok (), self.accept requested state_args)

/-- A request to read the trace settings of the processes. -/
def trace_get (self : Component) (name : String) (trace_args : RunParams) : Component :=
  if name ≠ self.name then self
  else { self with run_params := some trace_args
                   pending := Function.update self.pending .trace_get true }

/-- A request to change the trace settings of the processes. -/
def trace_set (self : Component) (name : String) (trace_args : RunParams) : Component :=
  if name ≠ self.name then self
  else { self with run_params := some trace_args
                   pending := Function.update self.pending .trace_set true }

end Component

/-! ## States -/

/-- The states in which no transition is under way. -/
def stable_states : List String := ["stopped", "booted", "ready", "running", "paused"]

/-- The states of the state machine: the stable ones and the names of the transitions. -/
def valid_states : List String := stable_states ++ dict_state_to.map Prod.fst

/-- The states from which the table accepts a request. -/
def accepting_states (requested : String) : List String :=
  match dict_state_from.lookup requested with
  | some val => (splitOn '|' val.toList).map String.ofList
  | none => []

example : accepting_states "terminating" = ["ready", "booted"] := by decide

/-- A completed transition of the table leaves a stable state. -/
theorem dict_state_to_stable : ∀ entry ∈ dict_state_to, entry.2 ∈ stable_states := by decide

/-- The table of starts has one text for each of its names. -/
theorem dict_state_from_lookup :
    ∀ entry ∈ dict_state_from, dict_state_from.lookup entry.1 = some entry.2 := by decide

/-- What a lookup in a table finds is an entry of the table. -/
theorem mem_of_lookup {table : List (String × String)} {key val : String}
    (h : table.lookup key = some val) : (key, val) ∈ table := by
  obtain ⟨before, after, heq, -⟩ := List.lookup_eq_some_iff.mp h
  rw [heq]
  exact List.mem_append_right before List.mem_cons_self

/-! ## When requests are served by the table -/

/-- The table decides: the request is accepted exactly in the states the table lists for it,
and a rejected request returns normally and changes nothing. -/
structure Component.FollowsTable (comp : Component) (requested : String)
    (state_args : RunParams) : Prop where
  /-- In a listed state the request is accepted. -/
  accepted : comp.state ∈ accepting_states requested →
    comp.state_change comp.name requested state_args =
      (.ok (), comp.accept requested state_args)
  /-- In any other state the call returns and nothing changes. -/
  rejected : comp.state ∉ accepting_states requested →
    comp.state_change comp.name requested state_args = (.ok (), comp)

theorem accepting_states_of_mem {requested val : String}
    (h : (requested, val) ∈ dict_state_from) :
    accepting_states requested = (splitOn '|' val.toList).map String.ofList := by
  rw [accepting_states, dict_state_from_lookup _ h]

/-- The alternatives the table lists are stable states. -/
theorem accepting_states_stable {requested s : String} (h : s ∈ accepting_states requested) :
    s ∈ stable_states := by
  have hall : ∀ entry ∈ dict_state_from,
      ∀ s ∈ (splitOn '|' entry.2.toList).map String.ofList, s ∈ stable_states := by decide
  unfold accepting_states at h
  split at h
  · rename_i val hval
    exact hall _ (mem_of_lookup hval) s h
  · exact absurd h List.not_mem_nil

/-- In a stable state the substring test of `state_change` is the test of the table. -/
theorem contains_iff_of_stable : ∀ s ∈ stable_states, ∀ entry ∈ dict_state_from,
    (contains s entry.2 = true ↔ s ∈ (splitOn '|' entry.2.toList).map String.ofList) := by
  decide

/-- No name of a transition occurs in the text of the states it starts from. -/
theorem not_contains_own_name :
    ∀ entry ∈ dict_state_from, contains entry.1 entry.2 = false := by decide

namespace Component

variable {self : Component}

/-- The substring test for a request by name. -/
theorem unable_of_mem {requested val : String} (h : (requested, val) ∈ dict_state_from) :
    self.unable requested = !contains self.state val := by
  rw [unable, dict_state_from_lookup _ h]

/-- In a stable state `state_change` turns down exactly the requests the table turns down. -/
theorem unable_iff_of_stable (hs : self.state ∈ stable_states) {requested val : String}
    (h : (requested, val) ∈ dict_state_from) :
    self.unable requested = true ↔ self.state ∉ accepting_states requested := by
  rw [unable_of_mem h, accepting_states_of_mem h, ← contains_iff_of_stable _ hs _ h]
  simp

/-- A stable state is the start of some transition. -/
theorem allowed_transitions_of_stable (hs : self.state ∈ stable_states) :
    self.allowed_transitions.length > 0 := by
  have hall : ∀ s ∈ stable_states,
      ((dict_state_from.filter fun entry => contains s entry.2).map Prod.fst).length > 0 := by
    decide
  exact hall _ hs

/-- An accepted request of the table makes its own name the state. -/
theorem accept_state {requested val : String} (h : (requested, val) ∈ dict_state_from)
    (state_args : RunParams) : (self.accept requested state_args).state = requested := by
  have hall : ∀ entry ∈ dict_state_from, entry.1 ≠ "enabling" ∧ entry.1 ≠ "disabling" := by
    decide
  exact if_pos (hall _ h)

/-- A request of the table that the substring test lets through changes the state. -/
theorem accept_ne_self {requested val : String} {state_args : RunParams}
    (h : (requested, val) ∈ dict_state_from) (hc : contains self.state val = true) :
    self.accept requested state_args ≠ self := by
  intro heq
  have hstate : requested = self.state := by rw [← accept_state h state_args, heq]
  rw [← hstate, not_contains_own_name _ h] at hc
  cases hc

/-- Requests are served by the table exactly in the stable states: elsewhere a rejection
fails at its own assertion, or a fragment of a listed text is taken for a listed state. -/
theorem followsTable_iff_stable (self : Component) :
    (∀ requested ∈ dict_state_from.map Prod.fst, ∀ state_args : RunParams,
      self.FollowsTable requested state_args) ↔ self.state ∈ stable_states := by
  constructor
  · intro h
    by_contra hs
    have hnot : ∀ requested, self.state ∉ accepting_states requested := fun requested hin =>
      hs (accepting_states_stable hin)
    have hrej : ∀ entry ∈ dict_state_from,
        self.state_change self.name entry.1 ⟨none, none, none⟩ = (.ok (), self) :=
      fun entry hmem => (h entry.1 (List.mem_map.mpr ⟨entry, hmem, rfl⟩) _).rejected (hnot _)
    by_cases hany : ∃ entry ∈ dict_state_from, contains self.state entry.2 = true
    · -- the substring test accepts, and the table does not list the state
      obtain ⟨⟨requested, val⟩, hmem, hc⟩ := hany
      have hable : ¬ self.unable requested = true := by simp [unable_of_mem hmem, hc]
      have heq := hrej _ hmem
      rw [state_change, if_neg (by simp), if_neg hable] at heq
      exact accept_ne_self hmem hc (Prod.mk.inj heq).2
    · -- no text of the table contains the state: the list of alternatives is empty
      push Not at hany
      have hmem : ("booting", "stopped") ∈ dict_state_from := by decide
      have hunable : self.unable "booting" = true := by
        rw [unable_of_mem hmem]
        simpa using hany _ hmem
      have hempty : ¬ self.allowed_transitions.length > 0 := by
        have hfilter : (dict_state_from.filter fun entry => contains self.state entry.2) = [] :=
          List.filter_eq_nil_iff.mpr hany
        simp [allowed_transitions, hfilter]
      have heq := hrej _ hmem
      rw [state_change, if_neg (by simp), if_pos hunable, if_neg hempty] at heq
      cases heq
  · intro hs requested hr state_args
    obtain ⟨⟨requested, val⟩, hmem, rfl⟩ := List.mem_map.mp hr
    have hiff := unable_iff_of_stable hs hmem
    constructor
    · intro hin
      have hable : ¬ self.unable requested = true := fun hu => hiff.mp hu hin
      rw [state_change, if_neg (by simp), if_neg hable]
    · intro hnot
      rw [state_change, if_neg (by simp), if_pos (hiff.mpr hnot),
        if_pos (allowed_transitions_of_stable hs)]

/-- A stopped component accepts `booting`; while it boots, the request `configuring` is not
just turned down, its call fails. -/
theorem configuring_while_booting_fails :
    let self : Component := ⟨"daqint", "stopped", none, fun _ => false⟩
    let booting := (self.state_change "daqint" "booting" ⟨some "boot.txt", none, none⟩).2
    booting.state = "booting" ∧ "booting" ∉ accepting_states "configuring" ∧
      ¬ booting.FollowsTable "configuring" ⟨none, some ["demo"], none⟩ := by
  refine ⟨by decide, by decide, fun h => ?_⟩
  have heq := h.rejected (by decide)
  have hcall : (Except.error "Zero allowed transitions" : Except String Unit) = .ok () :=
    congrArg Prod.fst heq
  cases hcall

end Component

end DaqInterface
