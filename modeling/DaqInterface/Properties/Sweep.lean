import DaqInterface.Library.Scan
import DaqInterface.Properties.Losses

/-!
# One sweep over the processes

`check_proc_exceptions` returns inside its loop, behind the first process that answers.  The sweep
does what it is meant to do exactly where the processes behind this one have nothing new to say
(`sweep_covers_iff`).
-/

namespace DaqInterface

variable {settings : WatchSettings} {status : Procinfo → StatusReply} {w w' : Watch}
variable {result : Option Bool}

/-! ## What a sweep is to do -/

/-- The answer of a process. -/
def answer (status : Procinfo → StatusReply) (p : Procinfo) : Option String :=
  match status p with
  | .returned state => some state
  | _ => none

/-- A process with the state that it has answered. -/
def told (status : Procinfo → StatusReply) (p : Procinfo) : Procinfo :=
  match answer status p with
  | some state => { p with lastreturned := state, state := state }
  | none => p

/-- A process that has answered "Error". -/
def says_error (status : Procinfo → StatusReply) (p : Procinfo) : Bool :=
  decide (answer status p = some "Error")

/-- A process that has answered something else. -/
def AnswersWell (status : Procinfo → StatusReply) (p : Procinfo) : Prop :=
  ∃ state, answer status p = some state ∧ state ≠ "Error"

/-- A process without the record of its last answer. -/
def Procinfo.but_lastreturned (p : Procinfo) : Procinfo := { p with lastreturned := "" }

/-- Each process that has answered has its answer for its state, those that have answered "Error" are
mopped up, removed and held against the requirements, and the sweep says whether all have answered
something else. -/
structure Swept (status : Procinfo → StatusReply) (w w' : Watch) (result : Option Bool) : Prop where
  procinfos : w'.procinfos.map Procinfo.but_lastreturned =
    ((w.procinfos.filter fun p => !says_error status p).map (told status)).map
      Procinfo.but_lastreturned
  mopped_up : w'.mopped_up = w.mopped_up ++ (w.procinfos.filter (says_error status)).map (told status)
  lost : w'.lost = w.lost ++ (w.procinfos.filter (says_error status)).map (told status)
  verdict : result = some true ↔ ∀ p ∈ w.procinfos, AnswersWell status p

/-! ## What it does -/

/-- Where the loop ends, for the processes `after` that are still to be asked. -/
inductive SweepEnd (status : Procinfo → StatusReply) (w w' : Watch) (result : Option Bool)
    (all_ok : Bool) (before after : List Procinfo) : Prop
  /-- No process answers. -/
  | silent (hall : ∀ p ∈ after, answer status p = none) (hresult : result = none)
      (hprocinfos : w'.procinfos = before ++ after) (hmopped : w'.mopped_up = w.mopped_up)
      (hlost : w'.lost = w.lost)
  /-- The first process that answers has lost its run. -/
  | error (quiet : List Procinfo) (p : Procinfo) (rest : List Procinfo)
      (hafter : after = quiet ++ p :: rest) (hquiet : ∀ q ∈ quiet, answer status q = none)
      (hanswer : answer status p = some "Error") (hresult : result = some false)
      (hprocinfos : w'.procinfos = before ++ quiet ++ rest)
      (hmopped : w'.mopped_up = w.mopped_up ++ [told status p])
      (hlost : w'.lost = w.lost ++ [told status p])
  /-- The first process that answers is well. -/
  | answers (quiet : List Procinfo) (p : Procinfo) (rest : List Procinfo)
      (hafter : after = quiet ++ p :: rest) (hquiet : ∀ q ∈ quiet, answer status q = none)
      (hanswer : AnswersWell status p) (hresult : result = some (all_ok && quiet.isEmpty))
      (hprocinfos : w'.procinfos = before ++ quiet ++ told status p :: rest)
      (hmopped : w'.mopped_up = w.mopped_up) (hlost : w'.lost = w.lost)

/-- A process that does not answer is passed over. -/
theorem SweepEnd.pass {v : Watch} {all_ok : Bool} {before after : List Procinfo} {p : Procinfo}
    (hnone : answer status p = none) (hmopped : v.mopped_up = w.mopped_up) (hlost : v.lost = w.lost)
    (h : SweepEnd status v w' result false (before ++ [p]) after) :
    SweepEnd status w w' result all_ok before (p :: after) := by
  have hall : ∀ l : List Procinfo, (∀ q ∈ l, answer status q = none) →
      ∀ q ∈ p :: l, answer status q = none := by
    intro l hl q hq
    rcases List.mem_cons.mp hq with rfl | hq
    · exact hnone
    · exact hl q hq
  cases h with
  | silent hafter hresult hprocinfos hmopped' hlost' =>
    exact .silent (hall after hafter) hresult (by rw [hprocinfos]; simp) (hmopped'.trans hmopped)
      (hlost'.trans hlost)
  | error quiet q rest hafter hquiet hanswer hresult hprocinfos hmopped' hlost' =>
    exact .error (p :: quiet) q rest (by rw [hafter]; rfl) (hall quiet hquiet) hanswer hresult
      (by rw [hprocinfos]; simp) (hmopped ▸ hmopped') (hlost ▸ hlost')
  | answers quiet q rest hafter hquiet hanswer hresult hprocinfos hmopped' hlost' =>
    exact .answers (p :: quiet) q rest (by rw [hafter]; rfl) (hall quiet hquiet) hanswer
      (by rw [hresult]; simp) (by rw [hprocinfos]; simp) (hmopped'.trans hmopped)
      (hlost'.trans hlost)

theorem told_of_returned {p : Procinfo} {state : String} (h : status p = .returned state) :
    told status p = { p with lastreturned := state, state := state } := by
  unfold told answer
  rw [h]

/-- The loop ends behind the first process that answers, if there is one. -/
theorem check_answers_ends {all_ok : Bool} {before after : List Procinfo}
    (hparts : w.procinfos = before ++ after)
    (h : check_answers settings status all_ok before after w = .ok (w', result)) :
    SweepEnd status w w' result all_ok before after := by
  induction after generalizing before all_ok w with
  | nil =>
    obtain ⟨rfl, rfl⟩ := Prod.mk.inj (Except.ok.inj h)
    exact .silent (fun p hp => absurd hp List.not_mem_nil) rfl hparts rfl rfl
  | cons p after ih =>
    have hnext : w.procinfos = before ++ [p] ++ after := by
      rw [hparts, List.append_assoc]
      rfl
    unfold check_answers at h
    split at h
    · rename_i hstatus
      have hnone : answer status p = none := by
        unfold answer
        rw [hstatus]
      split_ifs at h
      have hends := ih (by exact hnext) h
      exact SweepEnd.pass hnone (by rfl) (by rfl) hends
    · cases h
    · rename_i hstatus
      have hnone : answer status p = none := by
        unfold answer
        rw [hstatus]
      exact (ih hnext h).pass hnone rfl rfl
    · cases h
    · rename_i state hstatus
      have hanswer : answer status p = some state := by
        unfold answer
        rw [hstatus]
      dsimp only at h
      rw [← told_of_returned hstatus] at h
      split_ifs at h with herror
      · obtain ⟨w₁, hloss, h⟩ := Loop.map_eq_ok.mp h
        obtain ⟨rfl, rfl⟩ := Prod.mk.inj h
        obtain ⟨-, requirements, -, rfl⟩ := loss_keeps hloss
        refine .error [] p after rfl (fun q hq => absurd hq List.not_mem_nil) (herror ▸ hanswer) rfl
          (by simp) rfl rfl
      · obtain ⟨rfl, rfl⟩ := Prod.mk.inj (Except.ok.inj h)
        refine .answers [] p after rfl (fun q hq => absurd hq List.not_mem_nil)
          ⟨state, hanswer, herror⟩ (by simp) (by simp) rfl rfl

/-! ## Where it does what it is to do -/

/-- The processes that the sweep does not come to. -/
def unexamined (status : Procinfo → StatusReply) (w : Watch) : List Procinfo :=
  if w.exception then w.procinfos
  else (w.procinfos.dropWhile fun p => (answer status p).isNone).tail

/-- The processes that the sweep does not come to have nothing new to say: those of them that answer
are in the state that they answer, which is not "Error".  Where an exception has been thrown, some
process does not answer; else there are processes, and if the first of them answers well, all
answer. -/
structure SweepCovers (status : Procinfo → StatusReply) (w : Watch) : Prop where
  nothing_new : ∀ p ∈ unexamined status w, ∀ state, answer status p = some state →
    state ≠ "Error" ∧ p.state = state
  verdict : if w.exception then ∃ p ∈ w.procinfos, answer status p = none
    else w.procinfos ≠ [] ∧ ∀ p, w.procinfos.head? = some p → AnswersWell status p →
      ∀ q ∈ w.procinfos, answer status q ≠ none

/-- A process that answers well is kept. -/
theorem not_says_error {p : Procinfo} (h : answer status p ≠ some "Error") :
    says_error status p = false := decide_eq_false h

/-- A process that has nothing new to say stays as it is, but for the record of its answer. -/
theorem but_lastreturned_told {p : Procinfo} :
    (told status p).but_lastreturned = p.but_lastreturned ↔
      ∀ state, answer status p = some state → p.state = state := by
  unfold told
  cases hanswer : answer status p with
  | none =>
    refine ⟨fun _ state h => ?_, fun _ => rfl⟩
    cases h
  | some state =>
    dsimp only [Procinfo.but_lastreturned]
    constructor
    · intro h state' hstate
      obtain rfl := Option.some.inj hstate
      exact (congrArg Procinfo.state h).symm
    · intro h
      rw [h state rfl]

/-- Processes stay as they are exactly where they have nothing new to say. -/
theorem unchanged_iff (procinfos : List Procinfo) :
    procinfos.map Procinfo.but_lastreturned =
        ((procinfos.filter fun p => !says_error status p).map (told status)).map
          Procinfo.but_lastreturned ↔
      ∀ p ∈ procinfos, ∀ state, answer status p = some state → state ≠ "Error" ∧ p.state = state := by
  constructor
  · intro h
    have hlength := congrArg List.length h
    rw [List.length_map, List.length_map, List.length_map] at hlength
    have hkept := List.length_filter_eq_length_iff.mp hlength.symm
    have hfilter : (procinfos.filter fun p => !says_error status p) = procinfos :=
      List.filter_eq_self.mpr hkept
    rw [hfilter, List.map_map] at h
    intro p hp state hstate
    constructor
    · rintro rfl
      have hwell := hkept p hp
      simp [says_error, hstate] at hwell
    · exact but_lastreturned_told.mp (List.map_inj_left.mp h p hp).symm state hstate
  · intro h
    have hfilter : (procinfos.filter fun p => !says_error status p) = procinfos := by
      refine List.filter_eq_self.mpr fun p hp => ?_
      rw [not_says_error fun herror => (h p hp _ herror).1 rfl]
      rfl
    rw [hfilter, List.map_map]
    exact List.map_congr_left fun p hp =>
      (but_lastreturned_told.mpr fun state hstate => (h p hp state hstate).2).symm

theorem no_errors {procinfos : List Procinfo}
    (h : ∀ p ∈ procinfos, ∀ state, answer status p = some state → state ≠ "Error" ∧ p.state = state) :
    procinfos.filter (says_error status) = [] := by
  refine List.filter_eq_nil_iff.mpr fun p hp herror => ?_
  exact (h p hp _ (of_decide_eq_true herror)).1 rfl

/-- Processes that do not answer are kept as they are. -/
theorem kept_of_silent {quiet : List Procinfo} (h : ∀ q ∈ quiet, answer status q = none) :
    quiet.filter (says_error status) = [] ∧
      ((quiet.filter fun p => !says_error status p).map (told status)).map
        Procinfo.but_lastreturned = quiet.map Procinfo.but_lastreturned := by
  have hnothing : ∀ p ∈ quiet, ∀ state, answer status p = some state →
      state ≠ "Error" ∧ p.state = state := by
    intro p hp state hstate
    rw [h p hp] at hstate
    cases hstate
  exact ⟨no_errors hnothing, ((unchanged_iff quiet).mpr hnothing).symm⟩

/-- The processes behind the first one that answers are not come to. -/
theorem unexamined_of_first {quiet rest : List Procinfo} {p : Procinfo} (hexception : w.exception = false)
    (hprocinfos : w.procinfos = quiet ++ p :: rest) (hquiet : ∀ q ∈ quiet, answer status q = none)
    (hanswer : answer status p ≠ none) : unexamined status w = rest := by
  unfold unexamined
  rw [if_neg (by simp [hexception]), hprocinfos]
  have hdrop := @Scan.dropWhile_word _ (fun p => (answer status p).isNone) quiet (p :: rest)
    (fun q hq => by simp [hquiet q hq]) (fun q hq => by
      obtain rfl := Option.some.inj hq
      simpa [Option.isSome_iff_ne_none] using hanswer)
  rw [hdrop]
  rfl

/-- Processes that all answer and have nothing new to say answer well. -/
theorem all_well {procinfos : List Procinfo}
    (h : ∀ p ∈ procinfos, ∀ state, answer status p = some state → state ≠ "Error" ∧ p.state = state)
    (hall : ∀ p ∈ procinfos, answer status p ≠ none) : ∀ p ∈ procinfos, AnswersWell status p := by
  intro p hp
  obtain ⟨state, hstate⟩ := Option.ne_none_iff_exists'.mp (hall p hp)
  exact ⟨state, hstate, (h p hp state hstate).1⟩

theorem AnswersWell.ne_none {p : Procinfo} (h : AnswersWell status p) : answer status p ≠ none := by
  obtain ⟨state, hstate, -⟩ := h
  rw [hstate]
  exact Option.some_ne_none state

theorem AnswersWell.ne_error {p : Procinfo} (h : AnswersWell status p) :
    answer status p ≠ some "Error" := by
  obtain ⟨state, hstate, hne⟩ := h
  rw [hstate]
  exact fun heq => hne (Option.some.inj heq)

/-- Where an exception has been thrown before, nothing is examined. -/
theorem swept_after_exception (hexception : w.exception = true) :
    Swept status w w (some false) ↔ SweepCovers status w := by
  have hunexamined : unexamined status w = w.procinfos := if_pos hexception
  constructor
  · intro h
    have hnothing := (unchanged_iff w.procinfos).mp h.procinfos
    refine ⟨by rw [hunexamined]; exact hnothing, ?_⟩
    rw [if_pos hexception]
    by_contra hnone
    push Not at hnone
    have htrue := h.verdict.mpr (all_well hnothing hnone)
    cases htrue
  · rintro ⟨hnothing, hverdict⟩
    rw [hunexamined] at hnothing
    rw [if_pos hexception] at hverdict
    obtain ⟨p, hp, hnone⟩ := hverdict
    refine ⟨(unchanged_iff w.procinfos).mpr hnothing, by rw [no_errors hnothing]; simp,
      by rw [no_errors hnothing]; simp, ⟨fun htrue => ?_, fun hall => ?_⟩⟩
    · cases htrue
    · exact absurd hnone (hall p hp).ne_none

/-- Where no process answers, nothing is left to do, but no verdict is given. -/
theorem swept_of_silent (hexception : w.exception = false)
    (hall : ∀ p ∈ w.procinfos, answer status p = none) (hprocinfos : w'.procinfos = w.procinfos)
    (hmopped : w'.mopped_up = w.mopped_up) (hlost : w'.lost = w.lost) :
    Swept status w w' none ↔ SweepCovers status w := by
  have hunexamined : unexamined status w = [] := by
    unfold unexamined
    have hdrop : (w.procinfos.dropWhile fun p => (answer status p).isNone) = [] :=
      List.dropWhile_eq_nil_iff.mpr fun p hp => by rw [hall p hp]; rfl
    rw [if_neg (by simp [hexception]), hdrop]
    rfl
  obtain ⟨herrors, hkept⟩ := kept_of_silent hall
  constructor
  · intro h
    refine ⟨by rw [hunexamined]; simp, ?_⟩
    rw [if_neg (by simp [hexception])]
    constructor
    · intro hnil
      have htrue := h.verdict.mpr (by rw [hnil]; simp)
      cases htrue
    · intro p hp hwell
      exact absurd (hall p (List.mem_of_head? hp)) hwell.ne_none
  · intro h
    have hne := h.verdict
    rw [if_neg (by simp [hexception])] at hne
    refine ⟨by rw [hprocinfos, hkept], by rw [hmopped, herrors]; simp, by rw [hlost, herrors]; simp,
      ⟨fun htrue => ?_, fun hwell => ?_⟩⟩
    · cases htrue
    · obtain ⟨p, hp⟩ := List.exists_mem_of_ne_nil _ hne.1
      exact absurd (hall p hp) (hwell p hp).ne_none

section First

variable {quiet rest : List Procinfo} {p : Procinfo}

/-- The first process that answers has answered "Error". -/
theorem swept_of_error (hexception : w.exception = false)
    (hparts : w.procinfos = quiet ++ p :: rest) (hquiet : ∀ q ∈ quiet, answer status q = none)
    (hanswer : answer status p = some "Error") (hprocinfos : w'.procinfos = quiet ++ rest)
    (hmopped : w'.mopped_up = w.mopped_up ++ [told status p])
    (hlost : w'.lost = w.lost ++ [told status p]) :
    Swept status w w' (some false) ↔ SweepCovers status w := by
  have hunexamined := unexamined_of_first hexception hparts hquiet (by rw [hanswer]; simp)
  obtain ⟨herrors, hkept⟩ := kept_of_silent hquiet
  have hp : says_error status p = true := decide_eq_true hanswer
  have hlists : w.procinfos.filter (says_error status) = p :: rest.filter (says_error status) := by
    rw [hparts, List.filter_append, herrors, List.filter_cons_of_pos hp]
    rfl
  have hleft : ((w.procinfos.filter fun p => !says_error status p).map (told status)).map
      Procinfo.but_lastreturned = quiet.map Procinfo.but_lastreturned ++
        ((rest.filter fun p => !says_error status p).map (told status)).map
          Procinfo.but_lastreturned := by
    rw [hparts, List.filter_append, List.filter_cons_of_neg (by simp [hp]), List.map_append,
      List.map_append, hkept]
  have hfirst : ∀ q, w.procinfos.head? = some q → ¬ AnswersWell status q := by
    intro q hq hwell
    rw [hparts] at hq
    cases quiet with
    | nil =>
      obtain rfl := Option.some.inj hq
      exact hwell.ne_error hanswer
    | cons q' quiet =>
      obtain rfl := Option.some.inj hq
      exact hwell.ne_none (hquiet _ List.mem_cons_self)
  have hmem : p ∈ w.procinfos := by
    rw [hparts]
    exact List.mem_append_right _ List.mem_cons_self
  constructor
  · intro h
    have hprocs := h.procinfos
    rw [hleft, hprocinfos, List.map_append, List.append_cancel_left_eq] at hprocs
    refine ⟨by rw [hunexamined]; exact (unchanged_iff rest).mp hprocs, ?_⟩
    rw [if_neg (by simp [hexception])]
    exact ⟨List.ne_nil_of_mem hmem, fun q hq hwell => absurd hwell (hfirst q hq)⟩
  · intro h
    have hnothing := h.nothing_new
    rw [hunexamined] at hnothing
    have hmopped' : [told status p] = (w.procinfos.filter (says_error status)).map (told status) := by
      rw [hlists, no_errors hnothing]
      rfl
    refine ⟨?_, by rw [hmopped, hmopped'], by rw [hlost, hmopped'],
      ⟨fun htrue => ?_, fun hall => ?_⟩⟩
    · rw [hleft, hprocinfos, List.map_append, (unchanged_iff rest).mpr hnothing]
    · cases htrue
    · exact absurd hanswer (hall p hmem).ne_error

/-- The first process that answers is well. -/
theorem swept_of_answer (hexception : w.exception = false)
    (hparts : w.procinfos = quiet ++ p :: rest) (hquiet : ∀ q ∈ quiet, answer status q = none)
    (hanswer : AnswersWell status p) (hprocinfos : w'.procinfos = quiet ++ told status p :: rest)
    (hmopped : w'.mopped_up = w.mopped_up) (hlost : w'.lost = w.lost) :
    Swept status w w' (some quiet.isEmpty) ↔ SweepCovers status w := by
  have hunexamined := unexamined_of_first hexception hparts hquiet hanswer.ne_none
  obtain ⟨herrors, hkept⟩ := kept_of_silent hquiet
  have hp : says_error status p = false := not_says_error hanswer.ne_error
  have hlists : w.procinfos.filter (says_error status) = rest.filter (says_error status) := by
    rw [hparts, List.filter_append, herrors, List.filter_cons_of_neg (by simp [hp])]
    rfl
  have hleft : ((w.procinfos.filter fun p => !says_error status p).map (told status)).map
      Procinfo.but_lastreturned = quiet.map Procinfo.but_lastreturned ++
        (told status p).but_lastreturned ::
          ((rest.filter fun p => !says_error status p).map (told status)).map
            Procinfo.but_lastreturned := by
    rw [hparts, List.filter_append, List.filter_cons_of_pos (by simp [hp]), List.map_append,
      List.map_append, hkept]
    rfl
  have hmem : ∀ q, q ∈ w.procinfos ↔ q ∈ quiet ∨ q = p ∨ q ∈ rest := by
    intro q
    rw [hparts, List.mem_append, List.mem_cons]
  have hsilent : (∀ q, w.procinfos.head? = some q → AnswersWell status q → quiet = []) := by
    intro q hq hwell
    rw [hparts] at hq
    cases quiet with
    | nil => rfl
    | cons q' quiet =>
      obtain rfl := Option.some.inj hq
      exact absurd (hquiet _ List.mem_cons_self) hwell.ne_none
  constructor
  · intro h
    have hprocs := h.procinfos
    rw [hleft, hprocinfos, List.map_append, List.append_cancel_left_eq, List.map_cons] at hprocs
    refine ⟨by rw [hunexamined]; exact (unchanged_iff rest).mp (List.cons.inj hprocs).2, ?_⟩
    rw [if_neg (by simp [hexception])]
    refine ⟨List.ne_nil_of_mem ((hmem p).mpr (.inr (.inl rfl))), fun q hq hwell q' hq' => ?_⟩
    have hnil := hsilent q hq hwell
    have hall := h.verdict.mp (by rw [hnil]; rfl)
    exact (hall q' hq').ne_none
  · intro h
    have hnothing := h.nothing_new
    have hverdict := h.verdict
    rw [hunexamined] at hnothing
    rw [if_neg (by simp [hexception])] at hverdict
    refine ⟨?_, by rw [hmopped, hlists, no_errors hnothing]; simp,
      by rw [hlost, hlists, no_errors hnothing]; simp, ⟨fun htrue => ?_, fun hall => ?_⟩⟩
    · rw [hleft, hprocinfos, List.map_append, List.map_cons, (unchanged_iff rest).mpr hnothing]
    · have hnil : quiet = [] := List.isEmpty_iff.mp (Option.some.inj htrue)
      have hanswers := hverdict.2 p (by rw [hparts, hnil]; rfl) hanswer
      have hrest := all_well hnothing fun q hq => hanswers q ((hmem q).mpr (.inr (.inr hq)))
      intro q hq
      rcases (hmem q).mp hq with hq | rfl | hq
      · rw [hnil] at hq
        exact absurd hq List.not_mem_nil
      · exact hanswer
      · exact hrest q hq
    · have hnil : quiet = [] := by
        refine List.eq_nil_iff_forall_not_mem.mpr fun q hq => ?_
        exact (hall q ((hmem q).mpr (.inl hq))).ne_none (hquiet q hq)
      rw [hnil]
      rfl

end First

/-- One sweep does what it is to do exactly where the processes that it does not come to have nothing
new to say. -/
theorem sweep_covers_iff (h : w.check_proc_exceptions settings status = .ok (w', result)) :
    Swept status w w' result ↔ SweepCovers status w := by
  unfold Watch.check_proc_exceptions at h
  split_ifs at h with hexception
  · obtain ⟨rfl, rfl⟩ := Prod.mk.inj (Except.ok.inj h)
    exact swept_after_exception hexception
  · rw [Bool.not_eq_true] at hexception
    cases check_answers_ends (by rfl) h with
    | silent hall hresult hprocinfos hmopped hlost =>
      rw [hresult]
      exact swept_of_silent hexception hall hprocinfos hmopped hlost
    | error quiet p rest hparts hquiet hanswer hresult hprocinfos hmopped hlost =>
      rw [hresult]
      exact swept_of_error hexception hparts hquiet hanswer hprocinfos hmopped hlost
    | answers quiet p rest hparts hquiet hanswer hresult hprocinfos hmopped hlost =>
      rw [hresult, Bool.true_and]
      exact swept_of_answer hexception hparts hquiet hanswer hprocinfos hmopped hlost

/-- An EventBuilder answers "Running", and another process the given state. -/
def dispatcher_reports (state : String) (p : Procinfo) : StatusReply :=
  .returned (if p.label = "EventBuilder1" then "Running" else state)

/-- An EventBuilder and a Dispatcher in the state "Running". -/
def running_pair : Watch :=
  Watch.running [{ configured .EventBuilder "EventBuilder1" with state := "Running" },
    { configured .Dispatcher "Dispatcher1" with state := "Running" }] []

/-- Where both are in the state that they answer, the sweep is as it should be. -/
theorem running_pair_swept : ∃ w', running_pair.check_proc_exceptions (literal_settings none)
      (dispatcher_reports "Running") = .ok (w', some true) ∧
    Swept (dispatcher_reports "Running") running_pair w' (some true) := by
  obtain ⟨⟨w', result⟩, hrun, hresult⟩ := Loop.exists_of_any
    (show (running_pair.check_proc_exceptions (literal_settings none)
      (dispatcher_reports "Running")).toOption.any (fun r => decide (r.2 = some true)) = true by decide)
  obtain rfl : result = some true := of_decide_eq_true hresult
  refine ⟨w', hrun, (sweep_covers_iff hrun).mpr ⟨?_, ?_⟩⟩
  · have hall : ∀ p ∈ unexamined (dispatcher_reports "Running") running_pair,
        answer (dispatcher_reports "Running") p = some "Running" ∧ p.state = "Running" := by decide
    intro p hp state hstate
    obtain ⟨hanswer, hsame⟩ := hall p hp
    obtain rfl := Option.some.inj (hanswer.symm.trans hstate)
    exact ⟨by decide, hsame⟩
  · refine ⟨by decide, fun _ _ _ => ?_⟩
    decide

/-- An error of the Dispatcher is not noticed. -/
theorem dispatcher_error_unnoticed : ∃ w' result,
    running_pair.check_proc_exceptions (literal_settings none) (dispatcher_reports "Error") =
      .ok (w', result) ∧
    ¬ Swept (dispatcher_reports "Error") running_pair w' result := by
  obtain ⟨⟨w', result⟩, hrun, hresult⟩ := Loop.exists_of_any
    (show (running_pair.check_proc_exceptions (literal_settings none)
      (dispatcher_reports "Error")).toOption.any (fun r => decide (r.1.mopped_up = [])) = true by decide)
  refine ⟨w', result, hrun, fun h => ?_⟩
  have hnone := h.mopped_up
  rw [show w'.mopped_up = [] from of_decide_eq_true hresult] at hnone
  exact absurd hnone (by decide)

end DaqInterface
