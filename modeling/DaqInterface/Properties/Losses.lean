import Mathlib
import DaqInterface.Library.Fold
import DaqInterface.Model.Requirements
import DaqInterface.Properties.BootFile

/-!
# Lost processes and the requirements of a run

The current count of a requirement is the number of processes that are left and match it, as long
as the checks of the processes throw no exception (`requirement_accounting`); the theorem also
says which loss throws one.
-/

namespace DaqInterface

variable {settings : WatchSettings} {w w' : Watch}

/-! ## Counting -/

/-- The label matches the regular expression. -/
def label_matches (settings : WatchSettings) (regexp label : String) : Bool :=
  (settings.re_search regexp label).toOption.getD false

theorem label_matches_of_ok {regexp label : String} {found : Bool}
    (h : settings.re_search regexp label = .ok found) :
    label_matches settings regexp label = found := by
  unfold label_matches
  rw [h]
  rfl

/-- Counting looks at every label. -/
theorem count_matching_ok {regexp : String} {procinfos : List Procinfo} {count : ℕ}
    (h : count_matching settings regexp procinfos = .ok count) :
    (∀ label ∈ procinfos.map Procinfo.label, (settings.re_search regexp label).isOk = true) ∧
      count = (procinfos.map Procinfo.label).countP (label_matches settings regexp) := by
  induction procinfos generalizing count with
  | nil =>
    obtain rfl := Except.ok.inj h
    exact ⟨fun label hlabel => absurd hlabel List.not_mem_nil, rfl⟩
  | cons p procinfos ih =>
    obtain ⟨found, hfound, h⟩ := Loop.bind_eq_ok.mp h
    obtain ⟨rest, hrest, h⟩ := Loop.bind_eq_ok.mp h
    obtain ⟨hsearch, hcount⟩ := ih hrest
    obtain rfl := Except.ok.inj h
    refine ⟨fun label hlabel => ?_, ?_⟩
    · rcases List.mem_cons.mp hlabel with rfl | hlabel
      · rw [hfound]
        rfl
      · exact hsearch label hlabel
    · rw [List.map_cons, List.countP_cons, label_matches_of_ok hfound, ← hcount]
      cases found <;> rfl

/-- The literal is a bit less than 0.499999. -/
theorem almost_half_eq : almost_half = 9007181240342483 / 18014398509481984 := by decide +kernel

/-- Numbers that are not large are finite. -/
theorem of_rat_of_lt {x : ℚ} (hlow : 0 ≤ Double.round x) (h : Double.round x < 2 ^ 35) :
    Double.of_rat x = some (Double.round x) := by
  have hrange : (2 : ℚ) ^ 35 < 2 ^ 1024 := pow_lt_pow_right₀ (by norm_num) (by norm_num)
  unfold Double.of_rat
  rw [if_pos]
  rw [abs_of_nonneg hlow]
  exact h.trans hrange

theorem round_count {count : ℕ} (hcount : count < 2 ^ 34) : Double.round (count : ℚ) = count := by
  have hcast : ((count : ℕ) : ℚ) = ((count : ℤ) : ℚ) := by norm_cast
  have hsmall : |(count : ℤ)| < 2 ^ 53 := by
    rw [abs_of_nonneg (by positivity)]
    omega
  rw [hcast]
  exact Double.round_intCast hsmall

/-- The sum is rounded by less than what it is below the next half. -/
theorem round_sum {count : ℕ} (hcount : count < 2 ^ 34) :
    (count : ℚ) ≤ Double.round (count + almost_half) ∧
      Double.round ((count : ℚ) + almost_half) < (count : ℚ) + 1 / 2 := by
  have hnonneg : (0 : ℚ) ≤ count := by positivity
  have hlt : (count : ℚ) + 1 ≤ 2 ^ 34 := by exact_mod_cast hcount
  have hpos : (0 : ℚ) < count + almost_half := by
    rw [almost_half_eq]
    linarith
  have hsum : (count : ℚ) + almost_half < 2 ^ (33 + 1) := by
    rw [almost_half_eq]
    norm_num at hlt ⊢
    linarith
  have hulp := Double.ulp_le hpos hsum (by norm_num)
  have hmoved := abs_le.mp (Double.abs_round_sub_le ((count : ℚ) + almost_half))
  norm_num at hulp
  rw [almost_half_eq] at hmoved hulp ⊢
  constructor
  · linarith [hmoved.1]
  · linarith [hmoved.2]
theorem round_up_ok {absolute_count : ℕ} {fraction count product sum : ℚ}
    (hcount : Double.of_rat absolute_count = some count)
    (hproduct : Double.of_rat (count * fraction) = some product)
    (hsum : Double.of_rat (product + almost_half) = some sum) :
    round_up absolute_count (some fraction) = .ok (Double.round_half_even sum) := by
  unfold round_up
  simp only [hcount, Option.bind_eq_bind, Option.bind_some, hproduct, hsum]

/-- Fewer than `2 ^ 34` processes are counted right. -/
theorem round_up_one {count : ℕ} (hcount : count < 2 ^ 34) :
    round_up count (some 1) = .ok count := by
  have hround := round_count hcount
  obtain ⟨hlow, hhigh⟩ := round_sum hcount
  have hnonneg : (0 : ℚ) ≤ count := by positivity
  have hlt : (count : ℚ) < 2 ^ 34 := by exact_mod_cast hcount
  have hfinite : Double.of_rat (count : ℚ) = some (count : ℚ) := by
    have hof := of_rat_of_lt (hround.symm ▸ hnonneg) (by rw [hround]; linarith)
    rwa [hround] at hof
  have hproduct : Double.of_rat ((count : ℚ) * 1) = some (count : ℚ) := by
    rw [mul_one]
    exact hfinite
  have hsum := of_rat_of_lt (hnonneg.trans hlow) (by linarith)
  rw [round_up_ok hfinite hproduct hsum]
  have hlow' : ((count : ℤ) : ℚ) ≤ Double.round (count + almost_half) := by exact_mod_cast hlow
  have hhigh' : Double.round ((count : ℚ) + almost_half) < ((count : ℤ) : ℚ) + 1 / 2 := by
    exact_mod_cast hhigh
  rw [Double.round_half_even_eq hlow' hhigh']

/-! ## The invariant of a requirement -/

/-- The current count of a requirement is right for processes with the given labels, and it is
not below the minimum. -/
structure Accounted (settings : WatchSettings) (labels : List String) (r : Requirement) : Prop where
  searched : ∀ label ∈ labels, (settings.re_search r.regexp label).isOk = true
  current : r.current_count = labels.countP (label_matches settings r.regexp)
  minimum : r.minimum_count ≤ r.current_count

theorem Accounted.perm {labels labels' : List String} {r : Requirement}
    (h : Accounted settings labels r) (hperm : labels.Perm labels') :
    Accounted settings labels' r where
  searched label hlabel := h.searched label (hperm.mem_iff.mpr hlabel)
  current := by
    rw [h.current, hperm.countP_eq]
  minimum := h.minimum

/-- A requirement that is read is accounted for. -/
theorem read_requirement_accounted {filename : String} {procinfos : List Procinfo}
    {line : List Char} {r : Requirement} (hcount : procinfos.length < 2 ^ 34)
    (h : read_requirement settings filename procinfos line = .ok r) :
    Accounted settings (procinfos.map Procinfo.label) r := by
  unfold read_requirement at h
  dsimp only at h
  split at h
  · obtain ⟨fraction, -, h⟩ := Loop.bind_eq_ok.mp h
    obtain ⟨required, -, h⟩ := Loop.bind_eq_ok.mp h
    obtain ⟨starting, hstarting, h⟩ := Loop.bind_eq_ok.mp h
    obtain ⟨count, hmatching, hround⟩ := Loop.bind_eq_ok.mp hstarting
    obtain ⟨hsearch, hcountP⟩ := count_matching_ok hmatching
    have hle : count ≤ procinfos.length := by
      rw [hcountP]
      exact List.countP_le_length.trans (by rw [List.length_map])
    rw [round_up_one (hle.trans_lt hcount)] at hround
    obtain rfl := Except.ok.inj hround
    generalize (if required > _ then required else _) = strictest at h
    split_ifs at h with hless
    · obtain rfl := Except.ok.inj h
      refine ⟨hsearch, ?_, not_lt.mp hless⟩
      dsimp only
      rw [hcountP]
  · cases h

/-- The requirements of a run, when the boot has accepted them. -/
theorem init_process_requirements_accounted {procinfos : List Procinfo}
    {requirements : List Requirement} (hcount : procinfos.length < 2 ^ 34)
    (h : init_process_requirements settings procinfos = .ok requirements) :
    ∀ r ∈ requirements, Accounted settings (procinfos.map Procinfo.label) r := by
  unfold init_process_requirements at h
  split at h
  · obtain rfl := Except.ok.inj h
    exact fun r hr => absurd hr List.not_mem_nil
  · split at h
    · cases h
    · intro r hr
      obtain ⟨line, -, hline⟩ := Recursion.exists_of_forall₂ (Loop.mapM_eq_ok.mp h) hr
      exact read_requirement_accounted hcount hline

/-! ## One loss -/

/-- A loss that takes the count of a requirement below its minimum. -/
def Violates (settings : WatchSettings) (label : String) (r : Requirement) : Prop :=
  label_matches settings r.regexp label = true ∧ r.current_count - 1 < r.minimum_count

/-- What is fixed about a requirement. -/
def Requirement.rule (r : Requirement) : String × ℤ × ℤ :=
  (r.regexp, r.original_count, r.minimum_count)

/-- The loop over the requirements: it throws an exception where one is violated, and else
counts the loss. -/
theorem count_loss_cases {p : Procinfo} {labels : List String} {requirements : List Requirement}
    (h : ∀ r ∈ requirements, Accounted settings (p.label :: labels) r) :
    ((∃ r ∈ requirements, Violates settings p.label r) ∧
      ∃ e, count_loss settings p requirements = .error e) ∨
    (∀ r ∈ requirements, ¬ Violates settings p.label r) ∧
      ∃ requirements', count_loss settings p requirements =
          .ok (requirements.any fun r => label_matches settings r.regexp p.label, requirements') ∧
        requirements'.map Requirement.rule = requirements.map Requirement.rule ∧
        ∀ r ∈ requirements', Accounted settings labels r := by
  induction requirements with
  | nil =>
    refine Or.inr ⟨fun r hr => absurd hr List.not_mem_nil, [], rfl, rfl, fun r hr => ?_⟩
    exact absurd hr List.not_mem_nil
  | cons r requirements ih =>
    have hr := h r List.mem_cons_self
    have hrest := ih fun r' hr' => h r' (List.mem_cons_of_mem _ hr')
    obtain ⟨found, hfound⟩ := Loop.exists_of_isOk (hr.searched p.label List.mem_cons_self)
    have hmatch := label_matches_of_ok hfound
    have hsearched : ∀ label ∈ labels, (settings.re_search r.regexp label).isOk = true :=
      fun label hlabel => hr.searched label (List.mem_cons_of_mem _ hlabel)
    have hcount := hr.current
    rw [List.countP_cons, hmatch] at hcount
    unfold count_loss
    rw [hfound]
    simp only [bind, Except.bind]
    cases found with
    | true =>
      by_cases hbelow : r.current_count - 1 < r.minimum_count
      · refine Or.inl ⟨⟨r, List.mem_cons_self, hmatch, hbelow⟩, ?_⟩
        simp only [if_true, if_pos hbelow]
        exact ⟨_, rfl⟩
      · simp only [if_true, if_neg hbelow]
        rcases hrest with ⟨⟨r', hr', hviolates⟩, e, he⟩ |
          ⟨hnone, requirements', hok, hrules, haccounted⟩
        · refine Or.inl ⟨⟨r', List.mem_cons_of_mem _ hr', hviolates⟩, e, ?_⟩
          rw [he]
        · refine Or.inr ⟨fun r' hr' => ?_, { r with current_count := r.current_count - 1 } ::
            requirements', ?_, ?_, fun r' hr' => ?_⟩
          · rcases List.mem_cons.mp hr' with rfl | hr'
            · exact fun hviolates => hbelow hviolates.2
            · exact hnone r' hr'
          · rw [hok, List.any_cons, hmatch]
            rfl
          · rw [List.map_cons, List.map_cons, hrules]
            rfl
          · rcases List.mem_cons.mp hr' with rfl | hr'
            · refine ⟨hsearched, ?_, not_lt.mp hbelow⟩
              dsimp only
              rw [hcount]
              push_cast
              simp
            · exact haccounted r' hr'
    | false =>
      simp only [Bool.false_eq_true, if_false]
      rcases hrest with ⟨⟨r', hr', hviolates⟩, e, he⟩ |
          ⟨hnone, requirements', hok, hrules, haccounted⟩
      · refine Or.inl ⟨⟨r', List.mem_cons_of_mem _ hr', hviolates⟩, e, ?_⟩
        rw [he]
      · refine Or.inr ⟨fun r' hr' => ?_, r :: requirements', ?_, ?_, fun r' hr' => ?_⟩
        · rcases List.mem_cons.mp hr' with rfl | hr'
          · intro hviolates
            rw [hviolates.1] at hmatch
            cases hmatch
          · exact hnone r' hr'
        · rw [hok, List.any_cons, hmatch]
          rfl
        · rw [List.map_cons, List.map_cons, hrules]
        · rcases List.mem_cons.mp hr' with rfl | hr'
          · refine ⟨hsearched, ?_, hr.minimum⟩
            rw [hcount]
            simp
          · exact haccounted r' hr'

/-- A process without which the run cannot go on, where no requirement speaks of it. -/
def Critical (procinfos : List Procinfo) (p : Procinfo) : Prop :=
  p.name = .BoardReader ∨
    fhicl_writes_root_file (p.fhicl_used.getD "") = true ∨
    p.name = .EventBuilder ∧
      ((∀ q ∈ procinfos, q.name ≠ .RoutingManager) ∨ ∀ q ∈ procinfos, q.name ≠ .EventBuilder)

/-- The description of a lost process says whether the run can go on. -/
theorem process_description_cases {procinfos : List Procinfo} {p : Procinfo}
    (hdocument : p.fhicl_used ≠ none)
    (hlabel : p.name = .EventBuilder → ∀ q ∈ procinfos, q.name = .EventBuilder →
      q.label ≠ p.label) :
    (Critical procinfos p ∧ ∃ description,
      process_description procinfos p = .ok (some description)) ∨
    ¬ Critical procinfos p ∧ process_description procinfos p = .ok none := by
  obtain ⟨document, hdoc⟩ := Option.ne_none_iff_exists'.mp hdocument
  unfold process_description Critical
  rw [hdoc]
  by_cases hreader : p.name = .BoardReader
  · exact Or.inl ⟨Or.inl hreader, _, if_pos hreader⟩
  rw [if_neg hreader]
  by_cases hroot : fhicl_writes_root_file document = true
  · exact Or.inl ⟨Or.inr (Or.inl hroot), _, if_pos hroot⟩
  simp only [if_neg hroot]
  by_cases hbuilder : p.name = .EventBuilder
  · rw [if_pos hbuilder]
    by_cases hrouting : (procinfos.any fun pi => pi.name = .RoutingManager) = true
    · rw [if_pos hrouting]
      obtain ⟨q, hq, hqname⟩ := List.any_eq_true.mp hrouting
      by_cases hlast : ∀ q ∈ procinfos, q.name ≠ .EventBuilder
      · have hempty : (procinfos.filter fun pi => decide (pi.name = .EventBuilder)) = [] :=
          List.filter_eq_nil_iff.mpr fun q hq => by simpa using hlast q hq
        refine Or.inl ⟨Or.inr (Or.inr ⟨hbuilder, Or.inr hlast⟩), "final remaining EventBuilder", ?_⟩
        rw [hempty]
        exact if_pos (Or.inl rfl)
      · refine Or.inr ⟨?_, if_neg ?_⟩
        · rintro (h | h | ⟨-, h | h⟩)
          · exact hreader h
          · exact hroot h
          · exact h q hq (of_decide_eq_true hqname)
          · exact hlast h
        · rintro (hzero | ⟨-, hsame⟩)
          · refine hlast fun q hq hname => ?_
            have hmem : q ∈ procinfos.filter fun pi => decide (pi.name = .EventBuilder) :=
              List.mem_filter.mpr ⟨hq, decide_eq_true hname⟩
            rw [List.length_eq_zero_iff.mp hzero] at hmem
            exact List.not_mem_nil hmem
          · -- the other EventBuilder has another label
            obtain ⟨q, hhead, hq⟩ := Option.map_eq_some_iff.mp hsame
            obtain ⟨hq', hname⟩ := List.mem_filter.mp (List.mem_of_head? hhead)
            exact hlabel hbuilder q hq' (of_decide_eq_true hname) hq
    · rw [if_neg hrouting]
      refine Or.inl ⟨Or.inr (Or.inr ⟨hbuilder, Or.inl fun q hq hname => hrouting ?_⟩), _, rfl⟩
      exact List.any_eq_true.mpr ⟨q, hq, decide_eq_true hname⟩
  · rw [if_neg hbuilder]
    refine Or.inr ⟨?_, rfl⟩
    rintro (h | h | ⟨h, -⟩)
    · exact hreader h
    · exact hroot h
    · exact hbuilder h

/-- The run cannot go on without a process. -/
def EndsRun (settings : WatchSettings) (requirements : List Requirement)
    (procinfos : List Procinfo) (p : Procinfo) : Prop :=
  (∃ r ∈ requirements, Violates settings p.label r) ∨
    (∀ r ∈ requirements, label_matches settings r.regexp p.label = false) ∧ Critical procinfos p

/-- A loss that throws no exception changes nothing but the requirements. -/
theorem loss_keeps {p : Procinfo}
    (hok : throw_exception_if_losing_process_violates_requirements settings p w = .ok w') :
    ∃ matched requirements,
      count_loss settings p w.overriding_process_requirements = .ok (matched, requirements) ∧
      w' = { w with overriding_process_requirements := requirements, lost := w.lost ++ [p] } := by
  obtain ⟨⟨matched, requirements⟩, hcount, hok⟩ := Loop.bind_eq_ok.mp hok
  refine ⟨matched, requirements, hcount, ?_⟩
  dsimp only at hok
  split at hok
  · exact (Except.ok.inj hok).symm
  · obtain ⟨description, -, hok⟩ := Loop.bind_eq_ok.mp hok
    cases description with
    | some text => cases hok
    | none => exact (Except.ok.inj hok).symm

/-- A loss that throws no exception leaves the requirements accounted for. -/
theorem loss_ok {p : Procinfo}
    (hok : throw_exception_if_losing_process_violates_requirements settings p w = .ok w')
    (h : ∀ r ∈ w.overriding_process_requirements,
      Accounted settings (p.label :: w.procinfos.map Procinfo.label) r) :
    ∃ requirements,
      w' = { w with overriding_process_requirements := requirements, lost := w.lost ++ [p] } ∧
      requirements.map Requirement.rule =
        w.overriding_process_requirements.map Requirement.rule ∧
      ∀ r ∈ requirements, Accounted settings (w.procinfos.map Procinfo.label) r := by
  obtain ⟨matched, requirements, hcount, rfl⟩ := loss_keeps hok
  refine ⟨requirements, rfl, ?_⟩
  rcases count_loss_cases h with ⟨-, e, he⟩ | ⟨-, requirements', hok', haccounted⟩
  · rw [he] at hcount
    cases hcount
  · rw [hok'] at hcount
    rw [← (Prod.mk.inj (Except.ok.inj hcount)).2]
    exact haccounted

/-- A loss throws an exception exactly where the run cannot go on. -/
theorem loss_raises_iff {p : Procinfo} {rest : List Procinfo}
    (h : ∀ r ∈ w.overriding_process_requirements,
      Accounted settings (p.label :: rest.map Procinfo.label) r)
    (hdocument : p.fhicl_used ≠ none)
    (hlabel : p.name = .EventBuilder → ∀ q ∈ rest, q.name = .EventBuilder →
      q.label ≠ p.label) :
    (throw_exception_if_losing_process_violates_requirements settings p
      { w with procinfos := rest }).isOk = false ↔
      EndsRun settings w.overriding_process_requirements rest p := by
  unfold throw_exception_if_losing_process_violates_requirements EndsRun
  rcases count_loss_cases h with ⟨hviolates, e, he⟩ | ⟨hnone, requirements, hok, -, -⟩
  · rw [he]
    exact iff_of_true rfl (Or.inl hviolates)
  · have hno : ¬ ∃ r ∈ w.overriding_process_requirements, Violates settings p.label r := by
      rintro ⟨r, hr, hviolates⟩
      exact hnone r hr hviolates
    rw [hok]
    simp only [bind, Except.bind]
    by_cases hmatched : (w.overriding_process_requirements.any fun r =>
        label_matches settings r.regexp p.label) = true
    · rw [if_pos hmatched]
      obtain ⟨r, hr, hmatch⟩ := List.any_eq_true.mp hmatched
      refine iff_of_false (by simp [pure, Except.pure, Except.isOk, Except.toBool]) ?_
      rintro (hviolates | ⟨hunmatched, -⟩)
      · exact hno hviolates
      · rw [hunmatched r hr] at hmatch
        cases hmatch
    · have hunmatched : ∀ r ∈ w.overriding_process_requirements,
          label_matches settings r.regexp p.label = false := by
        intro r hr
        by_contra hmatch
        exact hmatched (List.any_eq_true.mpr ⟨r, hr, Bool.eq_true_of_not_eq_false hmatch⟩)
      rw [if_neg hmatched]
      rcases process_description_cases hdocument hlabel with ⟨hcritical, description, hdescribed⟩ |
        ⟨hcritical, hdescribed⟩
      · rw [hdescribed]
        exact iff_of_true rfl (Or.inr ⟨hunmatched, hcritical⟩)
      · rw [hdescribed]
        refine iff_of_false (by simp [pure, Except.pure, Except.isOk, Except.toBool]) ?_
        rintro (hviolates | ⟨-, hcrit⟩)
        · exact hno hviolates
        · exact hcritical hcrit

/-! ## Any number of checks -/

/-- What a process is known by. -/
def Procinfo.identity (p : Procinfo) : ProcType × String × Option String :=
  (p.name, p.label, p.fhicl_used)

/-- The requirements are accounted for, and the processes are among those of the start. -/
structure Watch.Sound (settings : WatchSettings) (started : List Procinfo)
    (requirements : List Requirement) (w : Watch) : Prop where
  rules : w.overriding_process_requirements.map Requirement.rule =
    requirements.map Requirement.rule
  accounted : ∀ r ∈ w.overriding_process_requirements,
    Accounted settings (w.procinfos.map Procinfo.label) r
  known : (w.procinfos.map Procinfo.identity).Sublist (started.map Procinfo.identity)

/-- One call of one of the two checks. -/
inductive Check
  | exceptions (status : Procinfo → StatusReply)
  | heartbeats (hosts : List String) (labels_of_found_processes : String → List String)
    (requireSuccess : Bool)

/-- The state behind a check. -/
def Watch.check (settings : WatchSettings) (w : Watch) : Check → Except String Watch
  | .exceptions status => (Watch.check_proc_exceptions settings status w).map Prod.fst
  | .heartbeats hosts labels_of_found_processes requireSuccess =>
    (Watch.check_proc_heartbeats settings hosts labels_of_found_processes requireSuccess w).map
      Prod.fst

variable {started : List Procinfo} {requirements : List Requirement}

theorem check_answers_sound {status : Procinfo → StatusReply} {all_ok : Bool}
    {before after : List Procinfo} {returned : Option Bool} (hw : w.Sound settings started requirements)
    (hparts : w.procinfos = before ++ after)
    (h : check_answers settings status all_ok before after w = .ok (w', returned)) :
    w'.Sound settings started requirements := by
  induction after generalizing before all_ok w with
  | nil =>
    obtain rfl := (Prod.mk.inj (Except.ok.inj h)).1
    exact hw
  | cons p after ih =>
    have hnext : w.procinfos = before ++ [p] ++ after := by
      rw [hparts, List.append_assoc]
      rfl
    unfold check_answers at h
    split at h
    · split_ifs at h
      have hsound : Watch.Sound settings started requirements
          { w with procs_which_already_caused_connection_refused :=
              w.procs_which_already_caused_connection_refused ++ [p.label] } :=
        ⟨hw.rules, hw.accounted, hw.known⟩
      exact ih hsound hnext h
    · cases h
    · exact ih hw hnext h
    · cases h
    · rename_i state hstatus
      dsimp only at h
      split_ifs at h
      · -- the process is lost
        obtain ⟨w₁, hloss, h⟩ := Loop.map_eq_ok.mp h
        obtain rfl := (Prod.mk.inj h).1
        have hperm : (w.procinfos.map Procinfo.label).Perm
            (p.label :: (before ++ after).map Procinfo.label) := by
          rw [hparts]
          exact List.perm_middle.map Procinfo.label
        have hlabel : ∀ r ∈ w.overriding_process_requirements, Accounted settings
            (({ p with lastreturned := state, state := state } : Procinfo).label ::
              (before ++ after).map Procinfo.label) r :=
          fun r hr => (hw.accounted r hr).perm hperm
        obtain ⟨counted, rfl, hrules, haccounted⟩ := loss_ok hloss hlabel
        refine ⟨hrules.trans hw.rules, haccounted, List.Sublist.trans ?_ hw.known⟩
        rw [hparts]
        exact ((List.Sublist.refl before).append (List.sublist_cons_self p after)).map _
      · -- the process answers
        obtain rfl := (Prod.mk.inj (Except.ok.inj h)).1
        have hsame : (before ++ { p with lastreturned := state, state := state } :: after).map
            Procinfo.label = w.procinfos.map Procinfo.label := by
          rw [hparts, List.map_append, List.map_append]
          rfl
        have hknown : (before ++ { p with lastreturned := state, state := state } :: after).map
            Procinfo.identity = w.procinfos.map Procinfo.identity := by
          rw [hparts, List.map_append, List.map_append]
          rfl
        refine ⟨hw.rules, fun r hr => ?_, ?_⟩
        · dsimp only
          rw [hsame]
          exact hw.accounted r hr
        · dsimp only
          rw [hknown]
          exact hw.known

theorem remove_procinfos_sound {removed : List Procinfo} (hw : w.Sound settings started requirements)
    (h : remove_procinfos settings removed w = .ok w') : w'.Sound settings started requirements := by
  induction removed generalizing w with
  | nil =>
    obtain rfl := Except.ok.inj h
    exact hw
  | cons p removed ih =>
    unfold remove_procinfos at h
    split_ifs at h with hmem
    obtain ⟨w₁, hloss, h⟩ := Loop.bind_eq_ok.mp h
    have hperm : (w.procinfos.map Procinfo.label).Perm
        (p.label :: (w.procinfos.erase p).map Procinfo.label) :=
      (List.perm_cons_erase hmem).map Procinfo.label
    obtain ⟨counted, rfl, hrules, haccounted⟩ := loss_ok hloss
      fun r hr => (hw.accounted r hr).perm hperm
    exact ih ⟨hrules.trans hw.rules, haccounted, (List.erase_sublist.map _).trans hw.known⟩ h

theorem check_sound {check : Check} (hw : w.Sound settings started requirements)
    (h : w.check settings check = .ok w') : w'.Sound settings started requirements := by
  cases check with
  | exceptions status =>
    obtain ⟨⟨w₁, returned⟩, hcheck, rfl⟩ := Loop.map_eq_ok.mp h
    unfold Watch.check_proc_exceptions at hcheck
    split_ifs at hcheck
    · obtain rfl := (Prod.mk.inj (Except.ok.inj hcheck)).1
      exact hw
    · exact check_answers_sound hw rfl hcheck
  | heartbeats hosts labels_of_found_processes requireSuccess =>
    obtain ⟨⟨w₁, found⟩, hcheck, rfl⟩ := Loop.map_eq_ok.mp h
    unfold Watch.check_proc_heartbeats at hcheck
    dsimp only at hcheck
    split at hcheck
    · split at hcheck
      · obtain ⟨w₂, hremove, hpair⟩ := Loop.map_eq_ok.mp hcheck
        obtain rfl := (Prod.mk.inj hpair).1
        refine remove_procinfos_sound ?_ hremove
        exact ⟨hw.rules, hw.accounted, hw.known⟩
      · cases hcheck
    · split at hcheck
      · cases hcheck
      · obtain rfl := (Prod.mk.inj (Except.ok.inj hcheck)).1
        exact ⟨hw.rules, hw.accounted, hw.known⟩

/-- A run that begins. -/
def Watch.running (started : List Procinfo) (requirements : List Requirement) : Watch :=
  ⟨started, requirements, [], false, "running", [], []⟩

theorem checks_sound {checks : List Check}
    (h : ∀ r ∈ requirements, Accounted settings (started.map Procinfo.label) r)
    (hrun : checks.foldlM (Watch.check settings) (Watch.running started requirements) = .ok w) :
    w.Sound settings started requirements := by
  have hstart : (Watch.running started requirements).Sound settings started requirements :=
    ⟨rfl, h, List.Sublist.refl _⟩
  have hstep : ∀ (done : List Check) (check : Check) (w w' : Watch),
      w.Sound settings started requirements → w.check settings check = .ok w' →
        w'.Sound settings started requirements := fun done check w w' hw h => check_sound hw h
  exact Loop.foldlM_induct hstep hstart hrun

/-- What is known by name, label and document is known about each of the processes. -/
theorem known_process {procinfos : List Procinfo}
    (h : (procinfos.map Procinfo.identity).Sublist (started.map Procinfo.identity))
    {p : Procinfo} (hp : p.identity ∈ procinfos.map Procinfo.identity)
    (hdocuments : ∀ p ∈ started, p.fhicl_used ≠ none) : p.fhicl_used ≠ none := by
  obtain ⟨q, hq, hsame⟩ := List.mem_map.mp (h.subset hp)
  have hdocument := congrArg (fun i => i.2.2) hsame
  exact fun hnone => hdocuments q hq (hdocument.trans hnone)

/-- The labels of the EventBuilders, found by what is known of the processes. -/
theorem builder_labels (procinfos : List Procinfo) :
    ((procinfos.filter fun p => p.name = .EventBuilder).map Procinfo.label) =
      (((procinfos.map Procinfo.identity).filter fun i => i.1 = .EventBuilder).map
        fun i => i.2.1) := by
  rw [List.filter_map, List.map_map]
  rfl

/-- As long as the checks throw no exception, the requirements of the file keep their minimum,
and the current count of each is the number of processes left that match it, and not below the
minimum; the next loss throws an exception exactly where it takes a requirement below its
minimum, or no requirement matches and it is a BoardReader, a process that writes root files, an
EventBuilder with no RoutingManager left or the last EventBuilder. -/
theorem requirement_accounting {booted started : List Procinfo} {requirements : List Requirement}
    (hcount : booted.length < 2 ^ 34)
    (hinit : init_process_requirements settings booted = .ok requirements)
    (hlabels : started.map Procinfo.label = booted.map Procinfo.label)
    (hdifferent : ((started.filter fun p => p.name = .EventBuilder).map Procinfo.label).Nodup)
    (hdocuments : ∀ p ∈ started, p.fhicl_used ≠ none) {checks : List Check} {w : Watch}
    (hrun : checks.foldlM (Watch.check settings) (Watch.running started requirements) = .ok w) :
    w.overriding_process_requirements.map Requirement.rule = requirements.map Requirement.rule ∧
    (∀ r ∈ w.overriding_process_requirements,
      r.current_count =
          w.procinfos.countP (fun p => label_matches settings r.regexp p.label) ∧
        r.minimum_count ≤ r.current_count) ∧
    ∀ p rest, (w.procinfos.map Procinfo.identity).Perm ((p :: rest).map Procinfo.identity) →
      ((throw_exception_if_losing_process_violates_requirements settings p
          { w with procinfos := rest }).isOk = false ↔
        EndsRun settings w.overriding_process_requirements rest p) := by
  have hstart : ∀ r ∈ requirements, Accounted settings (started.map Procinfo.label) r := by
    rw [hlabels]
    exact init_process_requirements_accounted hcount hinit
  have hsound := checks_sound hstart hrun
  refine ⟨hsound.rules, fun r hr => ⟨?_, (hsound.accounted r hr).minimum⟩, ?_⟩
  · rw [(hsound.accounted r hr).current, List.countP_map]
    rfl
  · intro p rest hperm
    have hlabel : (w.procinfos.map Procinfo.label).Perm (p.label :: rest.map Procinfo.label) := by
      have hmapped := hperm.map fun i => i.2.1
      rw [List.map_map, List.map_map] at hmapped
      exact hmapped
    have hmem : p.identity ∈ w.procinfos.map Procinfo.identity :=
      hperm.mem_iff.mpr List.mem_cons_self
    refine loss_raises_iff (fun r hr => (hsound.accounted r hr).perm hlabel)
      (known_process hsound.known hmem hdocuments) fun hname q hq hqname hsame => ?_
    -- two EventBuilders that are left have different labels
    rw [builder_labels] at hdifferent
    have hleft := hdifferent.sublist ((hsound.known.filter fun i => i.1 = .EventBuilder).map _)
    have hfilter : ((p :: rest).map Procinfo.identity).filter (fun i => i.1 = .EventBuilder) =
        p.identity :: (rest.map Procinfo.identity).filter fun i => i.1 = .EventBuilder :=
      List.filter_cons_of_pos (decide_eq_true hname)
    rw [((hperm.filter _).map _).nodup_iff, hfilter, List.map_cons, List.nodup_cons] at hleft
    refine hleft.1 (List.mem_map.mpr ⟨q.identity, List.mem_filter.mpr ⟨?_, ?_⟩, hsame⟩)
    · exact List.mem_map_of_mem hq
    · exact decide_eq_true hqname

/-- The processes of the components are BoardReaders. -/
theorem boardreader_name {bootSettings : BootSettings} {component : String × List String} {rank : ℕ}
    {p : BootProcinfo} (h : boardreader bootSettings component rank = .ok p) :
    p.name = "BoardReader" := by
  have hwith : ∀ host port subsystem allowed_processors prepend,
      boardreader_with bootSettings rank component.1 host port subsystem allowed_processors
        prepend = .ok p → p.name = "BoardReader" := by
    intro host port subsystem allowed_processors prepend hmake
    obtain ⟨port', -, rfl⟩ := Loop.map_eq_ok.mp hmake
    rfl
  unfold boardreader at h
  dsimp only at h
  split at h
  · cases h
  · exact hwith _ _ _ _ _ h
  · exact hwith _ _ _ _ _ h
  · exact hwith _ _ _ _ _ h
  · exact hwith _ _ _ _ _ h
  · cases h

/-- The EventBuilders of an accepted boot have different labels. -/
theorem booted_builders_differ {bootSettings : BootSettings} {components : Components}
    {content : String} {booted : Booted}
    (h : boot_processes bootSettings components content = .ok booted) :
    ((booted.procinfos.filter fun p => p.name = "EventBuilder").map BootProcinfo.label).Nodup := by
  obtain ⟨info, -, hcheck, hbuild, -⟩ := boot_processes_ok h
  obtain ⟨readers, hreaders, hsort⟩ := Loop.bind_eq_ok.mp hbuild
  have hperm : booted.procinfos.Perm (info.procinfos ++ readers) := by
    unfold sort_procinfos at hsort
    split_ifs at hsort
    rw [← Except.ok.inj hsort]
    exact List.perm_insertionSort _ _
  have hnone : readers.filter (fun p => p.name = "EventBuilder") = [] := by
    refine List.filter_eq_nil_iff.mpr fun p hp => ?_
    obtain ⟨a, -, hreader⟩ := Recursion.exists_of_forall₂ (Loop.mapM_eq_ok.mp hreaders) hp
    rw [boardreader_name hreader]
    decide
  rw [((hperm.filter _).map _).nodup_iff, List.filter_append, hnone, List.append_nil]
  exact (check_boot_info_ok hcheck).1.sublist (List.filter_sublist.map _)

/-! ## An example -/

/-- A process that has been configured. -/
def configured (name : ProcType) (label : String) : Procinfo :=
  { Procinfo.new name label "1" with fhicl_used := some "services: 1" }

/-- A RoutingManager and two EventBuilders. -/
def routed_run : List Procinfo :=
  [configured .EventBuilder "EventBuilder1", configured .EventBuilder "EventBuilder2",
    configured .RoutingManager "RoutingManager1"]

/-- Labels are matched literally, and `.` matches all of them. -/
def literal_settings (content : Option String) : WatchSettings where
  re_search regexp label := .ok (regexp == "." || regexp == label)
  requirements_list := content.map fun text => ⟨"requirements", some text⟩
  partition_label := ""

/-- A check that finds the given processes. -/
def heartbeat (labels : List String) : Check := .heartbeats ["localhost"] (fun _ => labels) true

/-- One of two EventBuilders must be left, and so it is. -/
theorem one_builder_left :
    ∃ w, [heartbeat ["EventBuilder2", "RoutingManager1"]].foldlM
        (Watch.check (literal_settings (some ". 0.5 2\n")))
        (Watch.running routed_run [⟨".", 3, 2, 3⟩]) = .ok w ∧
      w.procinfos.length = 2 ∧ ∀ r ∈ w.overriding_process_requirements, r.current_count = 2 := by
  have htest : ([heartbeat ["EventBuilder2", "RoutingManager1"]].foldlM
      (Watch.check (literal_settings (some ". 0.5 2\n")))
      (Watch.running routed_run [⟨".", 3, 2, 3⟩])).toOption.any (fun w => w.procinfos.length == 2 &&
        w.overriding_process_requirements.all fun r =>
          w.procinfos.countP (fun p => label_matches (literal_settings (some ". 0.5 2\n")) r.regexp
            p.label) == 2) = true := by decide +kernel
  have hinit : init_process_requirements (literal_settings (some ". 0.5 2\n")) routed_run =
      .ok [⟨".", 3, 2, 3⟩] := by decide +kernel
  obtain ⟨w, hrun, hboth⟩ := Loop.exists_of_any htest
  obtain ⟨hlength, hcount⟩ := Bool.and_eq_true_iff.mp hboth
  have hall := (requirement_accounting (by decide) hinit rfl (by decide) (by decide) hrun).2.1
  refine ⟨w, hrun, eq_of_beq hlength, fun r hr => ?_⟩
  rw [(hall r hr).1, eq_of_beq (List.all_eq_true.mp hcount r hr)]
  rfl

theorem count_matching_all {regexp : String} (procinfos : List Procinfo)
    (h : ∀ label, settings.re_search regexp label = .ok true) :
    count_matching settings regexp procinfos = .ok procinfos.length := by
  induction procinfos with
  | nil => rfl
  | cons p procinfos ih =>
    unfold count_matching
    rw [h, ih]
    rfl

/-- Too many processes to be counted right. -/
theorem large_count_rounded {procinfos : List Procinfo} (hlength : procinfos.length = 2 ^ 34 + 1) :
    ∃ r, init_process_requirements (literal_settings (some ". 0 0\n")) procinfos = .ok [r] ∧
      r.current_count ≠ procinfos.countP fun p =>
        label_matches (literal_settings (some ". 0 0\n")) r.regexp p.label := by
  have hcount : count_matching (literal_settings (some ". 0 0\n")) "." procinfos =
      .ok 17179869185 := by
    rw [count_matching_all procinfos fun label => rfl, hlength]
    norm_num
  have hmatches : (fun p : Procinfo => label_matches (literal_settings (some ". 0 0\n")) "."
      p.label) = fun _ => true := rfl
  have hzero : round_up 17179869185 (some 0) = .ok 0 := by decide +kernel
  have hone : round_up 17179869185 (some 1) = .ok 17179869186 := by decide +kernel
  have hline : on_whole_line re_requirement (". 0 0\n".toList.takeWhile (· ≠ '#')) =
      some [".".toList, "0".toList, "0".toList] := by decide +kernel
  have hfraction : float_of_text "0".toList = .ok (some 0) := by decide +kernel
  have hread : read_requirement (literal_settings (some ". 0 0\n")) "requirements" procinfos
      ". 0 0\n".toList = .ok ⟨".", 17179869186, 0, 17179869186⟩ := by
    have hregexp : String.ofList ".".toList = "." := by decide +kernel
    have hvalue : digits_value 10 "0".toList = 0 := by decide +kernel
    unfold read_requirement
    simp only [hline, hregexp, hfraction, hvalue, bind, Except.bind,
      num_processes_required_by_fraction, hcount, hzero, hone]
    rfl
  refine ⟨⟨".", 17179869186, 0, 17179869186⟩, ?_, ?_⟩
  · have hlines : (readlines ". 0 0\n".toList).filter (fun line => !states_nothing line) =
        [". 0 0\n".toList] := by decide +kernel
    have hinit : init_process_requirements (literal_settings (some ". 0 0\n")) procinfos =
        ((readlines ". 0 0\n".toList).filter fun line => !states_nothing line).mapM
          (read_requirement (literal_settings (some ". 0 0\n")) "requirements" procinfos) := rfl
    rw [hinit, hlines, List.mapM_cons, hread]
    rfl
  · dsimp only
    rw [hmatches, List.countP_true, hlength]
    norm_num

/-- With the RoutingManager of a run lost, the loss of one of two EventBuilders ends the run; and
the count of very many processes is not right. -/
theorem late_loss_and_large_count :
    (∃ w, [heartbeat ["EventBuilder1", "EventBuilder2"]].foldlM
        (Watch.check (literal_settings none)) (Watch.running routed_run []) = .ok w ∧
      w.procinfos = [configured .EventBuilder "EventBuilder1",
        configured .EventBuilder "EventBuilder2"] ∧
      (w.check (literal_settings none) (heartbeat ["EventBuilder2"])).isOk = false) ∧
    ∃ r, init_process_requirements (literal_settings (some ". 0 0\n"))
        (List.replicate (2 ^ 34 + 1) (configured .EventBuilder "EventBuilder1")) = .ok [r] ∧
      r.current_count ≠ (List.replicate (2 ^ 34 + 1) (configured .EventBuilder "EventBuilder1")).countP
        fun p => label_matches (literal_settings (some ". 0 0\n")) r.regexp p.label := by
  refine ⟨?_, large_count_rounded List.length_replicate⟩
  have htest : ([heartbeat ["EventBuilder1", "EventBuilder2"]].foldlM
      (Watch.check (literal_settings none)) (Watch.running routed_run [])).toOption.any (fun w =>
        decide (w.procinfos = [configured .EventBuilder "EventBuilder1",
          configured .EventBuilder "EventBuilder2"]) &&
        !(w.check (literal_settings none) (heartbeat ["EventBuilder2"])).isOk) = true := by
    decide +kernel
  obtain ⟨w, hrun, hboth⟩ := Loop.exists_of_any htest
  obtain ⟨hleft, hraises⟩ := Bool.and_eq_true_iff.mp hboth
  exact ⟨w, hrun, of_decide_eq_true hleft, by simpa using hraises⟩

end DaqInterface
