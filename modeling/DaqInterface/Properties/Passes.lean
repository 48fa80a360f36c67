import DaqInterface.Properties.ParameterText

/-!
# Passes that set a parameter

A pass puts a name, a colon and a value in the place of each match of `name\s*:\s*[ok]+`.  Where
every pass, in the document as the passes before it leave it, finds whole parameters with its
name and nothing else, all passes together give each of these parameters its value, as if they
were made at once (`run_passes`).
-/

namespace DaqInterface

open Pattern Parts

theorem not_nonspace {c : Char} (h : isSpace c = true) : (!isSpace c) = false := by
  rw [h]
  rfl

/-- A pass over a document. -/
structure Pass where
  name : String
  /-- The characters that are taken for the old value. -/
  ok : Char → Bool
  /-- The new value. -/
  value : List Char
  no_space : ∀ c, isSpace c = true → ok c = false

namespace Pass

def re (pass : Pass) : Pattern := row [parameter pass.name, some_of pass.ok]

/-- What is put in the place of a match. -/
def replacement (pass : Pass) : List Char := pass.name.toList ++ (": ".toList ++ pass.value)

def run (pass : Pass) (document : List Char) : List Char :=
  pass.re.sub (fun _ => pass.replacement) document

/-- The name begins here, with a colon and the start of a value behind it. -/
def spelled (pass : Pass) (rest : List Char) : Bool :=
  (behind_colon pass.name.toList rest).any fun more => more.head?.any pass.ok

/-- The parameter is written as the pass takes it. -/
def takes (pass : Pass) (p : Parameter) : Bool :=
  p.key == pass.name.toList && p.gap == ": ".toList && p.value.all pass.ok

end Pass

/-- The value of a parameter behind some passes. -/
def value_after (passes : List Pass) (p : Parameter) : List Char :=
  ((passes.find? fun pass => pass.takes p).map Pass.value).getD p.value

/-- A text behind some passes. -/
def after (passes : List Pass) (l : List (Segment Parameter)) : List Char :=
  render (fun _ p => p.with_value (value_after passes p)) l

/-- Behind the earlier passes, the pass finds the parameters that it takes, each up to its end, and
nothing else. -/
def Pass.finds (pass : Pass) (earlier : List Pass) : List (Segment Parameter) → Bool
  | [] => true
  | .char c :: l => !pass.spelled (c :: after earlier l) && pass.finds earlier l
  | .item _ p :: l =>
    (if pass.takes p then !(after earlier l).head?.any pass.ok
      else (p.with_value (value_after earlier p)).tails.all fun back =>
        back = [] || !pass.spelled (back ++ after earlier l)) && pass.finds earlier l

/-- Each pass does so, behind the ones before it. -/
def all_find (l : List (Segment Parameter)) : List Pass → List Pass → Bool
  | _, [] => true
  | earlier, pass :: later => pass.finds earlier l && all_find l (earlier ++ [pass]) later

variable {pass : Pass} {earlier passes : List Pass} {p : Parameter} {l : List (Segment Parameter)}

/-! ## Matches -/

theorem Pass.at_start (pass : Pass) (rest : List Char) :
    pass.re.at_start rest = (behind_colon pass.name.toList rest).bind fun more =>
      if more.head?.any pass.ok then some ([], more.dropWhile pass.ok) else none := by
  have hvalue : (seq (some_of pass.ok) empty).Avoids isSpace :=
    ((avoids_char pass.no_space).seq _).seq _
  show (seq (parameter pass.name) (seq (some_of pass.ok) empty)).at_start rest = _
  rw [at_start_parameter hvalue]
  congr 1
  funext more
  rw [at_start_seq_empty, at_start_some_of]

theorem Pass.at_start_eq_none {rest : List Char} (h : pass.spelled rest = false) :
    pass.re.at_start rest = none := by
  rw [pass.at_start]
  unfold Pass.spelled at h
  cases hbehind : behind_colon pass.name.toList rest with
  | none => rfl
  | some more =>
    rw [hbehind, Option.any_some] at h
    rw [Option.bind_some, if_neg (by simp [h])]

/-- A parameter that the pass takes is matched up to its end. -/
theorem Pass.at_start_of_takes (htakes : pass.takes p = true) (hne : p.value ≠ []) {rest : List Char}
    (hrest : rest.head?.any pass.ok = false) :
    pass.re.at_start (p.text ++ rest) = some ([], rest) := by
  simp only [Pass.takes, Bool.and_eq_true, beq_iff_eq, List.all_eq_true] at htakes
  obtain ⟨⟨hkey, hgap⟩, hvalue⟩ := htakes
  obtain ⟨d, tail, htail⟩ := List.exists_cons_of_ne_nil hne
  have hd : pass.ok d = true := hvalue d (htail ▸ List.mem_cons_self)
  have hhead : ∀ c, (p.value ++ rest).head? = some c → isSpace c = false := by
    rw [htail]
    rintro c ⟨⟩
    by_contra hspace
    rw [pass.no_space d (by simpa using hspace)] at hd
    cases hd
  have hcolon : ": ".toList = ':' :: [' '] := by decide
  have hblank : ∀ c ∈ [' '], isSpace c = true := by
    intro c hc
    rw [List.mem_singleton.mp hc]
    decide
  have hbehind := behind_colon_of p.key (fun c hc => absurd hc List.not_mem_nil) hblank hhead
  have htext : p.text ++ rest = p.key ++ ([] ++ ':' :: ([' '] ++ (p.value ++ rest))) := by
    unfold Parameter.text
    rw [hgap, hcolon]
    simp
  have hstop : ∀ c, rest.head? = some c → pass.ok c = false := by
    intro c hc
    rw [hc] at hrest
    exact hrest
  have hdrop : (p.value ++ rest).dropWhile pass.ok = rest := Scan.dropWhile_word hvalue hstop
  have hfirst : (p.value ++ rest).head?.any pass.ok = true := by
    rw [htail]
    exact hd
  rw [pass.at_start, htext, ← hkey, hbehind, Option.bind_some, if_pos hfirst, hdrop]

/-! ## One pass -/

theorem value_after_eq_self (h : ∀ pass ∈ passes, pass.takes p = false) :
    value_after passes p = p.value := by
  have hnone : passes.find? (fun pass => pass.takes p) = none :=
    List.find?_eq_none.mpr fun pass hpass => by simp [h pass hpass]
  rw [value_after, hnone]
  rfl

/-- Two passes with different names do not take the same parameter. -/
theorem Pass.takes_eq_false {other : Pass} (hne : other.name ≠ pass.name)
    (h : pass.takes p = true) : other.takes p = false := by
  by_contra hother
  simp only [Pass.takes, Bool.and_eq_true, beq_iff_eq, Bool.not_eq_false] at h hother
  exact hne (String.toList_injective (hother.1.1.symm.trans h.1.1))

/-- Where the pass finds the parameters that it takes, its matches are these. -/
theorem Pass.placed (hnames : ∀ other ∈ earlier, other.name ≠ pass.name)
    (hvalues : ∀ item ∈ items l, item.2.value ≠ []) (h : pass.finds earlier l = true) :
    Placed pass.re (fun _ p => p.with_value (value_after earlier p)) pass.takes l := by
  induction l with
  | nil => trivial
  | cons part l ih =>
    cases part with
    | char c =>
      simp only [Pass.finds, Bool.and_eq_true, Bool.not_eq_true'] at h
      exact ⟨Pass.at_start_eq_none h.1, ih hvalues h.2⟩
    | item text p =>
      simp only [Pass.finds, Bool.and_eq_true] at h
      obtain ⟨hitem, hrest⟩ := h
      refine ⟨?_, ih (fun item hitem => hvalues item (List.mem_cons_of_mem _ hitem)) hrest⟩
      by_cases htakes : pass.takes p = true
      · rw [if_pos htakes, Bool.not_eq_true'] at hitem
        have hself : value_after earlier p = p.value :=
          value_after_eq_self fun other hother => Pass.takes_eq_false (hnames other hother) htakes
        have hne : p.value ≠ [] := hvalues (text, p) List.mem_cons_self
        have htext : p.with_value (value_after earlier p) = p.text := by
          rw [hself]
          rfl
        rw [if_pos htakes]
        dsimp only
        rw [htext]
        refine ⟨?_, [], Pass.at_start_of_takes htakes hne hitem⟩
        exact List.append_ne_nil_of_right_ne_nil _ (List.append_ne_nil_of_right_ne_nil _ hne)
      · rw [if_neg htakes] at hitem ⊢
        intro back hback hne
        have hspelled := List.all_eq_true.mp hitem back ((List.mem_tails back _).mpr hback)
        simp only [hne, decide_false, Bool.false_or, Bool.not_eq_true'] at hspelled
        exact Pass.at_start_eq_none hspelled

/-- Such a pass gives these parameters its value. -/
theorem Pass.run_after (hnames : ∀ other ∈ earlier, other.name ≠ pass.name)
    (hvalues : ∀ item ∈ items l, item.2.value ≠ []) (h : pass.finds earlier l = true) :
    pass.run (after earlier l) = after (earlier ++ [pass]) l := by
  unfold Pass.run after
  rw [sub_render (Pass.placed hnames hvalues h)]
  congr 1
  funext text p
  unfold value_after
  by_cases htakes : pass.takes p = true
  · have hnone : earlier.find? (fun other => other.takes p) = none :=
      List.find?_eq_none.mpr fun other hother => by
        simp [Pass.takes_eq_false (hnames other hother) htakes]
    have hkey : p.key = pass.name.toList ∧ p.gap = ": ".toList := by
      simp only [Pass.takes, Bool.and_eq_true, beq_iff_eq] at htakes
      exact htakes.1
    have hone : [pass].find? (fun other => other.takes p) = some pass := by simp [htakes]
    rw [if_pos htakes, List.find?_append, hnone, Option.none_or, hone]
    show pass.replacement = p.key ++ (p.gap ++ pass.value)
    rw [hkey.1, hkey.2]
    rfl
  · have hnone : [pass].find? (fun other => other.takes p) = none := by simp [htakes]
    rw [if_neg htakes, List.find?_append, hnone, Option.or_none]

/-! ## All passes -/

/-- Passes behind others, where each finds the parameters that it takes. -/
theorem run_passes_after (hnames : ((earlier ++ passes).map Pass.name).Nodup)
    (hvalues : ∀ item ∈ items l, item.2.value ≠ []) (h : all_find l earlier passes = true) :
    passes.foldl (fun document pass => pass.run document) (after earlier l) =
      after (earlier ++ passes) l := by
  induction passes generalizing earlier with
  | nil => rw [List.foldl_nil, List.append_nil]
  | cons pass passes ih =>
    simp only [all_find, Bool.and_eq_true] at h
    have hother : ∀ other ∈ earlier, other.name ≠ pass.name := by
      rw [List.map_append, List.map_cons, List.nodup_append] at hnames
      intro other hother
      exact hnames.2.2 _ (List.mem_map_of_mem hother) _ List.mem_cons_self
    have hsplit : earlier ++ pass :: passes = earlier ++ [pass] ++ passes := by simp
    rw [List.foldl_cons, Pass.run_after hother hvalues h.1, hsplit]
    exact ih (hsplit ▸ hnames) h.2

theorem after_nil (h : ∀ item ∈ items l, item.1 = item.2.text) :
    after [] l = render (fun text _ => text) l := by
  induction l with
  | nil => rfl
  | cons part l ih =>
    cases part with
    | char c => exact congrArg (c :: ·) (ih h)
    | item text p =>
      have htext : text = p.text := h (text, p) List.mem_cons_self
      have hrest := ih fun item hitem => h item (List.mem_cons_of_mem _ hitem)
      rw [after, render, render, htext, ← after, hrest]
      rfl

/-! ## The parameters of a document -/

/-- A parameter that is found is its own text, and has a value. -/
theorem parameters_item {chosen : List Char → Bool} {before rest : List Char}
    {item : List Char × Parameter} (h : item ∈ items (parts (parameters chosen) 0 before rest)) :
    item.1 = item.2.text ∧ item.2.value ≠ [] ∧ chosen item.2.key = true := by
  obtain ⟨before', more, n, hfind, htake⟩ := found_of_mem_items h
  unfold parameters at hfind
  obtain ⟨p, hp, hfind⟩ := Option.bind_eq_some_iff.mp hfind
  split_ifs at hfind with hchosen
  obtain ⟨rfl, rfl⟩ := Prod.mk.inj (Option.some.inj hfind)
  obtain ⟨tail, hrest, hvalue, hne⟩ := parameter_here_split hp
  refine ⟨?_, hne, hchosen⟩
  have hsplit : item.1 ++ more = item.2.text ++ tail.drop (value_length tail) := by
    unfold Parameter.text
    rw [hrest, hvalue, List.append_assoc, List.append_assoc, List.take_append_drop]
  rw [htake, hsplit, List.take_left]

/-- Passes over a text that begins at a place of a document give the parameters that they take
their values, where each finds these and nothing else. -/
theorem run_passes {chosen : List Char → Bool} {before rest : List Char}
    (hnames : (passes.map Pass.name).Nodup)
    (h : all_find (parts (parameters chosen) 0 before rest) [] passes = true) :
    passes.foldl (fun document pass => pass.run document) rest =
      after passes (parts (parameters chosen) 0 before rest) := by
  have hstart : after [] (parts (parameters chosen) 0 before rest) = rest := by
    rw [after_nil fun item hitem => (parameters_item hitem).1, render_text]
  have hrun := run_passes_after (List.nil_append passes ▸ hnames)
    (fun item hitem => (parameters_item hitem).2.1) h
  rwa [hstart] at hrun

end DaqInterface
