import DaqInterface.Library.Fold
import DaqInterface.Library.Scan
import DaqInterface.Model.Settings
import Mathlib.Data.List.DropRight

/-!
# The effect of a line of the settings file

A line `K: V`, perhaps with a comment, assigns the value of `V` to the attribute of `K`
exactly where no key of an earlier branch occurs in what is left of the line, the value
included, and the last word that is left stands for that value (`settings_line_iff`).
-/

namespace DaqInterface

open Pattern

variable {environ : List (String × String)} {path : String}

/-! ## Comments and white space -/

/-- A line without a dollar sign has no variable. -/
theorem expand_eq_self {line : List Char} (h : '$' ∉ line) :
    expand_environment_variable_in_string environ line = .ok line := by
  have hnone : re_environ_var.at_start line = none := by
    refine List.head?_eq_none_iff.mpr (List.eq_nil_iff_forall_not_mem.mpr fun m hm => ?_)
    obtain ⟨first, hfirst, second, hsecond, -⟩ := mem_ways_seq.mp hm
    obtain ⟨part, hpart, rfl⟩ := List.mem_map.mp hfirst
    obtain ⟨stop, hstop, rfl⟩ := List.mem_map.mp hpart
    obtain ⟨var, hvar, -⟩ := mem_ways_seq.mp hsecond
    obtain ⟨inner, hinner, rfl⟩ := List.mem_map.mp hvar
    obtain ⟨dollar, hdollar, -⟩ := mem_ways_seq.mp hinner
    have hrest : ¬ "$".toList <+: stop := fun hstarts =>
      h ((suffix_of_mem_runs hstop).subset (hstarts.subset (by decide)))
    exact absurd (ways_text_eq_nil hrest ▸ hdollar) List.not_mem_nil
  unfold expand_environment_variable_in_string
  rw [hnone]

theorem without_comment_eq_self {line : List Char} (h : '#' ∉ line) :
    without_comment line = line := by
  have hnone : re_same_line_comment.at_start line = none := by
    refine List.head?_eq_none_iff.mpr (List.eq_nil_iff_forall_not_mem.mpr fun m hm => ?_)
    obtain ⟨first, hfirst, second, hsecond, -⟩ := mem_ways_seq.mp hm
    obtain ⟨part, hpart, rfl⟩ := List.mem_map.mp hfirst
    obtain ⟨stop, hstop, rfl⟩ := List.mem_map.mp hpart
    obtain ⟨mark, hmark, -⟩ := mem_ways_seq.mp hsecond
    have hrest : ¬ "#".toList <+: stop := fun hstarts =>
      h ((suffix_of_mem_runs hstop).subset (hstarts.subset (by decide)))
    exact absurd (ways_text_eq_nil hrest ▸ hmark) List.not_mem_nil
  unfold without_comment
  rw [hnone]

/-- A line is cut at its last `#`. -/
theorem without_comment_last {front back : List Char} (hfront : '\n' ∉ front)
    (hback : '#' ∉ back) : without_comment (front ++ '#' :: back) = front := by
  obtain ⟨more, hmore⟩ := runs_append_of_all (fun c => decide (c ≠ '\n')) ('#' :: back)
    fun c hc => decide_eq_true fun heq => hfront (heq ▸ hc)
  have hruns : runs (fun c => decide (c ≠ '\n')) ('#' :: back) =
      runs (fun c => decide (c ≠ '\n')) back ++ ['#' :: back] := by
    rw [runs, if_pos (by decide)]
  have hmark : (text "#").ways ('#' :: back) = [([], back)] := ways_text "#" back
  have hlength : (front ++ '#' :: back).take ((front ++ '#' :: back).length -
      ('#' :: back).length) = front := by
    rw [List.length_append, Nat.add_sub_cancel, List.take_left]
  have hways : re_rest.ways (front ++ '#' :: back) =
      ((runs (fun c => decide (c ≠ '\n')) back).map fun rest =>
        ([(front ++ '#' :: back).take ((front ++ '#' :: back).length - rest.length)], rest)) ++
      ([front], '#' :: back) ::
      (more.map fun rest =>
        ([(front ++ '#' :: back).take ((front ++ '#' :: back).length - rest.length)], rest)) := by
    unfold re_rest
    rw [ways, ways, hmore, hruns]
    simp only [List.map_append, List.map_map, List.map_cons, Function.comp_def, hlength,
      List.append_assoc, List.cons_append, List.nil_append]
  -- behind the last `#` there is no further one
  have hskipped : ∀ w ∈ (runs (fun c => decide (c ≠ '\n')) back).map (fun rest =>
        ([(front ++ '#' :: back).take ((front ++ '#' :: back).length - rest.length)], rest)),
      (row [text "#", many fun c => c ≠ '\n']).ways w.2 = [] := by
    intro w hw
    obtain ⟨rest, hrest, rfl⟩ := List.mem_map.mp hw
    have hnot : ¬ "#".toList <+: rest := fun hstarts =>
      hback ((suffix_of_mem_runs hrest).subset (hstarts.subset (by decide)))
    rw [row, List.foldr_cons, ways, ways_text_eq_nil hnot]
    rfl
  obtain ⟨rest, hrest⟩ : ∃ rest, (row [text "#", many fun c => c ≠ '\n']).at_start
      ('#' :: back) = some ([], rest) := by
    refine ⟨back.dropWhile fun c => !decide (c = '\n'), ?_⟩
    unfold Pattern.at_start
    rw [row, List.foldr_cons, ways, hmark]
    simp [ways, runs_head?]
  have hmatch : re_same_line_comment.at_start (front ++ '#' :: back) = some ([front], rest) :=
    at_start_seq hways hskipped hrest
  unfold without_comment
  rw [hmatch]

theorem rdropWhile_append {front back : List Char} {d : Char} (hlast : front.getLast? = some d)
    (hd : isSpace d = false) :
    (front ++ back).rdropWhile isSpace = front ++ back.rdropWhile isSpace := by
  obtain ⟨init, rfl⟩ := List.getLast?_eq_some_iff.mp hlast
  induction back using List.reverseRecOn with
  | nil => simp [hd]
  | append_singleton back e ih =>
    rw [← List.append_assoc, List.rdropWhile_concat, List.rdropWhile_concat]
    split_ifs
    · exact ih
    · rw [List.append_assoc]

/-- White space at the end of a line is cut off. -/
theorem strip_append {front back : List Char} {c d : Char} (hfirst : front.head? = some c)
    (hc : isSpace c = false) (hlast : front.getLast? = some d) (hd : isSpace d = false) :
    strip (front ++ back) = front ++ back.rdropWhile isSpace := by
  have hdrop : (front ++ back).dropWhile isSpace = front ++ back := by
    cases front with
    | nil => exact absurd hfirst (by simp)
    | cons e es =>
      obtain rfl : e = c := Option.some.inj hfirst
      exact List.dropWhile_cons_of_neg (by simp [hc])
  have hstrip : strip (front ++ back) = (front ++ back).rdropWhile isSpace := by
    unfold strip
    rw [hdrop]
    rfl
  rw [hstrip, rdropWhile_append hlast hd]

/-! ## The lines of the claim -/

/-- A value without white space, in which no comment and no variable begins. -/
structure IsToken (value : List Char) : Prop where
  ne_nil : value ≠ []
  plain : ∀ c ∈ value, isSpace c = false ∧ c ≠ '#' ∧ c ≠ '$'

/-- A key and its value. -/
def assignment (key : String) (value : List Char) : List Char := key.toList ++ ':' :: ' ' :: value

/-- A line with a key, a value and perhaps a comment. -/
def setting_line (key : String) (value : List Char) (comment : Option (List Char))
    (newline : Bool) : List Char :=
  assignment key value ++ (comment.elim [] fun c => ' ' :: '#' :: ' ' :: c) ++
    if newline then ['\n'] else []

/-- What stands before the last `#` of a comment. -/
def before_last_mark (comment : List Char) : List Char :=
  (comment.rdropWhile fun c => c ≠ '#').dropLast

/-- What is left of such a line: the key and its value, and a comment up to its last `#`. -/
def setting_left (key : String) (value : List Char) (comment : Option (List Char)) : List Char :=
  assignment key value ++ comment.elim [] fun c =>
    if '#' ∈ c then (' ' :: '#' :: ' ' :: before_last_mark c).rdropWhile isSpace else []

/-! ## What is left of a line -/

/-- A key begins with a letter and has no white space and neither mark. -/
structure IsKey (key : String) : Prop where
  ne_nil : key.toList ≠ []
  plain : ∀ c ∈ key.toList, isSpace c = false ∧ c ≠ '#' ∧ c ≠ '$'

theorem isKey_of_mem {branch : SettingBranch} {key : String} (hbranch : branch ∈ settings_branches)
    (hkey : key ∈ branch.keys) : IsKey key := by
  have hall : ∀ branch ∈ settings_branches, ∀ key ∈ branch.keys, key.toList ≠ [] ∧
      key.toList.all fun c => !isSpace c && c != '#' && c != '$' := by
    decide +kernel
  obtain ⟨hne, hchars⟩ := hall branch hbranch key hkey
  refine ⟨hne, fun c hc => ?_⟩
  simpa [and_assoc] using List.all_eq_true.mp hchars c hc

variable {key : String} {value : List Char}

theorem IsToken.getLast? (hvalue : IsToken value) :
    ∃ d, value.getLast? = some d ∧ isSpace d = false :=
  ⟨value.getLast hvalue.ne_nil, List.getLast?_eq_some_getLast hvalue.ne_nil,
    (hvalue.plain _ (List.getLast_mem hvalue.ne_nil)).1⟩

theorem assignment_head? (hkey : IsKey key) (value : List Char) :
    ∃ c, (assignment key value).head? = some c ∧ isSpace c = false ∧ c ≠ '#' := by
  obtain ⟨c, cs, hcs⟩ := List.exists_cons_of_ne_nil hkey.ne_nil
  have hplain := hkey.plain c (hcs ▸ List.mem_cons_self)
  refine ⟨c, ?_, hplain.1, hplain.2.1⟩
  unfold assignment
  rw [hcs]
  rfl

theorem assignment_getLast? (key : String) (hvalue : IsToken value) :
    ∃ d, (assignment key value).getLast? = some d ∧ isSpace d = false := by
  obtain ⟨d, hd, hspace⟩ := hvalue.getLast?
  refine ⟨d, ?_, hspace⟩
  have hsplit : assignment key value = (key.toList ++ [':', ' ']) ++ value := by
    unfold assignment
    simp
  rw [hsplit, List.getLast?_append_of_ne_nil _ hvalue.ne_nil, hd]

theorem not_mem_assignment {c : Char} (hkey : c ∉ key.toList) (hvalue : c ∉ value)
    (hc : c ≠ ':' ∧ c ≠ ' ') : c ∉ assignment key value := by
  unfold assignment
  simp only [List.mem_append, List.mem_cons, not_or]
  exact ⟨hkey, hc.1, hc.2, hvalue⟩

/-- A comment in front of its last `#` and behind it. -/
theorem split_last_mark {comment : List Char} (h : '#' ∈ comment) :
    ∃ back, comment = before_last_mark comment ++ '#' :: back ∧ '#' ∉ back := by
  unfold before_last_mark
  induction comment using List.reverseRecOn with
  | nil => exact absurd h List.not_mem_nil
  | append_singleton front c ih =>
    rw [List.rdropWhile_concat]
    by_cases hc : c = '#'
    · refine ⟨[], ?_, List.not_mem_nil⟩
      rw [if_neg (by simp [hc]), List.dropLast_concat, hc]
    · have hfront : '#' ∈ front := (List.mem_append.mp h).resolve_right fun hmem =>
        hc (List.mem_singleton.mp hmem).symm
      obtain ⟨back, hback, hnot⟩ := ih hfront
      refine ⟨back ++ [c], ?_, ?_⟩
      · rw [if_pos (by simpa using hc)]
        conv_lhs => rw [hback]
        simp
      · intro hmem
        rcases List.mem_append.mp hmem with hmem | hmem
        · exact hnot hmem
        · exact hc (List.mem_singleton.mp hmem).symm

/-- What is left of a line with a key, a value and perhaps a comment. -/
theorem strip_without_comment (hkey : IsKey key) (hvalue : IsToken value)
    {comment : Option (List Char)} (hcomment : ∀ c ∈ comment, '\n' ∉ c) (newline : Bool) :
    strip (without_comment (setting_line key value comment newline)) =
      setting_left key value comment := by
  obtain ⟨c, hc, hcspace, hcmark⟩ := assignment_head? hkey value
  obtain ⟨d, hd, hdspace⟩ := assignment_getLast? key hvalue
  have hmark : '#' ∉ assignment key value := not_mem_assignment
    (fun h => (hkey.plain _ h).2.1 rfl) (fun h => (hvalue.plain _ h).2.1 rfl) (by decide)
  have hline : '\n' ∉ assignment key value := not_mem_assignment
    (fun h => absurd (hkey.plain _ h).1 (by decide))
    (fun h => absurd (hvalue.plain _ h).1 (by decide)) (by decide)
  have hend : '#' ∉ (if newline then ['\n'] else []) := by
    cases newline <;> decide
  have hnewline : (if newline then ['\n'] else []).rdropWhile isSpace = [] := by
    cases newline <;> decide
  cases comment with
  | none =>
    have hnone : '#' ∉ setting_line key value none newline := by
      unfold setting_line
      simp only [Option.elim_none, List.append_nil, List.mem_append, not_or]
      exact ⟨hmark, hend⟩
    rw [without_comment_eq_self hnone]
    unfold setting_line setting_left
    rw [Option.elim_none, List.append_nil, Option.elim_none, strip_append hc hcspace hd hdspace,
      hnewline]
  | some text =>
    have htext : '\n' ∉ text := hcomment text rfl
    unfold setting_left
    rw [Option.elim_some]
    by_cases hhash : '#' ∈ text
    · obtain ⟨back, hback, hnot⟩ := split_last_mark hhash
      have hsplit : setting_line key value (some text) newline =
          (assignment key value ++ (' ' :: '#' :: ' ' :: before_last_mark text)) ++
            '#' :: (back ++ if newline then ['\n'] else []) := by
        unfold setting_line
        rw [Option.elim_some]
        conv_lhs => rw [hback]
        simp
      have hbefore : '\n' ∉ before_last_mark text := fun h =>
        htext (hback ▸ List.mem_append_left _ h)
      have hfront : '\n' ∉ assignment key value ++ (' ' :: '#' :: ' ' :: before_last_mark text) := by
        simp only [List.mem_append, List.mem_cons, not_or]
        exact ⟨hline, by decide, by decide, by decide, hbefore⟩
      have hrest : '#' ∉ back ++ if newline then ['\n'] else [] := fun h =>
        (List.mem_append.mp h).elim hnot hend
      rw [hsplit, without_comment_last hfront hrest, strip_append hc hcspace hd hdspace,
        if_pos hhash]
    · have hsplit : setting_line key value (some text) newline =
          (assignment key value ++ [' ']) ++
            '#' :: (' ' :: text ++ if newline then ['\n'] else []) := by
        unfold setting_line
        rw [Option.elim_some]
        simp
      have hfront : '\n' ∉ assignment key value ++ [' '] := by
        simp only [List.mem_append, List.mem_singleton, not_or]
        exact ⟨hline, by decide⟩
      have hrest : '#' ∉ ' ' :: text ++ if newline then ['\n'] else [] := fun h =>
        (List.mem_append.mp h).elim
          (fun h => (List.mem_cons.mp h).elim (by decide) hhash) hend
      rw [hsplit, without_comment_last hfront hrest, strip_append hc hcspace hd hdspace,
        if_neg hhash]
      rfl

/-- Without a `#` in the comment, the value is the last word that is left. -/
theorem last_token_assignment (hkey : IsKey key) (hvalue : IsToken value) :
    last_token (assignment key value) = .ok (String.ofList value) := by
  have hkeychars : ∀ c ∈ key.toList ++ [':'], isSpace c = false := by
    intro c hc
    rcases List.mem_append.mp hc with hc | hc
    · exact (hkey.plain c hc).1
    · rw [List.mem_singleton.mp hc]
      decide
  have hsplit : assignment key value = (key.toList ++ [':']) ++ ' ' :: value := by
    unfold assignment
    simp
  have hparts : (assignment key value).splitOnP isSpace = [key.toList ++ [':'], value] := by
    rw [hsplit, List.splitOnP_append_cons _ _ (by decide),
      List.splitOnP_eq_singleton hkeychars,
      List.splitOnP_eq_singleton fun c hc => (hvalue.plain c hc).1]
    rfl
  have hwords : (words (String.ofList (assignment key value))).getLast? =
      some (String.ofList value) := by
    unfold words
    rw [String.toList_ofList, hparts]
    simp [hvalue.ne_nil]
  unfold last_token
  rw [hwords]

/-! ## The branch of a line -/

theorem names_nodup : (settings_branches.map SettingBranch.name).Nodup := by decide +kernel

/-- How the branches for settings with one value are tested. -/
theorem test_of_single : ∀ branch ∈ settings_branches, ∀ conversion,
    branch.action = .single conversion → branch.test = mentions branch.keys ∨
      (branch.keys = ["routingmanager_timeout", "routing_manager_timeout"] ∧
        branch.test = fun line => (re_routingmanager_timeout.at_start line).isSome) := by
  simp [settings_branches, single_setting]

/-- The underscore behind `routing` may be missing. -/
theorem routingmanager_test {line rest : List Char}
    (hgap : ([], "manager".toList ++ '_' :: ("timeout".toList ++ rest)) ∈
      (alt (text "_") empty).ways line) :
    (re_routingmanager_timeout.at_start ("routing".toList ++ line)).isSome = true := by
  have hspaces : ([], "routing".toList ++ line) ∈ spaces.ways ("routing".toList ++ line) := by
    have hword : "routing".toList = 'r' :: "outing".toList := by decide +kernel
    rw [hword]
    exact List.mem_singleton_self _
  have hchar : ([], "timeout".toList ++ rest) ∈ re_gap.ways ('_' :: ("timeout".toList ++ rest)) :=
    List.mem_singleton_self _
  have hend : ([], rest) ∈ Pattern.empty.ways rest := List.mem_singleton_self _
  have hmem : ([], rest) ∈ re_routingmanager_timeout.ways ("routing".toList ++ line) :=
    mem_ways_seq_of hspaces (mem_ways_seq_of (mem_ways_text _ _) (mem_ways_seq_of hgap
      (mem_ways_seq_of (mem_ways_text _ _) (mem_ways_seq_of hchar
        (mem_ways_seq_of (mem_ways_text _ _) hend)))))
  unfold Pattern.at_start
  cases hways : re_routingmanager_timeout.ways ("routing".toList ++ line) with
  | nil =>
    rw [hways] at hmem
    exact absurd hmem List.not_mem_nil
  | cons m more => rfl

/-- A line passes the test of its key. -/
theorem test_of_key {branch : SettingBranch} {conversion : Conversion}
    (hbranch : branch ∈ settings_branches) (haction : branch.action = .single conversion)
    (hkey : key ∈ branch.keys) (rest : List Char) : branch.test (key.toList ++ rest) = true := by
  rcases test_of_single branch hbranch conversion haction with htest | ⟨hkeys, htest⟩
  · rw [htest]
    refine List.any_eq_true.mpr ⟨key, hkey, ?_⟩
    have hoccurs : occurs key (key.toList ++ rest) = true :=
      decide_eq_true (List.prefix_append _ _).isInfix
    rw [hoccurs, Bool.true_or]
  · rw [htest]
    rw [hkeys] at hkey
    rcases List.mem_cons.mp hkey with rfl | hkey
    · have hword : "routingmanager_timeout".toList =
          "routing".toList ++ ("manager".toList ++ '_' :: "timeout".toList) := by decide +kernel
      rw [hword, List.append_assoc, List.append_assoc]
      exact routingmanager_test (List.mem_append_right _ (List.mem_singleton_self _))
    · have hword : "routing_manager_timeout".toList =
          "routing".toList ++ '_' :: ("manager".toList ++ '_' :: "timeout".toList) := by
        decide +kernel
      rw [List.mem_singleton.mp hkey, hword, List.append_assoc, List.cons_append, List.append_assoc]
      exact routingmanager_test (List.mem_append_left _ (List.mem_singleton_self _))

/-- A branch changes no attribute but its own. -/
theorem read_other {branch : SettingBranch} {line : List Char} {s s' : Attributes}
    (h : branch.read path line s = .ok s') {other : SettingName} (hother : other ≠ branch.name) :
    s' other = s other := by
  unfold SettingBranch.read at h
  cases haction : branch.action with
  | single conversion =>
    rw [haction] at h
    obtain ⟨token, -, h⟩ := Loop.bind_eq_ok.mp h
    obtain ⟨result, -, h⟩ := Loop.bind_eq_ok.mp h
    cases result with
    | none =>
      obtain rfl := Except.ok.inj h
      rfl
    | some v =>
      obtain rfl := Except.ok.inj h
      exact Function.update_of_ne hother v s
  | package_hashes =>
    simp only [haction, read_package_hashes] at h
    split at h
    · split_ifs at h
      · obtain rfl := Except.ok.inj h
        rfl
      · obtain rfl := Except.ok.inj h
        exact Function.update_of_ne hother _ s
    · cases h
  | priorities p =>
    simp only [haction, read_priorities] at h
    split at h
    · obtain rfl := Except.ok.inj h
      exact Function.update_of_ne hother _ s
    · cases h

/-- The first branch for a line is the one for its key, if no earlier one takes it. -/
theorem find_branch_iff {branch : SettingBranch} {line : List Char}
    (hbranch : branch ∈ settings_branches) (htest : branch.test line = true) :
    (settings_branches.find? fun b => b.test line) = some branch ↔
      ∀ earlier ∈ settings_branches.takeWhile fun b => b.name ≠ branch.name,
        earlier.test line = false := by
  obtain ⟨front, back, hsplit⟩ := List.append_of_mem hbranch
  have hnames := names_nodup
  rw [hsplit, List.map_append, List.map_cons] at hnames
  have hfront : ∀ b ∈ front, decide (b.name ≠ branch.name) = true := by
    intro b hb
    have hdisjoint := List.disjoint_of_nodup_append hnames (List.mem_map_of_mem hb)
    exact decide_eq_true fun heq => hdisjoint (heq ▸ List.mem_cons_self)
  have htake : (settings_branches.takeWhile fun b => b.name ≠ branch.name) = front := by
    rw [hsplit, List.takeWhile_append_of_pos hfront, List.takeWhile_cons_of_neg (by simp),
      List.append_nil]
  rw [htake]
  constructor
  · intro hfind earlier hearlier
    by_contra htaken
    rw [hsplit, List.find?_append] at hfind
    cases hfirst : front.find? fun b => b.test line with
    | none => exact htaken (by simpa using List.find?_eq_none.mp hfirst earlier hearlier)
    | some b =>
      rw [hfirst] at hfind
      obtain rfl : b = branch := Option.some.inj hfind
      exact absurd rfl (of_decide_eq_true (hfront b (List.mem_of_find?_eq_some hfirst)))
  · intro hearlier
    refine List.find?_eq_some_iff_append.mpr ⟨htest, front, back, hsplit, fun b hb => ?_⟩
    rw [hearlier b hb]
    rfl

/-- Another branch that takes a line is for another attribute. -/
theorem name_ne_of_find {branch b : SettingBranch} {line : List Char}
    (hbranch : branch ∈ settings_branches)
    (hfind : (settings_branches.find? fun b => b.test line) = some b) (hne : b ≠ branch) :
    branch.name ≠ b.name := fun heq =>
  hne (List.inj_on_of_nodup_map names_nodup (List.mem_of_find?_eq_some hfind) hbranch heq.symm)

/-! ## The effect of a line -/

theorem not_isComment {line : List Char} {c : Char} (hfirst : line.head? = some c)
    (hc : isSpace c = false ∧ c ≠ '#') : isComment line = false := by
  cases line with
  | nil => exact absurd hfirst (by simp)
  | cons d ds =>
    obtain rfl : d = c := Option.some.inj hfirst
    have hmark : ¬ "#".toList <+: d :: ds := by
      intro hstarts
      exact hc.2 (List.cons_prefix_cons.mp hstarts).1.symm
    unfold isComment Pattern.at_start
    rw [row, List.foldr_cons, List.foldr_cons, ways, spaces, ways, runs, if_neg (by simp [hc.1])]
    simp [ways, ways_text_eq_nil hmark]

/-- What a line does is what its branch does with what is left of it. -/
theorem read_settings_line_eq (environ : List (String × String)) (path : String) (hkey : IsKey key) (hvalue : IsToken value)
    {comment : Option (List Char)} (hcomment : ∀ c ∈ comment, '\n' ∉ c ∧ '$' ∉ c) (newline : Bool)
    (s : Attributes) : read_settings_line environ path (setting_line key value comment newline) s =
      match settings_branches.find? fun b => b.test (setting_left key value comment) with
      | some b => b.read path (setting_left key value comment) s
      | none => .ok s := by
  have hdollar : '$' ∉ setting_line key value comment newline := by
    have hassign : '$' ∉ assignment key value := not_mem_assignment
      (fun h => (hkey.plain _ h).2.2 rfl) (fun h => (hvalue.plain _ h).2.2 rfl) (by decide)
    have hnewline : '$' ∉ (if newline then ['\n'] else []) := by
      cases newline <;> decide
    unfold setting_line
    cases comment with
    | none =>
      simp only [Option.elim_none, List.append_nil, List.mem_append, not_or]
      exact ⟨hassign, hnewline⟩
    | some c =>
      have hc := (hcomment c rfl).2
      simp only [Option.elim_some, List.mem_append, List.mem_cons, not_or]
      exact ⟨⟨hassign, by decide, by decide, by decide, hc⟩, hnewline⟩
  have hstrip := strip_without_comment hkey hvalue (fun c hc => (hcomment c hc).1) newline
  obtain ⟨c, hc, hplain⟩ := assignment_head? hkey value
  have hfirst : (setting_left key value comment).head? = some c := by
    unfold setting_left
    rw [List.head?_append, hc]
    rfl
  unfold read_settings_line
  rw [expand_eq_self hdollar]
  simp only [bind, Except.bind, hstrip, not_isComment hfirst hplain]
  rfl

/-- The value that a word has for a setting; a switch can be true or false. -/
def Conversion.demanded (path : String) : Conversion → String → Option SettingValue
  | turned_off, token | turned_on, token =>
    if isTrue token then some (.truth true)
    else if isFalse token then some (.truth false)
    else none
  | conversion, token => (conversion.convert path token).toOption.join

theorem exists_ne_value (v : SettingValue) : ∃ w : SettingValue, w ≠ v := by
  cases v with
  | unset => exact ⟨.truth true, by simp⟩
  | _ => exact ⟨.unset, by simp⟩

/-- A computation whose result is the attributes with a value assigned, whatever they were. -/
theorem assigns_iff {branch : SettingBranch} {conversion : Conversion} {line : List Char}
    {v : SettingValue} (haction : branch.action = .single conversion) :
    (∀ s, branch.read path line s = .ok (Function.update s branch.name v)) ↔
      (last_token line >>= conversion.convert path) = .ok (some v) := by
  have hread : ∀ s, branch.read path line s =
      (last_token line >>= conversion.convert path) >>= fun result =>
        .ok (result.elim s fun v => Function.update s branch.name v) := by
    intro s
    unfold SettingBranch.read
    rw [haction]
    cases last_token line with
    | error e => rfl
    | ok token =>
      simp only [bind, Except.bind]
      cases conversion.convert path token with
      | error e => rfl
      | ok result => cases result <;> rfl
  constructor
  · intro h
    -- attributes with another value show whether one is assigned
    obtain ⟨w, hw⟩ := exists_ne_value v
    have hok := (hread fun _ => w).symm.trans (h fun _ => w)
    obtain ⟨result, hresult, hassigned⟩ := Loop.bind_eq_ok.mp hok
    have hat := congrFun (Except.ok.inj hassigned) branch.name
    rw [Function.update_self] at hat
    cases result with
    | none => exact absurd hat hw
    | some v' =>
      rw [Option.elim_some, Function.update_self] at hat
      rw [hresult, hat]
  · intro h s
    rw [hread, h]
    rfl

/-- A line `key: value`, perhaps with a comment, assigns what the value stands for to the
attribute of the key and changes no other exactly where no earlier branch takes what is left
of the line and the last word left is converted to what the value stands for. -/
theorem settings_line_iff {branch : SettingBranch} {conversion : Conversion}
    (hbranch : branch ∈ settings_branches) (haction : branch.action = .single conversion)
    (hkey : key ∈ branch.keys) (hvalue : IsToken value) {comment : Option (List Char)}
    (hcomment : ∀ c ∈ comment, '\n' ∉ c ∧ '$' ∉ c) (newline : Bool) :
    (∀ v, conversion.demanded path (String.ofList value) = some v →
      ∀ s, read_settings_line environ path (setting_line key value comment newline) s =
        .ok (Function.update s branch.name v)) ↔
    ∀ v, conversion.demanded path (String.ofList value) = some v →
      (∀ earlier ∈ settings_branches.takeWhile fun b => b.name ≠ branch.name,
        earlier.test (setting_left key value comment) = false) ∧
      (last_token (setting_left key value comment) >>= conversion.convert path) =
        .ok (some v) := by
  have hIsKey := isKey_of_mem hbranch hkey
  have htest : branch.test (setting_left key value comment) = true := by
    unfold setting_left assignment
    rw [List.append_assoc]
    exact test_of_key hbranch haction hkey _
  have hline := read_settings_line_eq environ path hIsKey hvalue hcomment
    newline
  have hfound := find_branch_iff hbranch htest
  refine forall_congr' fun v => imp_congr_right fun _ => ?_
  constructor
  · intro h
    cases hfind : settings_branches.find? fun b => b.test (setting_left key value comment) with
    | none => exact absurd htest (by simpa using List.find?_eq_none.mp hfind branch hbranch)
    | some b =>
      have hread : ∀ s, b.read path (setting_left key value comment) s =
          .ok (Function.update s branch.name v) := by
        intro s
        rw [← h s, hline, hfind]
      by_cases heq : b = branch
      · subst heq
        exact ⟨hfound.mp hfind, (assigns_iff haction).mp hread⟩
      · have hname := name_ne_of_find hbranch hfind heq
        obtain ⟨w, hw⟩ := exists_ne_value v
        have hkept := read_other (hread fun _ => w) hname
        rw [Function.update_self] at hkept
        exact absurd hkept.symm hw
  · rintro ⟨hearlier, hconvert⟩ s
    rw [hline, hfound.mpr hearlier]
    exact (assigns_iff haction).mpr hconvert s

/-- Whether a setting can be given a value: a switch can be set in one way only. -/
def Conversion.sets : Conversion → SettingValue → Bool
  | turned_off, .truth true => false
  | turned_on, .truth false => false
  | _, _ => true

/-- Without a `#` in the comment the last word left is the value, and the condition on it fails
only for a switch that cannot be set that way. -/
theorem convert_left_iff {conversion : Conversion} (hkey : IsKey key) (hvalue : IsToken value)
    {comment : Option (List Char)} (hmark : ∀ c ∈ comment, '#' ∉ c) {v : SettingValue}
    (hdemanded : conversion.demanded path (String.ofList value) = some v) :
    (last_token (setting_left key value comment) >>= conversion.convert path) = .ok (some v) ↔
      conversion.sets v = true := by
  have hleft : setting_left key value comment = assignment key value := by
    unfold setting_left
    cases comment with
    | none => rw [Option.elim_none, List.append_nil]
    | some c => rw [Option.elim_some, if_neg (hmark c rfl), List.append_nil]
  have hplain : (conversion.convert path (String.ofList value)).toOption.join = some v →
      conversion.convert path (String.ofList value) = .ok (some v) := by
    intro hv
    cases hconvert : conversion.convert path (String.ofList value) with
    | error e =>
      rw [hconvert] at hv
      cases hv
    | ok result =>
      rw [hconvert] at hv
      exact congrArg Except.ok hv
  rw [hleft, last_token_assignment hkey hvalue]
  simp only [bind, Except.bind]
  cases conversion with
  | turned_off =>
    simp only [Conversion.demanded] at hdemanded
    simp only [Conversion.convert]
    split_ifs at hdemanded with htrue hfalse
    · obtain rfl := Option.some.inj hdemanded
      split_ifs <;> simp [Conversion.sets]
    · obtain rfl := Option.some.inj hdemanded
      simp [hfalse, Conversion.sets]
  | turned_on =>
    simp only [Conversion.demanded] at hdemanded
    simp only [Conversion.convert]
    split_ifs at hdemanded with htrue hfalse
    · obtain rfl := Option.some.inj hdemanded
      simp [htrue, Conversion.sets]
    · obtain rfl := Option.some.inj hdemanded
      simp [htrue, Conversion.sets]
  | _ => exact iff_of_true (hplain hdemanded) rfl

/-- A directory that holds no key is assigned, whatever the comment without `#` says. -/
theorem record_directory_set : read_settings_line [] "settings"
    (setting_line "record_directory" "/data".toList (some "the run records".toList) true)
      (fun _ => .unset) =
        .ok (Function.update (fun _ => .unset) .record_directory (.text "/data")) := by
  have hbranch : single_setting .record_directory ["record_directory"] .word ∈ settings_branches :=
    List.mem_cons_of_mem _ List.mem_cons_self
  have hvalue : IsToken "/data".toList := ⟨by decide +kernel, Scan.forall_of_all (by decide +kernel)⟩
  have hcomment : ∀ c ∈ some "the run records".toList, '\n' ∉ c ∧ '$' ∉ c := by
    intro c hc
    obtain rfl := Option.some.inj hc
    decide +kernel
  refine (settings_line_iff hbranch rfl List.mem_cons_self hvalue hcomment true).mpr ?_
    (.text "/data") (by decide +kernel) fun _ => .unset
  intro v hv
  obtain rfl : v = .text "/data" := (Option.some.inj hv).symm
  exact ⟨Scan.forall_of_all (by decide +kernel), by decide +kernel⟩

/-- A directory of records whose name holds the key of the directory of logs is taken for the
latter. -/
theorem record_directory_not_set : ¬ ∀ s, read_settings_line [] "settings"
    (setting_line "record_directory" "/data/log_directory".toList none true) s =
      .ok (Function.update s .record_directory (.text "/data/log_directory")) := by
  intro h
  have hrecord := congrArg (Except.map fun s : Attributes => s .record_directory)
    (h fun _ => .unset)
  exact absurd hrecord (by decide +kernel)

-- A second `#` in the comment makes the comment a part of the line.
example : (read_settings_line [] "settings"
    (setting_line "log_directory" "/tmp".toList (some "see #1".toList) true)
      fun _ => .unset).map (fun s => s .log_directory) = .ok (.text "see") := by
  decide +kernel

end DaqInterface
