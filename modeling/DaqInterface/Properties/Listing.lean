import DaqInterface.Library.Language
import DaqInterface.Library.Occurrence
import DaqInterface.Properties.Launch
import DaqInterface.Properties.Logfiles
import DaqInterface.Properties.Losses
import DaqInterface.Properties.Mopup
import DaqInterface.Properties.ParameterText

/-!
# Processes are found as they were launched

`ps` shows a launched process by the arguments that the launch gave it.  The expression that
`get_pids_and_labels_on_host` looks for recognises from these arguments the type of the process and
its partition, and nothing else: of all the processes that were launched on a host, by whomever, it
finds those of the types in the process list whose partition number begins with the digits of the
own one (`found_iff`).
-/

open Loop

namespace DaqInterface

open Pattern Program Occurrence

/-! ## What `ps` shows -/

/-- A launched process as a line of `ps aux`: what stands in front of its executable, its arguments
and its pid. -/
structure Shown where
  front : List Char
  name : ProcType
  port : String
  rank : String
  application_name : String
  partition_number : String
  pid : String

namespace Shown

/-- The words of a command line up to the name of the process. -/
def head_words (q : Shown) : List (List Char) :=
  [(bootfile_name_to_execname q.name).toList, "-c".toList, "id:".toList, q.port.toList,
    "commanderPluginType:".toList, "xmlrpc".toList, "rank:".toList, q.rank.toList]

/-- The line of a process. -/
def line (q : Shown) : List Char :=
  q.front ++ (bootfile_name_to_execname q.name ++ " -c " ++
    commander_args q.port q.rank q.application_name q.partition_number).toList

/-- What stands in front of `application_name` in a line. -/
def head (q : Shown) : List Char := q.front ++ ([' '].intercalate q.head_words ++ [' '])

/-- What stands behind it. -/
def tail (q : Shown) : List Char :=
  ":".toList ++ ' ' :: (q.application_name.toList ++ ' ' ::
    ("partition_number:".toList ++ ' ' :: q.partition_number.toList))

/-- A row of digits. -/
def Digits (text : String) : Prop := text.toList ≠ [] ∧ ∀ c ∈ text.toList, c.isDigit = true

/-- A line as `ps` writes it: a time stands somewhere in front, the port, the rank and the partition
are numbers and the name is one word.  The words by which processes are found do not stand
elsewhere. -/
structure WellFormed (q : Shown) : Prop where
  /-- The time that the process has used. -/
  time : ∃ before behind d e f, q.front = before ++ d :: ':' :: e :: f :: ' ' :: behind ∧
    d.isDigit = true ∧ e.isDigit = true ∧ f.isDigit = true
  front_head : ∃ c rest, q.front = c :: rest ∧ isSpace c = false
  front_last : ∃ before, q.front = before ++ [' ']
  front_line : '\n' ∉ q.front
  front_names : ∀ name, ¬ (bootfile_name_to_execname name).toList <:+: q.front
  front_application : ¬ "application_name".toList <:+: q.front
  port : Digits q.port
  rank : Digits q.rank
  partition : Digits q.partition_number
  name : q.application_name.toList ≠ [] ∧ ∀ c ∈ q.application_name.toList, isSpace c = false
  name_words : ¬ "application_name".toList <:+: q.application_name.toList ∧
    ¬ "partition_number:".toList <:+: q.application_name.toList
  pid : second_word q.line = .ok q.pid
  kept : ¬ "ssh".toList <:+: q.line ∧ ¬ "grep".toList <:+: q.line

/-- The process may be one of a partition: it has one of the types of a process list, and its
partition number begins with the digits of the partition. -/
def Belongs (procs : List Procinfo) (partition : String) (q : Shown) : Prop :=
  (∃ p ∈ procs, p.name = q.name) ∧ partition.toList <+: q.partition_number.toList

instance (procs : List Procinfo) (partition : String) (q : Shown) :
    Decidable (Belongs procs partition q) :=
  inferInstanceAs (Decidable ((∃ p ∈ procs, p.name = q.name) ∧
    partition.toList <+: q.partition_number.toList))

variable {q : Shown} {word : List Char}

theorem line_eq (q : Shown) : q.line = q.head ++ ("application_name".toList ++ q.tail) := by
  unfold line head tail head_words commander_args
  simp [List.intercalate]

/-! ## Where words stand in a line -/

theorem not_infix_of_digits {text : String} (h : Digits text) (hword : ∃ c ∈ word, c.isDigit = false) :
    ¬ word <:+: text.toList := by
  rintro hin
  obtain ⟨c, hc, hnot⟩ := hword
  rw [h.2 c (hin.subset hc)] at hnot
  cases hnot

/-- What stands in front of a process and is one word stands in one of the words. -/
theorem infix_head (hq : q.WellFormed) (hspace : ' ' ∉ word) {more : List Char}
    (h : word <:+: q.head ++ more) :
    word <:+: q.front ∨ (∃ part ∈ q.head_words, word <:+: part) ∨ word <:+: more := by
  obtain ⟨before, hfront⟩ := hq.front_last
  have hsplit : q.head ++ more =
      before ++ ' ' :: ([' '].intercalate q.head_words ++ ' ' :: more) := by
    unfold head
    rw [hfront]
    simp
  rw [hsplit] at h
  rcases infix_append_cons hspace h with h | h
  · rw [hfront]
    exact Or.inl (h.trans (List.prefix_append before [' ']).isInfix)
  · rcases infix_append_cons hspace h with h | h
    · exact Or.inr (Or.inl (infix_of_infix_intercalate hspace (List.cons_ne_nil _ _) h))
    · exact Or.inr (Or.inr h)

theorem infix_head_words (hq : q.WellFormed) (hdigit : ∃ c ∈ word, c.isDigit = false)
    (h : ∃ part ∈ q.head_words, word <:+: part) :
    word <:+: (bootfile_name_to_execname q.name).toList ∨
      ∃ part ∈ ["-c".toList, "id:".toList, "commanderPluginType:".toList, "xmlrpc".toList,
        "rank:".toList], word <:+: part := by
  obtain ⟨part, hpart, hin⟩ := h
  simp only [head_words, List.mem_cons, List.not_mem_nil, or_false] at hpart
  rcases hpart with rfl | rfl | rfl | rfl | rfl | rfl | rfl | rfl
  · exact Or.inl hin
  · exact Or.inr ⟨_, by simp, hin⟩
  · exact Or.inr ⟨_, by simp, hin⟩
  · exact absurd hin (not_infix_of_digits hq.port hdigit)
  · exact Or.inr ⟨_, by simp, hin⟩
  · exact Or.inr ⟨_, by simp, hin⟩
  · exact Or.inr ⟨_, by simp, hin⟩
  · exact absurd hin (not_infix_of_digits hq.rank hdigit)

/-- The executable that stands in front of `application_name` is the one of the process. -/
theorem exec_of_infix (hq : q.WellFormed) {name : ProcType}
    (h : (bootfile_name_to_execname name).toList <:+: q.head) : name = q.name := by
  have hspace : ' ' ∉ (bootfile_name_to_execname name).toList := by cases name <;> decide
  have hne : (bootfile_name_to_execname name).toList ≠ [] := by cases name <;> decide
  have hdigit : ∃ c ∈ (bootfile_name_to_execname name).toList, c.isDigit = false := by
    cases name
    · exact ⟨'b', by decide, rfl⟩
    · exact ⟨'e', by decide, rfl⟩
    · exact ⟨'d', by decide, rfl⟩
    · exact ⟨'d', by decide, rfl⟩
    · exact ⟨'r', by decide, rfl⟩
  rw [← List.append_nil q.head] at h
  rcases infix_head hq hspace h with h | h | h
  · exact absurd h (hq.front_names name)
  · rcases infix_head_words hq hdigit h with h | h
    · have hall : ∀ name name' : ProcType, (bootfile_name_to_execname name).toList <:+:
          (bootfile_name_to_execname name').toList → name = name' := by
        intro name name'
        cases name <;> cases name' <;> decide
      exact hall name q.name h
    · have hnone : ∀ name : ProcType, ¬ ∃ part ∈ ["-c".toList, "id:".toList,
          "commanderPluginType:".toList, "xmlrpc".toList, "rank:".toList],
          (bootfile_name_to_execname name).toList <:+: part := by
        intro name
        cases name <;> decide
      exact absurd h (hnone name)
  · exact absurd (List.infix_nil.mp h) hne

/-- `application_name` stands at one place. -/
theorem application_once (hq : q.WellFormed) {front back : List Char}
    (h : q.line = front ++ ("application_name".toList ++ back)) : front = q.head ∧ back = q.tail := by
  rw [line_eq] at h
  refine occurs_once (fun hin => ?_) (fun hin => ?_) h
  · rcases infix_head hq (by decide) hin with h | h | h
    · exact hq.front_application h
    · have hdigit : ∃ c ∈ "application_name".toList, c.isDigit = false := ⟨'a', by decide, rfl⟩
      rcases infix_head_words hq hdigit h with h | h
      · have hnone : ∀ name : ProcType, ¬ "application_name".toList <:+:
            (bootfile_name_to_execname name).toList := by
          intro name
          cases name <;> decide
        exact hnone q.name h
      · exact absurd h (by decide)
    · exact absurd h (by decide)
  · have hsplit : "application_name".toList.tail ++ q.tail = "pplication_name:".toList ++
        ' ' :: (q.application_name.toList ++ ' ' ::
          ("partition_number:".toList ++ ' ' :: q.partition_number.toList)) := by
      unfold tail
      rfl
    rw [hsplit] at hin
    rcases infix_append_cons (by decide) hin with h | h
    · exact absurd h (by decide)
    · rcases infix_append_cons (by decide) h with h | h
      · exact hq.name_words.1 h
      · rcases infix_append_cons (by decide) h with h | h
        · exact absurd h (by decide)
        · exact not_infix_of_digits hq.partition ⟨'a', by decide, rfl⟩ h

/-- Behind it, `partition_number:` stands at one place. -/
theorem partition_once (hq : q.WellFormed) {front back : List Char}
    (h : q.tail = front ++ ("partition_number:".toList ++ back)) :
    back = ' ' :: q.partition_number.toList := by
  have htail : q.tail = (":".toList ++ ' ' :: (q.application_name.toList ++ [' '])) ++
      ("partition_number:".toList ++ ' ' :: q.partition_number.toList) := by
    unfold tail
    simp
  rw [htail] at h
  refine (occurs_once (fun hin => ?_) (fun hin => ?_) h).2
  · have hsplit : (":".toList ++ ' ' :: (q.application_name.toList ++ [' '])) ++
        "partition_number:".toList.dropLast =
          ":".toList ++ ' ' :: (q.application_name.toList ++ ' ' :: "partition_number".toList) := by
      simp
    rw [hsplit] at hin
    rcases infix_append_cons (by decide) hin with h | h
    · exact absurd h (by decide)
    · rcases infix_append_cons (by decide) h with h | h
      · exact hq.name_words.2 h
      · exact absurd h (by decide)
  · rcases infix_append_cons (by decide) hin with h | h
    · exact absurd h (by decide)
    · exact not_infix_of_digits hq.partition ⟨'p', by decide, rfl⟩ h

/-! ## What is found -/

theorem mem_alternatives {ps : List Pattern} (hne : ps ≠ []) :
    word ∈ (alternatives ps).language ↔ ∃ p ∈ ps, word ∈ p.language := by
  induction ps with
  | nil => exact absurd rfl hne
  | cons p ps ih =>
    cases ps with
    | nil => simp [alternatives]
    | cons p' ps =>
      have hadd : word ∈ (alternatives (p :: p' :: ps)).language ↔
          word ∈ p.language ∨ word ∈ (alternatives (p' :: ps)).language := Iff.rfl
      rw [hadd, ih (List.cons_ne_nil _ _)]
      simp

/-- The alternatives of the expression are the executables of the process list. -/
theorem mem_executables {procs : List Procinfo} (hne : procs ≠ []) :
    word ∈ (alternatives ((procs.map fun p => bootfile_name_to_execname p.name).dedup.map
        Pattern.text)).language ↔
      ∃ p ∈ procs, word = (bootfile_name_to_execname p.name).toList := by
  obtain ⟨first, hfirst⟩ := List.exists_mem_of_ne_nil procs hne
  have hmem : bootfile_name_to_execname first.name ∈
      (procs.map fun p => bootfile_name_to_execname p.name).dedup :=
    List.mem_dedup.mpr (List.mem_map.mpr ⟨first, hfirst, rfl⟩)
  rw [mem_alternatives (List.ne_nil_of_mem (List.mem_map_of_mem hmem))]
  constructor
  · rintro ⟨p, hp, hword⟩
    obtain ⟨exec, hexec, rfl⟩ := List.mem_map.mp hp
    obtain ⟨q, hq, rfl⟩ := List.mem_map.mp (List.mem_dedup.mp hexec)
    exact ⟨q, hq, mem_text.mp hword⟩
  · rintro ⟨q, hq, rfl⟩
    refine ⟨_, List.mem_map_of_mem (List.mem_dedup.mpr (List.mem_map.mpr ⟨q, hq, rfl⟩)), ?_⟩
    exact mem_text.mpr rfl

theorem mem_anything : word ∈ anything.language ↔ '\n' ∉ word := by
  unfold anything
  rw [mem_many]
  constructor
  · intro h hmem
    have hnot := h '\n' hmem
    exact absurd hnot (by decide)
  · intro h c hc
    exact decide_eq_true fun heq => h (heq ▸ hc)

/-- A line has no newline. -/
theorem newline_not_mem (hq : q.WellFormed) : '\n' ∉ q.line := by
  have hdigits : ∀ text : String, Digits text → '\n' ∉ text.toList := by
    intro text htext hmem
    have hnot := htext.2 _ hmem
    exact absurd hnot (by decide)
  have hexec : ∀ name : ProcType, '\n' ∉ (bootfile_name_to_execname name).toList := by
    intro name
    cases name <;> decide
  have hname : '\n' ∉ q.application_name.toList := by
    intro hmem
    have hnot := hq.name.2 _ hmem
    exact absurd hnot (by decide)
  unfold line commander_args
  simp [hq.front_line, hexec q.name, hdigits _ hq.port, hdigits _ hq.rank, hname,
    hdigits _ hq.partition]

/-- The number behind the blanks begins with the digits that are looked for. -/
theorem prefix_of_blanks {partition number : String} (hpartition : Digits partition)
    (hnumber : Digits number) {blanks behind : List Char} (hblanks : ∀ c ∈ blanks, isSpace c = true)
    (h : blanks ++ (partition.toList ++ behind) = ' ' :: number.toList) :
    partition.toList <+: number.toList := by
  cases blanks with
  | nil =>
    obtain ⟨c, cs, hcs⟩ := List.exists_cons_of_ne_nil hpartition.1
    rw [hcs, List.nil_append, List.cons_append] at h
    have hdigit := hpartition.2 c (hcs ▸ List.mem_cons_self)
    rw [(List.cons.inj h).1] at hdigit
    exact absurd hdigit (by decide)
  | cons b blanks =>
    have hrest := (List.cons.inj h).2
    cases blanks with
    | nil => exact ⟨behind, hrest⟩
    | cons c blanks =>
      have hspace := hblanks c (List.mem_cons_of_mem b List.mem_cons_self)
      have hdigit := hnumber.2 c (hrest ▸ List.mem_cons_self)
      rw [not_isSpace_of_isDigit hdigit] at hspace
      cases hspace

/-- Of the launched processes those are found that may be processes of the partition. -/
theorem found_iff {procs : List Procinfo} (hprocs : procs ≠ []) {partition : String}
    (hpartition : Digits partition) (hq : q.WellFormed) :
    ((artdaq_token procs partition).meaning.search q.line).isSome = true ↔
      q.Belongs procs partition := by
  have hline := newline_not_mem hq
  rw [search_isSome_iff]
  unfold artdaq_token
  simp only [mem_row_cons, mem_row_nil, mem_char, mem_text, mem_some_of, mem_many,
    mem_executables hprocs, mem_anything]
  constructor
  · rintro ⟨_, ⟨_, ⟨d, -, rfl⟩, _, ⟨_, rfl, _, ⟨_, ⟨e, -, rfl⟩, _, ⟨_, ⟨f, -, rfl⟩, _,
      ⟨spaces, -, _, ⟨between, -, _, ⟨_, ⟨p, hp, rfl⟩, _, ⟨more, -, _, ⟨_, rfl, _, ⟨label, -, _,
        ⟨_, rfl, _, ⟨blanks, hblanks, _, ⟨_, rfl, _, rfl, rfl⟩, rfl⟩, rfl⟩, rfl⟩, rfl⟩, rfl⟩, rfl⟩,
          rfl⟩, rfl⟩, rfl⟩, rfl⟩, rfl⟩, rfl⟩, before, behind, heq⟩
    have hcut : q.line = (before ++ ([d] ++ (":".toList ++ ([e] ++ ([f] ++ (spaces ++ (between ++
        ((bootfile_name_to_execname p.name).toList ++ more)))))))) ++
          ("application_name".toList ++ (label ++ ("partition_number:".toList ++
            (blanks ++ (partition.toList ++ behind))))) := by
      rw [← heq]
      simp [List.append_assoc]
    obtain ⟨hhead, htail⟩ := application_once hq hcut
    have hexec : (bootfile_name_to_execname p.name).toList <:+: q.head := by
      rw [← hhead]
      refine ⟨before ++ ([d] ++ (":".toList ++ ([e] ++ ([f] ++ (spaces ++ between))))), more, ?_⟩
      simp [List.append_assoc]
    refine ⟨⟨p, hp, exec_of_infix hq hexec⟩, ?_⟩
    exact prefix_of_blanks hpartition hq.partition hblanks (partition_once hq htail.symm)
  · rintro ⟨⟨p, hp, hname⟩, hprefix⟩
    obtain ⟨before, behind, d, e, f, hfront, hd, he, hf⟩ := hq.time
    obtain ⟨rest, hrest⟩ := hprefix
    obtain ⟨more, hmoredef⟩ : ∃ more, more = " -c id: ".toList ++ (q.port.toList ++
        (" commanderPluginType: xmlrpc rank: ".toList ++ (q.rank.toList ++ [' ']))) := ⟨_, rfl⟩
    obtain ⟨label, hlabeldef⟩ : ∃ label, label = ": ".toList ++ (q.application_name.toList ++ [' ']) :=
      ⟨_, rfl⟩
    have hcut : q.line = before ++ ([d] ++ (":".toList ++ ([e] ++ ([f] ++ ([' '] ++ (behind ++
        ((bootfile_name_to_execname p.name).toList ++ (more ++ ("application_name".toList ++ (label ++
          ("partition_number:".toList ++ ([' '] ++ (partition.toList ++ []))))))))))))) ++ rest := by
      unfold line commander_args
      rw [hfront, hname, hmoredef, hlabeldef]
      simp [← hrest]
    have hparts : '\n' ∉ behind ∧ '\n' ∉ more ∧ '\n' ∉ label := by
      rw [hcut] at hline
      simp only [List.mem_append, not_or] at hline
      tauto
    obtain ⟨hbehind, hmore, hlabel⟩ := hparts
    have hblank : ∀ c ∈ [' '], isSpace c = true := fun c hc => by
      rw [List.mem_singleton.mp hc]
      decide
    refine ⟨_, ⟨[d], ⟨d, hd, rfl⟩, _, ⟨_, rfl, _, ⟨[e], ⟨e, he, rfl⟩, _, ⟨[f], ⟨f, hf, rfl⟩, _,
      ⟨[' '], ⟨List.cons_ne_nil _ _, hblank⟩, _, ⟨behind, hbehind, _, ⟨_, ⟨p, hp, rfl⟩, _,
        ⟨_, hmore, _, ⟨_, rfl, _, ⟨_, hlabel, _, ⟨_, rfl, _, ⟨[' '], hblank, _,
          ⟨_, rfl, _, rfl, rfl⟩, rfl⟩, rfl⟩, rfl⟩, rfl⟩, rfl⟩, rfl⟩, rfl⟩, rfl⟩, rfl⟩, rfl⟩, rfl⟩,
            rfl⟩, before, rest, hcut.symm⟩

/-! ## What is read from a line -/

theorem at_start_text (word : String) (rest : List Char) :
    (Pattern.text word).at_start (word.toList ++ rest) = some ([], rest) := by
  unfold Pattern.at_start
  rw [ways_text]
  rfl

/-- The name is read behind `application_name:`. -/
theorem at_start_application {label rest : List Char} (hne : label ≠ [])
    (hlabel : ∀ c ∈ label, isSpace c = false) :
    re_application_name.at_start ("application_name:".toList ++ ' ' :: (label ++ ' ' :: rest)) =
      some ([label], ' ' :: rest) := by
  have hhead : ∀ tail, (label ++ tail).head?.any (fun c => !isSpace c) = true ∧
      (label ++ tail).dropWhile isSpace = label ++ tail := by
    intro tail
    obtain ⟨c, cs, rfl⟩ := List.exists_cons_of_ne_nil hne
    have hc := hlabel c List.mem_cons_self
    exact ⟨by simp [hc], List.dropWhile_cons_of_neg (by simp [hc])⟩
  have hspaces : (some_of isSpace).at_start (' ' :: (label ++ ' ' :: rest)) =
      some ([], label ++ ' ' :: rest) := by
    have hspace : isSpace ' ' = true := by decide
    rw [at_start_some_of, List.head?_cons, Option.any_some, if_pos hspace,
      List.dropWhile_cons_of_pos hspace, (hhead _).2]
  have hword : (group nonspaces).at_start (label ++ ' ' :: rest) = some ([label], ' ' :: rest) := by
    have hdrop : (label ++ ' ' :: rest).dropWhile (fun c => !isSpace c) = ' ' :: rest := by
      rw [List.dropWhile_append_of_pos fun c hc => by simp [hlabel c hc]]
      exact List.dropWhile_cons_of_neg (by decide)
    unfold nonspaces
    rw [at_start_group, at_start_some_of, if_pos (hhead _).1, hdrop, Option.map_some]
    simp
  have hempty : (row []).at_start (' ' :: rest) = some ([], ' ' :: rest) := rfl
  exact at_start_seq_of_at_start (at_start_text _ _)
    (at_start_seq_of_at_start hspaces (at_start_seq_of_at_start hword hempty))

/-- The pid and the name of a launched process are read from its line. -/
theorem pid_and_label_line (hq : q.WellFormed) :
    pid_and_label q.line = .ok (some (q.pid, q.application_name)) := by
  have hline : q.line = q.head ++ ("application_name:".toList ++ ' ' ::
      (q.application_name.toList ++ ' ' ::
        ("partition_number:".toList ++ ' ' :: q.partition_number.toList))) := by
    rw [line_eq]
    unfold tail
    rfl
  have hsearch : re_application_name.search q.line = some [q.application_name.toList] := by
    rw [hline]
    refine search_eq_of_first (at_start_application hq.name.1 hq.name.2) ?_
    intro before behind hsplit hne word hword hprefix
    obtain ⟨first, hfirst, back, -, rfl⟩ := mem_row_cons.mp hword
    obtain rfl := mem_text.mp hfirst
    obtain ⟨rest, hrest⟩ := hprefix
    have hcut : q.line = before ++ ("application_name".toList ++ (':' :: (back ++ rest))) := by
      rw [hline, hsplit, List.append_assoc, ← hrest, List.append_assoc]
      rfl
    have hbefore := (application_once hq hcut).1
    rw [← hbefore] at hsplit
    exact hne (List.self_eq_append_right.mp hsplit)
  unfold pid_and_label
  rw [hsearch]
  dsimp only
  rw [hq.pid, String.ofList_toList]
  rfl

end Shown

/-! ## Listings -/

/-- A line of a listing. -/
inductive Entry
  /-- A process that was launched. -/
  | launched (q : Shown)
  /-- Anything else. -/
  | other (line : List Char)

namespace Entry

/-- The line of an entry. -/
def line : Entry → List Char
  | launched q => q.line
  | other line => line

/-- What was launched is shown as it should be; other lines tell of no name of a process. -/
def WellFormed : Entry → Prop
  | launched q => q.WellFormed
  | other line => ¬ "application_name".toList <:+: line

/-- The process of an entry, if it may be a process of the partition. -/
def shown (procs : List Procinfo) (partition : String) : Entry → Option Shown
  | launched q => if q.Belongs procs partition then some q else none
  | other _ => none

/-- The launched processes that may be processes of the partition. -/
def found (procs : List Procinfo) (partition : String) (entries : List Entry) : List Shown :=
  entries.filterMap (shown procs partition)

theorem mem_found {procs : List Procinfo} {partition : String} {entries : List Entry} {q : Shown} :
    q ∈ found procs partition entries ↔ launched q ∈ entries ∧ q.Belongs procs partition := by
  unfold found
  rw [List.mem_filterMap]
  constructor
  · rintro ⟨entry, hentry, heq⟩
    cases entry with
    | launched q' =>
      have hite : (if q'.Belongs procs partition then some q' else none) = some q := heq
      obtain ⟨hbelongs, hsome⟩ := Option.ite_none_right_eq_some.mp hite
      obtain rfl := Option.some.inj hsome
      exact ⟨hentry, hbelongs⟩
    | other line => cases heq
  · rintro ⟨hentry, hbelongs⟩
    exact ⟨_, hentry, if_pos hbelongs⟩

theorem found_launched {procs : List Procinfo} {partition : String} (q : Shown)
    (entries : List Entry) :
    found procs partition (launched q :: entries) =
      if q.Belongs procs partition then q :: found procs partition entries
      else found procs partition entries := by
  by_cases hbelongs : q.Belongs procs partition
  · have hshown : shown procs partition (launched q) = some q := if_pos hbelongs
    rw [if_pos hbelongs, found, List.filterMap_cons_some hshown]
    rfl
  · have hshown : shown procs partition (launched q) = none := if_neg hbelongs
    rw [if_neg hbelongs, found, List.filterMap_cons_none hshown]
    rfl

theorem found_other {procs : List Procinfo} {partition : String} (text : List Char)
    (entries : List Entry) :
    found procs partition (other text :: entries) = found procs partition entries :=
  List.filterMap_cons_none rfl

theorem grepped_cons_of_found {token : GrepToken} {line : List Char} {lines : List (List Char)}
    (h : (token.meaning.search line).isSome = true) (hssh : ¬ "ssh".toList <:+: line)
    (hgrep : ¬ "grep".toList <:+: line) :
    grepped token (line :: lines) = line :: grepped token lines := by
  refine List.filter_cons_of_pos ?_
  rw [h, decide_eq_false hssh, decide_eq_false hgrep]
  rfl

theorem grepped_cons_of_not_found {token : GrepToken} {line : List Char} {lines : List (List Char)}
    (h : ¬ (token.meaning.search line).isSome = true) :
    grepped token (line :: lines) = grepped token lines := by
  refine List.filter_cons_of_neg fun hkept => h ?_
  simp only [Bool.and_eq_true] at hkept
  exact hkept.1.1

section Found

variable {procs : List Procinfo} {partition : String} {entries : List Entry}
  (hprocs : procs ≠ []) (hpartition : Shown.Digits partition)

/-- A line without a name is not found. -/
theorem other_not_found {line : List Char} (h : ¬ "application_name".toList <:+: line) :
    ¬ ((artdaq_token procs partition).meaning.search line).isSome = true := by
  rw [search_isSome_iff]
  rintro ⟨word, hword, hin⟩
  have hrow : (artdaq_token procs partition).meaning = row ([char Char.isDigit, Pattern.text ":",
      char Char.isDigit, char Char.isDigit, some_of isSpace, anything,
      alternatives ((procs.map fun p => bootfile_name_to_execname p.name).dedup.map Pattern.text),
      anything] ++ [Pattern.text "application_name", anything, Pattern.text "partition_number:",
      many isSpace, Pattern.text partition]) := rfl
  rw [hrow] at hword
  obtain ⟨front, -, _, hback, rfl⟩ := mem_row_append.mp hword
  obtain ⟨_, hname, back, -, rfl⟩ := mem_row_cons.mp hback
  obtain rfl := mem_text.mp hname
  refine h (List.IsInfix.trans ?_ hin)
  exact ⟨front, back, List.append_assoc _ _ _⟩

include hprocs hpartition

/-- What `grep` lets through are the lines of the processes that are found. -/
theorem grepped_eq (hentries : ∀ entry ∈ entries, entry.WellFormed) :
    grepped (artdaq_token procs partition) (entries.map line) =
      (found procs partition entries).map Shown.line := by
  induction entries with
  | nil => rfl
  | cons entry entries ih =>
    obtain ⟨hentry, hrest⟩ := List.forall_mem_cons.mp hentries
    have htail := ih hrest
    rw [List.map_cons]
    cases entry with
    | launched q =>
      have hq : q.WellFormed := hentry
      rw [found_launched]
      by_cases hbelongs : q.Belongs procs partition
      · have hsome := (Shown.found_iff hprocs hpartition hq).mpr hbelongs
        rw [if_pos hbelongs, List.map_cons, ← htail]
        exact grepped_cons_of_found hsome hq.kept.1 hq.kept.2
      · rw [if_neg hbelongs, ← htail]
        exact grepped_cons_of_not_found (mt (Shown.found_iff hprocs hpartition hq).mp hbelongs)
    | other text =>
      rw [found_other, ← htail]
      exact grepped_cons_of_not_found (other_not_found hentry)

end Found

end Entry

/-! ## The answer of a host -/

/-- A line that begins and ends with no white space. -/
def Trimmed (line : List Char) : Prop :=
  (∃ c rest, line = c :: rest ∧ isSpace c = false) ∧
    ∃ rest c, line = rest ++ [c] ∧ isSpace c = false

theorem Trimmed.words {line : List Char} (h : Trimmed line) : words (String.ofList line) ≠ [] := by
  obtain ⟨⟨c, rest, rfl, hc⟩, -⟩ := h
  unfold DaqInterface.words
  rw [String.toList_ofList, List.splitOnP_cons_eq_if_modifyHead, if_neg (by simp [hc])]
  obtain ⟨part, parts, hparts⟩ := List.exists_cons_of_ne_nil (List.splitOnP_ne_nil isSpace rest)
  rw [hparts]
  simp

/-- Lines that are trimmed are read as they are written. -/
theorem answer_lines_trimmed {lines : List (List Char)}
    (hlines : ∀ line ∈ lines, '\n' ∉ line ∧ Trimmed line) :
    answer_lines (join_lines lines) = lines := by
  cases lines with
  | nil => rfl
  | cons first rest =>
    have hfirst := hlines first List.mem_cons_self
    have hne : join_lines (first :: rest) ≠ [] := by
      rw [join_lines_cons]
      simp
    have hdrop : first.dropWhile isSpace = first := by
      obtain ⟨c, cs, rfl, hc⟩ := hfirst.2.1
      exact List.dropWhile_cons_of_neg (by simp [hc])
    unfold answer_lines strip
    rw [if_neg hne, dropWhile_join_lines rest hfirst.2.words, hdrop]
    rcases List.eq_nil_or_concat (first :: rest) with hnil | ⟨front, last, heq⟩
    · exact nomatch hnil
    · rw [List.concat_eq_append] at heq
      rw [heq] at hlines ⊢
      have hlast := hlines last (List.mem_append_right _ (List.mem_singleton_self _))
      have hback : (last.reverse.dropWhile isSpace).reverse = last := by
        obtain ⟨cs, c, rfl, hc⟩ := hlast.2.2
        rw [List.reverse_append, List.reverse_singleton, List.singleton_append,
          List.dropWhile_cons_of_neg (by simp [hc]), List.reverse_cons, List.reverse_reverse]
      rw [rstrip_join_lines front hlast.2.words, hback,
        splitOn_join_lines (fun line h => (hlines line (List.mem_append_left _ h)).1) hlast.1]

theorem Shown.trimmed {q : Shown} (hq : q.WellFormed) : Trimmed q.line := by
  constructor
  · obtain ⟨c, rest, hfront, hc⟩ := hq.front_head
    refine ⟨c, rest ++ (bootfile_name_to_execname q.name ++ " -c " ++
      commander_args q.port q.rank q.application_name q.partition_number).toList, ?_, hc⟩
    unfold Shown.line
    rw [hfront]
    rfl
  · obtain ⟨digits, d, hdigits⟩ : ∃ digits d, q.partition_number.toList = digits ++ [d] := by
      rcases List.eq_nil_or_concat q.partition_number.toList with hnil | ⟨digits, d, heq⟩
      · exact absurd hnil hq.partition.1
      · exact ⟨digits, d, by rw [heq, List.concat_eq_append]⟩
    have hd : d.isDigit = true := hq.partition.2 d (by rw [hdigits]; simp)
    refine ⟨q.head ++ ("application_name".toList ++ (":".toList ++ ' ' ::
      (q.application_name.toList ++ ' ' :: ("partition_number:".toList ++ ' ' :: digits)))), d, ?_,
        not_isSpace_of_isDigit hd⟩
    rw [Shown.line_eq]
    unfold Shown.tail
    rw [hdigits]
    simp

section Answer

variable {self : ProcessManager} {entries : List Entry} {host : String}
  {reply : List (ShellCommand × Completed) → ShellCommand → Completed}

/-- The look for the processes of the partition. -/
def look_for_processes (self : ProcessManager) (host : String) : ShellCommand :=
  self.machine.on_host "-o BatchMode=yes -x" host
    (.ps (artdaq_token self.procinfos self.DAQINTERFACE_PARTITION_NUMBER))

/-- A host that lists certain processes answers the look with those that are found. -/
def Lists (self : ProcessManager) (host : String) (entries : List Entry)
    (reply : List (ShellCommand × Completed) → ShellCommand → Completed) : Prop :=
  ∀ said, reply said (look_for_processes self host) =
    ⟨join_lines (grepped (artdaq_token self.procinfos self.DAQINTERFACE_PARTITION_NUMBER)
      (entries.map Entry.line)), [], 0⟩

/-- The processes of a host as they are found: those of the types in the process list and of the
partitions whose numbers begin with the digits of the own one. -/
def found_on (self : ProcessManager) (entries : List Entry) : List Shown :=
  Entry.found self.procinfos self.DAQINTERFACE_PARTITION_NUMBER entries

/-- The pids and the names that are read are those of the launched processes that may be processes
of the partition, in the order in which they are listed; nothing else on the host is found. -/
theorem pids_and_labels_exact (hprocs : self.procinfos ≠ [])
    (hpartition : Shown.Digits self.DAQINTERFACE_PARTITION_NUMBER)
    (hentries : ∀ entry ∈ entries, entry.WellFormed) (hreply : Lists self host entries reply)
    (said : List (ShellCommand × Completed)) :
    (run (converse reply) (self.get_pids_and_labels_on_host host) said).1 =
      .returned ((found_on self entries).map Shown.pid,
        (found_on self entries).map Shown.application_name) := by
  have hwell : ∀ q ∈ found_on self entries, q.WellFormed := fun q hq =>
    hentries _ (Entry.mem_found.mp hq).1
  have hgrepped := Entry.grepped_eq hprocs hpartition hentries
  have hlines : answer_lines (join_lines (grepped
      (artdaq_token self.procinfos self.DAQINTERFACE_PARTITION_NUMBER) (entries.map Entry.line))) =
        (found_on self entries).map Shown.line := by
    rw [hgrepped]
    refine answer_lines_trimmed fun line hline => ?_
    obtain ⟨q, hq, rfl⟩ := List.mem_map.mp hline
    exact ⟨Shown.newline_not_mem (hwell q hq), Shown.trimmed (hwell q hq)⟩
  have hpids : ((found_on self entries).map Shown.line).mapM second_word =
      .ok ((found_on self entries).map Shown.pid) := by
    rw [List.mapM_map]
    exact mapM_eq_ok.mpr (List.forall₂_map_right_iff.mpr
      (List.forall₂_same.mpr fun q hq => (hwell q hq).pid))
  have hnames : ((found_on self entries).map Shown.line).mapM pid_and_label =
      .ok ((found_on self entries).map fun q => some (q.pid, q.application_name)) := by
    rw [List.mapM_map]
    exact mapM_eq_ok.mpr (List.forall₂_map_right_iff.mpr
      (List.forall₂_same.mpr fun q hq => Shown.pid_and_label_line (hwell q hq)))
  have hget : run (converse reply) (get_pids self.machine
      (artdaq_token self.procinfos self.DAQINTERFACE_PARTITION_NUMBER) host) said =
        (.returned ((found_on self entries).map Shown.pid, (found_on self entries).map Shown.line),
          (converse reply (look_for_processes self host) said).2) := by
    have hanswer : (converse reply (look_for_processes self host) said).1 =
        ⟨join_lines (grepped (artdaq_token self.procinfos self.DAQINTERFACE_PARTITION_NUMBER)
          (entries.map Entry.line)), [], 0⟩ := hreply said
    unfold get_pids
    rw [run_bind, run_perform]
    dsimp only
    have hcommand : self.machine.on_host "-o BatchMode=yes -x" host
        (.ps (artdaq_token self.procinfos self.DAQINTERFACE_PARTITION_NUMBER)) =
          look_for_processes self host := rfl
    rw [hcommand, hanswer]
    dsimp only
    rw [if_neg (not_not_intro rfl), hlines, hpids]
    rfl
  have hsome : ((found_on self entries).map fun q =>
      some (q.pid, q.application_name)).reduceOption =
        (found_on self entries).map fun q => (q.pid, q.application_name) := by
    rw [List.reduceOption, List.filterMap_map]
    exact congrFun List.filterMap_eq_map _
  unfold ProcessManager.get_pids_and_labels_on_host
  rw [run_bind, hget]
  dsimp only
  rw [hnames]
  dsimp only [Program.ofExcept]
  rw [ret_bind, hsome, List.map_map, List.map_map]
  rfl

end Answer

/-! ## Heartbeats -/

section Heartbeats

variable {w w' : Watch} {settings : WatchSettings} {manager : ProcessManager} {hosts : List String}
  {entries : String → List Entry} {labels : String → List String} {requireSuccess : Bool}
  {found : List Procinfo}

/-- A process is listed on its host as it was launched. -/
def Alive (settings : WatchSettings) (manager : ProcessManager) (entries : String → List Entry)
    (p : Procinfo) : Prop :=
  ∃ q ∈ found_on manager (entries p.host), q.application_name = p.label ++ settings.partition_label

/-- The labels are those that are read on each host. -/
def ReadOn (manager : ProcessManager) (entries : String → List Entry)
    (labels : String → List String) (host : String) : Prop :=
  ∃ reply said pids, Lists manager host (entries host) reply ∧
    (run (converse reply) (manager.get_pids_and_labels_on_host host) said).1 =
      .returned (pids, labels host)

/-- The processes in the order in which they are checked. -/
def checked (w : Watch) (hosts : List String) : List Procinfo :=
  hosts.flatMap fun host => w.procinfos.filter fun procinfo => procinfo.host = host

/-- Each process is checked once. -/
theorem checked_perm (hhosts : hosts.Perm (w.procinfos.map Procinfo.host).dedup) :
    (checked w hosts).Perm w.procinfos := by
  have hnodup : hosts.Nodup := hhosts.nodup_iff.mpr (List.nodup_dedup _)
  have hall : ∀ p ∈ w.procinfos, p.host ∈ hosts := fun p hp =>
    hhosts.mem_iff.mpr (List.mem_dedup.mpr (List.mem_map_of_mem hp))
  exact flatMap_keys_perm Procinfo.host hnodup w.procinfos hall

/-- A process whose host is read is found exactly if it is listed. -/
theorem label_mem_iff (hprocs : manager.procinfos ≠ [])
    (hpartition : Shown.Digits manager.DAQINTERFACE_PARTITION_NUMBER) {p : Procinfo}
    (hentries : ∀ entry ∈ entries p.host, entry.WellFormed)
    (hread : ReadOn manager entries labels p.host) :
    p.label ++ settings.partition_label ∈ labels p.host ↔ Alive settings manager entries p := by
  obtain ⟨reply, said, pids, hlists, hrun⟩ := hread
  rw [pids_and_labels_exact hprocs hpartition hentries hlists said] at hrun
  obtain ⟨-, hlabels⟩ := Prod.mk.inj (Outcome.returned.inj hrun)
  rw [← hlabels, List.mem_map]
  rfl

/-- The removal of lost processes takes them out of the list and does nothing else to it. -/
theorem remove_procinfos_ok {removed : List Procinfo}
    (h : remove_procinfos settings removed w = .ok w') :
    w'.procinfos = w.procinfos.diff removed ∧ w'.lost = w.lost ++ removed ∧
      w'.mopped_up = w.mopped_up := by
  induction removed generalizing w with
  | nil =>
    obtain rfl := Except.ok.inj h
    exact ⟨rfl, (List.append_nil _).symm, rfl⟩
  | cons p removed ih =>
    unfold remove_procinfos at h
    split_ifs at h with hmem
    obtain ⟨w₁, hloss, h⟩ := Loop.bind_eq_ok.mp h
    obtain ⟨-, requirements, -, rfl⟩ := loss_keeps hloss
    obtain ⟨hprocinfos, hlost, hmopped⟩ := ih h
    refine ⟨hprocinfos.trans (List.diff_cons _ _ _).symm, ?_, hmopped⟩
    rw [hlost, List.append_assoc]
    rfl

/-- What the launch of a process makes `ps` show of it. -/
structure Launches (launcher : Launcher) (p : Procinfo) (q : Shown) : Prop where
  name : q.name = p.name
  port : q.port = p.port
  rank : q.rank = toString p.rank
  application_name : q.application_name = p.label ++ launcher.label_suffix
  partition : q.partition_number = launcher.DAQINTERFACE_PARTITION_NUMBER

/-- A process whose launch is listed on its host is alive. -/
theorem alive_of_launches {launcher : Launcher} (hlauncher : launcher.manager = manager)
    (hsuffix : settings.partition_label = launcher.label_suffix) {p : Procinfo} {q : Shown}
    (hp : p ∈ manager.procinfos) (hq : Entry.launched q ∈ entries p.host)
    (hlaunches : Launches launcher p q) : Alive settings manager entries p := by
  refine ⟨q, Entry.mem_found.mpr ⟨hq, ⟨p, hp, hlaunches.name.symm⟩, ?_⟩, ?_⟩
  · have hpartition : manager.DAQINTERFACE_PARTITION_NUMBER =
        launcher.DAQINTERFACE_PARTITION_NUMBER := by
      rw [← hlauncher]
      rfl
    rw [hlaunches.partition, hpartition]
  · rw [hlaunches.application_name, hsuffix]

/-- A process passes the heartbeat check exactly if its host lists it as it was launched.  If all
are listed the check finds them and changes nothing.  If one is not, it fails outside of a run;
during a run exactly those that are not listed are mopped up, taken out of the list and held against
the requirements. -/
theorem heartbeats_exact (hprocs : w.procinfos ≠ []) (hmanager : manager.procinfos = w.procinfos)
    (hpartition : Shown.Digits manager.DAQINTERFACE_PARTITION_NUMBER)
    (hentries : ∀ host, ∀ entry ∈ entries host, entry.WellFormed)
    (hhosts : hosts.Perm (w.procinfos.map Procinfo.host).dedup)
    (hread : ∀ host ∈ hosts, ReadOn manager entries labels host) :
    (∀ launcher : Launcher, launcher.manager = manager →
        settings.partition_label = launcher.label_suffix → ∀ p ∈ w.procinfos, ∀ q,
          Entry.launched q ∈ entries p.host → Launches launcher p q →
            Alive settings manager entries p) ∧
      ((∀ p ∈ w.procinfos, Alive settings manager entries p) →
        w.check_proc_heartbeats settings hosts labels requireSuccess = .ok (w, checked w hosts)) ∧
      ((∃ p ∈ w.procinfos, ¬ Alive settings manager entries p) → requireSuccess = true →
        w.state ≠ "running" →
          ∃ e, w.check_proc_heartbeats settings hosts labels requireSuccess = .error e) ∧
        ∀ w' found, w.check_proc_heartbeats settings hosts labels requireSuccess = .ok (w', found) →
          (∀ p, p ∈ found ↔ p ∈ w.procinfos ∧ Alive settings manager entries p) ∧
            ∃ lost, (∀ p, p ∈ lost ↔
                requireSuccess = true ∧ p ∈ w.procinfos ∧ ¬ Alive settings manager entries p) ∧
              w'.procinfos = w.procinfos.diff lost ∧ w'.mopped_up = w.mopped_up ++ lost ∧
                w'.lost = w.lost ++ lost := by
  have hperm := checked_perm hhosts
  have hfound : ∀ p ∈ checked w hosts,
      (decide (p.label ++ settings.partition_label ∈ labels p.host) = true ↔
        Alive settings manager entries p) := by
    intro p hp
    have hhost : p.host ∈ hosts := hhosts.mem_iff.mpr
      (List.mem_dedup.mpr (List.mem_map_of_mem (hperm.mem_iff.mp hp)))
    rw [decide_eq_true_iff]
    exact label_mem_iff (hmanager ▸ hprocs) hpartition (hentries _) (hread _ hhost)
  have hnone : ∀ p, p ∈ (checked w hosts).filter (fun p =>
      !decide (p.label ++ settings.partition_label ∈ labels p.host)) ↔
        p ∈ w.procinfos ∧ ¬ Alive settings manager entries p := by
    intro p
    rw [List.mem_filter, hperm.mem_iff]
    refine and_congr_right fun hp => ?_
    rw [Bool.not_eq_true', ← Bool.not_eq_true, hfound p (hperm.mem_iff.mpr hp)]
  have hsome : ∀ p, p ∈ (checked w hosts).filter (fun p =>
      decide (p.label ++ settings.partition_label ∈ labels p.host)) ↔
        p ∈ w.procinfos ∧ Alive settings manager entries p := by
    intro p
    rw [List.mem_filter, hperm.mem_iff]
    exact and_congr_right fun hp => hfound p (hperm.mem_iff.mpr hp)
  unfold Watch.check_proc_heartbeats
  dsimp only
  have hchecked : (hosts.flatMap fun host => w.procinfos.filter fun procinfo =>
      procinfo.host = host) = checked w hosts := rfl
  rw [hchecked]
  refine ⟨fun launcher hlauncher hsuffix p hp q hq hlaunches =>
      alive_of_launches hlauncher hsuffix (hmanager ▸ hp) hq hlaunches,
    fun hall => ?_, fun ⟨p, hp, hnot⟩ hrequire hstate => ?_, fun w' found h => ?_⟩
  · have hok : (checked w hosts).all (fun p =>
        decide (p.label ++ settings.partition_label ∈ labels p.host)) = true :=
      List.all_eq_true.mpr fun p hp => (hfound p hp).mpr (hall p (hperm.mem_iff.mp hp))
    have hlost : (checked w hosts).filter (fun p =>
        !decide (p.label ++ settings.partition_label ∈ labels p.host)) = [] :=
      List.eq_nil_iff_forall_not_mem.mpr fun p hp =>
        ((hnone p).mp hp).2 (hall p ((hnone p).mp hp).1)
    have hkept : (checked w hosts).filter (fun p =>
        decide (p.label ++ settings.partition_label ∈ labels p.host)) = checked w hosts :=
      List.filter_eq_self.mpr fun p hp => (hfound p hp).mpr (hall p (hperm.mem_iff.mp hp))
    rw [hok, hlost, hkept, ite_self, List.append_nil]
    simp [hperm.length_eq]
  · have hok : (checked w hosts).all (fun p =>
        decide (p.label ++ settings.partition_label ∈ labels p.host)) = false := by
      refine List.all_eq_false.mpr ⟨p, hperm.mem_iff.mpr hp, fun hlabel => hnot ?_⟩
      exact (hfound p (hperm.mem_iff.mpr hp)).mp hlabel
    rw [hok, hrequire]
    exact ⟨_, if_neg hstate⟩
  · obtain ⟨lost, hlost⟩ : ∃ lost, lost = if requireSuccess = true then (checked w hosts).filter
        (fun p => !decide (p.label ++ settings.partition_label ∈ labels p.host)) else [] := ⟨_, rfl⟩
    have hmem : ∀ p, p ∈ lost ↔
        requireSuccess = true ∧ p ∈ w.procinfos ∧ ¬ Alive settings manager entries p := by
      intro p
      rw [hlost]
      split_ifs with hrequire
      · rw [hnone p]
        exact (and_iff_right hrequire).symm
      · exact ⟨fun h => absurd h List.not_mem_nil, fun h => absurd h.1 hrequire⟩
    rw [← hlost] at h
    split_ifs at h with hbad hstate hassert
    · obtain ⟨w₁, hremove, heq⟩ := Loop.map_eq_ok.mp h
      obtain ⟨rfl, rfl⟩ := Prod.mk.inj heq
      obtain ⟨hprocinfos, hgone, hmopped⟩ := remove_procinfos_ok hremove
      exact ⟨hsome, lost, hmem, hprocinfos, hmopped, hgone⟩
    · obtain ⟨rfl, rfl⟩ := Prod.mk.inj (Except.ok.inj h)
      -- Nobody is lost, or the caller does not insist on anybody.
      have hnil : lost = [] := by
        refine List.eq_nil_iff_forall_not_mem.mpr fun p hp => hbad ?_
        obtain ⟨hrequire, hp, hdead⟩ := (hmem p).mp hp
        rw [hrequire, Bool.and_true, Bool.not_eq_true', List.all_eq_false]
        exact ⟨p, hperm.mem_iff.mpr hp, fun hlabel =>
          hdead ((hfound p (hperm.mem_iff.mpr hp)).mp hlabel)⟩
      refine ⟨hsome, lost, hmem, ?_, rfl, ?_⟩
      · rw [hnil]
        rfl
      · rw [hnil]
        exact (List.append_nil _).symm

/-- A BoardReader as its host lists it. -/
def listed_reader : Shown where
  front := "u 7 0.0 0.1 9 9 ? Sl 10:00 0:01 ".toList
  name := .BoardReader
  port := "5000"
  rank := "0"
  application_name := "daq1"
  partition_number := "1"
  pid := "7"

theorem listed_reader_wellFormed : listed_reader.WellFormed where
  time := ⟨"u 7 0.0 0.1 9 9 ? Sl 1".toList, "0:01 ".toList, '0', '0', '0', by decide⟩
  front_head := ⟨'u', _, rfl, rfl⟩
  front_last := ⟨"u 7 0.0 0.1 9 9 ? Sl 10:00 0:01".toList, by decide⟩
  front_line := by decide
  front_names := fun name => by cases name <;> decide
  front_application := by decide
  port := ⟨by decide, List.all_eq_true.mp (by decide)⟩
  rank := ⟨by decide, List.all_eq_true.mp (by decide)⟩
  partition := ⟨by decide, List.all_eq_true.mp (by decide)⟩
  name := ⟨by decide, fun c hc => by
    have hall : "daq1".toList.all (fun c => !isSpace c) = true := by decide
    simpa using List.all_eq_true.mp hall c hc⟩
  name_words := by decide
  pid := by decide +kernel
  kept := by decide +kernel

theorem heartbeats_exact_one : ∃ (w : Watch) (settings : WatchSettings) (labels : String → List String),
    w.procinfos ≠ [] ∧
      w.check_proc_heartbeats settings ["localhost"] labels true = .ok (w, w.procinfos) := by
  obtain ⟨p, hp⟩ : ∃ p, p = Procinfo.new .BoardReader "daq1" "1" := ⟨_, rfl⟩
  have hhost : p.host = "localhost" := by rw [hp]; rfl
  obtain ⟨manager, hmanager⟩ : ∃ manager : ProcessManager,
      manager = ⟨⟨"h", none⟩, [p], false, "1", "u"⟩ := ⟨_, rfl⟩
  obtain ⟨settings, hsettings⟩ : ∃ settings : WatchSettings,
      settings = ⟨fun _ _ => .ok false, none, ""⟩ := ⟨_, rfl⟩
  have hprocs : manager.procinfos ≠ [] := by rw [hmanager]; exact List.cons_ne_nil _ _
  have hpartition : Shown.Digits manager.DAQINTERFACE_PARTITION_NUMBER := by
    rw [hmanager]
    exact listed_reader_wellFormed.partition
  have hentries : ∀ entry ∈ [Entry.launched listed_reader], entry.WellFormed := fun entry hentry => by
    rw [List.mem_singleton.mp hentry]
    exact listed_reader_wellFormed
  obtain ⟨labels, hlabels⟩ : ∃ labels : String → List String, labels = fun _ =>
      (found_on manager [Entry.launched listed_reader]).map Shown.application_name := ⟨_, rfl⟩
  obtain ⟨reply, hlists⟩ : ∃ reply, Lists manager "localhost" [Entry.launched listed_reader] reply :=
    ⟨fun _ _ => ⟨join_lines (grepped _ _), [], 0⟩, fun _ => rfl⟩
  have hread : ReadOn manager (fun _ => [Entry.launched listed_reader]) labels "localhost" := by
    rw [hlabels]
    exact ⟨reply, [], _, hlists, pids_and_labels_exact hprocs hpartition hentries hlists []⟩
  have halive : Alive settings manager (fun _ => [Entry.launched listed_reader]) p := by
    refine ⟨listed_reader, Entry.mem_found.mpr ⟨List.mem_cons_self, ⟨p, ?_, ?_⟩, ?_⟩, ?_⟩
    · rw [hmanager]; exact List.mem_cons_self
    · rw [hp]; rfl
    · rw [hmanager]; exact List.prefix_refl _
    · rw [hp, hsettings]; rfl
  obtain ⟨w, hw⟩ : ∃ w : Watch, w = ⟨[p], [], [], false, "ready", [], []⟩ := ⟨_, rfl⟩
  have hprocinfos : w.procinfos = [p] := by rw [hw]
  have hhosts : ["localhost"].Perm (w.procinfos.map Procinfo.host).dedup := by
    rw [hprocinfos, List.map_singleton, hhost]
    decide
  have hsame : manager.procinfos = w.procinfos := by rw [hmanager, hprocinfos]
  have hexact : _ ∧ (_ → w.check_proc_heartbeats settings ["localhost"] labels true =
      .ok (w, checked w ["localhost"])) ∧ _ :=
    heartbeats_exact (hsame ▸ hprocs) hsame hpartition (fun _ => hentries) hhosts
      fun host hhost => List.mem_singleton.mp hhost ▸ hread
  refine ⟨w, settings, labels, by rw [hprocinfos]; exact List.cons_ne_nil _ _, ?_⟩
  rw [hexact.2.1 fun q hq => by rw [hprocinfos] at hq; rwa [List.mem_singleton.mp hq]]
  unfold checked
  simp [hprocinfos, hhost]

end Heartbeats

end DaqInterface
