import DaqInterface.Model.Documents
import DaqInterface.Properties.ParameterText
import DaqInterface.Properties.RouterPorts

/-!
# The directory of the files with data

`data_directory_override` puts a directory in the place of that of each root file that a process
writes.  The bookkeeping does so in the text around one word only, up to the next brace, and
with an expression that finds the last file on a line.  Where the document has one such file and
the text has its name and no other one, the document gets the directory
(`set_data_directory_eq`).
-/

namespace DaqInterface

open Pattern Parts Scan

/-! ## The files of a document -/

/-- The modules that write root files. -/
def output_modules : List (List Char) := ["RootOutput".toList, "RootDAQOut".toList]

/-- A value, with or without quotation marks, is one of the modules. -/
def names_output (value : List Char) : Bool :=
  output_modules.any fun name => value = name || value = '"' :: (name ++ ['"'])

/-- What stands before the innermost table around a place, backwards, and what the table
contains. -/
def table_around (before rest : List Char) : Option (List Char × List Char) :=
  (braces.open_at 0 (bare_before before)).bind fun distance =>
    (braces.close_at 1 (bare .code rest)).map fun stop =>
      (before.drop distance, (before.take distance).reverse ++ rest.take stop)

/-- The innermost table around a place is one of a module that writes root files. -/
def in_output (before rest : List Char) : Bool :=
  (table_around before rest).any fun (outside, content) =>
    (items (parts (parameters fun _ => true) 0 outside content)).any fun item =>
      item.2.key = "module_type".toList && names_output item.2.value

/-- The file of a module that writes root files. -/
def output_file : Finder Parameter := fun before rest =>
  (parameter_here before rest).bind fun p =>
    if p.key = "fileName".toList ∧ in_output before rest = true then some (p.text.length, p)
    else none

/-- What stands behind the last slash. -/
def base_name (value : List Char) : List Char := (value.reverse.takeWhile (· ≠ '/')).reverse

/-- The name of the file in another directory. -/
def moved_name (directory value : List Char) : List Char :=
  value.takeWhile (· == '"') ++ (directory ++ base_name value)

/-- The document with all its files in another directory. -/
def moved (directory document : List Char) : List Char :=
  render (fun _ p => p.with_value (moved_name directory p.value)) (parts output_file 0 [] document)

/-! ## The expression -/

/-- The expression without the start of the line. -/
def re_file : Pattern :=
  row [group (row [text "fileName", spaces, text ":", many fun c => isSpace c || c == '"']),
    text "/", some_of fun c => !isSpace c, text "/"]

/-- What is replaced at a place, where it is tried up to the end of the line. -/
theorem at_start_filename (rest : List Char) :
    re_filename.at_start rest =
      (runs (fun c => c ≠ '\n') rest).findSome? fun file =>
        (re_file.at_start file).map (Match.extend (rest.take (rest.length - file.length))) :=
  at_start_group_many_seq _ _ _ rest

/-- The last slash of a word. -/
theorem at_start_last_slash {directory left : List Char} (hne : directory ≠ [])
    (hword : ∀ c ∈ directory, isSpace c = false)
    (hleft : '/' ∉ left.takeWhile fun c => !isSpace c) :
    (seq (some_of fun c => !isSpace c) (seq (text "/") Pattern.empty)).at_start
      (directory ++ '/' :: left) = some ([], left) := by
  obtain ⟨d, tail, rfl⟩ := List.exists_cons_of_ne_nil hne
  have hok : ∀ c ∈ tail, (!isSpace c) = true := by
    intro c hc
    rw [hword c (List.mem_cons_of_mem d hc)]
    rfl
  have hslash : "/".toList = ['/'] := by decide
  have hd : (!isSpace d) = true := by
    rw [hword d List.mem_cons_self]
    rfl
  obtain ⟨more, hmore⟩ := runs_append_of_all (fun c => !isSpace c) ('/' :: left) hok
  have hruns : runs (fun c => !isSpace c) ('/' :: left) =
      runs (fun c => !isSpace c) left ++ ['/' :: left] := if_pos (by decide)
  have hways : (some_of fun c => !isSpace c).ways (d :: tail ++ '/' :: left) =
      (runs (fun c => !isSpace c) left).map (fun rest => (([], rest) : Match)) ++
        ([], '/' :: left) :: more.map fun rest => (([], rest) : Match) := by
    have hfirst : (some_of fun c => !isSpace c).ways (d :: tail ++ '/' :: left) =
        (runs (fun c => !isSpace c) (tail ++ '/' :: left)).map fun rest => (([], rest) : Match) := by
      simp [some_of, ways, hd]
    rw [hfirst, hmore, hruns]
    simp
  have hskipped : ∀ w ∈ (runs (fun c => !isSpace c) left).map (fun rest => (([], rest) : Match)),
      (seq (text "/") Pattern.empty).ways w.2 = [] := by
    intro w hw
    obtain ⟨rest, hrest, rfl⟩ := List.mem_map.mp hw
    obtain ⟨front, rfl, hall⟩ := mem_runs.mp hrest
    rw [ways_text_seq]
    refine if_neg fun hprefix => hleft ?_
    -- a slash here would stand in the word
    rw [hslash] at hprefix
    obtain ⟨behind, hbehind⟩ := hprefix
    dsimp only at hbehind
    rw [List.takeWhile_append_of_pos hall, ← hbehind]
    refine List.mem_append_right _ ?_
    rw [List.singleton_append, List.takeWhile_cons_of_pos (by decide)]
    exact List.mem_cons_self
  have hlast : (seq (text "/") Pattern.empty).at_start ('/' :: left) = some ([], left) := by
    have hprefix : ['/'] <+: '/' :: left := List.prefix_append ['/'] left
    rw [at_start_text_seq, hslash, if_pos hprefix]
    rfl
  exact at_start_seq hways hskipped hlast

/-- The text up to the slash that begins a path. -/
theorem ways_file_name (word : String) {blanks blanks' : List Char} (path : List Char)
    (hblanks : ∀ c ∈ blanks, isSpace c = true)
    (hblanks' : ∀ c ∈ blanks', isSpace c = true ∨ c = '"') :
    ∃ more : List Match,
      (row [text word, spaces, text ":", many fun c => isSpace c || c == '"']).ways
        (word.toList ++ (blanks ++ ':' :: (blanks' ++ '/' :: path))) = ([], '/' :: path) :: more := by
  have hcolon : ":".toList = [':'] := by decide
  have hprefix : [':'] <+: ':' :: (blanks' ++ '/' :: path) := List.prefix_append [':'] _
  have hquotes : ∀ c ∈ blanks', (isSpace c || c == '"') = true := by
    intro c hc
    rcases hblanks' c hc with hspace | rfl
    · rw [hspace]
      rfl
    · decide
  have hfirst : (text ":").Avoids isSpace := by
    refine avoids_text (by decide) fun c hc => ?_
    rw [hcolon] at hc
    obtain rfl := Option.some.inj hc
    decide
  have havoid : (seq (text ":") (seq (many fun c => isSpace c || c == '"') Pattern.empty)).Avoids
      isSpace := hfirst.seq _
  have hstop : ∀ c, (':' :: (blanks' ++ '/' :: path)).head? = some c → isSpace c = false := by
    rintro c ⟨⟩
    decide
  obtain ⟨more, hmore⟩ := runs_append_of_all (fun c => isSpace c || c == '"') ('/' :: path) hquotes
  have hruns : runs (fun c => isSpace c || c == '"') ('/' :: path) = ['/' :: path] :=
    if_neg (by decide)
  refine ⟨more.map fun rest => ([], rest), ?_⟩
  show (seq (text word) (seq (many isSpace) (seq (text ":")
    (seq (many fun c => isSpace c || c == '"') Pattern.empty)))).ways _ = _
  rw [ways_text_seq, if_pos (List.prefix_append _ _), List.drop_left, ways_many_seq havoid,
    dropWhile_word hblanks hstop, ways_text_seq, hcolon, if_pos hprefix]
  show (seq (many fun c => isSpace c || c == '"') Pattern.empty).ways (blanks' ++ '/' :: path) = _
  rw [ways_seq_empty, ways, hmore, hruns]
  rfl

/-- A file with its directory. -/
theorem at_start_path {word : String} {blanks blanks' directory left : List Char}
    (hblanks : ∀ c ∈ blanks, isSpace c = true)
    (hblanks' : ∀ c ∈ blanks', isSpace c = true ∨ c = '"') (hne : directory ≠ [])
    (hword : ∀ c ∈ directory, isSpace c = false)
    (hleft : '/' ∉ left.takeWhile fun c => !isSpace c) :
    (row [group (row [text word, spaces, text ":", many fun c => isSpace c || c == '"']),
      text "/", some_of fun c => !isSpace c, text "/"]).at_start
        (word.toList ++ (blanks ++ ':' :: (blanks' ++ '/' :: (directory ++ '/' :: left)))) =
      some ([word.toList ++ (blanks ++ ':' :: blanks')], left) := by
  have hslash : "/".toList = ['/'] := by decide
  obtain ⟨more, hmore⟩ := ways_file_name word (directory ++ '/' :: left) hblanks hblanks'
  have hsplit : word.toList ++ (blanks ++ ':' :: (blanks' ++ '/' :: (directory ++ '/' :: left))) =
      (word.toList ++ (blanks ++ ':' :: blanks')) ++ '/' :: (directory ++ '/' :: left) := by simp
  have hpath : (row [text "/", some_of fun c => !isSpace c, text "/"]).at_start
      ('/' :: (directory ++ '/' :: left)) = some ([], left) := by
    have hprefix : ['/'] <+: '/' :: (directory ++ '/' :: left) := List.prefix_append ['/'] _
    show (seq (text "/") (seq (some_of fun c => !isSpace c)
      (seq (text "/") Pattern.empty))).at_start _ = _
    rw [at_start_text_seq, hslash, if_pos hprefix]
    exact at_start_last_slash hne hword hleft
  have hgroup : (group (row [text word, spaces, text ":", many fun c =>
      isSpace c || c == '"'])).ways
        (word.toList ++ (blanks ++ ':' :: (blanks' ++ '/' :: (directory ++ '/' :: left)))) =
      ([word.toList ++ (blanks ++ ':' :: blanks')], '/' :: (directory ++ '/' :: left)) ::
        more.map fun m => ((word.toList ++ (blanks ++ ':' :: (blanks' ++ '/' :: (directory ++
          '/' :: left)))).take ((word.toList ++ (blanks ++ ':' :: (blanks' ++ '/' :: (directory ++
            '/' :: left)))).length - m.2.length) :: m.1, m.2) := by
    rw [ways, hmore, List.map_cons]
    dsimp only
    congr 2
    rw [hsplit, List.length_append, Nat.add_sub_cancel, List.take_left]
  have hways := (List.nil_append _).symm ▸ hgroup
  exact at_start_seq hways (fun w hw => absurd hw List.not_mem_nil) hpath

/-! ## One file in a text -/

/-- What `findSome?` finds, where it can only be found at one element. -/
theorem findSome?_of_mem {α β : Type} {f : α → Option β} {l : List α} {a : α} {b : β} (ha : a ∈ l)
    (hb : f a = some b) (honly : ∀ x ∈ l, (f x).isSome = true → x = a) : l.findSome? f = some b := by
  induction l with
  | nil => exact absurd ha List.not_mem_nil
  | cons x l ih =>
    rw [List.findSome?_cons]
    cases hx : f x with
    | some b' =>
      have hsame : x = a := honly x List.mem_cons_self (by rw [hx]; rfl)
      rw [hsame, hb] at hx
      exact hx.symm
    | none =>
      rcases List.mem_cons.mp ha with rfl | ha
      · rw [hb] at hx
        cases hx
      · exact ih ha fun y hy => honly y (List.mem_cons_of_mem x hy)

/-- In the text, a file with a directory begins at this place only. -/
def OnlyFileAt (rest : List Char) (place : ℕ) : Prop :=
  ∀ i < rest.length, (re_file.at_start (rest.drop i)).isSome = true → i = place

theorem OnlyFileAt.of_append {front file : List Char} {place : ℕ}
    (h : OnlyFileAt (front ++ file) place) (hfile : (re_file.at_start file).isSome = true) :
    front.length = place := by
  refine h front.length ?_ ?_
  · have hne : file ≠ [] := by
      rintro rfl
      exact absurd hfile Bool.false_ne_true
    rw [List.length_append]
    exact Nat.lt_add_of_pos_right (List.length_pos_iff.mpr hne)
  · rwa [List.drop_left]

theorem OnlyFileAt.tail {c : Char} {rest : List Char} {place : ℕ}
    (h : OnlyFileAt (c :: rest) (place + 1)) : OnlyFileAt rest place :=
  fun i hi hsome => Nat.succ.inj (h (i + 1) (Nat.succ_lt_succ hi) hsome)

/-- No file with a directory begins in the text. -/
def NoFile (rest : List Char) : Prop := ∀ i < rest.length, re_file.at_start (rest.drop i) = none

theorem NoFile.of_suffix {rest file : List Char} (h : NoFile rest) (hfile : file <:+ rest) :
    re_file.at_start file = none := by
  obtain ⟨front, rfl⟩ := hfile
  cases file with
  | nil => rfl
  | cons c file =>
    have hplace := h front.length (by rw [List.length_append, List.length_cons]; omega)
    rwa [List.drop_left] at hplace

/-- Where no file begins, nothing is replaced. -/
theorem sub_filename_none {rest : List Char} (h : NoFile rest)
    (f : List (List Char) → List Char) : re_filename.sub f rest = rest := by
  have hunmatched : Unmatched re_filename rest [] := by
    intro back hback _
    rw [List.append_nil, at_start_filename]
    refine List.findSome?_eq_none_iff.mpr fun file hfile => ?_
    rw [h.of_suffix ((suffix_of_mem_runs hfile).trans hback)]
    rfl
  have hsub := sub_unmatched hunmatched f
  rw [List.append_nil] at hsub
  rw [hsub]
  exact List.append_nil rest

/-- On a line with the only file, the match goes up to the end of its directory. -/
theorem at_start_line {front file group left : List Char} (hline : '\n' ∉ front)
    (hfile : re_file.at_start file = some ([group], left))
    (honly : OnlyFileAt (front ++ file) front.length) :
    re_filename.at_start (front ++ file) = some ([front ++ group], left) := by
  have hmem : file ∈ runs (fun c => c ≠ '\n') (front ++ file) := by
    refine mem_runs.mpr ⟨front, rfl, fun c hc => ?_⟩
    exact decide_eq_true fun heq => hline (heq ▸ hc)
  rw [at_start_filename]
  refine findSome?_of_mem hmem ?_ fun other hother hsome => ?_
  · rw [hfile, List.length_append, Nat.add_sub_cancel, List.take_left]
    rfl
  · obtain ⟨front', hfront', -⟩ := mem_runs.mp hother
    rw [hfront'] at honly
    have hlength := honly.of_append (by simpa using hsome)
    exact (List.append_inj hfront' hlength.symm).2.symm

/-- On the lines before it, nothing is found. -/
theorem at_start_line_before {front file : List Char} (hline : '\n' ∈ front)
    (honly : OnlyFileAt (front ++ file) front.length) :
    re_filename.at_start (front ++ file) = none := by
  rw [at_start_filename]
  refine List.findSome?_eq_none_iff.mpr fun other hother => ?_
  obtain ⟨front', hfront', hall⟩ := mem_runs.mp hother
  by_contra hsome
  rw [hfront'] at honly
  have hlength := honly.of_append (by simpa [Option.isSome_iff_ne_none] using hsome)
  have hsame : front = front' := (List.append_inj hfront' hlength.symm).1
  exact of_decide_eq_true (hall '\n' (hsame ▸ hline)) rfl

/-- The directory of the only file is replaced. -/
theorem sub_filename_only {front group path left : List Char}
    (hfile : re_file.at_start (group ++ (path ++ left)) = some ([group], left)) (hpath : path ≠ [])
    (honly : OnlyFileAt (front ++ (group ++ (path ++ left))) front.length) (directory : List Char) :
    re_filename.sub (fun groups => groups.headD [] ++ directory)
      (front ++ (group ++ (path ++ left))) = front ++ (group ++ (directory ++ left)) := by
  have hsome : (re_file.at_start (group ++ (path ++ left))).isSome = true := by
    rw [hfile]
    rfl
  -- behind the directory there is no further file
  have hleft : NoFile left := by
    intro i hi
    by_contra hother
    have hplace := honly ((front ++ (group ++ path)).length + i)
    have hdrop : (front ++ (group ++ (path ++ left))).drop ((front ++ (group ++ path)).length + i) =
        left.drop i := by
      have hsplit : front ++ (group ++ (path ++ left)) = (front ++ (group ++ path)) ++ left := by
        simp
      rw [hsplit, List.drop_length_add_append]
    rw [hdrop] at hplace
    have hpos := List.length_pos_iff.mpr hpath
    have heq := hplace (by simp only [List.length_append]; omega)
      (Option.isSome_iff_ne_none.mpr hother)
    simp only [List.length_append] at heq
    omega
  induction front with
  | nil =>
    have hstart := at_start_line List.not_mem_nil hfile honly
    rw [List.nil_append, ← List.append_assoc] at hstart
    have hne : group ++ path ≠ [] := List.append_ne_nil_of_right_ne_nil _ hpath
    rw [List.nil_append, ← List.append_assoc, sub_matched hne hstart, sub_filename_none hleft]
    simp
  | cons c front ih =>
    by_cases hline : '\n' ∈ c :: front
    · have hnone := at_start_line_before hline honly
      have hrest := ih honly.tail
      rw [List.cons_append] at hnone ⊢
      rw [Pattern.sub, Pattern.sub_from, hnone]
      exact congrArg (c :: ·) hrest
    · have hstart := at_start_line hline hfile honly
      have hsplit : c :: front ++ (group ++ (path ++ left)) =
          (c :: front ++ (group ++ path)) ++ left := by simp
      have hne : c :: front ++ (group ++ path) ≠ [] := List.cons_ne_nil _ _
      rw [hsplit] at hstart ⊢
      rw [sub_matched hne hstart, sub_filename_none hleft]
      simp

/-! ## The document -/

/-- The text in which the bookkeeping replaces the directory. -/
def file_range (document : List Char) : Option (ℕ × ℕ) :=
  (enclosing_table_range document "RootOutput".toList 0).orElse fun _ =>
    enclosing_table_range document "RootDAQOut".toList 0

/-- In the document, a file of a module that writes root files stands at this place only. -/
def OnlyOutputAt (document : List Char) (place : ℕ) : Prop :=
  ∀ i < document.length,
    (output_file (document.take i).reverse (document.drop i)).isSome = true → i = place

instance (rest : List Char) (place : ℕ) : Decidable (OnlyFileAt rest place) :=
  inferInstanceAs (Decidable (∀ i < _, _ → _))

instance (document : List Char) (place : ℕ) : Decidable (OnlyOutputAt document place) :=
  inferInstanceAs (Decidable (∀ i < _, _ → _))

/-- The name of a file: a path with a directory, in one word up to its last slash, and without a
slash in the word behind it. -/
structure PathName (p : Parameter) (blanks blanks' quotes directory base behind : List Char) :
    Prop where
  gap : p.gap = blanks ++ ':' :: blanks'
  value : p.value = quotes ++ '/' :: (directory ++ '/' :: base)
  blank : ∀ c ∈ blanks ++ blanks', isSpace c = true
  quote : ∀ c ∈ quotes, c = '"'
  ne_nil : directory ≠ []
  word : ∀ c ∈ directory, isSpace c = false
  no_slash : '/' ∉ base
  last : '/' ∉ (base ++ behind).takeWhile fun c => !isSpace c

/-- The document has one file of a module that writes root files, it has a path with a directory,
and it is the only file in the text in which the directory is replaced. -/
structure OneFile (document before front : List Char) (p : Parameter) (back behind : List Char) :
    Prop where
  split : document = before ++ ((front ++ (p.text ++ back)) ++ behind)
  range : file_range document =
    some (before.length, before.length + (front ++ (p.text ++ back)).length)
  output : output_file (before ++ front).reverse (p.text ++ (back ++ behind)) =
    some (p.text.length, p)
  only_output : OnlyOutputAt document (before ++ front).length
  path : ∃ blanks blanks' quotes directory base, PathName p blanks blanks' quotes directory base back
  only_file : OnlyFileAt (front ++ (p.text ++ back)) front.length

/-- The document has no such file, and there is no file in the text in which the directory is
replaced. -/
structure NoOutput (document before inside behind : List Char) : Prop where
  split : document = before ++ (inside ++ behind)
  range : file_range document = some (before.length, before.length + inside.length)
  no_output : ∀ i < document.length,
    output_file (document.take i).reverse (document.drop i) = none
  no_file : NoFile inside

/-- The files of the document are the ones in the text in which the directory is replaced. -/
inductive Movable (document : List Char) : Prop
  | one (before front back behind : List Char) (file : Parameter)
      (h : OneFile document before front file back behind)
  | none (before inside behind : List Char) (h : NoOutput document before inside behind)

/-- The directory stands for itself behind the reference to the first group. -/
def PlainDirectory (directory : String) : Prop :=
  Template.parse 1 ("\\1" ++ directory).toList =
    .ok (.group 1 :: directory.toList.map .literal)

instance (directory : String) : Decidable (PlainDirectory directory) :=
  inferInstanceAs (Decidable (_ = _))

/-- A directory without backslashes that does not begin with a digit. -/
theorem plainDirectory_of {directory : String} (h : '\\' ∉ directory.toList)
    (hdigit : directory.toList.head?.any Char.isDigit = false) : PlainDirectory directory := by
  have hgroup : "\\1".toList = ['\\', '1'] := by decide
  unfold PlainDirectory
  rw [String.toList_append, hgroup]
  exact Template.parse_first_group h hdigit

theorem sub_plain_directory {directory : String} (h : PlainDirectory directory)
    (rest : List Char) :
    Template.sub re_filename 1 ("\\1" ++ directory).toList rest =
      .ok (re_filename.sub (fun groups => groups.headD [] ++ directory.toList) rest) := by
  have hexpand : ∀ texts : List (List Char),
      Template.expand texts (.group 1 :: directory.toList.map .literal) =
        texts.tail.headD [] ++ directory.toList := by
    intro texts
    rw [Template.expand, List.flatMap_cons, ← Template.expand, Template.expand_literal]
    cases texts with
    | nil => rfl
    | cons text texts => cases texts <;> rfl
  unfold Template.sub
  rw [h]
  simp only [Except.map, hexpand]
  exact congrArg Except.ok
    (Template.sub_group re_filename (fun groups => groups.headD [] ++ directory.toList) 0 rest)

/-- The name of the file in the other directory. -/
theorem PathName.moved {p : Parameter} {blanks blanks' quotes directory base behind : List Char}
    (h : PathName p blanks blanks' quotes directory base behind) (new : List Char) :
    moved_name new p.value = quotes ++ (new ++ base) := by
  have hquotes : ∀ c ∈ quotes, (c == '"') = true := fun c hc => beq_iff_eq.mpr (h.quote c hc)
  have hstop : ∀ c, ('/' :: (directory ++ '/' :: base)).head? = some c → (c == '"') = false := by
    rintro c ⟨⟩
    decide
  have hreverse : (quotes ++ '/' :: (directory ++ '/' :: base)).reverse =
      base.reverse ++ '/' :: (quotes ++ '/' :: directory).reverse := by simp
  have hbase : ∀ c ∈ base.reverse, decide (c ≠ '/') = true := by
    intro c hc
    refine decide_eq_true fun heq => h.no_slash ?_
    rw [← heq]
    exact List.mem_reverse.mp hc
  have hslash : ∀ c, ('/' :: (quotes ++ '/' :: directory).reverse).head? = some c →
      decide (c ≠ '/') = false := by
    rintro c ⟨⟩
    rfl
  unfold moved_name base_name
  rw [h.value, takeWhile_word hquotes hstop, hreverse, takeWhile_word hbase hslash,
    List.reverse_reverse]

section OneFile

variable {document before front back behind : List Char} {file : Parameter}

theorem OneFile.key (h : OneFile document before front file back behind) :
    file.key = "fileName".toList := by
  have houtput := h.output
  unfold output_file at houtput
  obtain ⟨p, -, houtput⟩ := Option.bind_eq_some_iff.mp houtput
  split_ifs at houtput with hfile
  obtain ⟨-, rfl⟩ := Prod.mk.inj (Option.some.inj houtput)
  exact hfile.1

/-- The directory of the file is replaced. -/
theorem OneFile.replaced (h : OneFile document before front file back behind) (new : List Char) :
    re_filename.sub (fun groups => groups.headD [] ++ new) (front ++ (file.text ++ back)) =
      front ++ (file.with_value (moved_name new file.value) ++ back) := by
  obtain ⟨blanks, blanks', quotes, old, base, hpath⟩ := h.path
  -- the text of the parameter, up to its directory and behind it
  have htext : file.text ++ back = ("fileName".toList ++ (blanks ++ ':' :: (blanks' ++ quotes))) ++
      (('/' :: (old ++ ['/'])) ++ (base ++ back)) := by
    unfold Parameter.text
    rw [h.key, hpath.gap, hpath.value]
    simp
  have hblanks : ∀ c ∈ blanks, isSpace c = true :=
    fun c hc => hpath.blank c (List.mem_append_left _ hc)
  have hblanks' : ∀ c ∈ blanks' ++ quotes, isSpace c = true ∨ c = '"' := by
    intro c hc
    rcases List.mem_append.mp hc with hc | hc
    · exact Or.inl (hpath.blank c (List.mem_append_right _ hc))
    · exact Or.inr (hpath.quote c hc)
  have hmatch : re_file.at_start (("fileName".toList ++ (blanks ++ ':' :: (blanks' ++ quotes))) ++
      (('/' :: (old ++ ['/'])) ++ (base ++ back))) =
      some (["fileName".toList ++ (blanks ++ ':' :: (blanks' ++ quotes))], base ++ back) := by
    have hsplit : ("fileName".toList ++ (blanks ++ ':' :: (blanks' ++ quotes))) ++
        (('/' :: (old ++ ['/'])) ++ (base ++ back)) = "fileName".toList ++ (blanks ++ ':' ::
          ((blanks' ++ quotes) ++ '/' :: (old ++ '/' :: (base ++ back)))) := by simp
    rw [hsplit]
    exact at_start_path hblanks hblanks' hpath.ne_nil hpath.word hpath.last
  have honly := h.only_file
  rw [htext] at honly
  rw [htext, sub_filename_only hmatch (List.cons_ne_nil _ _) honly, hpath.moved]
  unfold Parameter.with_value
  rw [h.key, hpath.gap]
  simp

/-- The document that is meant. -/
theorem OneFile.moved (h : OneFile document before front file back behind) (new : List Char) :
    moved new document =
      before ++ ((front ++ (file.with_value (moved_name new file.value) ++ back)) ++ behind) := by
  obtain ⟨blanks, blanks', quotes, old, base, hpath⟩ := h.path
  have hsplit : document = (before ++ front) ++ (file.text ++ (back ++ behind)) := by
    rw [h.split]
    simp
  have hne : file.text ≠ [] := by
    unfold Parameter.text
    rw [hpath.value]
    simp
  have houtput := h.output
  rw [← List.append_nil (before ++ front).reverse] at houtput
  have honly := h.only_output
  rw [hsplit] at honly
  have hrender := render_of_only (fun _ p => p.with_value (moved_name new p.value)) hne houtput
    fun i hi hsome => by
      rw [List.append_nil] at hsome
      exact honly i hi hsome
  unfold DaqInterface.moved
  rw [hsplit, hrender]
  simp

/-- Without a file, the document is meant to stay as it is. -/
theorem NoOutput.moved {inside : List Char} (h : NoOutput document before inside behind)
    (new : List Char) : moved new document = document := by
  refine render_of_none _ fun i hi => ?_
  rw [List.append_nil]
  exact h.no_output i hi

/-- The text in which the directory is replaced. -/
theorem replaced_in_range {inside : List Char} (hsplit : document = before ++ (inside ++ behind)) :
    document.take before.length = before ∧
      (document.take (before.length + inside.length)).drop before.length = inside ∧
      document.drop (before.length + inside.length) = behind := by
  have hassoc : document = (before ++ inside) ++ behind := by rw [hsplit, List.append_assoc]
  refine ⟨by rw [hsplit, List.take_left], ?_, ?_⟩
  · rw [hassoc, ← List.length_append, List.take_left, List.drop_left]
  · rw [hassoc, ← List.length_append, List.drop_left]

end OneFile

namespace Bookkeeper

variable {self : Bookkeeper} {p : Procinfo} {directory : String}

/-- The document in which the directory is replaced in a range. -/
theorem set_data_directory_range (hdirectory : self.data_directory_override = some directory)
    (hname : p.name = .EventBuilder ∨ p.name = .DataLogger)
    (hwrites : fhicl_writes_root_file p.document = true) (hplain : PlainDirectory directory)
    {before inside behind : List Char} (hsplit : p.document.toList = before ++ (inside ++ behind))
    (hrange : file_range p.document.toList =
      some (before.length, before.length + inside.length)) :
    self.set_data_directory p = .ok (before ++
      re_filename.sub (fun groups => groups.headD [] ++ directory.toList) inside ++ behind) := by
  obtain ⟨hbefore, hinside, hbehind⟩ := replaced_in_range hsplit
  unfold file_range at hrange
  unfold set_data_directory
  rw [hdirectory]
  dsimp only
  rw [if_pos ⟨hname, hwrites⟩, hrange]
  dsimp only
  rw [hbefore, hinside, hbehind, sub_plain_directory hplain]
  rfl

/-- Where the bookkeeping comes to the file of the document and to no other one, the file is put into
the directory, and nothing else is changed. -/
theorem set_data_directory_eq (hdirectory : self.data_directory_override = some directory)
    (hname : p.name = .EventBuilder ∨ p.name = .DataLogger)
    (hwrites : fhicl_writes_root_file p.document = true) (hplain : PlainDirectory directory)
    (h : Movable p.document.toList) :
    self.set_data_directory p = .ok (moved directory.toList p.document.toList) := by
  cases h with
  | one before front back behind file h =>
    rw [set_data_directory_range hdirectory hname hwrites hplain h.split h.range, h.replaced,
      h.moved]
    simp
  | none before inside behind h =>
    rw [set_data_directory_range hdirectory hname hwrites hplain h.split h.range,
      sub_filename_none h.no_file, h.moved]
    conv_rhs => rw [h.split]
    rw [List.append_assoc]

/-- A configuration in which files are written to another directory. -/
def with_directory (directory : String) : Bookkeeper :=
  { two_subsystems [] with data_directory_override := some directory }

/-- The text of an output that writes a root file. -/
def root_output (path : String) : String :=
  "\x7b\nmodule_type: RootOutput\nfileName: \"" ++ path ++ "\"\n\x7d"

/-- A file is moved. -/
theorem output_moved : (with_directory "/data/").set_data_directory
      (labelled .EventBuilder "EventBuilder1" "1" "not set"
        ("outputs: \x7b out: " ++ root_output "/tmp/a/b.root" ++ " \x7d\n")) =
    .ok (moved "/data/".toList
      ("outputs: \x7b out: " ++ root_output "/tmp/a/b.root" ++ " \x7d\n").toList) := by
  refine set_data_directory_eq rfl (Or.inl rfl) (by decide +kernel) (by decide +kernel)
    (.one "outputs: \x7b out: ".toList "\x7b\nmodule_type: RootOutput\n".toList "\n\x7d".toList
      " \x7d\n".toList ⟨"fileName".toList, ": ".toList, "\"/tmp/a/b.root\"".toList⟩ ?_)
  have hpath : PathName ⟨"fileName".toList, ": ".toList, "\"/tmp/a/b.root\"".toList⟩ [] [' '] ['"']
      "tmp/a".toList "b.root\"".toList "\n\x7d".toList :=
    ⟨by decide +kernel, by decide +kernel, Scan.forall_of_all (by decide),
      Scan.forall_of_all (by decide), by decide, Scan.forall_of_all (by decide), by decide,
      by decide⟩
  exact ⟨by decide +kernel, by decide +kernel, by decide +kernel, by decide +kernel,
    ⟨_, _, _, _, _, hpath⟩, by decide +kernel⟩

/-- Of two files only one is moved. -/
theorem second_output_not_moved : ∃ document, (with_directory "/data/").set_data_directory
      (labelled .EventBuilder "EventBuilder1" "1" "not set" ("outputs: \x7b a: " ++
        root_output "/tmp/a.root" ++ " b: " ++ root_output "/tmp/b.root" ++ " \x7d\n")) =
        .ok document ∧
      document ≠ moved "/data/".toList ("outputs: \x7b a: " ++ root_output "/tmp/a.root" ++ " b: " ++
        root_output "/tmp/b.root" ++ " \x7d\n").toList := by
  refine ⟨("outputs: \x7b a: " ++ root_output "/data/a.root" ++ " b: " ++
    root_output "/tmp/b.root" ++ " \x7d\n").toList, ?_, ?_⟩
  · decide +kernel
  · decide +kernel

end Bookkeeper

end DaqInterface
