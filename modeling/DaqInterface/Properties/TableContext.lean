import DaqInterface.Properties.Tables

/-!
# Tables in their context

Where a table really begins, and which table is really around a place: comments and strings
do not count, nor does a name that is the end of a longer one.  Texts before a place are read
backwards.
-/

namespace DaqInterface

open Scan

variable {key text before rest : List Char}

/-! ## Comments and strings -/

/-- What a character is part of. -/
inductive Mode
  | code
  /-- Behind a slash, which may begin a comment. -/
  | slash
  | comment
  | quoted
  /-- Behind a backslash. -/
  | escaped
  /-- Between single quotes. -/
  | single
  deriving DecidableEq

/-- The mode behind a character of the code. -/
def Mode.behind_code (c : Char) : Mode :=
  if c = '#' then .comment
  else if c = '/' then .slash
  else if c = '"' then .quoted
  else if c.toNat = 39 then .single
  else .code

/-- The mode behind a character. -/
def Mode.next : Mode → Char → Mode
  | .code, c => behind_code c
  | .slash, c => if c = '/' then .comment else behind_code c
  | .comment, c => if c = '\n' then .code else .comment
  | .quoted, c => if c = '"' then .code else if c.toNat = 92 then .escaped else .quoted
  | .escaped, _ => .quoted
  | .single, c => if c.toNat = 39 then .code else .single

/-- The mode behind a text. -/
def mode_behind (before : List Char) : Mode := before.foldr (fun c mode => mode.next c) .code

/-- A text with blanks for its comments and strings. -/
def bare : Mode → List Char → List Char
  | _, [] => []
  | mode, c :: rest => (if mode.next c = .code then c else ' ') :: bare (mode.next c) rest

/-- The same for a text that is read backwards. -/
def bare_before : List Char → List Char
  | [] => []
  | c :: before => (if mode_behind (c :: before) = .code then c else ' ') :: bare_before before

theorem length_bare (mode : Mode) (rest : List Char) : (bare mode rest).length = rest.length := by
  induction rest generalizing mode with
  | nil => rfl
  | cons c rest ih =>
    unfold bare
    rw [List.length_cons, List.length_cons, ih]

/-- A word of a bare text stands in the text. -/
theorem prefix_of_bare {mode : Mode} (hkey : ∀ c ∈ key, isSpace c = false)
    (h : key <+: bare mode rest) : key <+: rest := by
  induction key generalizing mode rest with
  | nil => exact List.nil_prefix
  | cons k key ih =>
    cases rest with
    | nil => exact absurd (List.prefix_nil.mp h) (List.cons_ne_nil k key)
    | cons c rest =>
      unfold bare at h
      obtain ⟨hk, h⟩ := List.cons_prefix_cons.mp h
      have hnext : key <+: rest := ih (fun d hd => hkey d (List.mem_cons_of_mem k hd)) h
      have hkc : k = c := by
        by_contra hne
        split_ifs at hk with hcode
        · exact hne hk
        · have hspace := hkey k List.mem_cons_self
          rw [hk] at hspace
          revert hspace
          decide
      rw [hkc]
      exact List.cons_prefix_cons.mpr ⟨rfl, hnext⟩

/-! ## Tables -/

/-- The characters of a key. -/
def isKeyChar (c : Char) : Bool := c.isAlphanum || c == '_'

/-- A table with the key begins here: the name is not the end of a longer one, and stands in
the code. -/
def begins_table (key before rest : List Char) : Bool :=
  decide (mode_behind before = .code) && !before.head?.any isKeyChar &&
    opens_table key (bare .code rest)

/-- The key of the table whose brace comes next; empty where there is none. -/
def key_before (before : List Char) : List Char :=
  match before.dropWhile isSpace with
  | ':' :: more => ((more.dropWhile isSpace).takeWhile isKeyChar).reverse
  | _ => []

/-- The key of the innermost table around a place. -/
def enclosing_key (before : List Char) : Option (List Char) :=
  (braces.open_at 0 (bare_before before)).map fun distance =>
    key_before ((bare_before before).drop (distance + 1))

example : enclosing_key "art: \x7b message : # \x7d \n \x7b a: \x7b \x7d ".toList.reverse =
    some "message".toList := by decide +kernel

/-- A table begins with its name. -/
theorem prefix_of_begins_table (hkey : PlainName key) (h : begins_table key before rest = true) :
    key <+: rest := by
  unfold begins_table at h
  simp only [Bool.and_eq_true] at h
  exact prefix_of_bare hkey.no_space (prefix_of_opens_table h.2)

/-! ## The name before a brace -/

/-- A text ends with a name, but for blanks. -/
def KeyAtEnd (before name : List Char) : Prop :=
  ∃ head blanks, before = head ++ name ++ blanks ∧ (∀ c ∈ blanks, c = ' ') ∧
    ∀ c, head.getLast? = some c → isSpace c = true

theorem without_blanks_append {name blanks : List Char} (hblanks : ∀ c ∈ blanks, c = ' ')
    (hname : ∀ c, name.getLast? = some c → c ≠ ' ') : without_blanks (name ++ blanks) = name := by
  unfold without_blanks
  rw [List.reverse_append, dropWhile_word, List.reverse_reverse]
  · intro c hc
    exact beq_iff_eq.mpr (hblanks c (List.mem_reverse.mp hc))
  · intro c hc
    rw [List.head?_reverse] at hc
    exact beq_eq_false_iff_ne.mpr (hname c hc)

theorem exists_without_blanks (before : List Char) :
    ∃ blanks, before = without_blanks before ++ blanks ∧ ∀ c ∈ blanks, c = ' ' := by
  refine ⟨(before.reverse.takeWhile (· == ' ')).reverse, ?_, fun c hc => ?_⟩
  · unfold without_blanks
    rw [← List.reverse_append, List.takeWhile_append_dropWhile, List.reverse_reverse]
  · have hall := List.all_eq_true.mp List.all_takeWhile c (List.mem_reverse.mp hc)
    exact eq_of_beq hall

/-- The last word of a text, blanks aside, is the name at its end. -/
theorem last_word_eq_iff {name : List Char} (hne : name ≠ [])
    (hname : ∀ c ∈ name, isSpace c = false) :
    last_word (without_blanks before) = name ↔ KeyAtEnd before name := by
  constructor
  · intro h
    obtain ⟨blanks, heq, hblanks⟩ := exists_without_blanks before
    refine ⟨((without_blanks before).reverse.dropWhile fun c => !isSpace c).reverse, blanks, ?_,
      hblanks, fun c hc => ?_⟩
    · conv_lhs => rw [heq]
      rw [← h, last_word, ← List.reverse_append, List.takeWhile_append_dropWhile,
        List.reverse_reverse]
    · rw [List.getLast?_reverse] at hc
      have hstop := List.head?_dropWhile_not (fun c => !isSpace c) (without_blanks before).reverse
      rw [hc] at hstop
      simpa using hstop
  · rintro ⟨head, blanks, rfl, hblanks, hhead⟩
    have hlast : ∀ c, (head ++ name).getLast? = some c → c ≠ ' ' := by
      intro c hc hblank
      rw [List.getLast?_append_of_ne_nil _ hne] at hc
      have hspace := hname c (List.mem_of_getLast? hc)
      rw [hblank] at hspace
      revert hspace
      decide
    rw [without_blanks_append hblanks hlast, last_word, List.reverse_append, takeWhile_word,
      List.reverse_reverse]
    · intro c hc
      rw [hname c (List.mem_reverse.mp hc)]
      rfl
    · intro c hc
      rw [List.head?_reverse] at hc
      rw [hhead c hc]
      rfl

/-- The last colon before a place. -/
theorem rindex_colon_eq {stop : ℕ} {tail : List Char} (h : text.take stop = before ++ ':' :: tail)
    (htail : ':' ∉ tail) : rindex_colon text stop = .ok before.length := by
  have hfirst : first_at (fun rest => decide (rest.head? = some ':')) (text.take stop).reverse =
      some tail.length := by
    have hreverse : (text.take stop).reverse = tail.reverse ++ ':' :: before.reverse := by
      rw [h]
      simp
    rw [hreverse]
    refine first_at_eq_some.mpr ⟨by simp, ?_, fun j hj => ?_⟩
    · rw [← List.length_reverse, List.drop_left]
      rfl
    · rw [List.drop_append_of_le_length (by rw [List.length_reverse]; exact hj.le)]
      have hj' : j < tail.reverse.length := by rwa [List.length_reverse]
      rw [List.drop_eq_getElem_cons hj', decide_eq_false_iff_not]
      intro heq
      have hcolon : tail.reverse[j] = ':' := Option.some.inj heq
      exact htail (List.mem_reverse.mp (hcolon ▸ List.getElem_mem hj'))
  have hlength : (text.take stop).length = before.length + tail.length + 1 := by
    rw [h]
    simp
    omega
  unfold rindex_colon
  rw [hfirst]
  dsimp only
  congr 1
  omega

/-- The name before a brace is the word before the last colon. -/
theorem name_before_eq {open_brace_loc : Option ℕ} {tail : List Char}
    (h : text.take (open_brace_loc.getD (text.length - 1)) = before ++ ':' :: tail)
    (htail : ':' ∉ tail) (hbefore : ∃ c ∈ before, c ≠ ' ') :
    name_before text open_brace_loc = .ok (last_word (without_blanks before)) := by
  have htake : text.take before.length = before := by
    have hstarts : before <+: text.take (open_brace_loc.getD (text.length - 1)) := by
      rw [h]
      exact List.prefix_append _ _
    exact (List.prefix_iff_eq_take.mp (hstarts.trans (List.take_prefix _ _))).symm
  have hblank : before.all (· == ' ') ≠ true := by
    intro hall
    obtain ⟨c, hc, hne⟩ := hbefore
    exact hne (eq_of_beq (List.all_eq_true.mp hall c hc))
  unfold name_before
  rw [rindex_colon_eq h htail]
  simp only [Except.map, before_colon]
  rw [htake, if_neg hblank]

/-- The brace that is open at a place, among those from `searchstart` on. -/
def opening (document : List Char) (searchstart place : ℕ) : Option ℕ :=
  (braces.open_at 0 ((document.take place).drop searchstart).reverse).map fun distance =>
    place - 1 - distance

/-- The name of the enclosing table is read before the brace that is open at the first place of the
word. -/
theorem enclosing_table_name_eq {searchstart loc place : ℕ}
    (hfind : find key text searchstart = some loc) (hle : loc ≤ place)
    (hopens : opens_table key (text.drop place) = true) :
    enclosing_table_name text key searchstart = name_before text (opening text searchstart loc) := by
  have hclosing : first_at (fun rest => rest.head? = some braces.opening ||
      rest.head? = some braces.closing) (text.drop loc) ≠ none := by
    intro hnone
    obtain ⟨spaces, spaces', tail, heq, -⟩ := opens_table_iff.mp hopens
    have hfail := first_at_eq_none.mp hnone
      (place - loc + (key ++ spaces ++ ':' :: spaces').length)
    rw [List.drop_drop, ← Nat.add_assoc, Nat.add_sub_cancel' hle, ← List.drop_drop, heq,
      List.drop_left] at hfail
    simp at hfail
  obtain ⟨closing, hclosing⟩ := Option.ne_none_iff_exists'.mp hclosing
  unfold enclosing_table_name enclosing_table_range opening
  rw [hfind, Option.bind_some, hclosing]
  cases braces.open_at 0 ((text.take loc).drop searchstart).reverse with
  | none => rfl
  | some distance => rfl

/-! ## The key before a brace -/

/-- Characters of a kind without `#`, slashes and quotes do not leave the code. -/
theorem next_code {c : Char} {test : Char → Bool} (hc : test c = true)
    (htest : test '#' = false ∧ test '/' = false ∧ test '"' = false ∧
      test (Char.ofNat 39) = false) : Mode.next .code c = .code := by
  obtain ⟨hhash, hslash, hquote, hsingle⟩ := htest
  have hne : ∀ d, test d = false → c ≠ d := by
    rintro d hd rfl
    rw [hd] at hc
    cases hc
  have hsingle' : c.toNat ≠ 39 := by
    intro h
    exact hne _ hsingle (by rw [← h, Char.ofNat_toNat])
  show Mode.behind_code c = .code
  unfold Mode.behind_code
  rw [if_neg (hne _ hhash), if_neg (hne _ hslash), if_neg (hne _ hquote), if_neg hsingle']

theorem not_isKeyChar_of_space {c : Char} (h : isSpace c = true) : isKeyChar c = false := by
  have hval : c.val ≤ 0x20 ∨ 0x85 ≤ c.val := by
    have hmem := of_decide_eq_true h
    generalize c.val = v at hmem ⊢
    revert v
    exact forall_of_all (by decide)
  unfold isKeyChar
  delta Char.isAlphanum
  delta Char.isAlpha
  delta Char.isUpper Char.isLower Char.isDigit
  by_contra hkey
  simp only [Bool.not_eq_false, Bool.or_eq_true, beq_iff_eq, Bool.and_eq_true, decide_eq_true_eq,
    UInt32.le_iff_toNat_le, ge_iff_le] at hkey hval
  rcases hkey with hkey | rfl
  · simp at hkey hval
    omega
  · revert hval
    decide

/-- A text whose characters do not leave the code is bare. -/
theorem bare_before_append {word : List Char} (hbefore : mode_behind before = .code)
    (hword : ∀ c ∈ word, Mode.next .code c = .code) :
    mode_behind (word ++ before) = .code ∧
      bare_before (word ++ before) = word ++ bare_before before := by
  induction word with
  | nil => exact ⟨hbefore, rfl⟩
  | cons c word ih =>
    obtain ⟨hmode, hbare⟩ := ih fun d hd => hword d (List.mem_cons_of_mem c hd)
    have hnext : mode_behind (c :: (word ++ before)) = .code := by
      have hc := hword c List.mem_cons_self
      rw [← hmode] at hc
      exact hc.trans hmode
    refine ⟨hnext, ?_⟩
    rw [List.cons_append, bare_before, if_pos hnext, hbare, List.cons_append]

theorem bare_before_drop (before : List Char) (n : ℕ) :
    (bare_before before).drop n = bare_before (before.drop n) := by
  induction before generalizing n with
  | nil => simp [bare_before]
  | cons c before ih =>
    cases n with
    | zero => rfl
    | succ n => exact ih n

/-- A table whose key is written plainly: a word, blanks, a colon and white space, outside comments
and strings. -/
def PlainKey (before name : List Char) : Prop :=
  ∃ head blanks spaces, before = head ++ name ++ blanks ++ ':' :: spaces ∧
    mode_behind head.reverse = .code ∧ (∀ c, head.getLast? = some c → isSpace c = true) ∧
    name ≠ [] ∧ (∀ c ∈ name, isKeyChar c = true) ∧ (∀ c ∈ blanks, c = ' ') ∧
    ∀ c ∈ spaces, isSpace c = true

/-- The key of such a table is its name. -/
theorem PlainKey.key_before {name : List Char} (h : PlainKey before name) :
    key_before (bare_before before.reverse) = name := by
  obtain ⟨head, blanks, spaces, rfl, hmode, hhead, hne, hname, hblanks, hspaces⟩ := h
  have hcode : ∀ c ∈ spaces.reverse ++ ':' :: (blanks.reverse ++ name.reverse),
      Mode.next .code c = .code := by
    intro c hc
    rcases List.mem_append.mp hc with hc | hc
    · exact next_code (hspaces c (List.mem_reverse.mp hc)) (by decide)
    rcases List.mem_cons.mp hc with rfl | hc
    · decide
    rcases List.mem_append.mp hc with hc | hc
    · rw [hblanks c (List.mem_reverse.mp hc)]
      decide
    · exact next_code (hname c (List.mem_reverse.mp hc)) (by decide)
  have hreverse : (head ++ name ++ blanks ++ ':' :: spaces).reverse =
      spaces.reverse ++ ':' :: (blanks.reverse ++ name.reverse) ++ head.reverse := by
    simp
  obtain ⟨-, hbare⟩ := bare_before_append hmode hcode
  have hspaces' : ∀ c ∈ spaces.reverse, isSpace c = true :=
    fun c hc => hspaces c (List.mem_reverse.mp hc)
  have hblanks' : ∀ c ∈ blanks.reverse, isSpace c = true := by
    intro c hc
    rw [hblanks c (List.mem_reverse.mp hc)]
    decide
  have hname' : ∀ c ∈ name.reverse, isKeyChar c = true :=
    fun c hc => hname c (List.mem_reverse.mp hc)
  -- the word before the blanks ends where the text before it ends or has white space
  have hstop : ∀ c, (bare_before head.reverse).head? = some c → isKeyChar c = false := by
    intro c hc
    cases hlast : head.reverse with
    | nil =>
      rw [hlast] at hc
      cases hc
    | cons d rest =>
      have hd : isSpace d = true := by
        refine hhead d ?_
        rw [← List.head?_reverse, hlast]
        rfl
      rw [hlast, bare_before, List.head?_cons, Option.some.injEq] at hc
      rw [← hc]
      split_ifs
      · exact not_isKeyChar_of_space hd
      · decide
  have hword : ∀ c, (name.reverse ++ bare_before head.reverse).head? = some c →
      isSpace c = false := by
    intro c hc
    obtain ⟨k, rest, hk⟩ := List.exists_cons_of_ne_nil (List.reverse_ne_nil_iff.mpr hne)
    rw [hk] at hc
    obtain rfl : k = c := Option.some.inj hc
    by_contra hspace
    have hkey := hname' k (by rw [hk]; exact List.mem_cons_self)
    rw [not_isKeyChar_of_space (by simpa using hspace)] at hkey
    cases hkey
  rw [hreverse, hbare, List.append_assoc, List.cons_append, List.append_assoc, key_before,
    dropWhile_word hspaces' (by rintro c ⟨⟩; decide)]
  show (((blanks.reverse ++ (name.reverse ++ bare_before head.reverse)).dropWhile
    isSpace).takeWhile isKeyChar).reverse = name
  rw [dropWhile_word hblanks' hword, takeWhile_word hname' hstop, List.reverse_reverse]

/-- The word before its brace is its name, too. -/
theorem PlainKey.name_before {name : List Char} {brace : ℕ}
    (h : PlainKey (text.take brace) name) : name_before text (some brace) = .ok name := by
  obtain ⟨head, blanks, spaces, heq, -, hhead, hne, hname, hblanks, hspaces⟩ := h
  have hno : ∀ c ∈ name, isSpace c = false := by
    intro c hc
    by_contra hspace
    have hkey := hname c hc
    rw [not_isKeyChar_of_space (by simpa using hspace)] at hkey
    cases hkey
  have hcolon : ':' ∉ spaces := by
    intro hc
    have hspace := hspaces _ hc
    revert hspace
    decide
  have hnonblank : ∃ c ∈ head ++ name ++ blanks, c ≠ ' ' := by
    obtain ⟨k, rest, rfl⟩ := List.exists_cons_of_ne_nil hne
    refine ⟨k, by simp, ?_⟩
    rintro rfl
    have hspace := hno ' ' List.mem_cons_self
    revert hspace
    decide
  have htake : text.take ((some brace).getD (text.length - 1)) =
      head ++ name ++ blanks ++ ':' :: spaces := heq
  rw [name_before_eq htake hcolon hnonblank]
  exact congrArg _ ((last_word_eq_iff hne hno).mpr ⟨head, blanks, rfl, hblanks, hhead⟩)

/-! ## Where the context is right -/

/-- The tables that count for the tables inside them. -/
def special_tables : List (List Char) := "message".toList :: enclosing_sender_tables

/-- Their names are words. -/
theorem special_tables_plain :
    ∀ special ∈ special_tables, special ≠ [] ∧ ∀ c ∈ special, isSpace c = false := by
  intro special hmem
  have hwords : ∀ special ∈ special_tables,
      special ≠ [] ∧ special.all (fun c => !isSpace c) = true := forall_of_all (by decide)
  obtain ⟨hne, hall⟩ := hwords special hmem
  refine ⟨hne, fun c hc => ?_⟩
  simpa using List.all_eq_true.mp hall c hc

/-- The context of a table is that of the innermost table around it. -/
def ContextRight (key : List Char) (loop : TableLoop) (table_start : ℕ) : Prop :=
  (enclosing_table_name loop.document key loop.searchstart = .ok "message".toList ↔
      enclosing_key (loop.document.take table_start).reverse = some "message".toList) ∧
    (loop.inter_subsystem_transfer = true ↔ ∃ name ∈ enclosing_sender_tables,
      enclosing_key (loop.document.take table_start).reverse = some name)

/-- From `searchstart` on, the word first stands in the same table as `table_start`; the brace of
that table is not before `searchstart`, and its key is written plainly. -/
def InTable (key : List Char) (loop : TableLoop) (table_start : ℕ) (name : List Char) : Prop :=
  ∃ loc brace, find key loop.document loop.searchstart = some loc ∧
    opening loop.document loop.searchstart loc = some brace ∧
    braces.open_at 0 (bare_before (loop.document.take table_start).reverse) =
      some (table_start - 1 - brace) ∧
    PlainKey (loop.document.take brace) name

/-- `table_start` is at top level or in another table than those that count, and the last colon
before the brace that is open where the word first stands, or before the end of the document, is not
that of a table that counts. -/
def Elsewhere (key : List Char) (loop : TableLoop) (table_start : ℕ) : Prop :=
  (∀ name ∈ special_tables,
      enclosing_key (loop.document.take table_start).reverse ≠ some name) ∧
    ∃ loc before tail, find key loop.document loop.searchstart = some loc ∧
      loop.document.take ((opening loop.document loop.searchstart loc).getD
        (loop.document.length - 1)) = before ++ ':' :: tail ∧
      ':' ∉ tail ∧ (∃ c ∈ before, c ≠ ' ') ∧ ∀ name ∈ special_tables, ¬ KeyAtEnd before name

section Loop

variable {generate : List Char → Bool → Except String (List Char)} {loop : TableLoop}
  {table_start table_end : ℕ}

theorem opening_lt {searchstart loc brace : ℕ} (h : opening text searchstart loc = some brace) :
    brace < loc := by
  obtain ⟨distance, hopen, rfl⟩ := Option.map_eq_some_iff.mp h
  obtain ⟨before, hdrop⟩ := Brackets.open_at_spec hopen
  have hlt : distance < ((text.take loc).drop searchstart).reverse.length := by
    by_contra hge
    rw [List.drop_eq_nil_of_le (by omega)] at hdrop
    cases hdrop
  rw [List.length_reverse, List.length_drop, List.length_take] at hlt
  omega

/-- A table with the plain key is around the table. -/
theorem InTable.enclosing_key {name : List Char} (hlength : table_start ≤ loop.document.length)
    (hle : ∀ loc, find key loop.document loop.searchstart = some loc → loc ≤ table_start)
    (h : InTable key loop table_start name) :
    enclosing_key (loop.document.take table_start).reverse = some name := by
  obtain ⟨loc, brace, hfind, hopening, hopen, hplain⟩ := h
  have hlt : brace < table_start := (opening_lt hopening).trans_le (hle loc hfind)
  have hdrop : ((loop.document.take table_start).reverse).drop (table_start - 1 - brace + 1) =
      (loop.document.take brace).reverse := by
    have heq : (loop.document.take table_start).length - (table_start - 1 - brace + 1) = brace := by
      rw [List.length_take]
      omega
    rw [List.drop_reverse, heq, List.take_take, min_eq_left hlt.le]
  rw [DaqInterface.enclosing_key, hopen, Option.map_some, bare_before_drop, hdrop, hplain.key_before]

/-- Where a table of the search stands in a plain table, or elsewhere, its context is right. -/
theorem Ranged.context (hkey : PlainName key) (hloop : Ranged key loop)
    (hrange : loop.range = some (table_start, table_end))
    (h : (∃ name, InTable key loop table_start name) ∨ Elsewhere key loop table_start) :
    ContextRight key loop table_start := by
  have htable := hloop.table hkey hrange
  have hlength : table_start ≤ loop.document.length := htable.lt.le.trans htable.le_length
  have hle : ∀ loc, find key loop.document loop.searchstart = some loc → loc ≤ table_start := by
    intro loc hfind
    obtain ⟨-, -, hfirst⟩ := find_eq_some hfind
    by_contra hlt
    exact hfirst table_start htable.le (by omega) (prefix_of_opens_table htable.opens)
  obtain ⟨name, hname, hinter⟩ := Loop.map_eq_ok.mp hloop.inter
  have hinter' : loop.inter_subsystem_transfer = true ↔ name ∈ enclosing_sender_tables := by
    rw [← hinter]
    exact decide_eq_true_iff
  rcases h with ⟨name', h⟩ | ⟨henclosing, loc, before, tail, hfind, htake, htail, hnonblank, hother⟩
  · have henclosing := h.enclosing_key hlength hle
    obtain ⟨loc, brace, hfind, hopening, -, hplain⟩ := h
    have hread := enclosing_table_name_eq hfind (hle loc hfind) htable.opens
    rw [hopening, hplain.name_before] at hread
    obtain rfl := Except.ok.inj (hname.symm.trans hread)
    constructor
    · rw [hname, henclosing, Except.ok.injEq, Option.some.injEq]
    · rw [hinter', henclosing]
      simp only [Option.some.injEq, exists_eq_right']
  · have hread := enclosing_table_name_eq hfind (hle loc hfind) htable.opens
    rw [name_before_eq htake htail hnonblank] at hread
    obtain rfl := Except.ok.inj (hname.symm.trans hread)
    have hnone : ∀ special ∈ special_tables, last_word (without_blanks before) ≠ special := by
      intro special hmem heq
      obtain ⟨hne, hword⟩ := special_tables_plain special hmem
      exact hother special hmem ((last_word_eq_iff hne hword).mp heq)
    constructor
    · rw [hname, Except.ok.injEq]
      exact iff_of_false (hnone _ List.mem_cons_self) (henclosing _ List.mem_cons_self)
    · rw [hinter']
      refine iff_of_false (fun hmem => hnone _ (List.mem_cons_of_mem _ hmem) rfl) ?_
      rintro ⟨special, hmem, heq⟩
      exact henclosing special (List.mem_cons_of_mem _ hmem) heq

end Loop

namespace Bookkeeping

variable {self : Bookkeeping} {c : Computed} {p : Procinfo} {nodetype : NodeType}
  {max_event_size : ℤ} {loop : TableLoop} {table_start table_end : ℕ}

/-- In each turn over the tables of a document where the table stands in a plain table in
which the word stands first, or elsewhere, the name that is compared and the flag are those of the
innermost table around it. -/
theorem context_of_table (hnames : self.PlainNames)
    (hsource : ¬ "@local::".toList <:+: p.document.toList)
    (hvisited : Visited nodetype.tablename.toList p.document.toList
      (self.table_text c p nodetype max_event_size) loop)
    (hrange : loop.range = some (table_start, table_end))
    (h : (∃ name, InTable nodetype.tablename.toList loop table_start name) ∨
      Elsewhere nodetype.tablename.toList loop table_start) :
    ContextRight nodetype.tablename.toList loop table_start :=
  (hvisited.ranged (tablename_plain nodetype) hnames.no_references hsource).context
    (tablename_plain nodetype) hrange h

/-- Nothing is computed: all fragments have the same size. -/
def nothing_computed : Computed := ⟨[], ⟨fun _ => 0, fun _ => [], []⟩, [], [], []⟩

/-- An EventBuilder with a table for another subsystem. -/
def builder_with_output : Procinfo :=
  ranked .EventBuilder 1
    "outputs: \x7b binaryNetOutput: \x7b destinations: \x7b \x7d \x7d \x7d \n"

/-- The table of the EventBuilder is one for another subsystem. -/
theorem output_context :
    ∃ loop, Visited NodeType.destinations.tablename.toList builder_with_output.document.toList
        ((reader_to_logger false "" "" "").table_text nothing_computed builder_with_output
          .destinations 10240) loop ∧
      loop.inter_subsystem_transfer = true ∧
      ContextRight NodeType.destinations.tablename.toList loop 30 := by
  have hnames : (reader_to_logger false "" "" "").PlainNames :=
    ⟨by decide, by decide, by decide⟩
  have htest : (TableLoop.start NodeType.destinations.tablename.toList
      builder_with_output.document.toList).toOption.any (fun loop =>
        decide (loop.range = some (30, 47)) && loop.inter_subsystem_transfer) = true := by
    decide +kernel
  obtain ⟨loop, hstart, htest⟩ := Loop.exists_of_any htest
  simp only [Bool.and_eq_true, decide_eq_true_eq] at htest
  obtain ⟨hrange, hinter⟩ := htest
  obtain ⟨hdocument, hsearchstart, -, -⟩ := resume_fields hstart
  have hvisited : Visited NodeType.destinations.tablename.toList
      builder_with_output.document.toList ((reader_to_logger false "" "" "").table_text
        nothing_computed builder_with_output .destinations 10240) loop := .start hstart
  have hin : InTable NodeType.destinations.tablename.toList loop 30 "binaryNetOutput".toList := by
    have hlast : ∀ c, "outputs: \x7b ".toList.getLast? = some c → isSpace c = true := by
      rintro c ⟨⟩
      decide
    unfold InTable
    rw [hdocument, hsearchstart]
    exact ⟨30, 28, by decide +kernel, by decide +kernel, by decide +kernel,
      "outputs: \x7b ".toList, [], " ".toList, by decide +kernel, by decide +kernel, hlast,
      by decide, forall_of_all (by decide), forall_of_all (by decide), forall_of_all (by decide)⟩
  exact ⟨loop, hvisited, hinter,
    context_of_table hnames (by decide +kernel) hvisited hrange (Or.inl ⟨_, hin⟩)⟩

/-- An EventBuilder whose label in a `message` table begins with the name of its table. -/
def builder_with_label : Procinfo :=
  ranked .EventBuilder 1
    "art: \x7b message: \x7b label: sources_list \x7d \x7d sources: \x7b \x7d \n"

/-- The table of the EventBuilder at top level counts as one inside the `message` table: the
search for the table around it finds the label. -/
theorem label_context :
    ¬ ∀ loop, Visited NodeType.sources.tablename.toList builder_with_label.document.toList
        ((reader_to_logger false "" "" "").table_text nothing_computed builder_with_label
          .sources 10240) loop →
      ∀ table_start table_end, loop.range = some (table_start, table_end) →
        ContextRight NodeType.sources.tablename.toList loop table_start := by
  intro hright
  have htest : (TableLoop.start NodeType.sources.tablename.toList
      builder_with_label.document.toList).toOption.any (fun loop =>
        decide (loop.range = some (42, 54)) && decide (enclosing_table_name loop.document
          NodeType.sources.tablename.toList loop.searchstart = .ok "message".toList) &&
        decide (enclosing_key (loop.document.take 42).reverse = none)) = true := by
    decide +kernel
  obtain ⟨loop, hstart, htest⟩ := Loop.exists_of_any htest
  simp only [Bool.and_eq_true, decide_eq_true_eq] at htest
  obtain ⟨⟨hrange, hname⟩, hnone⟩ := htest
  have hmessage := (hright loop (.start hstart) 42 54 hrange).1.mp hname
  rw [hnone] at hmessage
  cases hmessage

end Bookkeeping

end DaqInterface
