import Mathlib.Tactic

/-!
# Regular expressions

Regular expressions without anchors, matched by backtracking: `ways` lists the matches at
the start of a text in the order in which they are tried.  `search`, `findall` and `sub`
are the functions of that name, for expressions that match no empty text.
-/

/-- A regular expression. -/
inductive Pattern
  /-- Nothing. -/
  | empty
  /-- A character. -/
  | char (ok : Char → Bool)
  /-- Characters, as many as possible. -/
  | many (ok : Char → Bool)
  /-- Characters, as few as possible. -/
  | few (ok : Char → Bool)
  /-- One behind the other. -/
  | seq (p q : Pattern)
  /-- The first or the second. -/
  | alt (p q : Pattern)
  /-- A group whose text is kept. -/
  | group (p : Pattern)

namespace Pattern

/-- A match: the texts of the groups, and what is left of the text. -/
abbrev Match : Type := List (List Char) × List Char

/-- The places up to which the first characters can be read, the last place first. -/
@[grind =] def runs (ok : Char → Bool) : List Char → List (List Char)
  | [] => [[]]
  | c :: cs => if ok c then runs ok cs ++ [c :: cs] else [c :: cs]

/-- The matches at the start of a text. -/
@[grind =] def ways : Pattern → List Char → List Match
  | empty, text => [([], text)]
  | char _, [] => []
  | char ok, c :: cs => if ok c then [([], cs)] else []
  | many ok, text => (runs ok text).map fun rest => ([], rest)
  | few ok, text => (runs ok text).reverse.map fun rest => ([], rest)
  | seq p q, text =>
    (p.ways text).flatMap fun (groups, rest) =>
      (q.ways rest).map fun (groups', rest') => (groups ++ groups', rest')
  | alt p q, text => p.ways text ++ q.ways text
  | group p, text =>
    (p.ways text).map fun (groups, rest) =>
      (text.take (text.length - rest.length) :: groups, rest)

/-- The match at the start of a text. -/
def at_start (p : Pattern) (text : List Char) : Option Match := (p.ways text).head?

/-- The groups of the first match in a text. -/
def search (p : Pattern) : List Char → Option (List (List Char))
  | [] => (p.at_start []).map Prod.fst
  | c :: cs =>
    match p.at_start (c :: cs) with
    | some (groups, _) => some groups
    | none => p.search cs

/-- The groups of all matches in a text, behind the first characters, which belong to an
earlier match. -/
def findall_from (p : Pattern) : ℕ → List Char → List (List (List Char))
  | _, [] => []
  | skip + 1, _ :: cs => p.findall_from skip cs
  | 0, c :: cs =>
    match p.at_start (c :: cs) with
    | some (groups, rest) => groups :: p.findall_from (cs.length - rest.length) cs
    | none => p.findall_from 0 cs

/-- The groups of all matches in a text. -/
def findall (p : Pattern) (text : List Char) : List (List (List Char)) := p.findall_from 0 text

/-- The text with its matches replaced, behind the first characters, which belong to an
earlier match. -/
def sub_from (p : Pattern) (replacement : List (List Char) → List Char) :
    ℕ → List Char → List Char
  | _, [] => []
  | skip + 1, _ :: cs => p.sub_from replacement skip cs
  | 0, c :: cs =>
    match p.at_start (c :: cs) with
    | some (groups, rest) =>
      replacement groups ++ p.sub_from replacement (cs.length - rest.length) cs
    | none => c :: p.sub_from replacement 0 cs

/-- The text with its matches replaced; the replacement may use the groups. -/
def sub (p : Pattern) (replacement : List (List Char) → List Char) (text : List Char) :
    List Char := p.sub_from replacement 0 text

/-- The places and the texts of all matches in a text that begins at a place, behind the first
characters, which belong to an earlier match. -/
def finditer_from (p : Pattern) : ℕ → ℕ → List Char → List (ℕ × List Char)
  | _, _, [] => []
  | place, skip + 1, _ :: cs => p.finditer_from (place + 1) skip cs
  | place, 0, c :: cs =>
    match p.at_start (c :: cs) with
    | some (_, rest) =>
      (place, (c :: cs).take (cs.length + 1 - rest.length)) ::
        p.finditer_from (place + 1) (cs.length - rest.length) cs
    | none => p.finditer_from (place + 1) 0 cs

/-- The places and the texts of all matches in a text. -/
def finditer (p : Pattern) (text : List Char) : List (ℕ × List Char) := p.finditer_from 0 0 text

/-! ## Building expressions -/

/-- One character or more, as many as possible. -/
def some_of (ok : Char → Bool) : Pattern := seq (char ok) (many ok)

/-- A text. -/
def text (s : String) : Pattern := s.toList.foldr (fun c p => seq (char fun d => d == c) p) empty

/-- Several expressions, one behind the other. -/
def row (ps : List Pattern) : Pattern := ps.foldr seq empty

example : (row [text "ab", many (· == 'c'), group (some_of Char.isDigit)]).findall
    "abcc12abab7".toList = [["12".toList], ["7".toList]] := by decide

/-! ## Groups that are not empty -/

theorem mem_ways_seq {p q : Pattern} {text : List Char} {m : Match} :
    m ∈ (seq p q).ways text ↔
      ∃ first ∈ p.ways text, ∃ second ∈ q.ways first.2, m = (first.1 ++ second.1, second.2) := by
  simp only [ways, List.mem_flatMap, List.mem_map]
  constructor
  · rintro ⟨first, hfirst, second, hsecond, rfl⟩
    exact ⟨first, hfirst, second, hsecond, rfl⟩
  · rintro ⟨first, hfirst, second, hsecond, rfl⟩
    exact ⟨first, hfirst, second, hsecond, rfl⟩

/-- What `many` leaves is not longer than what it was given. -/
theorem length_of_mem_runs {ok : Char → Bool} {text rest : List Char} (h : rest ∈ runs ok text) :
    rest.length ≤ text.length := by
  induction text with
  | nil =>
    rw [List.mem_singleton.mp h]
  | cons c cs ih =>
    unfold runs at h
    split_ifs at h
    · rcases List.mem_append.mp h with h | h
      · exact (ih h).trans (Nat.le_succ _)
      · rw [List.mem_singleton.mp h]
    · rw [List.mem_singleton.mp h]

/-- A group of one character or more keeps at least one. -/
theorem group_some_of {ok : Char → Bool} {text : List Char} {m : Match}
    (h : m ∈ (group (some_of ok)).ways text) : ∃ g, m.1 = [g] ∧ g ≠ [] := by
  simp only [ways, List.mem_map] at h
  obtain ⟨inner, hinner, rfl⟩ := h
  obtain ⟨first, hfirst, second, hsecond, rfl⟩ := mem_ways_seq.mp hinner
  cases text with
  | nil => exact absurd hfirst List.not_mem_nil
  | cons c cs =>
    simp only [ways] at hfirst
    split_ifs at hfirst
    · obtain rfl := List.mem_singleton.mp hfirst
      simp only [ways, List.mem_map] at hsecond
      obtain ⟨rest, hrest, rfl⟩ := hsecond
      have hlength := length_of_mem_runs hrest
      have htake : (c :: cs).length - rest.length ≠ 0 := by
        rw [List.length_cons]
        omega
      refine ⟨_, rfl, fun hnil => ?_⟩
      rcases List.take_eq_nil_iff.mp hnil with hzero | hnil
      · exact htake hzero
      · exact List.cons_ne_nil c cs hnil
    · exact absurd hfirst List.not_mem_nil

/-- All matches have a last group that is not empty. -/
def KeepsLast (p : Pattern) : Prop :=
  ∀ text, ∀ m ∈ p.ways text, ∃ g, m.1.getLast? = some g ∧ g ≠ []

theorem KeepsLast.seq {p q : Pattern} (hq : q.KeepsLast) : (seq p q).KeepsLast := by
  intro text m hm
  obtain ⟨first, -, second, hsecond, rfl⟩ := mem_ways_seq.mp hm
  obtain ⟨g, hlast, hne⟩ := hq first.2 second hsecond
  exact ⟨g, by rw [List.getLast?_append, hlast]; rfl, hne⟩

/-- A row that ends with a group of one character or more. -/
theorem keepsLast_row {ok : Char → Bool} (ps : List Pattern) :
    (row (ps ++ [group (some_of ok)])).KeepsLast := by
  induction ps with
  | nil =>
    intro text m hm
    obtain ⟨first, hfirst, second, hsecond, rfl⟩ := mem_ways_seq.mp hm
    obtain ⟨g, hgroups, hne⟩ := group_some_of hfirst
    obtain rfl := List.mem_singleton.mp hsecond
    exact ⟨g, by rw [hgroups]; rfl, hne⟩
  | cons p ps ih => exact ih.seq

/-- The last group of what is found at the start of a text. -/
theorem KeepsLast.at_start {p : Pattern} (hp : p.KeepsLast) {text : List Char} {m : Match}
    (h : p.at_start text = some m) : ∃ g, m.1.getLast? = some g ∧ g ≠ [] :=
  hp text m (List.mem_of_head? h)

/-! ## A character behind the text -/

/-- Nothing is left of no text. -/
theorem left_of_nil (p : Pattern) {m : Match} (h : m ∈ p.ways []) : m.2 = [] := by
  induction p generalizing m with
  | empty => rw [List.mem_singleton.mp h]
  | char ok => exact absurd h List.not_mem_nil
  | many ok =>
    obtain ⟨rest, hrest, rfl⟩ := List.mem_map.mp h
    exact List.mem_singleton.mp hrest
  | few ok =>
    obtain ⟨rest, hrest, rfl⟩ := List.mem_map.mp h
    exact List.mem_singleton.mp hrest
  | seq p q ihp ihq =>
    obtain ⟨first, hfirst, second, hsecond, rfl⟩ := mem_ways_seq.mp h
    rw [ihp hfirst] at hsecond
    have hleft := ihq hsecond
    exact hleft
  | alt p q ihp ihq =>
    rcases List.mem_append.mp h with h | h
    · exact ihp h
    · exact ihq h
  | group p ih =>
    obtain ⟨inner, hinner, rfl⟩ := List.mem_map.mp h
    have hleft := ih hinner
    exact hleft

/-- What is left is not longer than the text. -/
theorem length_left_le (p : Pattern) {text : List Char} {m : Match} (h : m ∈ p.ways text) :
    m.2.length ≤ text.length := by
  induction p generalizing text m with
  | empty => rw [List.mem_singleton.mp h]
  | char ok =>
    cases text with
    | nil => exact absurd h List.not_mem_nil
    | cons c cs =>
      unfold ways at h
      split_ifs at h
      · rw [List.mem_singleton.mp h]
        exact Nat.le_succ _
      · exact absurd h List.not_mem_nil
  | many ok =>
    obtain ⟨rest, hrest, rfl⟩ := List.mem_map.mp h
    exact length_of_mem_runs hrest
  | few ok =>
    obtain ⟨rest, hrest, rfl⟩ := List.mem_map.mp h
    exact length_of_mem_runs (List.mem_reverse.mp hrest)
  | seq p q ihp ihq =>
    obtain ⟨first, hfirst, second, hsecond, rfl⟩ := mem_ways_seq.mp h
    exact (ihq hsecond).trans (ihp hfirst)
  | alt p q ihp ihq =>
    rcases List.mem_append.mp h with h | h
    · exact ihp h
    · exact ihq h
  | group p ih =>
    obtain ⟨inner, hinner, rfl⟩ := List.mem_map.mp h
    have hle := ih hinner
    exact hle

/-- A match that leaves the text in front of a further character. -/
def Match.push (c : Char) (m : Match) : Match := (m.1, m.2 ++ [c])

/-- The places up to which characters can be read, the end of the longer text aside. -/
theorem runs_append (ok : Char → Bool) (text : List Char) (c : Char) :
    (runs ok (text ++ [c])).filter (fun rest => rest ≠ []) =
      (runs ok text).map fun rest => rest ++ [c] := by
  induction text with
  | nil =>
    simp only [List.nil_append, runs]
    split_ifs <;> simp
  | cons d ds ih =>
    simp only [List.cons_append, runs]
    split_ifs
    · rw [List.filter_append, ih, List.map_append]
      simp
    · simp

/-- With a character behind the text, an expression has the same matches, and perhaps some that
leave nothing. -/
theorem ways_append (p : Pattern) (text : List Char) (c : Char) :
    (p.ways (text ++ [c])).filter (fun m => m.2 ≠ []) = (p.ways text).map (Match.push c) := by
  induction p generalizing text with
  | empty => simp [ways, Match.push]
  | char ok =>
    cases text with
    | nil =>
      simp only [List.nil_append, ways]
      split_ifs <;> simp
    | cons d ds =>
      simp only [List.cons_append, ways]
      split_ifs <;> simp [Match.push]
  | many ok =>
    have hruns := congrArg (List.map fun rest => (([], rest) : Match)) (runs_append ok text c)
    rw [List.map_map] at hruns
    simp only [ways, List.filter_map, List.map_map]
    exact hruns
  | few ok =>
    have hruns := congrArg (fun l => List.map (fun rest => (([], rest) : Match)) l.reverse)
      (runs_append ok text c)
    rw [← List.filter_reverse, ← List.map_reverse, List.map_map] at hruns
    simp only [ways, List.filter_map, List.map_map]
    exact hruns
  | seq p q ihp ihq =>
    -- behind a match that leaves nothing, the second part leaves nothing either
    have hnone : ∀ first : Match, first.2 = [] →
        ((q.ways first.2).map fun second => ((first.1 ++ second.1, second.2) : Match)).filter
          (fun m => m.2 ≠ []) = [] := by
      intro first hfirst
      refine List.filter_eq_nil_iff.mpr fun m hm => ?_
      obtain ⟨second, hsecond, rfl⟩ := List.mem_map.mp hm
      rw [hfirst] at hsecond
      simp [left_of_nil q hsecond]
    have hsome : ∀ first : Match,
        ((q.ways (first.2 ++ [c])).map fun second =>
          ((first.1 ++ second.1, second.2) : Match)).filter (fun m => m.2 ≠ []) =
        ((q.ways first.2).map fun second =>
          ((first.1 ++ second.1, second.2) : Match)).map (Match.push c) := by
      intro first
      rw [List.filter_map]
      have hq := congrArg (List.map fun second => ((first.1 ++ second.1, second.2) : Match))
        (ihq first.2)
      rw [List.map_map] at hq ⊢
      exact hq
    calc ((seq p q).ways (text ++ [c])).filter (fun m => m.2 ≠ [])
        = (p.ways (text ++ [c])).flatMap fun first =>
            ((q.ways first.2).map fun second => ((first.1 ++ second.1, second.2) : Match)).filter
              (fun m => m.2 ≠ []) := by rw [ways, List.filter_flatMap]
      _ = ((p.ways (text ++ [c])).filter fun m => m.2 ≠ []).flatMap fun first =>
            ((q.ways first.2).map fun second => ((first.1 ++ second.1, second.2) : Match)).filter
              (fun m => m.2 ≠ []) := by
          induction p.ways (text ++ [c]) with
          | nil => rfl
          | cons first rest ih =>
            rw [List.flatMap_cons, ih, List.filter_cons]
            by_cases hfirst : first.2 = []
            · rw [hnone first hfirst]
              simp [hfirst]
            · simp [hfirst]
      _ = ((seq p q).ways text).map (Match.push c) := by
          rw [ihp, List.flatMap_map, ways, List.map_flatMap]
          exact List.flatMap_congr fun first _ => hsome first
  | alt p q ihp ihq =>
    simp only [ways, List.filter_append, ihp, ihq, List.map_append]
  | group p ih =>
    have hgroup := congrArg (List.map fun m : Match =>
      (((text ++ [c]).take ((text ++ [c]).length - m.2.length) :: m.1, m.2) : Match)) (ih text)
    simp only [ways, List.filter_map, List.map_map] at hgroup ⊢
    refine Eq.trans hgroup (List.map_congr_left fun m hm => ?_)
    have hle := length_left_le p hm
    simp only [Function.comp, Match.push, List.length_append, List.length_singleton]
    rw [show text.length + 1 - (m.2.length + 1) = text.length - m.2.length by omega,
      List.take_append_of_le_length (Nat.sub_le _ _)]

/-- No match reads the given character at the end of a text. -/
def Leaves (c : Char) (p : Pattern) : Prop :=
  ∀ text, ∀ m ∈ p.ways (text ++ [c]), m.2 ≠ []

/-- Such an expression finds the same groups with and without the character. -/
theorem Leaves.at_start {c : Char} {p : Pattern} (hp : p.Leaves c) (text : List Char) :
    p.at_start (text ++ [c]) = (p.at_start text).map (Match.push c) := by
  have hall : (p.ways (text ++ [c])).filter (fun m => m.2 ≠ []) = p.ways (text ++ [c]) :=
    List.filter_eq_self.mpr fun m hm => by simpa using hp text m hm
  unfold Pattern.at_start
  rw [← hall, ways_append, List.head?_map]

/-- A match of the first part that leaves something leaves the character. -/
theorem left_append {c : Char} {p : Pattern} {text : List Char} {m : Match}
    (hm : m ∈ p.ways (text ++ [c])) (hleft : m.2 ≠ []) : ∃ rest, m.2 = rest ++ [c] := by
  have hmem : m ∈ (p.ways (text ++ [c])).filter (fun m => m.2 ≠ []) :=
    List.mem_filter.mpr ⟨hm, by simpa using hleft⟩
  rw [ways_append] at hmem
  obtain ⟨inner, -, rfl⟩ := List.mem_map.mp hmem
  exact ⟨inner.2, rfl⟩

theorem Leaves.seq {c : Char} {p q : Pattern} (hp : p.Leaves c) (hq : q.Leaves c) :
    (seq p q).Leaves c := by
  intro text m hm
  obtain ⟨first, hfirst, second, hsecond, rfl⟩ := mem_ways_seq.mp hm
  obtain ⟨rest, hrest⟩ := left_append hfirst (hp text first hfirst)
  rw [hrest] at hsecond
  exact hq rest second hsecond

/-- The second part needs a character. -/
theorem Leaves.seq_right {c : Char} {p q : Pattern} (hq : q.Leaves c) (hnil : q.ways [] = []) :
    (Pattern.seq p q).Leaves c := by
  intro text m hm
  obtain ⟨first, hfirst, second, hsecond, rfl⟩ := mem_ways_seq.mp hm
  by_cases hleft : first.2 = []
  · rw [hleft, hnil] at hsecond
    exact absurd hsecond List.not_mem_nil
  · obtain ⟨rest, hrest⟩ := left_append hfirst hleft
    rw [hrest] at hsecond
    exact hq rest second hsecond

theorem ways_seq_nil {p q : Pattern} (hnil : q.ways [] = []) : (Pattern.seq p q).ways [] = [] := by
  refine List.eq_nil_iff_forall_not_mem.mpr fun m hm => ?_
  obtain ⟨first, hfirst, second, hsecond, -⟩ := mem_ways_seq.mp hm
  rw [left_of_nil p hfirst, hnil] at hsecond
  exact absurd hsecond List.not_mem_nil

theorem leaves_empty (c : Char) : empty.Leaves c := by
  intro text m hm
  rw [List.mem_singleton.mp hm]
  simp

theorem leaves_char {c : Char} {ok : Char → Bool} (hc : ok c = false) : (char ok).Leaves c := by
  intro text m hm
  cases text with
  | nil => simp [ways, hc] at hm
  | cons d ds =>
    simp only [List.cons_append, ways] at hm
    split_ifs at hm
    · rw [List.mem_singleton.mp hm]
      simp
    · exact absurd hm List.not_mem_nil

theorem leaves_many {c : Char} {ok : Char → Bool} (hc : ok c = false) : (many ok).Leaves c := by
  intro text m hm
  obtain ⟨rest, hrest, rfl⟩ := List.mem_map.mp hm
  clear hm
  induction text with
  | nil =>
    have hruns : runs ok [c] = [[c]] := by simp [runs, hc]
    rw [List.nil_append, hruns] at hrest
    rw [List.mem_singleton.mp hrest]
    simp
  | cons d ds ih =>
    simp only [List.cons_append, runs] at hrest
    split_ifs at hrest
    · rcases List.mem_append.mp hrest with hrest | hrest
      · exact ih hrest
      · rw [List.mem_singleton.mp hrest]
        simp
    · rw [List.mem_singleton.mp hrest]
      simp

theorem Leaves.group {c : Char} {p : Pattern} (hp : p.Leaves c) : (group p).Leaves c := by
  intro text m hm
  obtain ⟨inner, hinner, rfl⟩ := List.mem_map.mp hm
  exact hp text inner hinner

theorem Leaves.alt {c : Char} {p q : Pattern} (hp : p.Leaves c) (hq : q.Leaves c) :
    (alt p q).Leaves c := by
  intro text m hm
  rcases List.mem_append.mp hm with hm | hm
  · exact hp text m hm
  · exact hq text m hm

/-- An expression that needs a character and does not read the given one at the end. -/
structure Stops (c : Char) (p : Pattern) : Prop where
  leaves : p.Leaves c
  nil : p.ways [] = []

/-- What stands before such an expression may read the character. -/
theorem Stops.seq {c : Char} {q : Pattern} (p : Pattern) (hq : q.Stops c) :
    (Pattern.seq p q).Stops c := ⟨hq.leaves.seq_right hq.nil, ways_seq_nil hq.nil⟩

theorem Stops.seq_empty {c : Char} {p : Pattern} (hp : p.Stops c) :
    (Pattern.seq p Pattern.empty).Stops c := by
  refine ⟨hp.leaves.seq (leaves_empty c), ?_⟩
  simp [ways, hp.nil]

theorem Stops.group {c : Char} {p : Pattern} (hp : p.Stops c) : (Pattern.group p).Stops c := by
  refine ⟨hp.leaves.group, ?_⟩
  simp [ways, hp.nil]

theorem Stops.alt {c : Char} {p q : Pattern} (hp : p.Stops c) (hq : q.Stops c) :
    (Pattern.alt p q).Stops c := by
  refine ⟨hp.leaves.alt hq.leaves, ?_⟩
  simp [ways, hp.nil, hq.nil]

theorem stops_some_of {c : Char} {ok : Char → Bool} (hc : ok c = false) : (some_of ok).Stops c :=
  ⟨(leaves_char hc).seq (leaves_many hc), rfl⟩

/-- A text that does not end with the character. -/
theorem stops_text {c : Char} {s : String} (hs : s.toList ≠ [])
    (hlast : s.toList.getLast? ≠ some c) : (text s).Stops c := by
  unfold text
  generalize s.toList = cs at hs hlast
  induction cs with
  | nil => exact absurd rfl hs
  | cons d ds ih =>
    rw [List.foldr_cons]
    cases ds with
    | nil =>
      have hd : (c == d) = false :=
        beq_eq_false_iff_ne.mpr fun heq => hlast (congrArg some heq.symm)
      exact Stops.seq_empty ⟨leaves_char hd, rfl⟩
    | cons e es => exact (ih (List.cons_ne_nil _ _) (by simpa using hlast)).seq _

/-- A row that ends with such an expression. -/
theorem stops_row {c : Char} {p : Pattern} (ps : List Pattern) (hp : p.Stops c) :
    (row (ps ++ [p])).Stops c := by
  induction ps with
  | nil => exact hp.seq_empty
  | cons q qs ih => exact ih.seq q

/-! ## The way that is tried first -/

/-- A text is read where it stands. -/
theorem ways_text (word : String) (rest : List Char) :
    (text word).ways (word.toList ++ rest) = [([], rest)] := by
  unfold text
  induction word.toList with
  | nil => rfl
  | cons c cs ih =>
    rw [List.foldr_cons, List.cons_append, ways]
    simp [ways, ih]

/-- A text is read nowhere else. -/
theorem ways_text_eq_nil {word : String} {rest : List Char} (h : ¬ word.toList <+: rest) :
    (text word).ways rest = [] := by
  unfold text
  generalize word.toList = cs at h
  induction cs generalizing rest with
  | nil => exact absurd List.nil_prefix h
  | cons c cs ih =>
    rw [List.foldr_cons]
    cases rest with
    | nil => rfl
    | cons d ds =>
      by_cases heq : d = c
      · have hrest : ¬ cs <+: ds := fun hp => h (heq ▸ List.cons_prefix_cons.mpr ⟨rfl, hp⟩)
        simp [ways, heq, ih hrest]
      · simp [ways, heq]

/-- What `many` leaves is the end of what it was given. -/
theorem suffix_of_mem_runs {ok : Char → Bool} {text rest : List Char} (h : rest ∈ runs ok text) :
    rest <:+ text := by
  induction text with
  | nil =>
    rw [List.mem_singleton.mp h]
  | cons c cs ih =>
    unfold runs at h
    split_ifs at h
    · rcases List.mem_append.mp h with h | h
      · exact (ih h).trans (List.suffix_cons c cs)
      · rw [List.mem_singleton.mp h]
    · rw [List.mem_singleton.mp h]

/-- Behind characters that it reads, `many` first tries the places behind them. -/
theorem runs_append_of_all (ok : Char → Bool) {front : List Char} (rest : List Char)
    (h : ∀ c ∈ front, ok c = true) : ∃ more, runs ok (front ++ rest) = runs ok rest ++ more := by
  induction front with
  | nil => exact ⟨[], (List.append_nil _).symm⟩
  | cons c cs ih =>
    obtain ⟨more, hmore⟩ := ih fun d hd => h d (List.mem_cons_of_mem _ hd)
    refine ⟨more ++ [c :: (cs ++ rest)], ?_⟩
    rw [List.cons_append, runs, if_pos (h c List.mem_cons_self), hmore, List.append_assoc]

/-- `many` first reads all characters that it can read. -/
theorem runs_head? (ok : Char → Bool) (text : List Char) :
    (runs ok text).head? = some (text.dropWhile ok) := by
  induction text with
  | nil => rfl
  | cons c cs ih =>
    unfold runs
    by_cases hc : ok c = true
    · rw [if_pos hc, List.head?_append, ih, List.dropWhile_cons_of_pos hc]
      rfl
    · rw [if_neg hc, List.dropWhile_cons_of_neg hc]
      rfl

/-- The match of two expressions, where the second matches behind none of the ways that are
tried before a certain one. -/
theorem at_start_seq {p q : Pattern} {text : List Char} {skipped more : List Match} {first m : Match}
    (hp : p.ways text = skipped ++ first :: more) (hskipped : ∀ w ∈ skipped, q.ways w.2 = [])
    (hq : q.at_start first.2 = some m) :
    (seq p q).at_start text = some (first.1 ++ m.1, m.2) := by
  have hnone : (skipped.flatMap fun w => (q.ways w.2).map fun w' => (w.1 ++ w'.1, w'.2)) = [] := by
    refine List.flatMap_eq_nil_iff.mpr fun w hw => ?_
    rw [hskipped w hw, List.map_nil]
  obtain ⟨ways', hways⟩ : ∃ ways', q.ways first.2 = m :: ways' := List.head?_eq_some_iff.mp hq
  unfold Pattern.at_start
  rw [ways, hp, List.flatMap_append]
  simp only [hnone, List.nil_append, List.flatMap_cons, hways, List.map_cons, List.cons_append,
    List.head?_cons]

/-! ## Expressions with one way to match -/

theorem ways_seq_assoc (p q r : Pattern) (text : List Char) :
    (seq (seq p q) r).ways text = (seq p (seq q r)).ways text := by
  simp only [ways, List.flatMap_assoc, List.map_flatMap, List.flatMap_map, List.map_map,
    Function.comp_def, List.append_assoc]

theorem ways_seq_empty (p : Pattern) (text : List Char) : (seq p empty).ways text = p.ways text := by
  simp [ways]

/-- An expression that matches no text that begins with one of certain characters. -/
def Avoids (ok : Char → Bool) (p : Pattern) : Prop :=
  ∀ c rest, ok c = true → p.ways (c :: rest) = []

theorem Avoids.seq {ok : Char → Bool} {p : Pattern} (hp : p.Avoids ok) (q : Pattern) :
    (seq p q).Avoids ok := by
  intro c rest hc
  rw [ways, hp c rest hc]
  rfl

theorem Avoids.group {ok : Char → Bool} {p : Pattern} (hp : p.Avoids ok) :
    (group p).Avoids ok := by
  intro c rest hc
  rw [ways, hp c rest hc]
  rfl

theorem avoids_char {ok ok' : Char → Bool} (h : ∀ c, ok c = true → ok' c = false) :
    (char ok').Avoids ok := by
  intro c rest hc
  rw [ways, if_neg (by rw [h c hc]; exact Bool.false_ne_true)]

theorem avoids_text {ok : Char → Bool} {word : String} (hne : word.toList ≠ [])
    (h : ∀ c, word.toList.head? = some c → ok c = false) : (text word).Avoids ok := by
  intro c rest hc
  refine ways_text_eq_nil fun hprefix => ?_
  obtain ⟨d, ds, hword⟩ := List.exists_cons_of_ne_nil hne
  rw [hword] at hprefix h
  obtain ⟨rfl, -⟩ := List.cons_prefix_cons.mp hprefix
  have hno := h d rfl
  rw [hno] at hc
  cases hc

/-- In front of such an expression, all of the characters are read. -/
theorem ways_many_seq {ok : Char → Bool} {q : Pattern} (hq : q.Avoids ok) (text : List Char) :
    (seq (many ok) q).ways text = q.ways (text.dropWhile ok) := by
  induction text with
  | nil => simp [ways, runs]
  | cons c cs ih =>
    by_cases hc : ok c = true
    · rw [List.dropWhile_cons_of_pos hc, ← ih]
      simp [ways, runs, hc, hq c cs hc]
    · rw [List.dropWhile_cons_of_neg hc]
      simp [ways, runs, hc]

/-- A text, and something behind it. -/
theorem ways_text_seq (word : String) (q : Pattern) (t : List Char) :
    (seq (text word) q).ways t =
      if word.toList <+: t then q.ways (t.drop word.toList.length) else [] := by
  split_ifs with hprefix
  · obtain ⟨rest, rfl⟩ := hprefix
    rw [List.drop_left, ways, ways_text]
    simp
  · rw [ways, ways_text_eq_nil hprefix]
    rfl

/-- Some characters of a kind: all there are. -/
theorem at_start_some_of (ok : Char → Bool) (text : List Char) :
    (some_of ok).at_start text =
      if text.head?.any ok then some ([], text.dropWhile ok) else none := by
  cases text with
  | nil => rfl
  | cons c cs =>
    unfold Pattern.at_start some_of
    by_cases hc : ok c = true
    · rw [List.dropWhile_cons_of_pos hc]
      simp [ways, hc, runs_head?]
    · simp [ways, hc]

theorem at_start_seq_empty (p : Pattern) (text : List Char) :
    (seq p empty).at_start text = p.at_start text := by
  unfold Pattern.at_start
  rw [ways_seq_empty]

theorem at_start_many_seq {ok : Char → Bool} {q : Pattern} (hq : q.Avoids ok) (text : List Char) :
    (seq (many ok) q).at_start text = q.at_start (text.dropWhile ok) := by
  unfold Pattern.at_start
  rw [ways_many_seq hq]

theorem at_start_text_seq (word : String) (q : Pattern) (t : List Char) :
    (seq (text word) q).at_start t =
      if word.toList <+: t then q.at_start (t.drop word.toList.length) else none := by
  unfold Pattern.at_start
  rw [ways_text_seq]
  split_ifs <;> rfl

theorem at_start_group (p : Pattern) (text : List Char) :
    (group p).at_start text = (p.at_start text).map fun m =>
      (text.take (text.length - m.2.length) :: m.1, m.2) := by
  unfold Pattern.at_start
  rw [ways, List.head?_map]

/-! ## Some way to match -/

/-- Two expressions without groups, one behind the other. -/
theorem mem_ways_seq_of {p q : Pattern} {text middle rest : List Char}
    (hp : ([], middle) ∈ p.ways text) (hq : ([], rest) ∈ q.ways middle) :
    ([], rest) ∈ (seq p q).ways text :=
  mem_ways_seq.mpr ⟨([], middle), hp, ([], rest), hq, rfl⟩

theorem mem_ways_text (word : String) (rest : List Char) :
    ([], rest) ∈ (text word).ways (word.toList ++ rest) := by
  rw [ways_text]
  exact List.mem_singleton_self _

theorem self_mem_runs (ok : Char → Bool) (text : List Char) : text ∈ runs ok text := by
  cases text with
  | nil => exact List.mem_singleton_self _
  | cons c cs =>
    unfold runs
    split_ifs
    · exact List.mem_append_right _ (List.mem_singleton_self _)
    · exact List.mem_singleton_self _

/-- What can be matched at some place is found. -/
theorem search_isSome_of_mem {p : Pattern} {m : Match} (front : List Char) {text : List Char}
    (h : m ∈ p.ways text) : (p.search (front ++ text)).isSome = true := by
  have hstart : ∃ m', p.at_start text = some m' := by
    unfold Pattern.at_start
    cases hways : p.ways text with
    | nil =>
      rw [hways] at h
      exact absurd h List.not_mem_nil
    | cons m' more => exact ⟨m', rfl⟩
  obtain ⟨m', hm'⟩ := hstart
  induction front with
  | nil =>
    cases text with
    | nil =>
      rw [List.nil_append, search, hm']
      rfl
    | cons c cs =>
      rw [List.nil_append, search, hm']
      rfl
  | cons c front ih =>
    rw [List.cons_append, search]
    cases p.at_start (c :: (front ++ text)) with
    | none => exact ih
    | some m => rfl

/-! ## A text in front of an expression -/

theorem mem_runs {ok : Char → Bool} {text rest : List Char} :
    rest ∈ runs ok text ↔ ∃ front, text = front ++ rest ∧ ∀ c ∈ front, ok c = true := by
  constructor
  · intro h
    induction text with
    | nil =>
      rw [List.mem_singleton.mp h]
      exact ⟨[], rfl, fun c hc => absurd hc List.not_mem_nil⟩
    | cons c cs ih =>
      unfold runs at h
      split_ifs at h with hc
      · rcases List.mem_append.mp h with h | h
        · obtain ⟨front, hfront, hall⟩ := ih h
          exact ⟨c :: front, by rw [hfront]; rfl, List.forall_mem_cons.mpr ⟨hc, hall⟩⟩
        · rw [List.mem_singleton.mp h]
          exact ⟨[], rfl, fun d hd => absurd hd List.not_mem_nil⟩
      · rw [List.mem_singleton.mp h]
        exact ⟨[], rfl, fun d hd => absurd hd List.not_mem_nil⟩
  · rintro ⟨front, rfl, hall⟩
    obtain ⟨more, hmore⟩ := runs_append_of_all ok rest hall
    rw [hmore]
    exact List.mem_append_left _ (self_mem_runs ok rest)

/-- A match of the expression behind the text, with the text in front of its first group. -/
def Match.extend (front : List Char) (m : Match) : Match :=
  ((front ++ m.1.headD []) :: m.1.tail, m.2)

/-- A group that begins with characters of a kind: the last place up to which they can be read and
behind which the rest matches. -/
theorem at_start_group_many_seq (ok : Char → Bool) (p q : Pattern) (text : List Char) :
    (seq (group (seq (many ok) p)) q).at_start text =
      (runs ok text).findSome? fun rest =>
        ((seq (group p) q).at_start rest).map
          (Match.extend (text.take (text.length - rest.length))) := by
  have hways : (seq (group (seq (many ok) p)) q).ways text =
      (runs ok text).flatMap fun rest => ((seq (group p) q).ways rest).map
        (Match.extend (text.take (text.length - rest.length))) := by
    simp only [ways, List.flatMap_map, List.map_flatMap, List.flatMap_assoc, List.map_map,
      Function.comp_def, List.nil_append]
    refine List.flatMap_congr fun rest hrest => List.flatMap_congr fun m hm => ?_
    obtain ⟨front, rfl, -⟩ := mem_runs.mp hrest
    have hle := length_left_le p hm
    have hfront : (front ++ rest).take ((front ++ rest).length - rest.length) = front := by
      rw [List.length_append, Nat.add_sub_cancel, List.take_left]
    have hgroup : (front ++ rest).take ((front ++ rest).length - m.2.length) =
        front ++ rest.take (rest.length - m.2.length) := by
      rw [List.length_append, Nat.add_sub_assoc hle, List.take_length_add_append]
    rw [hfront, hgroup]
    rfl
  unfold Pattern.at_start
  rw [hways, List.head?_flatMap]
  simp only [List.head?_map]

/-! ## The last place -/

/-- Of the places up to which characters can be read, the last one that will do. -/
theorem findSome?_runs {β : Type} {ok : Char → Bool} {f : List Char → Option β} {text : List Char}
    {b : β} (h : (runs ok text).findSome? f = some b) : ∃ front rest, text = front ++ rest ∧
      (∀ c ∈ front, ok c = true) ∧ f rest = some b ∧ ∀ skipped more, rest = skipped ++ more →
        skipped ≠ [] → (∀ c ∈ skipped, ok c = true) → f more = none := by
  induction text with
  | nil =>
    refine ⟨[], [], rfl, fun c hc => absurd hc List.not_mem_nil, ?_, ?_⟩
    · simpa [runs] using h
    · intro skipped more hrest hne
      exact absurd (List.append_eq_nil_iff.mp hrest.symm).1 hne
  | cons c cs ih =>
    unfold runs at h
    split_ifs at h with hc
    · rw [List.findSome?_append] at h
      cases hdeep : (runs ok cs).findSome? f with
      | some b' =>
        rw [hdeep] at h
        obtain rfl : b' = b := Option.some.inj h
        obtain ⟨front, rest, rfl, hfront, hrest, hlast⟩ := ih hdeep
        exact ⟨c :: front, rest, rfl, List.forall_mem_cons.mpr ⟨hc, hfront⟩, hrest, hlast⟩
      | none =>
        rw [hdeep] at h
        refine ⟨[], c :: cs, rfl, fun d hd => absurd hd List.not_mem_nil, ?_, ?_⟩
        · simpa using h
        · intro skipped more hrest hne hskipped
          obtain ⟨d, ds, rfl⟩ := List.exists_cons_of_ne_nil hne
          obtain ⟨rfl, hcs⟩ := List.cons.inj hrest
          have hmem : more ∈ runs ok cs :=
            mem_runs.mpr ⟨ds, hcs, fun e he => hskipped e (List.mem_cons_of_mem _ he)⟩
          exact List.findSome?_eq_none_iff.mp hdeep more hmem
    · refine ⟨[], c :: cs, rfl, fun d hd => absurd hd List.not_mem_nil, ?_, ?_⟩
      · simpa using h
      · intro skipped more hrest hne hskipped
        obtain ⟨d, ds, rfl⟩ := List.exists_cons_of_ne_nil hne
        obtain ⟨rfl, -⟩ := List.cons.inj hrest
        exact absurd (hskipped c List.mem_cons_self) hc

/-- A group of characters of a kind: the last place up to which they can be read and behind which
the rest matches. -/
theorem at_start_group_runs (ok : Char → Bool) (q : Pattern) (text : List Char) :
    (seq (group (many ok)) q).at_start text = (runs ok text).findSome? fun rest =>
      (q.at_start rest).map fun m => (text.take (text.length - rest.length) :: m.1, m.2) := by
  unfold Pattern.at_start
  simp only [ways, List.map_map, List.flatMap_map, List.head?_flatMap, List.head?_map,
    Function.comp_def, List.cons_append, List.nil_append]

theorem at_start_char_seq (ok : Char → Bool) (q : Pattern) (c : Char) (text : List Char) :
    (seq (char ok) q).at_start (c :: text) = if ok c then q.at_start text else none := by
  unfold Pattern.at_start
  by_cases hc : ok c = true
  · simp [ways, hc]
  · simp [ways, hc]

theorem at_start_many (ok : Char → Bool) (text : List Char) :
    (many ok).at_start text = some ([], text.dropWhile ok) := by
  unfold Pattern.at_start
  rw [ways, List.head?_map, runs_head?]
  rfl

/-- The first match of the first part, where the rest matches behind it. -/
theorem at_start_seq_of_at_start {p q : Pattern} {text : List Char} {first m : Match}
    (hp : p.at_start text = some first) (hq : q.at_start first.2 = some m) :
    (seq p q).at_start text = some (first.1 ++ m.1, m.2) := by
  obtain ⟨more, hmore⟩ := List.head?_eq_some_iff.mp hp
  exact @at_start_seq p q text [] more first m hmore (fun w hw => absurd hw List.not_mem_nil) hq

theorem at_start_seq_of_none {p q : Pattern} {text : List Char} (hp : p.at_start text = none) :
    (seq p q).at_start text = none := by
  unfold Pattern.at_start at hp ⊢
  rw [ways, List.head?_eq_none_iff.mp hp]
  rfl

/-! ## What may stand around a text -/

/-- A character that an expression avoids may stand in front of the text. -/
theorem Avoids.search {ok : Char → Bool} {p : Pattern} (hp : p.Avoids ok) {c : Char}
    (hc : ok c = true) (text : List Char) : p.search (c :: text) = p.search text := by
  rw [Pattern.search, Pattern.at_start, hp c text hc]
  rfl

/-- A character that an expression does not read at the end may stand behind the text. -/
theorem Stops.search {c : Char} {p : Pattern} (hp : p.Stops c) (text : List Char) :
    p.search (text ++ [c]) = p.search text := by
  have hnil : p.at_start [] = none := by
    unfold Pattern.at_start
    rw [hp.nil]
    rfl
  induction text with
  | nil =>
    have hc : p.at_start [c] = none := by
      have hpush := hp.leaves.at_start []
      rwa [hnil] at hpush
    rw [List.nil_append]
    conv_lhs => rw [Pattern.search, hc]
  | cons d ds ih =>
    have hpush := hp.leaves.at_start (d :: ds)
    rw [List.cons_append] at hpush ⊢
    rw [Pattern.search, hpush, Pattern.search]
    cases p.at_start (d :: ds) with
    | none => exact ih
    | some m => rfl

/-- A text that an expression begins with stands wherever it is found. -/
theorem infix_of_search {word : String} {q : Pattern} {t : List Char}
    (h : ((seq (text word) q).search t).isSome = true) : word.toList <:+: t := by
  have hstart : ∀ t, ((seq (text word) q).at_start t).isSome = true → word.toList <:+: t := by
    intro t ht
    rw [at_start_text_seq] at ht
    split_ifs at ht with hprefix
    · exact hprefix.isInfix
    · exact absurd ht Bool.false_ne_true
  induction t with
  | nil =>
    unfold Pattern.search at h
    rw [Option.isSome_map] at h
    exact hstart [] h
  | cons c cs ih =>
    unfold Pattern.search at h
    cases hfirst : (seq (text word) q).at_start (c :: cs) with
    | none =>
      rw [hfirst] at h
      exact (ih h).trans (List.suffix_cons c cs).isInfix
    | some m => exact hstart (c :: cs) (by rw [hfirst]; rfl)

end Pattern
