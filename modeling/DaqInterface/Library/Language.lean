import DaqInterface.Library.Pattern
import Mathlib.Computability.Language

/-!
# The language of an expression

Which texts an expression can read does not depend on the order in which its ways are tried:
`language` is the usual language of a regular expression, and backtracking finds a way exactly if
the language has a word at the place (`exists_way_iff`).  So `search` succeeds exactly if some part
of the text is a word (`search_isSome_iff`), and the groups are those at the first place where a
word begins (`search_eq_of_first`).
-/

namespace Pattern

open Language

/-- The texts that an expression can read. -/
def language : Pattern → Language Char
  | empty => 1
  | char ok => {word | ∃ c, ok c = true ∧ word = [c]}
  | many ok => {word | ∀ c ∈ word, ok c = true}
  | few ok => {word | ∀ c ∈ word, ok c = true}
  | seq p q => p.language * q.language
  | alt p q => p.language + q.language
  | group p => p.language

variable {p q : Pattern} {text rest word : List Char}

/-! ## Words and ways -/

theorem exists_run_iff {ok : Char → Bool} :
    rest ∈ runs ok text ↔ ∃ word ∈ (many ok).language, text = word ++ rest := by
  rw [mem_runs]
  exact ⟨fun ⟨front, htext, hall⟩ => ⟨front, hall, htext⟩,
    fun ⟨word, hword, htext⟩ => ⟨word, htext, hword⟩⟩

/-- An expression can leave a rest exactly if it has a word in front of it. -/
theorem exists_way_iff :
    (∃ groups, (groups, rest) ∈ p.ways text) ↔ ∃ word ∈ p.language, text = word ++ rest := by
  induction p generalizing text rest with
  | empty =>
    constructor
    · rintro ⟨groups, h⟩
      obtain ⟨-, rfl⟩ := Prod.mk.inj (List.mem_singleton.mp h)
      exact ⟨[], Language.nil_mem_one, rfl⟩
    · rintro ⟨word, hword, rfl⟩
      obtain rfl := (Language.mem_one word).mp hword
      exact ⟨[], List.mem_singleton_self _⟩
  | char ok =>
    constructor
    · rintro ⟨groups, h⟩
      cases text with
      | nil => exact absurd h List.not_mem_nil
      | cons c cs =>
        unfold ways at h
        split_ifs at h with hc
        · obtain ⟨-, rfl⟩ := Prod.mk.inj (List.mem_singleton.mp h)
          exact ⟨[c], ⟨c, hc, rfl⟩, rfl⟩
        · exact absurd h List.not_mem_nil
    · rintro ⟨word, ⟨c, hc, rfl⟩, rfl⟩
      refine ⟨[], ?_⟩
      rw [List.singleton_append, ways, if_pos hc]
      exact List.mem_singleton_self _
  | many ok =>
    rw [← exists_run_iff]
    constructor
    · rintro ⟨groups, h⟩
      obtain ⟨rest', hrest, heq⟩ := List.mem_map.mp h
      obtain ⟨-, rfl⟩ := Prod.mk.inj heq
      exact hrest
    · exact fun h => ⟨[], List.mem_map.mpr ⟨rest, h, rfl⟩⟩
  | few ok =>
    have hmany : (∃ groups, (groups, rest) ∈ (few ok).ways text) ↔ rest ∈ runs ok text := by
      constructor
      · rintro ⟨groups, h⟩
        obtain ⟨rest', hrest, heq⟩ := List.mem_map.mp h
        obtain ⟨-, rfl⟩ := Prod.mk.inj heq
        exact List.mem_reverse.mp hrest
      · exact fun h => ⟨[], List.mem_map.mpr ⟨rest, List.mem_reverse.mpr h, rfl⟩⟩
    rw [hmany]
    exact exists_run_iff
  | seq p q ihp ihq =>
    constructor
    · rintro ⟨groups, h⟩
      obtain ⟨⟨groups₁, middle⟩, hfirst, ⟨groups₂, rest'⟩, hsecond, heq⟩ := mem_ways_seq.mp h
      obtain ⟨-, rfl⟩ := Prod.mk.inj heq
      obtain ⟨word₁, hword₁, rfl⟩ := ihp.mp ⟨groups₁, hfirst⟩
      obtain ⟨word₂, hword₂, hmiddle⟩ := ihq.mp ⟨groups₂, hsecond⟩
      refine ⟨word₁ ++ word₂, Language.append_mem_mul hword₁ hword₂, ?_⟩
      rw [List.append_assoc, ← hmiddle]
    · rintro ⟨word, hword, rfl⟩
      obtain ⟨word₁, hword₁, word₂, hword₂, rfl⟩ := Language.mem_mul.mp hword
      obtain ⟨groups₁, hfirst⟩ := ihp.mpr ⟨word₁, hword₁, List.append_assoc _ _ _⟩
      obtain ⟨groups₂, hsecond⟩ := ihq.mpr ⟨word₂, hword₂, rfl⟩
      exact ⟨_, mem_ways_seq.mpr ⟨_, hfirst, _, hsecond, rfl⟩⟩
  | alt p q ihp ihq =>
    constructor
    · rintro ⟨groups, h⟩
      rcases List.mem_append.mp h with h | h
      · obtain ⟨word, hword, htext⟩ := ihp.mp ⟨groups, h⟩
        exact ⟨word, Or.inl hword, htext⟩
      · obtain ⟨word, hword, htext⟩ := ihq.mp ⟨groups, h⟩
        exact ⟨word, Or.inr hword, htext⟩
    · rintro ⟨word, hword | hword, htext⟩
      · obtain ⟨groups, h⟩ := ihp.mpr ⟨word, hword, htext⟩
        exact ⟨groups, List.mem_append_left _ h⟩
      · obtain ⟨groups, h⟩ := ihq.mpr ⟨word, hword, htext⟩
        exact ⟨groups, List.mem_append_right _ h⟩
  | group p ih =>
    refine Iff.trans ?_ ih
    constructor
    · rintro ⟨groups, h⟩
      obtain ⟨⟨groups', rest'⟩, hway, heq⟩ := List.mem_map.mp h
      obtain ⟨-, rfl⟩ := Prod.mk.inj heq
      exact ⟨groups', hway⟩
    · rintro ⟨groups, h⟩
      exact ⟨_, List.mem_map.mpr ⟨(groups, rest), h, rfl⟩⟩

/-- An expression matches at the start of a text exactly if the text begins with one of its words. -/
theorem at_start_isSome_iff :
    (p.at_start text).isSome = true ↔ ∃ word ∈ p.language, word <+: text := by
  constructor
  · intro h
    obtain ⟨⟨groups, rest⟩, hfirst⟩ := Option.isSome_iff_exists.mp h
    obtain ⟨word, hword, htext⟩ := exists_way_iff.mp ⟨groups, List.mem_of_head? hfirst⟩
    exact ⟨word, hword, rest, htext.symm⟩
  · rintro ⟨word, hword, rest, htext⟩
    obtain ⟨groups, hway⟩ := exists_way_iff.mpr ⟨word, hword, htext.symm⟩
    unfold at_start
    cases hways : p.ways text with
    | nil =>
      rw [hways] at hway
      exact absurd hway List.not_mem_nil
    | cons m more => rfl

/-- What is searched for is found exactly if some part of the text is a word of its language. -/
theorem search_isSome_iff :
    (p.search text).isSome = true ↔ ∃ word ∈ p.language, word <:+: text := by
  induction text with
  | nil =>
    rw [search, Option.isSome_map, at_start_isSome_iff]
    constructor
    · rintro ⟨word, hword, h⟩
      exact ⟨word, hword, h.isInfix⟩
    · rintro ⟨word, hword, h⟩
      exact ⟨word, hword, by rw [List.infix_nil.mp h]⟩
  | cons c cs ih =>
    have hcons : (∃ word ∈ p.language, word <:+: c :: cs) ↔
        (∃ word ∈ p.language, word <+: c :: cs) ∨ ∃ word ∈ p.language, word <:+: cs := by
      constructor
      · rintro ⟨word, hword, h⟩
        rcases List.infix_cons_iff.mp h with h | h
        · exact Or.inl ⟨word, hword, h⟩
        · exact Or.inr ⟨word, hword, h⟩
      · rintro (⟨word, hword, h⟩ | ⟨word, hword, h⟩)
        · exact ⟨word, hword, h.isInfix⟩
        · exact ⟨word, hword, List.infix_cons h⟩
    rw [hcons, ← at_start_isSome_iff, ← ih, search]
    cases p.at_start (c :: cs) with
    | none => simp
    | some m => simp

/-- The groups are those at the first place where a word begins. -/
theorem search_eq_of_first {front : List Char} {m : Match} (hm : p.at_start text = some m)
    (hfront : ∀ before behind, front = before ++ behind → behind ≠ [] →
      ∀ word ∈ p.language, ¬ word <+: behind ++ text) :
    p.search (front ++ text) = some m.1 := by
  induction front with
  | nil =>
    rw [List.nil_append]
    cases text with
    | nil =>
      rw [search, hm]
      rfl
    | cons c cs => rw [search, hm]
  | cons c front ih =>
    have hnone : p.at_start (c :: (front ++ text)) = none := by
      rw [← Option.not_isSome_iff_eq_none, at_start_isSome_iff]
      rintro ⟨word, hword, hprefix⟩
      exact hfront [] (c :: front) rfl (List.cons_ne_nil c front) word hword hprefix
    rw [List.cons_append, search, hnone]
    exact ih fun before behind hsplit hne =>
      hfront (c :: before) behind (congrArg (c :: ·) hsplit) hne

/-! ## The words of an expression -/

theorem mem_text {s : String} : word ∈ (Pattern.text s).language ↔ word = s.toList := by
  unfold Pattern.text
  induction s.toList generalizing word with
  | nil => exact Language.mem_one word
  | cons c cs ih =>
    rw [List.foldr_cons]
    constructor
    · intro h
      obtain ⟨first, ⟨d, hd, rfl⟩, more, hmore, rfl⟩ := Language.mem_mul.mp h
      rw [ih.mp hmore, beq_iff_eq.mp hd]
      rfl
    · rintro rfl
      exact Language.append_mem_mul (a := [c]) ⟨c, beq_self_eq_true c, rfl⟩ (ih.mpr rfl)

theorem mem_row_nil : word ∈ (row []).language ↔ word = [] := Language.mem_one word

theorem mem_row_cons {ps : List Pattern} :
    word ∈ (row (p :: ps)).language ↔
      ∃ front ∈ p.language, ∃ back ∈ (row ps).language, word = front ++ back := by
  constructor
  · intro h
    obtain ⟨front, hfront, back, hback, heq⟩ := Language.mem_mul.mp h
    exact ⟨front, hfront, back, hback, heq.symm⟩
  · rintro ⟨front, hfront, back, hback, rfl⟩
    exact Language.append_mem_mul hfront hback

theorem mem_row_append {ps qs : List Pattern} :
    word ∈ (row (ps ++ qs)).language ↔
      ∃ front ∈ (row ps).language, ∃ back ∈ (row qs).language, word = front ++ back := by
  induction ps generalizing word with
  | nil =>
    rw [List.nil_append]
    exact ⟨fun h => ⟨[], mem_row_nil.mpr rfl, word, h, rfl⟩, fun ⟨front, hfront, back, hback, heq⟩ => by
      rwa [heq, mem_row_nil.mp hfront]⟩
  | cons p ps ih =>
    rw [List.cons_append, mem_row_cons]
    constructor
    · rintro ⟨first, hfirst, rest, hrest, rfl⟩
      obtain ⟨front, hfront, back, hback, rfl⟩ := ih.mp hrest
      exact ⟨first ++ front, mem_row_cons.mpr ⟨first, hfirst, front, hfront, rfl⟩, back, hback,
        (List.append_assoc _ _ _).symm⟩
    · rintro ⟨_, hboth, back, hback, rfl⟩
      obtain ⟨first, hfirst, front, hfront, rfl⟩ := mem_row_cons.mp hboth
      exact ⟨first, hfirst, front ++ back, ih.mpr ⟨front, hfront, back, hback, rfl⟩,
        List.append_assoc _ _ _⟩

theorem mem_many {ok : Char → Bool} : word ∈ (many ok).language ↔ ∀ c ∈ word, ok c = true := Iff.rfl

theorem mem_char {ok : Char → Bool} :
    word ∈ (char ok).language ↔ ∃ c, ok c = true ∧ word = [c] := Iff.rfl

theorem mem_some_of {ok : Char → Bool} :
    word ∈ (some_of ok).language ↔ word ≠ [] ∧ ∀ c ∈ word, ok c = true := by
  constructor
  · intro h
    obtain ⟨first, ⟨c, hc, rfl⟩, more, hmore, rfl⟩ := Language.mem_mul.mp h
    exact ⟨List.cons_ne_nil c more, List.forall_mem_cons.mpr ⟨hc, hmore⟩⟩
  · rintro ⟨hne, hall⟩
    cases word with
    | nil => exact absurd rfl hne
    | cons c cs =>
      obtain ⟨hc, hcs⟩ := List.forall_mem_cons.mp hall
      exact Language.append_mem_mul (a := [c]) ⟨c, hc, rfl⟩ hcs

end Pattern
