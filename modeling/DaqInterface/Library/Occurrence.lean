import Mathlib.Tactic

/-!
# Where a word occurs

A word that does not contain a separator lies in one of the parts of a separated text
(`infix_of_infix_intercalate`).  A word that occurs at one place only cuts a text into the same two
parts, however it is looked for (`occurs_once`).
-/

namespace Occurrence

variable {α : Type} {w a b : List α} {c : α}

/-- A word without the separator lies on one side of it. -/
theorem infix_append_cons (hc : c ∉ w) (h : w <:+: a ++ c :: b) : w <:+: a ∨ w <:+: b := by
  obtain ⟨before, after, heq⟩ := h
  rw [List.append_assoc] at heq
  rcases List.append_eq_append_iff.mp heq with ⟨more, ha, hmore⟩ | ⟨more, -, hmore⟩
  · rcases List.append_eq_append_iff.mp hmore with ⟨gap, hgap, -⟩ | ⟨gap, hgap, hback⟩
    · exact Or.inl ⟨before, gap, by rw [ha, hgap, List.append_assoc]⟩
    · cases gap with
      | nil => exact Or.inl ⟨before, [], by rw [ha, hgap]; simp⟩
      | cons d gap =>
        obtain ⟨rfl, -⟩ := List.cons.inj hback
        exact absurd (hgap ▸ List.mem_append_right _ List.mem_cons_self) hc
  · cases more with
    | nil =>
      cases w with
      | nil => exact Or.inl (List.nil_infix)
      | cons d w =>
        obtain ⟨rfl, -⟩ := List.cons.inj hmore
        exact absurd List.mem_cons_self hc
    | cons d more =>
      obtain ⟨-, hb⟩ := List.cons.inj hmore
      exact Or.inr ⟨more, after, by rw [List.append_assoc]; exact hb.symm⟩

/-- A word without the separator lies in one of the separated parts. -/
theorem infix_of_infix_intercalate (hc : c ∉ w) {parts : List (List α)} (hne : parts ≠ [])
    (h : w <:+: [c].intercalate parts) : ∃ part ∈ parts, w <:+: part := by
  induction parts with
  | nil => exact absurd rfl hne
  | cons part parts ih =>
    cases parts with
    | nil =>
      refine ⟨part, List.mem_cons_self, ?_⟩
      simpa [List.intercalate] using h
    | cons next parts =>
      have hsplit : [c].intercalate (part :: next :: parts) =
          part ++ c :: [c].intercalate (next :: parts) := by
        simp [List.intercalate]
      rw [hsplit] at h
      rcases infix_append_cons hc h with h | h
      · exact ⟨part, List.mem_cons_self, h⟩
      · obtain ⟨part', hmem, hin⟩ := ih (List.cons_ne_nil _ _) h
        exact ⟨part', List.mem_cons_of_mem _ hmem, hin⟩

/-- A word that neither begins earlier nor later occurs at one place. -/
theorem occurs_once {front back front' back' : List α} (hfront : ¬ w <:+: front ++ w.dropLast)
    (hback : ¬ w <:+: w.tail ++ back) (h : front ++ (w ++ back) = front' ++ (w ++ back')) :
    front' = front ∧ back' = back := by
  have hw : w ≠ [] := by
    rintro rfl
    exact hback List.nil_infix
  rcases List.append_eq_append_iff.mp h with ⟨gap, hgap, hrest⟩ | ⟨gap, hgap, hrest⟩
  · cases gap with
    | nil => exact ⟨by rw [hgap, List.append_nil], List.append_cancel_left hrest.symm⟩
    | cons d gap =>
      exfalso
      apply hback
      cases w with
      | nil => exact absurd rfl hw
      | cons e w =>
        refine ⟨gap, back', ?_⟩
        rw [List.tail_cons, List.append_assoc]
        rw [List.cons_append, List.cons_append] at hrest
        exact (List.cons.inj hrest).2.symm
  · cases gap with
    | nil => exact ⟨by rw [hgap, List.append_nil], List.append_cancel_left hrest⟩
    | cons d gap =>
      exfalso
      apply hfront
      have hfirst : w <+: d :: gap ++ (w ++ back) := ⟨back', hrest⟩
      have hsecond : d :: gap ++ w.dropLast <+: d :: gap ++ (w ++ back) :=
        List.prefix_append_right_inj _ |>.mpr ((List.dropLast_prefix w).trans (List.prefix_append _ _))
      have hlength : w.length ≤ (d :: gap ++ w.dropLast).length := by
        rw [List.length_append, List.length_cons, List.length_dropLast]
        omega
      have hprefix := List.prefix_of_prefix_length_le hfirst hsecond hlength
      rw [hgap, List.append_assoc]
      exact hprefix.isInfix.trans (List.suffix_append _ _).isInfix

end Occurrence
