import Mathlib.Data.List.Nodup
import Mathlib.Tactic

/-!
# Dictionaries

A dictionary that keeps its keys in the order in which they were first assigned, as an
association list; `List.lookup` looks a key up.
-/

namespace Dict

variable {κ α : Type} [DecidableEq κ]

/-- `d[key] = value`: a known key keeps its place, a new one comes last. -/
def assign (key : κ) (value : α) : List (κ × α) → List (κ × α)
  | [] => [(key, value)]
  | entry :: rest =>
    if entry.1 = key then (key, value) :: rest else entry :: assign key value rest

theorem lookup_assign (key key' : κ) (value : α) (d : List (κ × α)) :
    (assign key value d).lookup key' = if key' = key then some value else d.lookup key' := by
  induction d with
  | nil =>
    by_cases h : key' = key
    · simp [assign, h]
    · simp [assign, List.lookup_cons, beq_false_of_ne h, h]
  | cons entry rest ih =>
    obtain ⟨k, v⟩ := entry
    by_cases hk : k = key
    · subst hk
      by_cases h : key' = k
      · simp [assign, h]
      · simp [assign, List.lookup_cons, beq_false_of_ne h, h]
    · by_cases h : key' = k
      · subst h
        simp [assign, hk]
      · simp only [assign, hk, if_false, List.lookup_cons, beq_false_of_ne h]
        exact ih

/-- The keys after an assignment. -/
theorem keys_assign (key : κ) (value : α) (d : List (κ × α)) :
    (assign key value d).map Prod.fst =
      if key ∈ d.map Prod.fst then d.map Prod.fst else d.map Prod.fst ++ [key] := by
  induction d with
  | nil => rfl
  | cons entry rest ih =>
    obtain ⟨k, v⟩ := entry
    by_cases hk : k = key
    · subst hk
      simp [assign]
    · have hne : key ≠ k := fun heq => hk heq.symm
      simp only [assign, hk, if_false, List.map_cons, ih, List.mem_cons, hne, false_or]
      split_ifs <;> rfl

theorem mem_keys_assign {key key' : κ} {value : α} {d : List (κ × α)} :
    key' ∈ (assign key value d).map Prod.fst ↔ key' = key ∨ key' ∈ d.map Prod.fst := by
  rw [keys_assign]
  split_ifs with h
  · constructor
    · exact Or.inr
    · rintro (rfl | h')
      · exact h
      · exact h'
  · simp [or_comm]

/-- No key occurs twice. -/
theorem keys_nodup_assign {key : κ} {value : α} {d : List (κ × α)} (h : (d.map Prod.fst).Nodup) :
    ((assign key value d).map Prod.fst).Nodup := by
  rw [keys_assign]
  split_ifs with hmem
  · exact h
  · refine List.nodup_append.mpr ⟨h, List.nodup_singleton key, fun a ha b hb => ?_⟩
    rw [List.mem_singleton.mp hb]
    exact fun heq => hmem (heq ▸ ha)

/-- An entry is the new one or an old one. -/
theorem mem_assign {key : κ} {value : α} {d : List (κ × α)} {entry : κ × α}
    (h : entry ∈ assign key value d) : entry = (key, value) ∨ entry ∈ d := by
  induction d with
  | nil => exact Or.inl (List.mem_singleton.mp h)
  | cons first rest ih =>
    unfold assign at h
    split_ifs at h
    · exact (List.mem_cons.mp h).imp_right (List.mem_cons_of_mem first)
    · rcases List.mem_cons.mp h with rfl | h
      · exact Or.inr List.mem_cons_self
      · exact (ih h).imp_right (List.mem_cons_of_mem first)

/-- A value is the new one or an old one. -/
theorem mem_values_assign {key : κ} {value value' : α} {d : List (κ × α)}
    (h : value' ∈ (assign key value d).map Prod.snd) : value' = value ∨ value' ∈ d.map Prod.snd := by
  obtain ⟨entry, hentry, rfl⟩ := List.mem_map.mp h
  rcases mem_assign hentry with rfl | hold
  · exact Or.inl rfl
  · exact Or.inr (List.mem_map_of_mem hold)

/-- A value that is not there yet is assigned: no value occurs twice. -/
theorem values_nodup_assign {key : κ} {value : α} {d : List (κ × α)}
    (h : (d.map Prod.snd).Nodup) (hnew : value ∉ d.map Prod.snd) :
    ((assign key value d).map Prod.snd).Nodup := by
  induction d with
  | nil => exact List.nodup_singleton value
  | cons first rest ih =>
    rw [List.map_cons, List.nodup_cons] at h
    rw [List.map_cons, List.mem_cons, not_or] at hnew
    unfold assign
    split_ifs with hkey
    · exact List.nodup_cons.mpr ⟨hnew.2, h.2⟩
    · refine List.nodup_cons.mpr ⟨?_, ih h.2 hnew.2⟩
      intro hmem
      rcases mem_values_assign hmem with heq | hold
      · exact hnew.1 heq.symm
      · exact h.1 hold

/-- What is looked up is an entry. -/
theorem mem_of_lookup {d : List (κ × α)} {key : κ} {value : α}
    (h : d.lookup key = some value) : (key, value) ∈ d := by
  obtain ⟨before, after, heq, -⟩ := List.lookup_eq_some_iff.mp h
  rw [heq]
  exact List.mem_append_right before List.mem_cons_self

/-- A key that is there is found. -/
theorem lookup_of_mem_keys {d : List (κ × α)} {key : κ} (h : key ∈ d.map Prod.fst) :
    ∃ value, d.lookup key = some value := by
  by_contra hnone
  push Not at hnone
  have hlookup : d.lookup key = none := Option.eq_none_iff_forall_ne_some.mpr hnone
  obtain ⟨entry, hentry, rfl⟩ := List.mem_map.mp h
  have hne := List.lookup_eq_none_iff.mp hlookup entry hentry
  simp at hne

/-- Where no key occurs twice, the entries are what is looked up. -/
theorem lookup_of_mem {d : List (κ × α)} (hkeys : (d.map Prod.fst).Nodup) {key : κ} {value : α}
    (h : (key, value) ∈ d) : d.lookup key = some value := by
  have hmem : key ∈ d.map Prod.fst := List.mem_map.mpr ⟨(key, value), h, rfl⟩
  obtain ⟨value', hvalue'⟩ := lookup_of_mem_keys hmem
  have heq : (key, value) = (key, value') :=
    List.inj_on_of_nodup_map hkeys h (mem_of_lookup hvalue') rfl
  rw [(Prod.mk.inj heq).2]
  exact hvalue'

end Dict
