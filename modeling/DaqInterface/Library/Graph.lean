import Mathlib.Logic.Relation
import Mathlib.Data.List.Chain
import Mathlib.Tactic

/-!
# Directed graphs

A depth-first search for a cycle marks the vertices it has seen and those it has not left
yet, and answers with the walk to the first vertex that it meets again before it left it.
Where it answers that there is none, every edge leads to a smaller rank (`find_cycle_none`);
where it answers with a walk, the end of the walk lies on it before (`find_cycle_some`).

In a graph without cycles, a value that is at least the weight of its vertex and the values
of the neighbours together is at least the weight of everything that can be reached
(`weight_reachable_le`).  `reachable_induction` is the induction along the edges of such a graph.
-/

namespace Graph

variable {κ : Type} [DecidableEq κ]

/-- What the search keeps. -/
structure Search (κ : Type) where
  /-- The vertices seen so far. -/
  visited : List κ
  /-- The vertices on the way from the root to the current one, the current one first. -/
  in_stack : List κ

/-- The search goes through the neighbours of `v`, `dfs` searching behind one of them. -/
def explore (vertices : List κ) (dfs : κ → Search κ → Option (Option (List κ) × Search κ))
    (v : κ) : List κ → Search κ → Option (Option (List κ) × Search κ)
  | [], s => some (none, s)
  | w :: ws, s =>
    if w ∉ vertices then explore vertices dfs v ws s
    else if w ∉ s.visited then
      match dfs w s with
      | none => none
      | some (some path, s') => some (some (v :: path), s')
      | some (none, s') => explore vertices dfs v ws s'
    else if w ∈ s.in_stack then some (some [v, w], s)
    else explore vertices dfs v ws s

/-- The search behind `v`, if the given number of nested calls is enough. -/
def dfs (vertices : List κ) (next : κ → List κ) :
    ℕ → κ → Search κ → Option (Option (List κ) × Search κ)
  | 0, _, _ => none
  | n + 1, v, s =>
    match explore vertices (dfs vertices next n) v (next v)
        ⟨v :: s.visited, v :: s.in_stack⟩ with
    | some (none, s') =>
      some (none, { s' with in_stack := s'.in_stack.filter fun w => w ≠ v })
    | answer => answer

/-- The search from each of the given roots that was not seen before. -/
def search_roots (vertices : List κ) (next : κ → List κ) (limit : ℕ) :
    List κ → Search κ → Option (Option (List κ))
  | [], _ => some none
  | v :: vs, s =>
    if v ∉ s.visited then
      match dfs vertices next limit v s with
      | none => none
      | some (some path, _) => some (some path)
      | some (none, s') => search_roots vertices next limit vs s'
    else search_roots vertices next limit vs s

/-- The search in a graph; neighbours that are no vertices are ignored. -/
def find_cycle (vertices : List κ) (next : κ → List κ) (limit : ℕ) :
    Option (Option (List κ)) :=
  search_roots vertices next limit vertices ⟨[], []⟩

/-- An edge of the graph. -/
def Edge (vertices : List κ) (next : κ → List κ) (a b : κ) : Prop :=
  a ∈ vertices ∧ b ∈ next a ∧ b ∈ vertices

/-! ## Vertices behind their neighbours -/

/-- A list of vertices in which each one is new and behind its neighbours. -/
inductive NextFirst (vertices : List κ) (next : κ → List κ) : List κ → Prop
  /-- The empty list. -/
  | nil : NextFirst vertices next []
  /-- One more vertex. -/
  | snoc {l : List κ} {v : κ} (h : NextFirst vertices next l) (hv : v ∈ vertices) (hnew : v ∉ l)
      (hnext : ∀ w ∈ next v, w ∈ vertices → w ∈ l) : NextFirst vertices next (l ++ [v])

section NextFirst

variable {vertices : List κ} {next : κ → List κ}

/-- The neighbours of a listed vertex are listed before it. -/
theorem NextFirst.idxOf_lt {l : List κ} (h : NextFirst vertices next l) {a b : κ} (ha : a ∈ l)
    (hedge : Edge vertices next a b) : b ∈ l ∧ l.idxOf b < l.idxOf a := by
  induction h with
  | nil => exact absurd ha List.not_mem_nil
  | @snoc l v _ _ hnew hnext ih =>
    by_cases hal : a ∈ l
    · obtain ⟨hb, hlt⟩ := ih hal
      rw [List.idxOf_append_of_mem hal, List.idxOf_append_of_mem hb]
      exact ⟨List.mem_append_left _ hb, hlt⟩
    · obtain rfl : a = v := by simpa [hal] using ha
      have hb : b ∈ l := hnext b hedge.2.1 hedge.2.2
      rw [List.idxOf_append_of_mem hb, List.idxOf_append_of_notMem hal]
      exact ⟨List.mem_append_left _ hb, by have := List.idxOf_lt_length_iff.mpr hb; omega⟩

omit [DecidableEq κ] in
/-- There is no room for more than the vertices. -/
theorem NextFirst.length_le {l : List κ} (h : NextFirst vertices next l) :
    l.length ≤ vertices.length := by
  have hlist : l.Nodup ∧ l ⊆ vertices := by
    induction h with
    | nil => exact ⟨List.nodup_nil, List.nil_subset _⟩
    | @snoc l v _ hv hnew _ ih =>
      refine ⟨List.nodup_append.mpr ⟨ih.1, List.nodup_singleton v, fun a ha b hb => ?_⟩,
        List.append_subset.mpr ⟨ih.2, fun a ha => ?_⟩⟩
      · rw [List.mem_singleton.mp hb]
        exact fun heq => hnew (heq ▸ ha)
      · rw [List.mem_singleton.mp ha]
        exact hv
  exact (List.subperm_of_subset hlist.1 hlist.2).length_le

end NextFirst

/-! ## The invariant of the search -/

section Search

omit [DecidableEq κ]

variable {vertices : List κ} {next : κ → List κ}

/-- The vertices that the search has left are listed behind their neighbours. -/
structure Search.Sound (vertices : List κ) (next : κ → List κ) (s : Search κ) (left : List κ) :
    Prop where
  /-- A vertex that was seen has been left or is on the way to the current one. -/
  visited : ∀ v, v ∈ s.visited ↔ v ∈ left ∨ v ∈ s.in_stack
  /-- Not both. -/
  disjoint : ∀ v ∈ left, v ∉ s.in_stack
  /-- The vertices that were left. -/
  ordered : NextFirst vertices next left

/-- The state behind a search that found nothing. -/
structure Search.Grown (vertices : List κ) (next : κ → List κ) (s s' : Search κ)
    (left left' : List κ) : Prop where
  /-- The invariant. -/
  sound : s'.Sound vertices next left'
  /-- The search is back where it started. -/
  in_stack : s'.in_stack = s.in_stack
  /-- What was left stays left. -/
  left : left ⊆ left'

theorem Search.Sound.refl {s : Search κ} {left : List κ} (h : s.Sound vertices next left) :
    s.Grown vertices next s left left := ⟨h, rfl, List.Subset.refl left⟩

theorem Search.Grown.trans {s s' s'' : Search κ} {left left' left'' : List κ}
    (h : s.Grown vertices next s' left left') (h' : s'.Grown vertices next s'' left' left'') :
    s.Grown vertices next s'' left left'' :=
  ⟨h'.sound, h'.in_stack.trans h.in_stack, List.Subset.trans h.left h'.left⟩

/-- Nothing that was seen is forgotten. -/
theorem Search.Grown.visited {s s' : Search κ} {left left' : List κ}
    (hs : s.Sound vertices next left) (h : s.Grown vertices next s' left left') :
    s.visited ⊆ s'.visited := by
  intro v hv
  rcases (hs.visited v).mp hv with hl | hst
  · exact (h.sound.visited v).mpr (Or.inl (h.left hl))
  · exact (h.sound.visited v).mpr (Or.inr (h.in_stack ▸ hst))

/-- The search enters a vertex it has not seen. -/
theorem Search.Sound.enter {s : Search κ} {left : List κ} {v : κ}
    (h : s.Sound vertices next left) (hv : v ∉ s.visited) :
    Search.Sound vertices next ⟨v :: s.visited, v :: s.in_stack⟩ left := by
  have hvleft : v ∉ left := fun hl => hv ((h.visited v).mpr (Or.inl hl))
  refine ⟨fun w => ?_, fun w hw hst => ?_, h.ordered⟩
  · rw [List.mem_cons, List.mem_cons, h.visited w]
    exact or_left_comm
  · rcases List.mem_cons.mp hst with rfl | hst
    · exact hvleft hw
    · exact h.disjoint w hw hst

/-- A walk from `v` along the edges that ends where it was before, or on the way to `v`. -/
structure Closes (vertices : List κ) (next : κ → List κ) (in_stack : List κ) (v : κ)
    (path : List κ) : Prop where
  /-- The start. -/
  head : path.head? = some v
  /-- The edges. -/
  chain : path.IsChain (Edge vertices next)
  /-- The end. -/
  back : ∃ front w, path = front ++ [w] ∧ (w ∈ front ∨ w ∈ in_stack)

/-- An edge to a vertex on the way closes a walk. -/
theorem Closes.edge {in_stack : List κ} {v w : κ} (hedge : Edge vertices next v w)
    (hw : w ∈ v :: in_stack) : Closes vertices next in_stack v [v, w] := by
  refine ⟨rfl, by simpa using hedge, [v], w, rfl, ?_⟩
  rcases List.mem_cons.mp hw with rfl | hw
  · exact Or.inl List.mem_cons_self
  · exact Or.inr hw

/-- An edge to the start of a walk that ends on the way to it. -/
theorem Closes.cons {in_stack : List κ} {v w : κ} {path : List κ}
    (h : Closes vertices next (v :: in_stack) w path) (hedge : Edge vertices next v w) :
    Closes vertices next in_stack v (v :: path) := by
  obtain ⟨front, u, rfl, hu⟩ := h.back
  refine ⟨rfl, List.isChain_cons.mpr ⟨fun y hy => ?_, h.chain⟩, v :: front, u, rfl, ?_⟩
  · obtain rfl : w = y := Option.some.inj (h.head.symm.trans hy)
    exact hedge
  · rcases hu with hu | hu
    · exact Or.inl (List.mem_cons_of_mem v hu)
    · rcases List.mem_cons.mp hu with rfl | hu
      · exact Or.inl List.mem_cons_self
      · exact Or.inr hu

/-- What a search behind `v` may answer. -/
def Answers (vertices : List κ) (next : κ → List κ) (s : Search κ) (left targets : List κ)
    (in_stack : List κ) (v : κ) : Option (List κ) × Search κ → Prop
  | (none, s') => ∃ left', s.Grown vertices next s' left left' ∧ targets ⊆ left'
  | (some path, _) => Closes vertices next in_stack v path

end Search

/-! ## The search is right -/

section Correct

variable {vertices : List κ} {next : κ → List κ}

/-- The neighbours of `v`, searched one after the other. -/
theorem explore_answers
    {dfs : κ → Search κ → Option (Option (List κ) × Search κ)} {v : κ} {in_stack : List κ}
    (hv : v ∈ vertices)
    (hdfs : ∀ w s left answer, w ∈ vertices → w ∉ s.visited → s.Sound vertices next left →
      dfs w s = some answer → Answers vertices next s left [w] s.in_stack w answer)
    {ws : List κ} (hws : ws ⊆ next v) {s : Search κ} {left : List κ}
    (hs : s.Sound vertices next left) (hstack : s.in_stack = v :: in_stack)
    {answer : Option (List κ) × Search κ} (h : explore vertices dfs v ws s = some answer) :
    Answers vertices next s left (ws.filter fun w => w ∈ vertices) in_stack v answer := by
  induction ws generalizing s left with
  | nil =>
    obtain rfl : (none, s) = answer := Option.some.inj h
    exact ⟨left, hs.refl, List.nil_subset _⟩
  | cons w ws ih =>
    have hnext : w ∈ next v := hws List.mem_cons_self
    have hrest : ws ⊆ next v := fun u hu => hws (List.mem_cons_of_mem w hu)
    unfold explore at h
    split_ifs at h with hw hseen hst
    · -- a vertex on the way: a walk is closed
      obtain rfl := Option.some.inj h
      exact Closes.edge ⟨hv, hnext, hw⟩ (hstack ▸ hst)
    · -- a vertex that was left
      have hanswer := ih hrest hs hstack h
      have hwleft : w ∈ left := ((hs.visited w).mp hseen).resolve_right hst
      match answer, hanswer with
      | (some path, _), hanswer => exact hanswer
      | (none, s'), ⟨left', hgrown, hleft⟩ =>
        refine ⟨left', hgrown, fun u hu => ?_⟩
        obtain ⟨hu, hdecl⟩ := List.mem_filter.mp hu
        rcases List.mem_cons.mp hu with rfl | hu
        · exact hgrown.left hwleft
        · exact hleft (List.mem_filter.mpr ⟨hu, hdecl⟩)
    · -- a vertex that was not seen: the search goes on behind it
      have hcall := fun answer => hdfs w s left answer hw hseen hs
      split at h
      · cases h
      · rename_i path s' heq
        obtain rfl := Option.some.inj h
        have hclose : Closes vertices next s.in_stack w path := hcall _ heq
        rw [hstack] at hclose
        exact hclose.cons ⟨hv, hnext, hw⟩
      · rename_i s' heq
        obtain ⟨left', hgrown, hleft⟩ := hcall _ heq
        have hanswer := ih hrest hgrown.sound (hgrown.in_stack.trans hstack) h
        match answer, hanswer with
        | (some path, _), hanswer => exact hanswer
        | (none, s''), ⟨left'', hgrown', hleft'⟩ =>
          refine ⟨left'', hgrown.trans hgrown', fun u hu => ?_⟩
          obtain ⟨hu, hdecl⟩ := List.mem_filter.mp hu
          rcases List.mem_cons.mp hu with rfl | hu
          · exact hgrown'.left (hleft List.mem_cons_self)
          · exact hleft' (List.mem_filter.mpr ⟨hu, hdecl⟩)
    · have htargets : (w :: ws).filter (fun u => u ∈ vertices) =
          ws.filter fun u => u ∈ vertices := List.filter_cons_of_neg (by simpa using hw)
      rw [htargets]
      exact ih hrest hs hstack h

/-- The search behind one vertex: it answers nothing and has left the vertex behind
everything it leads to, or it answers with a walk that closes. -/
theorem dfs_answers {n : ℕ} {v : κ} {s : Search κ} {left : List κ} (hv : v ∈ vertices)
    (hnew : v ∉ s.visited) (hs : s.Sound vertices next left)
    {answer : Option (List κ) × Search κ} (h : dfs vertices next n v s = some answer) :
    Answers vertices next s left [v] s.in_stack v answer := by
  induction n generalizing v s left answer with
  | zero => cases h
  | succ n ih =>
    have hsearch : ∀ w s left answer, w ∈ vertices → w ∉ s.visited →
        s.Sound vertices next left → dfs vertices next n w s = some answer →
        Answers vertices next s left [w] s.in_stack w answer :=
      fun w s left answer hw hnew hs h => ih hw hnew hs h
    have hexplore := fun answer' (h' : explore vertices (dfs vertices next n) v (next v) _ =
        some answer') => explore_answers hv hsearch (List.Subset.refl (next v)) (hs.enter hnew) rfl h'
    unfold dfs at h
    split at h
    · rename_i s' heq
      obtain rfl := Option.some.inj h
      obtain ⟨left', hgrown, hleft⟩ := hexplore _ heq
      have hstack : s'.in_stack = v :: s.in_stack := hgrown.in_stack
      have hvstack : v ∉ s.in_stack := fun hmem => hnew ((hs.visited v).mpr (Or.inr hmem))
      have hback : s'.in_stack.filter (fun w => w ≠ v) = s.in_stack := by
        rw [hstack, List.filter_cons_of_neg (by simp), List.filter_eq_self]
        intro w hw
        have hne : w ≠ v := fun heq => hvstack (heq ▸ hw)
        simpa using hne
      have hvleft : v ∉ left' := fun hmem =>
        hgrown.sound.disjoint v hmem (hstack ▸ List.mem_cons_self)
      refine ⟨left' ++ [v], ⟨⟨fun w => ?_, fun w hw => ?_, ?_⟩, hback, ?_⟩, by simp⟩
      · rw [hgrown.sound.visited w, hback, hstack]
        simp only [List.mem_cons, List.mem_append, List.not_mem_nil, or_false]
        exact or_assoc.symm
      · rw [hback]
        rcases List.mem_append.mp hw with hw | hw
        · have hnot := hgrown.sound.disjoint w hw
          rw [hstack] at hnot
          exact fun hmem => hnot (List.mem_cons_of_mem v hmem)
        · rw [List.mem_singleton.mp hw]
          exact hvstack
      · exact hgrown.sound.ordered.snoc hv hvleft fun w hw hdecl =>
          hleft (List.mem_filter.mpr ⟨hw, by simpa using hdecl⟩)
      · exact fun w hw => List.mem_append_left _ (hgrown.left hw)
    · rename_i answer' hne
      match answer, hne with
      | (some path, _), _ => exact hexplore _ h
      | (none, s'), hne => exact absurd h (hne s')

/-- The searches from all roots. -/
theorem search_roots_none {limit : ℕ} {roots : List κ} (hroots : roots ⊆ vertices)
    {s : Search κ} {left : List κ} (hs : s.Sound vertices next left) (hstack : s.in_stack = [])
    (h : search_roots vertices next limit roots s = some none) :
    ∃ left', NextFirst vertices next left' ∧ left ⊆ left' ∧ roots ⊆ left' := by
  induction roots generalizing s left with
  | nil => exact ⟨left, hs.ordered, List.Subset.refl left, List.nil_subset _⟩
  | cons v vs ih =>
    have hv : v ∈ vertices := hroots List.mem_cons_self
    have hrest : vs ⊆ vertices := fun u hu => hroots (List.mem_cons_of_mem v hu)
    unfold search_roots at h
    split_ifs at h with hseen
    · obtain ⟨left', hord, hsub, hvs⟩ := ih hrest hs hstack h
      have hvleft : v ∈ left := by
        have hmem := (hs.visited v).mp hseen
        rw [hstack] at hmem
        exact hmem.resolve_right List.not_mem_nil
      exact ⟨left', hord, hsub, List.cons_subset.mpr ⟨hsub hvleft, hvs⟩⟩
    · split at h
      · cases h
      · cases h
      · rename_i s' heq
        obtain ⟨left', hgrown, hleft⟩ := dfs_answers hv hseen hs heq
        obtain ⟨left'', hord, hsub, hvs⟩ := ih hrest hgrown.sound (hgrown.in_stack.trans hstack) h
        exact ⟨left'', hord, List.Subset.trans hgrown.left hsub,
          List.cons_subset.mpr ⟨hsub (hleft List.mem_cons_self), hvs⟩⟩

theorem search_roots_some {limit : ℕ} {roots : List κ} (hroots : roots ⊆ vertices)
    {s : Search κ} {left : List κ} (hs : s.Sound vertices next left) (hstack : s.in_stack = [])
    {path : List κ} (h : search_roots vertices next limit roots s = some (some path)) :
    ∃ v, Closes vertices next [] v path := by
  induction roots generalizing s left with
  | nil => cases h
  | cons v vs ih =>
    have hv : v ∈ vertices := hroots List.mem_cons_self
    have hrest : vs ⊆ vertices := fun u hu => hroots (List.mem_cons_of_mem v hu)
    unfold search_roots at h
    split_ifs at h with hseen
    · exact ih hrest hs hstack h
    · split at h
      · cases h
      · rename_i path' s' heq
        obtain rfl : path' = path := Option.some.inj (Option.some.inj h)
        have hclose : Closes vertices next s.in_stack v path' := dfs_answers hv hseen hs heq
        exact ⟨v, hstack ▸ hclose⟩
      · rename_i s' heq
        obtain ⟨left', hgrown, -⟩ := dfs_answers hv hseen hs heq
        exact ih hrest hgrown.sound (hgrown.in_stack.trans hstack) h

omit [DecidableEq κ] in
theorem Search.Sound.nil : Search.Sound vertices next ⟨[], []⟩ [] :=
  ⟨fun v => by simp, fun v hv => absurd hv List.not_mem_nil, NextFirst.nil⟩

/-- Where the search finds nothing, the edges lead from larger to smaller ranks. -/
theorem find_cycle_none {limit : ℕ} (h : find_cycle vertices next limit = some none) :
    ∃ rank : κ → ℕ, (∀ a ∈ vertices, rank a < vertices.length) ∧
      ∀ a b, Edge vertices next a b → rank b < rank a := by
  obtain ⟨left, hord, -, hall⟩ :=
    search_roots_none (List.Subset.refl vertices) Search.Sound.nil rfl h
  refine ⟨left.idxOf, fun a ha => ?_, fun a b hedge => (hord.idxOf_lt (hall hedge.1) hedge).2⟩
  exact (List.idxOf_lt_length_iff.mpr (hall ha)).trans_le hord.length_le

/-- What the search finds is a walk along the edges whose end lies on it before. -/
theorem find_cycle_some {limit : ℕ} {path : List κ}
    (h : find_cycle vertices next limit = some (some path)) :
    path.IsChain (Edge vertices next) ∧ ∃ front w, path = front ++ [w] ∧ w ∈ front := by
  obtain ⟨v, hclose⟩ :=
    search_roots_some (List.Subset.refl vertices) Search.Sound.nil rfl h
  obtain ⟨front, w, heq, hw⟩ := hclose.back
  exact ⟨hclose.chain, front, w, heq, hw.resolve_right List.not_mem_nil⟩

end Correct

/-! ## The search ends -/

section Limit

variable {vertices : List κ} {next : κ → List κ}

/-- The number of vertices that were not seen. -/
def unseen (vertices visited : List κ) : ℕ := (vertices.toFinset \ visited.toFinset).card

theorem unseen_le_of_subset (vertices : List κ) {visited visited' : List κ} (h : visited ⊆ visited') :
    unseen vertices visited' ≤ unseen vertices visited := by
  refine Finset.card_le_card (Finset.sdiff_subset_sdiff (Finset.Subset.refl _) fun v hv => ?_)
  exact List.mem_toFinset.mpr (h (List.mem_toFinset.mp hv))

theorem unseen_cons_lt {visited : List κ} {v : κ} (hv : v ∈ vertices) (hnew : v ∉ visited) :
    unseen vertices (v :: visited) < unseen vertices visited := by
  have hmem : v ∈ vertices.toFinset \ visited.toFinset := by simp [hv, hnew]
  have herase : vertices.toFinset \ (v :: visited).toFinset =
      (vertices.toFinset \ visited.toFinset).erase v := by
    rw [List.toFinset_cons, Finset.sdiff_insert]
  rw [unseen, herase]
  exact Finset.card_erase_lt_of_mem hmem

/-- The search behind the neighbours ends where the searches behind single vertices do. -/
theorem explore_isSome {n : ℕ} {v : κ}
    (hdfs : ∀ w s left, w ∈ vertices → w ∉ s.visited → Search.Sound vertices next s left →
      unseen vertices s.visited ≤ n → (dfs vertices next n w s).isSome)
    {ws : List κ} {s : Search κ} {left : List κ} (hs : s.Sound vertices next left)
    (hn : unseen vertices s.visited ≤ n) :
    (explore vertices (dfs vertices next n) v ws s).isSome := by
  induction ws generalizing s left with
  | nil => rfl
  | cons w ws ih =>
    unfold explore
    split_ifs with hw hseen hst
    · rfl
    · exact ih hs hn
    · have hsome := hdfs w s left hw hseen hs hn
      split
      · rename_i heq
        rw [heq] at hsome
        cases hsome
      · rfl
      · rename_i s' heq
        obtain ⟨left', hgrown, -⟩ := dfs_answers hw hseen hs heq
        have hle := unseen_le_of_subset vertices (hgrown.visited hs)
        exact ih hgrown.sound (by omega)
    · exact ih hs hn

/-- As many nested calls as there are vertices left to see are enough. -/
theorem dfs_isSome {n : ℕ} {v : κ} {s : Search κ} {left : List κ} (hv : v ∈ vertices)
    (hnew : v ∉ s.visited) (hs : s.Sound vertices next left)
    (hn : unseen vertices s.visited ≤ n) : (dfs vertices next n v s).isSome := by
  induction n generalizing v s left with
  | zero =>
    have hlt := unseen_cons_lt hv hnew
    omega
  | succ n ih =>
    have hlt := unseen_cons_lt hv hnew
    have hexplore : (explore vertices (dfs vertices next n) v (next v)
        ⟨v :: s.visited, v :: s.in_stack⟩).isSome := by
      refine explore_isSome (fun w s left hw hnew hs hn => ih hw hnew hs hn) (hs.enter hnew) ?_
      have henter : (⟨v :: s.visited, v :: s.in_stack⟩ : Search κ).visited = v :: s.visited := rfl
      rw [henter]
      omega
    unfold dfs
    split
    · rfl
    · exact hexplore

theorem search_roots_isSome {limit : ℕ} (hlimit : vertices.length ≤ limit) {roots : List κ}
    (hroots : roots ⊆ vertices) {s : Search κ} {left : List κ}
    (hs : s.Sound vertices next left) : (search_roots vertices next limit roots s).isSome := by
  induction roots generalizing s left with
  | nil => rfl
  | cons v vs ih =>
    have hv : v ∈ vertices := hroots List.mem_cons_self
    have hrest : vs ⊆ vertices := fun u hu => hroots (List.mem_cons_of_mem v hu)
    have hle : unseen vertices s.visited ≤ vertices.length :=
      (Finset.card_le_card Finset.sdiff_subset).trans (List.toFinset_card_le vertices)
    unfold search_roots
    split_ifs with hseen
    · exact ih hrest hs
    · have hsome := dfs_isSome hv hseen hs (hle.trans hlimit)
      split
      · rename_i heq
        rw [heq] at hsome
        cases hsome
      · rfl
      · rename_i s' heq
        obtain ⟨left', hgrown, -⟩ := dfs_answers hv hseen hs heq
        exact ih hrest hgrown.sound

/-- The search answers where as many nested calls are allowed as there are vertices. -/
theorem find_cycle_isSome {limit : ℕ} (hlimit : vertices.length ≤ limit) :
    (find_cycle vertices next limit).isSome :=
  search_roots_isSome hlimit (List.Subset.refl vertices) Search.Sound.nil

/-- No vertex can be reached from itself. -/
def Acyclic (vertices : List κ) (next : κ → List κ) : Prop :=
  ∀ v, ¬ Relation.TransGen (Edge vertices next) v v

omit [DecidableEq κ] in
/-- Ranks that decrease along the edges leave no cycle. -/
theorem acyclic_of_rank {rank : κ → ℕ}
    (h : ∀ a b, Edge vertices next a b → rank b < rank a) : Acyclic vertices next := by
  have hdec : ∀ a b, Relation.TransGen (Edge vertices next) a b → rank b < rank a := by
    intro a b hab
    induction hab with
    | single hedge => exact h _ _ hedge
    | tail _ hedge ih => exact (h _ _ hedge).trans ih
  exact fun v hv => lt_irrefl _ (hdec v v hv)

omit [DecidableEq κ] in
/-- A walk along the edges whose end lies on it before is no walk of a graph without cycles. -/
theorem not_acyclic_of_walk {front : List κ} {w : κ}
    (hchain : (front ++ [w]).IsChain (Edge vertices next)) (hw : w ∈ front) :
    ¬ Acyclic vertices next := by
  obtain ⟨before, after, rfl⟩ := List.append_of_mem hw
  have htail : (w :: (after ++ [w])).IsChain (Edge vertices next) := by
    have hsplit : before ++ w :: after ++ [w] = before ++ (w :: (after ++ [w])) := by simp
    rw [hsplit] at hchain
    exact (List.isChain_append.mp hchain).2.1
  obtain ⟨u, rest, hrest⟩ := List.exists_cons_of_ne_nil
    (show after ++ [w] ≠ [] from List.append_ne_nil_of_right_ne_nil _ (List.cons_ne_nil _ _))
  rw [hrest] at htail
  have hfirst : Edge vertices next w u := (List.isChain_cons_cons.mp htail).1
  have hlast : (u :: rest).getLast (List.cons_ne_nil _ _) = w := by simp [← hrest]
  have hreach : Relation.ReflTransGen (Edge vertices next) u w :=
    List.relationReflTransGen_of_exists_isChain_cons rest (List.isChain_cons_cons.mp htail).2 hlast
  exact fun hacyclic => hacyclic w (Relation.TransGen.head' hfirst hreach)

/-- Given enough nested calls, the search finds nothing exactly where there is no cycle. -/
theorem find_cycle_none_iff {limit : ℕ} (hlimit : vertices.length ≤ limit) :
    find_cycle vertices next limit = some none ↔ Acyclic vertices next := by
  constructor
  · intro h
    obtain ⟨rank, -, hrank⟩ := find_cycle_none h
    exact acyclic_of_rank hrank
  · intro h
    have hsome : (find_cycle vertices next limit).isSome := find_cycle_isSome hlimit
    obtain ⟨answer, heq⟩ := Option.isSome_iff_exists.mp hsome
    cases answer with
    | none => exact heq
    | some path =>
      obtain ⟨hchain, front, w, rfl, hw⟩ := find_cycle_some heq
      exact absurd h (not_acyclic_of_walk hchain hw)

end Limit

/-! ## Chains that end -/

section Chains

variable {σ : Type} {r : σ → σ → Prop}

/-- Where all chains of a relation end, no state comes back to itself. -/
theorem not_transGen_of_acc {c : σ} (h : Acc (fun b a => r a b) c) : ¬ Relation.TransGen r c c := by
  induction h with
  | intro c _ ih =>
    intro hcycle
    obtain ⟨d, hcd, hdc⟩ := Relation.TransGen.head'_iff.mp hcycle
    exact ih d hcd (Relation.TransGen.tail' hdc hcd)

theorem acc_of_reachable {start c : σ} (h : Acc (fun b a => r a b) start)
    (hc : Relation.ReflTransGen r start c) : Acc (fun b a => r a b) c := by
  induction hc with
  | refl => exact h
  | tail _ hstep ih => exact ih.inv hstep

/-- Where finitely many states can be reached, all chains end exactly where none of them comes back
to itself. -/
theorem acc_iff_no_return {start : σ} (hfinite : {c | Relation.ReflTransGen r start c}.Finite) :
    Acc (fun b a => r a b) start ↔
      ∀ c, Relation.ReflTransGen r start c → ¬ Relation.TransGen r c c := by
  constructor
  · exact fun h c hc => not_transGen_of_acc (acc_of_reachable h hc)
  · intro h
    have hfin : Finite {c | Relation.ReflTransGen r start c} := hfinite.to_subtype
    let behind (b a : {c | Relation.ReflTransGen r start c}) : Prop := Relation.TransGen r a b
    have htrans : IsTrans _ behind := ⟨fun _ _ _ hab hbc => Relation.TransGen.trans hbc hab⟩
    have hirrefl : Std.Irrefl behind := ⟨fun a ha => h a a.2 ha⟩
    have hwf : WellFounded behind := Finite.wellFounded_of_trans_of_irrefl behind
    have hacc : ∀ c : {c | Relation.ReflTransGen r start c}, Acc (fun b a => r a b) c.1 := by
      intro c
      induction c using hwf.induction with
      | _ c ih =>
        refine Acc.intro _ fun d hd => ?_
        exact ih ⟨d, Relation.ReflTransGen.tail c.2 hd⟩ (Relation.TransGen.single hd)
    exact hacc ⟨start, Relation.ReflTransGen.refl⟩

end Chains

/-! ## What can be reached -/

section Weight

omit [DecidableEq κ]

open Classical in
/-- The total weight of the items at the vertices of a set. -/
noncomputable def weight (items : List (κ × ℤ)) (s : Set κ) : ℤ :=
  ((items.filter fun item => item.1 ∈ s).map Prod.snd).sum

variable {items : List (κ × ℤ)}

theorem weight_cons (item : κ × ℤ) (items : List (κ × ℤ)) (s : Set κ) [Decidable (item.1 ∈ s)] :
    weight (item :: items) s = (if item.1 ∈ s then item.2 else 0) + weight items s := by
  unfold weight
  by_cases h : item.1 ∈ s
  · rw [List.filter_cons_of_pos (by simpa using h), if_pos h, List.map_cons, List.sum_cons]
  · rw [List.filter_cons_of_neg (by simpa using h), if_neg h, zero_add]

theorem weight_append (items items' : List (κ × ℤ)) (s : Set κ) :
    weight (items ++ items') s = weight items s + weight items' s := by
  rw [weight, weight, weight, List.filter_append, List.map_append, List.sum_append]

theorem weight_nonneg (hitems : ∀ item ∈ items, 0 ≤ item.2) (s : Set κ) : 0 ≤ weight items s := by
  refine List.sum_nonneg fun x hx => ?_
  obtain ⟨item, hitem, rfl⟩ := List.mem_map.mp hx
  exact hitems item (List.mem_filter.mp hitem).1

/-- A divisor of all items divides the weight of every set. -/
theorem dvd_weight {d : ℤ} (hitems : ∀ item ∈ items, d ∣ item.2) (s : Set κ) :
    d ∣ weight items s := by
  refine List.dvd_sum fun x hx => ?_
  obtain ⟨item, hitem, rfl⟩ := List.mem_map.mp hx
  exact hitems item (List.mem_filter.mp hitem).1

/-- Two sets together weigh at most what they weigh one by one. -/
theorem weight_union_le (hitems : ∀ item ∈ items, 0 ≤ item.2) (s t : Set κ) :
    weight items (s ∪ t) ≤ weight items s + weight items t := by
  classical
  induction items with
  | nil => simp [weight]
  | cons item items ih =>
    have hitem : 0 ≤ item.2 := hitems item List.mem_cons_self
    have hrest := ih fun i hi => hitems i (List.mem_cons_of_mem item hi)
    rw [weight_cons, weight_cons, weight_cons]
    by_cases hs : item.1 ∈ s <;> by_cases ht : item.1 ∈ t <;> simp [hs, ht] <;> omega

/-- What can be reached from `v`, `v` included. -/
def reachable (next : κ → List κ) (v : κ) : Set κ :=
  {u | Relation.ReflTransGen (fun a b => b ∈ next a) v u}

theorem reachable_eq (next : κ → List κ) (v : κ) :
    reachable next v = {v} ∪ {u | ∃ c ∈ next v, u ∈ reachable next c} := by
  ext u
  constructor
  · intro h
    rcases Relation.ReflTransGen.cases_head h with heq | ⟨c, hc, hu⟩
    · exact Or.inl heq.symm
    · exact Or.inr ⟨c, hc, hu⟩
  · rintro (rfl | ⟨c, hc, hu⟩)
    · exact Relation.ReflTransGen.refl
    · exact Relation.ReflTransGen.head hc hu

/-- The vertices reached from one of several vertices weigh at most what they weigh for each. -/
theorem weight_some_reachable_le (hitems : ∀ item ∈ items, 0 ≤ item.2) (next : κ → List κ)
    {value : κ → ℤ} {cs : List κ}
    (hcs : ∀ c ∈ cs, weight items (reachable next c) ≤ value c) :
    weight items {u | ∃ c ∈ cs, u ∈ reachable next c} ≤ (cs.map value).sum := by
  induction cs with
  | nil => simp [weight]
  | cons c cs ih =>
    have hsplit : {u | ∃ b ∈ c :: cs, u ∈ reachable next b} =
        reachable next c ∪ {u | ∃ b ∈ cs, u ∈ reachable next b} := by
      ext u
      simp
    have hfirst : weight items (reachable next c) ≤ value c := hcs c List.mem_cons_self
    have hrest := ih fun b hb => hcs b (List.mem_cons_of_mem c hb)
    have hunion := weight_union_le hitems (reachable next c) {u | ∃ b ∈ cs, u ∈ reachable next b}
    rw [hsplit, List.map_cons, List.sum_cons]
    omega

/-- A value that is at least the weight of its vertex and the values of the neighbours is at
least the weight of everything that can be reached. -/
theorem weight_reachable_le (hitems : ∀ item ∈ items, 0 ≤ item.2) {vertices : List κ}
    {next : κ → List κ} {value : κ → ℤ} {rank : κ → ℕ}
    (hnext : ∀ v ∈ vertices, ∀ c ∈ next v, c ∈ vertices ∧ rank c < rank v)
    (hvalue : ∀ v ∈ vertices, weight items {v} + ((next v).map value).sum ≤ value v)
    {v : κ} (hv : v ∈ vertices) : weight items (reachable next v) ≤ value v := by
  induction hrank : rank v using Nat.strong_induction_on generalizing v with
  | _ n ih =>
    have hcs : ∀ c ∈ next v, weight items (reachable next c) ≤ value c := by
      intro c hc
      obtain ⟨hmem, hlt⟩ := hnext v hv c hc
      exact ih (rank c) (by omega) hmem rfl
    have hrest := weight_some_reachable_le hitems next hcs
    have hunion := weight_union_le hitems {v} {u | ∃ c ∈ next v, u ∈ reachable next c}
    have hv' := hvalue v hv
    rw [reachable_eq]
    omega

end Weight

/-! ## Graphs without cycles behind a vertex -/

/-- Where finitely many vertices are reached from a root and none of them from itself, what holds
of each vertex whose neighbours have it holds of the root. -/
theorem reachable_induction {α : Type} {edge : α → α → Prop} {root : α}
    (hfinite : {a | Relation.ReflTransGen edge root a}.Finite)
    (hacyclic : ∀ a, Relation.ReflTransGen edge root a → ¬ Relation.TransGen edge a a)
    {motive : α → Prop}
    (step : ∀ a, Relation.ReflTransGen edge root a → (∀ b, edge a b → motive b) → motive a) :
    motive root := by
  let below : α → α → Prop := fun a b =>
    Relation.ReflTransGen edge root b ∧ Relation.TransGen edge b a
  have horder : IsStrictOrder α below :=
    { irrefl := fun a h => hacyclic a h.1 h.2
      trans := fun a b c hab hbc => ⟨hbc.1, hbc.2.trans hab.2⟩ }
  have hwell : {a | Relation.ReflTransGen edge root a}.WellFoundedOn below := hfinite.wellFoundedOn
  have hall : ∀ a : {a | Relation.ReflTransGen edge root a}, motive a := by
    intro a
    induction a using WellFounded.induction hwell with
    | _ a ih =>
      refine step a a.2 fun b hb => ?_
      have hreach : Relation.ReflTransGen edge root b := Relation.ReflTransGen.tail a.2 hb
      exact ih ⟨b, hreach⟩ ⟨a.2, Relation.TransGen.single hb⟩
  exact hall ⟨root, Relation.ReflTransGen.refl⟩

end Graph
