import Mathlib.Tactic

/-!
# Memoised recursions

A `Recursion` computes a value for a key from the values for other keys.  `memo` computes
it with a cache that is passed along, as a function with a dictionary of its results does;
`Yields` is what it computes, without a cache.  `memo_yields` says that the cache does not
change the results, `memo_isOk` that they are reached where the keys have ranks.
-/

/-- A recursion that adds up values, some of which it knows. -/
structure Recursion (κ α ε : Type) where
  /-- The sum before anything is added. -/
  start : κ → Except ε α
  /-- The keys to go through. -/
  keys : κ → Except ε (List κ)
  /-- The value to add for one of these keys, if it does not take a call. -/
  known : κ → κ → Except ε (Option α)
  /-- Add a value. -/
  add : α → α → α
  /-- The result, from the sum. -/
  finish : α → α

namespace Recursion

variable {κ α ε : Type} [DecidableEq κ]

/-- Add the values for the given keys, `call` computing those that are not known. -/
def total (r : Recursion κ α ε)
    (call : κ → List (κ × α) → Except ε (α × List (κ × α))) (k : κ) :
    List κ → α → List (κ × α) → Except ε (α × List (κ × α))
  | [], sum, cache => .ok (sum, cache)
  | c :: cs, sum, cache =>
    match r.known k c with
    | .error e => .error e
    | .ok (some v) => r.total call k cs (r.add sum v) cache
    | .ok none =>
      match call c cache with
      | .error e => .error e
      | .ok (v, cache) => r.total call k cs (r.add sum v) cache

/-- The value for a key, with the values computed before; `limit` is the exception for more
nested calls than the given number. -/
def memo (r : Recursion κ α ε) (limit : ε) :
    ℕ → κ → List (κ × α) → Except ε (α × List (κ × α))
  | 0, _, _ => .error limit
  | n + 1, k, cache =>
    match cache.lookup k with
    | some v => .ok (v, cache)
    | none =>
      match r.start k, r.keys k with
      | .ok sum, .ok keys =>
        match r.total (r.memo limit n) k keys sum cache with
        | .ok (sum, cache) => .ok (r.finish sum, (k, r.finish sum) :: cache)
        | .error e => .error e
      | .error e, _ => .error e
      | _, .error e => .error e

/-- The values for a list of keys, computed one after the other. -/
def table (r : Recursion κ α ε) (limit : ε) (n : ℕ) :
    List κ → List (κ × α) → Except ε (List (κ × α))
  | [], _ => .ok []
  | k :: ks, cache =>
    match r.memo limit n k cache with
    | .error e => .error e
    | .ok (v, cache) =>
      match r.table limit n ks cache with
      | .error e => .error e
      | .ok rest => .ok ((k, v) :: rest)

/-! ## Related lists -/

section Related

omit [DecidableEq κ]

variable {β γ δ : Type}

/-- An element of the second of two related lists is related to one of the first. -/
theorem exists_of_forall₂ {R : β → γ → Prop} {bs : List β} {cs : List γ}
    (h : List.Forall₂ R bs cs) {c : γ} (hc : c ∈ cs) : ∃ b ∈ bs, R b c := by
  induction h with
  | nil => exact absurd hc List.not_mem_nil
  | @cons b c' bs cs hr _ ih =>
    rcases List.mem_cons.mp hc with rfl | hc
    · exact ⟨b, List.mem_cons_self, hr⟩
    · obtain ⟨b', hb', hr'⟩ := ih hc
      exact ⟨b', List.mem_cons_of_mem b hb', hr'⟩

/-- Two lists related to a third one are related element by element. -/
theorem forall₂_of_common {R : β → γ → Prop} {S : β → δ → Prop} {T : γ → δ → Prop} {bs : List β}
    {cs : List γ} {ds : List δ} (h : ∀ b ∈ bs, ∀ c d, R b c → S b d → T c d)
    (hcs : List.Forall₂ R bs cs) (hds : List.Forall₂ S bs ds) : List.Forall₂ T cs ds := by
  induction hcs generalizing ds with
  | nil =>
    rw [List.forall₂_nil_left_iff.mp hds]
    exact List.Forall₂.nil
  | @cons b c bs cs hr _ ih =>
    obtain ⟨d, rest, hs, hrest, rfl⟩ := List.forall₂_cons_left_iff.mp hds
    exact List.Forall₂.cons (h b List.mem_cons_self c d hr hs)
      (ih (fun b hb => h b (List.mem_cons_of_mem _ hb)) hrest)

end Related

/-! ## What a recursion computes -/

section Yields

omit [DecidableEq κ]

/-- What is added for one key, `val` relating keys to their values. -/
def Adds (r : Recursion κ α ε) (val : κ → α → Prop) (k c : κ) (w : α) : Prop :=
  r.known k c = .ok (some w) ∨ r.known k c = .ok none ∧ val c w

/-- The equation of the recursion, `val` relating keys to their values. -/
def Equation (r : Recursion κ α ε) (val : κ → α → Prop) (k : κ) (v : α) : Prop :=
  ∃ sum keys ws, r.start k = .ok sum ∧ r.keys k = .ok keys ∧
    List.Forall₂ (r.Adds val k) keys ws ∧ v = r.finish (ws.foldl r.add sum)

/-- The value for a key, in at most the given number of nested calls. -/
def YieldsIn (r : Recursion κ α ε) : ℕ → κ → α → Prop
  | 0 => fun _ _ => False
  | n + 1 => r.Equation (r.YieldsIn n)

/-- The value for a key. -/
def Yields (r : Recursion κ α ε) (k : κ) (v : α) : Prop := ∃ n, r.YieldsIn n k v

variable {r : Recursion κ α ε}

theorem Adds.mono {val val' : κ → α → Prop} (h : ∀ k v, val k v → val' k v) {k c : κ} {w : α}
    (hadds : r.Adds val k c w) : r.Adds val' k c w :=
  hadds.imp_right fun hcall => ⟨hcall.1, h c w hcall.2⟩

theorem Equation.mono {val val' : κ → α → Prop} (h : ∀ k v, val k v → val' k v) {k : κ} {v : α}
    (heq : r.Equation val k v) : r.Equation val' k v := by
  obtain ⟨sum, keys, ws, hstart, hkeys, hws, hv⟩ := heq
  exact ⟨sum, keys, ws, hstart, hkeys, hws.imp fun _ _ hadds => hadds.mono h, hv⟩

theorem YieldsIn.mono {n m : ℕ} (hnm : n ≤ m) {k : κ} {v : α} (h : r.YieldsIn n k v) :
    r.YieldsIn m k v := by
  induction n generalizing m k v with
  | zero => exact absurd h id
  | succ n ih =>
    obtain ⟨m', rfl⟩ : ∃ m', m = m' + 1 := ⟨m - 1, by omega⟩
    exact Equation.mono (fun k v hv => ih (by omega) hv) h

/-- What is added for a key is determined by the values of the keys. -/
theorem Adds.unique {val val' : κ → α → Prop} (h : ∀ k v v', val k v → val' k v' → v = v')
    {k c : κ} {w w' : α} (hadds : r.Adds val k c w) (hadds' : r.Adds val' k c w') : w = w' := by
  rcases hadds with heq | ⟨heq, hw⟩ <;> rcases hadds' with heq' | ⟨heq', hw'⟩
  · exact Option.some.inj (Except.ok.inj (heq.symm.trans heq'))
  · cases heq.symm.trans heq'
  · cases heq.symm.trans heq'
  · exact h c w w' hw hw'

theorem Equation.unique {val val' : κ → α → Prop}
    (h : ∀ k v v', val k v → val' k v' → v = v') {k : κ} {v v' : α}
    (heq : r.Equation val k v) (heq' : r.Equation val' k v') : v = v' := by
  obtain ⟨sum, keys, ws, hstart, hkeys, hws, rfl⟩ := heq
  obtain ⟨sum', keys', ws', hstart', hkeys', hws', rfl⟩ := heq'
  obtain rfl : sum = sum' := Except.ok.inj (hstart.symm.trans hstart')
  obtain rfl : keys = keys' := Except.ok.inj (hkeys.symm.trans hkeys')
  have hsame : ws = ws' := by
    rw [← List.forall₂_eq_eq_eq]
    exact forall₂_of_common (fun _ _ _ _ hadds hadds' => hadds.unique h hadds') hws hws'
  rw [hsame]

/-- A key has at most one value. -/
theorem Yields.unique {k : κ} {v v' : α} (h : r.Yields k v) (h' : r.Yields k v') : v = v' := by
  obtain ⟨n, hn⟩ := h
  obtain ⟨m, hm⟩ := h'
  induction n generalizing m k v v' with
  | zero => exact absurd hn id
  | succ n ih =>
    cases m with
    | zero => exact absurd hm id
    | succ m =>
      have hunique : ∀ k v v', r.YieldsIn n k v → r.YieldsIn m k v' → v = v' :=
        fun k v v' hv hv' => ih hv m hv'
      exact Equation.unique hunique hn hm

/-- A common number of calls for a list of values. -/
theorem exists_common {k : κ} {cs : List κ} {ws : List α}
    (h : List.Forall₂ (r.Adds r.Yields k) cs ws) :
    ∃ n, List.Forall₂ (r.Adds (r.YieldsIn n) k) cs ws := by
  induction h with
  | nil => exact ⟨0, List.Forall₂.nil⟩
  | @cons c w cs ws hadds _ ih =>
    obtain ⟨n, hn⟩ := ih
    rcases hadds with heq | ⟨heq, m, hm⟩
    · exact ⟨n, List.Forall₂.cons (Or.inl heq) hn⟩
    · have hleft : n ≤ max n m := le_max_left n m
      have hright : m ≤ max n m := le_max_right n m
      exact ⟨max n m, List.Forall₂.cons (Or.inr ⟨heq, hm.mono hright⟩)
        (hn.imp fun _ _ hadds => hadds.mono fun _ _ hv => hv.mono hleft)⟩

/-- The values satisfy the equation of the recursion. -/
theorem yields_iff {k : κ} {v : α} : r.Yields k v ↔ r.Equation r.Yields k v := by
  constructor
  · rintro ⟨n, hn⟩
    cases n with
    | zero => exact absurd hn id
    | succ n => exact Equation.mono (fun k v hv => ⟨n, hv⟩) hn
  · rintro ⟨sum, keys, ws, hstart, hkeys, hws, hv⟩
    obtain ⟨n, hn⟩ := exists_common hws
    exact ⟨n + 1, sum, keys, ws, hstart, hkeys, hn, hv⟩

/-- What holds of a value whenever it holds of the values it is computed from holds of all. -/
theorem Yields.rec_on {P : κ → α → Prop}
    (hstep : ∀ k v, r.Equation (fun c w => r.Yields c w ∧ P c w) k v → P k v) {k : κ} {v : α}
    (h : r.Yields k v) : P k v := by
  obtain ⟨n, hn⟩ := h
  induction n generalizing k v with
  | zero => exact absurd hn id
  | succ n ih => exact hstep k v (Equation.mono (fun c w hw => ⟨⟨n, hw⟩, ih hw⟩) hn)

end Yields

/-! ## The cache changes nothing -/

section Memo

variable {r : Recursion κ α ε} {limit : ε}

/-- The cache holds values of the recursion. -/
def SoundCache (r : Recursion κ α ε) (cache : List (κ × α)) : Prop :=
  ∀ k v, cache.lookup k = some v → r.Yields k v

theorem SoundCache.nil : r.SoundCache [] := fun _ _ h => by cases h

theorem SoundCache.cons {cache : List (κ × α)} (h : r.SoundCache cache) {k : κ} {v : α}
    (hv : r.Yields k v) : r.SoundCache ((k, v) :: cache) := by
  intro k' v' hlookup
  rw [List.lookup_cons] at hlookup
  split at hlookup
  · rename_i heq
    obtain rfl : k' = k := by simpa using heq
    obtain rfl := Option.some.inj hlookup
    exact hv
  · exact h k' v' hlookup

/-- The sum over the given keys. -/
theorem total_yields {call : κ → List (κ × α) → Except ε (α × List (κ × α))}
    (hcall : ∀ k v cache cache', r.SoundCache cache → call k cache = .ok (v, cache') →
      r.Yields k v ∧ r.SoundCache cache')
    {k : κ} {cs : List κ} {sum sum' : α} {cache cache' : List (κ × α)}
    (hcache : r.SoundCache cache) (h : r.total call k cs sum cache = .ok (sum', cache')) :
    (∃ ws, List.Forall₂ (r.Adds r.Yields k) cs ws ∧ sum' = ws.foldl r.add sum) ∧
      r.SoundCache cache' := by
  induction cs generalizing sum cache with
  | nil =>
    obtain ⟨rfl, rfl⟩ := Prod.mk.inj (Except.ok.inj h)
    exact ⟨⟨[], List.Forall₂.nil, rfl⟩, hcache⟩
  | cons c cs ih =>
    unfold total at h
    split at h
    · cases h
    · rename_i v heq
      obtain ⟨⟨ws, hws, hsum⟩, hcache'⟩ := ih hcache h
      exact ⟨⟨v :: ws, List.Forall₂.cons (Or.inl heq) hws, hsum⟩, hcache'⟩
    · rename_i heq
      split at h
      · cases h
      · rename_i v cache'' heq'
        obtain ⟨hv, hcache''⟩ := hcall c v cache cache'' hcache heq'
        obtain ⟨⟨ws, hws, hsum⟩, hcache'⟩ := ih hcache'' h
        exact ⟨⟨v :: ws, List.Forall₂.cons (Or.inr ⟨heq, hv⟩) hws, hsum⟩, hcache'⟩

/-- The memoised recursion computes the values of the recursion. -/
theorem memo_yields {n : ℕ} {k : κ} {v : α} {cache cache' : List (κ × α)}
    (hcache : r.SoundCache cache) (h : r.memo limit n k cache = .ok (v, cache')) :
    r.Yields k v ∧ r.SoundCache cache' := by
  induction n generalizing k v cache cache' with
  | zero => cases h
  | succ n ih =>
    unfold memo at h
    split at h
    · rename_i v' hlookup
      obtain ⟨rfl, rfl⟩ := Prod.mk.inj (Except.ok.inj h)
      exact ⟨hcache k v' hlookup, hcache⟩
    · split at h
      · rename_i sum keys hstart hkeys
        split at h
        · rename_i sum' cache'' htotal
          obtain ⟨rfl, rfl⟩ := Prod.mk.inj (Except.ok.inj h)
          obtain ⟨⟨ws, hws, rfl⟩, hcache''⟩ := total_yields
            (fun k v cache cache' hcache h => ih hcache h) hcache htotal
          have hv : r.Yields k (r.finish (ws.foldl r.add sum)) :=
            yields_iff.mpr ⟨sum, keys, ws, hstart, hkeys, hws, rfl⟩
          exact ⟨hv, hcache''.cons hv⟩
        · cases h
      · cases h
      · cases h

/-- The table has the values of the recursion for the given keys. -/
theorem table_yields {n : ℕ} {ks : List κ} {cache : List (κ × α)} {t : List (κ × α)}
    (hcache : r.SoundCache cache) (h : r.table limit n ks cache = .ok t) :
    t.map Prod.fst = ks ∧ ∀ entry ∈ t, r.Yields entry.1 entry.2 := by
  induction ks generalizing cache t with
  | nil =>
    obtain rfl := Except.ok.inj h
    exact ⟨rfl, fun entry hentry => absurd hentry List.not_mem_nil⟩
  | cons k ks ih =>
    unfold table at h
    split at h
    · cases h
    · rename_i v cache' heq
      obtain ⟨hv, hcache'⟩ := memo_yields hcache heq
      split at h
      · cases h
      · rename_i rest heq'
        obtain rfl := Except.ok.inj h
        obtain ⟨hkeys, hrest⟩ := ih hcache' heq'
        refine ⟨by rw [List.map_cons, hkeys], fun entry hentry => ?_⟩
        rcases List.mem_cons.mp hentry with rfl | hentry
        · exact hv
        · exact hrest entry hentry

/-! ## The recursion ends -/

/-- The keys of a set have ranks, and only calls can fail. -/
structure Ranked (r : Recursion κ α ε) (keys : List κ) (rank : κ → ℕ) : Prop where
  /-- The start of the sum. -/
  start : ∀ k ∈ keys, ∃ sum, r.start k = .ok sum
  /-- The calls go to keys of the set with smaller ranks. -/
  known : ∀ k ∈ keys, ∃ cs, r.keys k = .ok cs ∧ ∀ c ∈ cs, ∃ x, r.known k c = .ok x ∧
    (x = none → c ∈ keys ∧ rank c < rank k)

omit [DecidableEq κ] in
theorem total_isOk {call : κ → List (κ × α) → Except ε (α × List (κ × α))} {k : κ}
    {cs : List κ}
    (hcs : ∀ c ∈ cs, ∃ x, r.known k c = .ok x ∧ (x = none → ∀ cache, ∃ out, call c cache = .ok out))
    (sum : α) (cache : List (κ × α)) : ∃ out, r.total call k cs sum cache = .ok out := by
  induction cs generalizing sum cache with
  | nil => exact ⟨_, rfl⟩
  | cons c cs ih =>
    have hrest := ih fun c hc => hcs c (List.mem_cons_of_mem _ hc)
    obtain ⟨x, hx, hcall⟩ := hcs c List.mem_cons_self
    unfold total
    cases x with
    | some v =>
      simp only [hx]
      exact hrest _ _
    | none =>
      obtain ⟨⟨v, cache'⟩, hv⟩ := hcall rfl cache
      simp only [hx, hv]
      exact hrest _ _

/-- Where the ranks decrease, as many nested calls as the rank of a key are enough for it. -/
theorem memo_isOk {keys : List κ} {rank : κ → ℕ} (hr : r.Ranked keys rank) {n : ℕ} {k : κ}
    (hk : k ∈ keys) (hn : rank k < n) (cache : List (κ × α)) :
    ∃ out, r.memo limit n k cache = .ok out := by
  induction n generalizing k cache with
  | zero => omega
  | succ n ih =>
    unfold memo
    cases hlookup : cache.lookup k with
    | some v => exact ⟨_, rfl⟩
    | none =>
      obtain ⟨sum, hsum⟩ := hr.start k hk
      obtain ⟨cs, hcs, hknown⟩ := hr.known k hk
      have htotal : ∃ out, r.total (r.memo limit n) k cs sum cache = .ok out := by
        refine total_isOk (fun c hc => ?_) sum cache
        obtain ⟨x, hx, hcall⟩ := hknown c hc
        refine ⟨x, hx, fun hnone cache => ?_⟩
        obtain ⟨hmem, hlt⟩ := hcall hnone
        exact ih hmem (by omega) cache
      obtain ⟨⟨sum', cache'⟩, hout⟩ := htotal
      simp only [hsum, hcs, hout]
      exact ⟨_, rfl⟩

theorem table_isOk {keys : List κ} {rank : κ → ℕ} (hr : r.Ranked keys rank) {n : ℕ}
    (hn : ∀ k ∈ keys, rank k < n) {ks : List κ} (hks : ks ⊆ keys) (cache : List (κ × α)) :
    ∃ t, r.table limit n ks cache = .ok t := by
  induction ks generalizing cache with
  | nil => exact ⟨_, rfl⟩
  | cons k ks ih =>
    have hk : k ∈ keys := hks List.mem_cons_self
    obtain ⟨⟨v, cache'⟩, hv⟩ : ∃ out, r.memo limit n k cache = .ok out :=
      memo_isOk hr hk (hn k hk) cache
    obtain ⟨rest, hrest⟩ := ih (fun c hc => hks (List.mem_cons_of_mem _ hc)) cache'
    refine ⟨(k, v) :: rest, ?_⟩
    simp only [table, hv, hrest]

end Memo

end Recursion
