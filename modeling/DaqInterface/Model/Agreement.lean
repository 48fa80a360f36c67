import DaqInterface.Model.ConfigFiles

/-!
# When the two preparations agree

The overlapped preparation takes the documents as they are found; the sequential one
refuses repeated names, expands `#include`, numbers root files and asks `check_config`.
`agree_iff_nothingLost` says for which configurations the difference does not show,
whatever `fhicl-dump` and the bookkeeping do with the documents.
-/

namespace DaqInterface

/-- The two preparations succeed together, and then with the same documents. -/
def Agree (src : ConfigTree) (tools : Tools) (disable_unique_rootfile_labels : Bool)
    (procs : List Procinfo) (subconfigs : List String) : Prop :=
  ∀ documents, overlapped_documents src tools procs subconfigs = .ok documents ↔
    sequential_documents src tools disable_unique_rootfile_labels procs subconfigs = .ok documents

/-- The files as they are found are the files the sequential preparation makes of them:
no name is repeated, and neither `#include` nor the numbering of root files changes them. -/
def SameFiles (src : ConfigTree) (disable_unique_rootfile_labels : Bool) (procs : List Procinfo)
    (subconfigs : List String) : Prop :=
  ∃ texts texts', raw_texts src procs subconfigs = .ok texts ∧
    resolved_texts src disable_unique_rootfile_labels procs subconfigs = .ok texts' ∧
    preformat_files procs texts = preformat_files procs texts'

/-- Neither preparation gets past the search for the documents and `check_config`. -/
def BothFail (src : ConfigTree) (check : List String → Bool)
    (disable_unique_rootfile_labels : Bool) (procs : List Procinfo) (subconfigs : List String) :
    Prop :=
  (∀ texts, raw_texts src procs subconfigs ≠ .ok texts) ∧
    ((∀ texts, resolved_texts src disable_unique_rootfile_labels procs subconfigs ≠ .ok texts) ∨
      ∀ documents, documents.length = procs.length → check documents = false)

/-- None of the steps that only the sequential preparation has shows. -/
def NothingLost (src : ConfigTree) (check : List String → Bool)
    (disable_unique_rootfile_labels : Bool) (procs : List Procinfo) (subconfigs : List String) :
    Prop :=
  BothFail src check disable_unique_rootfile_labels procs subconfigs ∨
    SameFiles src disable_unique_rootfile_labels procs subconfigs ∧
      ∀ documents, documents.length = procs.length → check documents = true

/-! ## The common part -/

/-- What both preparations do with the documents they found. -/
def finish_documents (tools : Tools) (procs : List Procinfo) (texts : List (List Char)) :
    Except String (List String) := do
  let documents ← reformat_fhicl_documents tools procs texts
  bookkeeping_for_fhicl_documents tools procs documents

theorem overlapped_documents_eq (src : ConfigTree) (tools : Tools) (procs : List Procinfo)
    (subconfigs : List String) :
    overlapped_documents src tools procs subconfigs =
      raw_texts src procs subconfigs >>= finish_documents tools procs := rfl

/-- The overlapped preparation succeeds when its documents are found and finished. -/
theorem overlapped_documents_eq_ok {src : ConfigTree} {tools : Tools} {procs : List Procinfo}
    {subconfigs documents : List String} :
    overlapped_documents src tools procs subconfigs = .ok documents ↔
      ∃ texts, raw_texts src procs subconfigs = .ok texts ∧
        finish_documents tools procs texts = .ok documents := by
  rw [overlapped_documents_eq]
  cases raw_texts src procs subconfigs with
  | error e => simp [bind, Except.bind]
  | ok texts => simp [bind, Except.bind]

/-- The sequential preparation succeeds when its documents are found, finished and accepted
by `check_config`. -/
theorem sequential_documents_eq_ok {src : ConfigTree} {tools : Tools} {disable : Bool}
    {procs : List Procinfo} {subconfigs documents : List String} :
    sequential_documents src tools disable procs subconfigs = .ok documents ↔
      ∃ texts, resolved_texts src disable procs subconfigs = .ok texts ∧
        finish_documents tools procs texts = .ok documents ∧
        tools.check_config documents = true := by
  unfold sequential_documents bookkept_documents
  cases resolved_texts src disable procs subconfigs with
  | error e => simp [bind, Except.bind]
  | ok texts =>
    simp only [bind, Except.bind, finish_documents, Except.ok.injEq, exists_eq_left']
    cases reformat_fhicl_documents tools procs texts with
    | error e => simp [throw, throwThe, MonadExceptOf.throw]
    | ok documents₁ =>
      simp only [pure, Except.pure]
      cases bookkeeping_for_fhicl_documents tools procs documents₁ with
      | error e => simp [throw, throwThe, MonadExceptOf.throw]
      | ok documents₂ =>
        simp only [check_config, Except.ok.injEq]
        split <;> rename_i h <;> simp [throw, throwThe, MonadExceptOf.throw, pure, Except.pure]
        · rintro rfl; exact h
        · rintro rfl; simpa using h

/-- Finishing reads no more of the documents than the files that are reformatted. -/
theorem finish_documents_congr (tools : Tools) {procs : List Procinfo}
    {texts texts' : List (List Char)}
    (h : preformat_files procs texts = preformat_files procs texts') :
    finish_documents tools procs texts = finish_documents tools procs texts' := by
  unfold finish_documents reformat_fhicl_documents
  rw [h]

theorem length_preformat_files (procs : List Procinfo) (texts : List (List Char)) :
    (preformat_files procs texts).length = procs.length := List.length_map ..

/-- A map that can fail keeps the length of the list. -/
theorem length_of_mapM {α β : Type} {f : α → Except String β} {l : List α} {r : List β}
    (h : l.mapM f = .ok r) : r.length = l.length := by
  induction l generalizing r with
  | nil =>
    obtain rfl : [] = r := by simpa [pure, Except.pure] using h
    rfl
  | cons a l ih =>
    rw [List.mapM_cons] at h
    cases hf : f a with
    | error e => simp [hf, bind, Except.bind] at h
    | ok b =>
      cases hl : l.mapM f with
      | error e => simp [hf, hl, bind, Except.bind] at h
      | ok bs =>
        obtain rfl : b :: bs = r := by
          simpa [hf, hl, bind, Except.bind, pure, Except.pure] using h
        simp [ih hl]

/-- A map that does not fail is a map. -/
theorem mapM_ok {α β : Type} (g : α → β) (l : List α) :
    l.mapM (fun a => (Except.ok (g a) : Except String β)) = .ok (l.map g) := by
  induction l with
  | nil => rfl
  | cons a l ih => simp [List.mapM_cons, ih, bind, Except.bind, pure, Except.pure]

/-- Every process has a document when the preparation is finished. -/
theorem length_of_finish {tools : Tools} {procs : List Procinfo} {texts : List (List Char)}
    {documents : List String} (h : finish_documents tools procs texts = .ok documents) :
    documents.length = procs.length := by
  unfold finish_documents at h
  cases hr : reformat_fhicl_documents tools procs texts with
  | error e => simp [hr, bind, Except.bind] at h
  | ok documents₁ =>
    simp only [hr, bind, Except.bind, bookkeeping_for_fhicl_documents] at h
    cases hb : tools.bookkeeping procs documents₁ with
    | error e => simp [hb] at h
    | ok replaced =>
      simp only [hb, pure, Except.pure, Except.ok.injEq] at h
      rw [← h, List.length_mapIdx, length_of_mapM hr, length_preformat_files]

/-! ## Tools that show a difference -/

/-- Tools whose `fhicl-dump` changes nothing and whose bookkeeping gives what is told. -/
def replacingTools (check : List String → Bool) (documents : List String) : Tools :=
  ⟨some, fun _ _ => .ok documents, check⟩

/-- Tools that leave the documents as they are. -/
def plainTools (check : List String → Bool) : Tools := ⟨some, fun _ documents => .ok documents, check⟩

/-- With a `fhicl-dump` that changes nothing only the bookkeeping is left. -/
theorem finish_of_dump {tools : Tools} (h : tools.fhicl_dump = some) (procs : List Procinfo)
    (texts : List (List Char)) :
    finish_documents tools procs texts =
      bookkeeping_for_fhicl_documents tools procs
        ((preformat_files procs texts).map String.ofList) := by
  have hr : reformat_fhicl_documents tools procs texts =
      .ok ((preformat_files procs texts).map String.ofList) := by
    rw [reformat_fhicl_documents, h]
    exact mapM_ok String.ofList (preformat_files procs texts)
  rw [finish_documents, hr]
  rfl

theorem finish_replacingTools {check : List String → Bool} {procs : List Procinfo}
    {texts : List (List Char)} {documents : List String} (h : documents.length = procs.length) :
    finish_documents (replacingTools check documents) procs texts = .ok documents := by
  rw [finish_of_dump rfl]
  refine congrArg Except.ok (List.ext_getElem ?_ fun i hi hi' => ?_)
  · simp [length_preformat_files, h]
  · simp [hi']

theorem finish_plainTools (check : List String → Bool) (procs : List Procinfo)
    (texts : List (List Char)) :
    finish_documents (plainTools check) procs texts =
      .ok ((preformat_files procs texts).map String.ofList) := by
  rw [finish_of_dump rfl]
  refine congrArg Except.ok (List.ext_getElem ?_ fun i hi hi' => ?_)
  · simp
  · simp only [List.length_map] at hi'
    simp [hi']

/-! ## The condition -/

section Condition

variable {src : ConfigTree} {check : List String → Bool} {disable : Bool} {procs : List Procinfo}
  {subconfigs : List String}

/-- Where no lost step shows, the preparations agree. -/
theorem NothingLost.agree (h : NothingLost src check disable procs subconfigs) (tools : Tools)
    (hcheck : tools.check_config = check) : Agree src tools disable procs subconfigs := by
  intro documents
  rw [overlapped_documents_eq_ok, sequential_documents_eq_ok]
  rcases h with ⟨hraw, hres⟩ | ⟨⟨texts, texts', hraw, hres, hsame⟩, haccept⟩
  · constructor
    · rintro ⟨texts, htexts, -⟩
      exact absurd htexts (hraw texts)
    · rintro ⟨texts, htexts, hfin, hok⟩
      rcases hres with hres | hveto
      · exact absurd htexts (hres texts)
      · rw [hcheck, hveto documents (length_of_finish hfin)] at hok
        cases hok
  · have hfin := finish_documents_congr tools hsame
    rw [hraw, hres]
    constructor
    · rintro ⟨found, hfound, h⟩
      obtain rfl : texts = found := Except.ok.inj hfound
      exact ⟨texts', rfl, hfin ▸ h, by rw [hcheck]; exact haccept documents (length_of_finish h)⟩
    · rintro ⟨found, hfound, h, -⟩
      obtain rfl : texts' = found := Except.ok.inj hfound
      exact ⟨texts, rfl, hfin ▸ h⟩

/-- Where the preparations agree with every tool, no lost step shows. -/
theorem nothingLost_of_agree
    (h : ∀ tools : Tools, tools.check_config = check → Agree src tools disable procs subconfigs) :
    NothingLost src check disable procs subconfigs := by
  have hreplace : ∀ documents, documents.length = procs.length →
      ((∃ texts, raw_texts src procs subconfigs = .ok texts) ↔
        (∃ texts, resolved_texts src disable procs subconfigs = .ok texts) ∧
          check documents = true) := by
    intro documents hlen
    have hagree := h (replacingTools check documents) rfl documents
    rw [overlapped_documents_eq_ok, sequential_documents_eq_ok] at hagree
    simp only [finish_replacingTools hlen, and_true, true_and] at hagree
    rw [hagree]
    simp [replacingTools]
  have hplain := fun documents => h (plainTools check) rfl documents
  simp only [overlapped_documents_eq_ok, sequential_documents_eq_ok, finish_plainTools] at hplain
  by_cases hraw : ∃ texts, raw_texts src procs subconfigs = .ok texts
  · obtain ⟨texts, htexts⟩ := hraw
    obtain ⟨texts', htexts', heq, -⟩ := (hplain _).mp ⟨texts, htexts, rfl⟩
    have hinj : Function.Injective String.ofList := fun a b hab => by
      simpa using congrArg String.toList hab
    have hsame : preformat_files procs texts' = preformat_files procs texts :=
      List.map_injective_iff.mpr hinj (by simpa using heq)
    exact Or.inr ⟨⟨texts, texts', htexts, htexts', hsame.symm⟩,
      fun documents hlen => ((hreplace documents hlen).mp ⟨texts, htexts⟩).2⟩
  · refine Or.inl ⟨fun texts htexts => hraw ⟨texts, htexts⟩, ?_⟩
    by_cases hres : ∃ texts, resolved_texts src disable procs subconfigs = .ok texts
    · refine Or.inr fun documents hlen => ?_
      by_contra hc
      exact hraw ((hreplace documents hlen).mpr ⟨hres, by simpa using hc⟩)
    · exact Or.inl fun texts htexts => hres ⟨texts, htexts⟩

end Condition

/-! ## Configurations that use none of the lost steps -/

section Plain

variable {src : ConfigTree} {disable : Bool}

/-- A document without `#include` and, where root files are numbered, without names of
root files. -/
structure PlainText (disable : Bool) (p : Procinfo) (text : List Char) : Prop where
  /-- No line asks for another file. -/
  no_include : ∀ line ∈ readlines text, ¬ "#include".toList <:+: line
  /-- Numbering the root files changes nothing, or is not done. -/
  no_label : disable = true ∨ writes_root_files p = false ∨ ∀ n, relabel_root_files n text = text

/-- The last element a map that can fail gives is the image of the last element. -/
theorem getLast?_of_mapM {α β : Type} {f : α → Except String β} {l : List α} {r : List β} {b : β}
    (h : l.mapM f = .ok r) (hb : r.getLast? = some b) : ∃ a, l.getLast? = some a ∧ f a = .ok b := by
  induction l generalizing r with
  | nil =>
    obtain rfl : [] = r := by simpa [pure, Except.pure] using h
    simp at hb
  | cons a l ih =>
    rw [List.mapM_cons] at h
    cases hf : f a with
    | error e => simp [hf, bind, Except.bind] at h
    | ok b' =>
      cases hl : l.mapM f with
      | error e => simp [hf, hl, bind, Except.bind] at h
      | ok bs =>
        obtain rfl : b' :: bs = r := by
          simpa [hf, hl, bind, Except.bind, pure, Except.pure] using h
        cases bs with
        | nil =>
          have hnil : l = [] := List.length_eq_zero_iff.mp (length_of_mapM hl).symm
          subst hnil
          obtain rfl : b' = b := by simpa using hb
          exact ⟨a, rfl, hf⟩
        | cons b'' bs =>
          obtain ⟨a', ha', hfa'⟩ := ih hl (by simpa using hb)
          exact ⟨a', by rw [List.getLast?_cons, ha']; rfl, hfa'⟩

/-- The text a preparation reads for a process is the text of the last file it finds. -/
theorem read_file_of_raw_document {walk : List (String × List String)} {p : Procinfo}
    {text : List Char} (h : raw_document src walk p = .ok text) :
    ∃ path, (matching_paths walk p).getLast? = some path ∧ read_file src path = .ok text := by
  unfold raw_document at h
  cases hm : (matching_paths walk p).mapM (read_file src) with
  | error e => simp [hm, bind, Except.bind] at h
  | ok texts =>
    simp only [hm, bind, Except.bind] at h
    cases hl : texts.getLast? with
    | none => simp [hl, throw, throwThe, MonadExceptOf.throw] at h
    | some text' =>
      obtain rfl : text' = text := by simpa [hl, pure, Except.pure] using h
      exact getLast?_of_mapM hm hl

/-- A map that can fail and gives back every element gives back the list. -/
theorem mapM_self {α : Type} {f : α → Except String α} {l : List α} (h : ∀ a ∈ l, f a = .ok a) :
    l.mapM f = .ok l := by
  induction l with
  | nil => rfl
  | cons a l ih =>
    rw [List.mapM_cons, h a List.mem_cons_self, ih fun b hb => h b (List.mem_cons_of_mem a hb)]
    rfl

/-- Without `#include` a file is its own expansion. -/
theorem recursive_include_plain {ffp : List String} {path : String} {text : List Char} {depth : ℕ}
    (hread : read_file src path = .ok text) (hdepth : 0 < depth)
    (hno : ∀ line ∈ readlines text, ¬ "#include".toList <:+: line) :
    recursive_include src ffp depth path = .ok text := by
  obtain ⟨d, rfl⟩ : ∃ d, depth = d + 1 := ⟨depth - 1, by omega⟩
  have hlines : (readlines text).mapM
      (include_line src ffp path (recursive_include src ffp d)) = .ok (readlines text) :=
    mapM_self fun line hline => if_pos (hno line hline)
  simp only [recursive_include, hread, bind, Except.bind, hlines, pure, Except.pure,
    flatten_readlines]

/-- Plain documents are found by the sequential preparation as they are. -/
theorem resolve_texts_plain {info : ConfigInfo} (hlimit : 0 < src.recursion_limit)
    {procs : List Procinfo} {texts : List (List Char)} (cntr : ℕ)
    (h : procs.mapM (raw_document src info.walk) = .ok texts)
    (hplain : ∀ p ∈ procs, ∀ text, raw_document src info.walk p = .ok text →
      PlainText disable p text) :
    resolve_texts src info disable cntr procs = .ok texts := by
  induction procs generalizing texts with
  | nil => simpa [resolve_texts, pure, Except.pure] using h
  | cons p procs ih =>
    rw [List.mapM_cons] at h
    cases hp : raw_document src info.walk p with
    | error e => simp [hp, bind, Except.bind] at h
    | ok text =>
      cases hrest : procs.mapM (raw_document src info.walk) with
      | error e => simp [hp, hrest, bind, Except.bind] at h
      | ok rest =>
        obtain rfl : text :: rest = texts := by
          simpa [hp, hrest, bind, Except.bind, pure, Except.pure] using h
        obtain ⟨path, hlast, hread⟩ := read_file_of_raw_document hp
        have htext := hplain p List.mem_cons_self text hp
        have hexpand : recursive_include src info.ffp src.recursion_limit path = .ok text :=
          recursive_include_plain hread hlimit htext.no_include
        have hlabel : (if (!disable && writes_root_files p) = true then
            relabel_root_files (cntr + 1) text else text) = text := by
          rcases htext.no_label with rfl | hw | hn
          · simp
          · simp [hw]
          · rw [hn, ite_self]
        have hih := ih hrest fun q hq => hplain q (List.mem_cons_of_mem p hq)
        simp only [resolve_texts, hlast, hexpand, bind, Except.bind, pure, Except.pure, hlabel,
          if_true]
        rw [hih]

/-- A configuration whose documents are plain and whose file names are not repeated loses
nothing in the overlapped preparation. -/
theorem sameFiles_of_plain {procs : List Procinfo} {subconfigs : List String} {info : ConfigInfo}
    {texts : List (List Char)} (hlimit : 0 < src.recursion_limit) (hne : subconfigs ≠ [])
    (hinfo : get_config_info src subconfigs = .ok info)
    (htexts : procs.mapM (raw_document src info.walk) = .ok texts)
    (hunique : find_duplicate [] (info.walk.flatMap Prod.snd) = none)
    (hplain : ∀ p ∈ procs, ∀ text, raw_document src info.walk p = .ok text →
      PlainText disable p text) : SameFiles src disable procs subconfigs := by
  refine ⟨texts, texts, ?_, ?_, rfl⟩
  · have hif : (if subconfigs.isEmpty = true then ["ots_config"] else subconfigs) = subconfigs := by
      simp [hne]
    simp only [raw_texts, hif, hinfo, bind, Except.bind, htexts]
  · simp only [resolved_texts, hinfo, bind, Except.bind, pure, Except.pure, hunique]
    exact resolve_texts_plain hlimit 0 htexts hplain

end Plain

/-- A configuration of one event builder whose document includes another file. -/
def includingTree : ConfigTree where
  common_code := false
  copytree := fun _ subconfig => .ok ["/tmp/" ++ subconfig]
  walk := fun _ => [("/tmp/demo", ["eb.fcl", "a.inc"])]
  file_at := fun path =>
    if path = "/tmp/demo/eb.fcl" then some (.text "#include \"a.inc\"\n".toList)
    else if path = "/tmp/demo/a.inc" then some (.text "x: 1\n".toList)
    else none
  recursion_limit := 2

end DaqInterface
