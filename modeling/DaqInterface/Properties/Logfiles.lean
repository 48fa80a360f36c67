import DaqInterface.Library.Fold
import DaqInterface.Library.Memo
import DaqInterface.Model.Logfiles

/-!
# Whose log file it is

The name of a log file is put together from the label of its process, a suffix, a host and a port,
and taken apart again by two other rules: a process is looked up by `/label-`, and a link is put
where the last process belongs whose label is a part of the name up to its first dash.  With labels
that are parts of others, that have dashes or that a suffix follows, the rules disagree.  They agree
on all files exactly under a condition on the names (`logfiles_attributed_iff`).
-/

open Loop

namespace DaqInterface

variable {self : LogInterface} {logfiles : List LogFile} {logs : LogLists}

/-- The link to a log file is made in the directory of its type: on its host, under a name that no
link before it has. -/
def LogInterface.Linked (self : LogInterface) (logs : LogLists) (file : LogFile) : Prop :=
  ∃ links, self.softlink_logfiles logs = .ok links ∧
    ∃ made, links.lookup file.full_hostname = some made ∧
      ∃ name : String, '/' ∉ name.toList ∧
        made.find? (fun link => link.2 =
          self.log_directory ++ "/" ++ log_subdir file.procinfo.name ++ "/" ++ name) =
        some (file.logfile,
          self.log_directory ++ "/" ++ log_subdir file.procinfo.name ++ "/" ++ name)

/-- What a link is known by: its host, its directory and the label in its name. -/
def LogFile.link_key (file : LogFile) : String × ProcType × List Char :=
  (file.full_hostname, file.procinfo.name, log_label file.fulllogname)

/-- The names of the log files are understood: each one has `/label-`, no colon but the one behind
the host, and, up to its first dash, a label whose last process is of its type; no two links get
one name. -/
structure LogInterface.Attributable (interface : LogInterface) (logfiles : List LogFile) : Prop where
  has_label : ∀ file ∈ logfiles,
    contains ("/" ++ file.procinfo.label ++ "-") file.fulllogname = true
  no_colon : ∀ file ∈ logfiles, ':' ∉ file.full_hostname.toList ∧ ':' ∉ file.logfile.toList
  own_type : ∀ file ∈ logfiles,
    interface.proctype_of_label (log_label file.fulllogname) = some file.procinfo.name
  distinct : (logfiles.map LogFile.link_key).Nodup

/-! ## The lists of names -/

/-- The log files in the order of the lists of names. -/
def by_type (logfiles : List LogFile) : List LogFile :=
  log_types.flatMap fun proctype => logfiles.filter fun file => file.procinfo.name == proctype

theorem mem_log_types (proctype : ProcType) : proctype ∈ log_types := by
  cases proctype <;> decide

/-- Elements that belong to one of two kinds. -/
theorem filter_or_perm {α : Type} (p q : α → Bool) (l : List α)
    (h : ∀ a ∈ l, p a = true → q a = false) :
    (l.filter p ++ l.filter q).Perm (l.filter fun a => p a || q a) := by
  induction l with
  | nil => exact List.Perm.refl _
  | cons a l ih =>
    have hrest := ih fun b hb => h b (List.mem_cons_of_mem a hb)
    cases hp : p a with
    | true =>
      have hq := h a List.mem_cons_self hp
      rw [List.filter_cons_of_pos hp, List.filter_cons_of_neg (by rw [hq]; decide),
        List.filter_cons_of_pos (by rw [hp]; rfl), List.cons_append]
      exact hrest.cons a
    | false =>
      rw [List.filter_cons_of_neg (by rw [hp]; decide)]
      cases hq : q a with
      | true =>
        rw [List.filter_cons_of_pos hq, List.filter_cons_of_pos (by rw [hq, hp]; rfl)]
        exact List.perm_middle.trans (hrest.cons a)
      | false =>
        rw [List.filter_cons_of_neg (by rw [hq]; decide),
          List.filter_cons_of_neg (by rw [hq, hp]; decide)]
        exact hrest

/-- Elements gone through key after key. -/
theorem flatMap_keys_perm {α κ : Type} [BEq κ] [LawfulBEq κ] (key : α → κ) {keys : List κ}
    (hnodup : keys.Nodup) (l : List α) (hkeys : ∀ a ∈ l, key a ∈ keys) :
    (keys.flatMap fun k => l.filter fun a => key a == k).Perm l := by
  suffices hall : (keys.flatMap fun k => l.filter fun a => key a == k).Perm
      (l.filter fun a => keys.elem (key a)) by
    refine hall.trans (List.Perm.of_eq (List.filter_eq_self.mpr fun a ha => ?_))
    exact List.elem_eq_true_of_mem (hkeys a ha)
  clear hkeys
  induction keys with
  | nil => simp
  | cons k keys ih =>
    obtain ⟨hnot, hnodup⟩ := List.nodup_cons.mp hnodup
    rw [List.flatMap_cons]
    refine ((ih hnodup).append_left _).trans ?_
    refine (filter_or_perm _ _ l fun a _ ha => ?_).trans (List.Perm.of_eq ?_)
    · rw [beq_iff_eq.mp ha]
      exact Bool.eq_false_iff.mpr fun h => hnot (List.mem_of_elem_eq_true h)
    · refine List.filter_congr fun a _ => ?_
      rw [List.elem_cons]
      cases key a == k <;> rfl

theorem by_type_perm (logfiles : List LogFile) : (by_type logfiles).Perm logfiles :=
  flatMap_keys_perm (fun file : LogFile => file.procinfo.name) (by decide) logfiles
    fun _ _ => mem_log_types _

theorem foldl_append_log_filename (logfiles : List LogFile) (logs : LogLists) (proctype : ProcType) :
    logfiles.foldl append_log_filename logs proctype = logs proctype ++
      (logfiles.filter fun file => file.procinfo.name == proctype).map LogFile.fulllogname := by
  induction logfiles generalizing logs with
  | nil => exact (List.append_nil _).symm
  | cons file logfiles ih =>
    rw [List.foldl_cons, ih, append_log_filename]
    by_cases htype : file.procinfo.name = proctype
    · rw [if_pos htype.symm, List.filter_cons_of_pos (by simpa using htype), List.map_cons,
        List.append_assoc]
      rfl
    · rw [if_neg fun h => htype h.symm, List.filter_cons_of_neg (by simpa using htype)]

/-- The names that are kept are those of the log files. -/
theorem all_logfilenames_foldl (logfiles : List LogFile) :
    all_logfilenames (logfiles.foldl append_log_filename fun _ => []) =
      (by_type logfiles).map LogFile.fulllogname := by
  unfold all_logfilenames by_type
  rw [List.map_flatMap]
  refine List.flatMap_congr fun proctype _ => ?_
  rw [foldl_append_log_filename]
  rfl

/-! ## Names taken apart -/

theorem fulllogname_toList (file : LogFile) :
    file.fulllogname.toList = file.full_hostname.toList ++ ':' :: file.logfile.toList := by
  unfold LogFile.fulllogname
  rw [String.toList_append, String.toList_append, List.append_assoc]
  rfl

/-- The host in a name. -/
def host_part (fulllogname : String) : String :=
  String.ofList ((splitOn ':' fulllogname.toList).headD [])

/-- The path in a name. -/
def path_part (fulllogname : String) : String :=
  String.ofList (splitOn ':' fulllogname.toList).tail.flatten

theorem not_mem_of_mem_splitOn {sep : Char} {text part : List Char} (h : part ∈ splitOn sep text) :
    sep ∉ part := by
  induction text generalizing part with
  | nil =>
    rw [List.mem_singleton.mp h]
    exact List.not_mem_nil
  | cons c cs ih =>
    unfold splitOn at h
    split at h
    · rcases List.mem_cons.mp h with rfl | h
      · exact List.not_mem_nil
      · exact ih h
    · rename_i hc
      split at h
      · rw [List.mem_singleton.mp h]
        exact fun hmem => hc (List.mem_singleton.mp hmem).symm
      · rename_i first rest hrest
        rcases List.mem_cons.mp h with rfl | h
        · intro hmem
          rcases List.mem_cons.mp hmem with heq | hmem
          · exact hc heq.symm
          · exact ih (hrest ▸ List.mem_cons_self) hmem
        · exact ih (hrest ▸ List.mem_cons_of_mem _ h)

theorem colon_not_mem_parts (name : String) :
    ':' ∉ (host_part name).toList ∧ ':' ∉ (path_part name).toList := by
  unfold host_part path_part
  rw [String.toList_ofList, String.toList_ofList]
  obtain ⟨first, parts, hparts⟩ := List.exists_cons_of_ne_nil (splitOn_ne_nil ':' name.toList)
  have hall : ∀ part ∈ first :: parts, ':' ∉ part := fun part hpart =>
    not_mem_of_mem_splitOn (hparts ▸ hpart)
  rw [hparts]
  refine ⟨hall first List.mem_cons_self, fun hmem => ?_⟩
  obtain ⟨part, hpart, hcolon⟩ := List.mem_flatten.mp hmem
  exact hall part (List.mem_cons_of_mem first hpart) hcolon

theorem parts_of_no_colon {file : LogFile} (hhost : ':' ∉ file.full_hostname.toList)
    (hpath : ':' ∉ file.logfile.toList) :
    host_part file.fulllogname = file.full_hostname ∧
      path_part file.fulllogname = file.logfile := by
  have hsplit : splitOn ':' file.fulllogname.toList =
      [file.full_hostname.toList, file.logfile.toList] := by
    rw [fulllogname_toList, splitOn_append, splitOn_eq_self hhost, splitOn_eq_self hpath]
    rfl
  unfold host_part path_part
  rw [hsplit]
  constructor
  · exact String.ofList_toList
  · rw [List.tail_cons, List.flatten_singleton]
    exact String.ofList_toList

theorem subset_of_mem_splitOn {sep : Char} {text part : List Char}
    (h : part ∈ splitOn sep text) : part ⊆ text := by
  induction text generalizing part with
  | nil => exact (List.mem_singleton.mp h) ▸ List.Subset.refl _
  | cons c cs ih =>
    unfold splitOn at h
    split at h
    · rcases List.mem_cons.mp h with rfl | h
      · exact List.nil_subset _
      · exact List.subset_cons_of_subset c (ih h)
    · split at h
      · rw [List.mem_singleton.mp h]
        exact List.cons_subset_cons c (List.nil_subset _)
      · rename_i first rest hrest
        rcases List.mem_cons.mp h with rfl | h
        · exact List.cons_subset_cons c (ih (hrest ▸ List.mem_cons_self))
        · exact List.subset_cons_of_subset c (ih (hrest ▸ List.mem_cons_of_mem _ h))

/-- The label in a name has no slash. -/
theorem slash_not_mem_log_label (name : String) : '/' ∉ log_label name := by
  unfold log_label
  obtain ⟨parts, last, hparts, -⟩ := splitOn_last '/' name.toList
  rw [hparts, List.getLast?_concat, Option.getD_some]
  have hlast : '/' ∉ last :=
    not_mem_of_mem_splitOn (hparts ▸ List.mem_append_right _ (List.mem_singleton_self last))
  obtain ⟨first, rest, hfirst⟩ := List.exists_cons_of_ne_nil (splitOn_ne_nil '-' last)
  rw [hfirst, List.headD_cons]
  exact fun hmem => hlast (subset_of_mem_splitOn (hfirst ▸ List.mem_cons_self) hmem)

/-! ## The links -/

/-- The end of the name of a link behind its directory. -/
def link_name (interface : LogInterface) (label : List Char) : String :=
  "run" ++ toString interface.run_number ++ "-" ++ String.ofList label ++ ".log"

theorem softlink_eq (proctype : ProcType) (label : List Char) :
    self.softlink proctype label =
      self.log_directory ++ "/" ++ log_subdir proctype ++ "/" ++ link_name self label := by
  refine String.toList_injective ?_
  unfold LogInterface.softlink link_name
  simp only [String.toList_append, List.append_assoc]
  rfl

theorem slash_not_mem_link_name (label : List Char) (h : '/' ∉ label) :
    '/' ∉ (link_name self label).toList := by
  unfold link_name
  simp only [String.toList_append, String.toList_ofList, List.mem_append, not_or]
  refine ⟨⟨⟨⟨by decide, ?_⟩, by decide⟩, h⟩, by decide⟩
  exact not_mem_toString_nat (by decide) _

theorem slash_not_mem_log_subdir (proctype : ProcType) : '/' ∉ (log_subdir proctype).toList := by
  cases proctype <;> decide

theorem log_subdir_injective : Function.Injective log_subdir := by
  intro a b h
  cases a <;> cases b <;> first | rfl | exact absurd h (by decide)

/-- A name in a directory of links tells the directory and what is behind it. -/
theorem link_parts {proctype proctype' : ProcType} {name name' : String}
    (hname : '/' ∉ name.toList) (hname' : '/' ∉ name'.toList)
    (h : self.log_directory ++ "/" ++ log_subdir proctype ++ "/" ++ name =
      self.log_directory ++ "/" ++ log_subdir proctype' ++ "/" ++ name') :
    proctype = proctype' ∧ name = name' := by
  have hlist := congrArg String.toList h
  simp only [String.toList_append, List.append_assoc, List.append_cancel_left_eq] at hlist
  have hsplit := congrArg (splitOn '/') hlist
  have hslash : "/".toList = ['/'] := rfl
  rw [hslash, List.singleton_append, List.singleton_append, splitOn_append, splitOn_append,
    splitOn_eq_self (slash_not_mem_log_subdir _), splitOn_eq_self (slash_not_mem_log_subdir _),
    splitOn_eq_self hname, splitOn_eq_self hname'] at hsplit
  simp only [List.singleton_append, List.cons.injEq, and_true] at hsplit
  exact ⟨log_subdir_injective (String.toList_injective hsplit.1),
    String.toList_injective hsplit.2⟩

/-- The labels of two links of one name. -/
theorem link_name_injective {label label' : List Char}
    (h : link_name self label = link_name self label') : label = label' := by
  have hlist := congrArg String.toList h
  unfold link_name at hlist
  simp only [String.toList_append, String.toList_ofList, List.append_assoc,
    List.append_cancel_left_eq, List.append_cancel_right_eq] at hlist
  exact hlist

/-- What one name adds to the links. -/
theorem add_softlink_eq_ok {links links' : List (String × List (String × String))} {name : String} :
    self.add_softlink links name = .ok links' ↔
      ∃ proctype, self.proctype_of_label (log_label name) = some proctype ∧
        links' = Dict.assign (host_part name) ((links.lookup (host_part name)).getD [] ++
          [(path_part name, self.softlink proctype (log_label name))]) links := by
  unfold LogInterface.add_softlink
  dsimp only
  cases htype : self.proctype_of_label (log_label name) with
  | none => simp
  | some proctype =>
    constructor
    · exact fun h => ⟨proctype, rfl, (Except.ok.inj h).symm⟩
    · rintro ⟨proctype', hsome, rfl⟩
      obtain rfl := Option.some.inj hsome
      rfl

/-- The link that is made for a name, if its label is known. -/
def link_of (interface : LogInterface) (name : String) : Option (String × String) :=
  (interface.proctype_of_label (log_label name)).map fun proctype =>
    (path_part name, interface.softlink proctype (log_label name))

/-- The links of all names: each host has those of its names, in their order. -/
theorem softlinks_of_names {names : List String}
    {links links' : List (String × List (String × String))}
    (h : names.foldlM self.add_softlink links = .ok links') (host : String) :
    (∀ name ∈ names, (link_of self name).isSome) ∧
      ((links'.lookup host).getD []) = (links.lookup host).getD [] ++
        ((names.filter fun name => host_part name = host).filterMap (link_of self)) := by
  induction names generalizing links with
  | nil =>
    obtain rfl := Except.ok.inj h
    exact ⟨fun name h => absurd h List.not_mem_nil, (List.append_nil _).symm⟩
  | cons name names ih =>
    obtain ⟨between, hfirst, hrest⟩ := foldlM_cons.mp h
    obtain ⟨proctype, htype, rfl⟩ := add_softlink_eq_ok.mp hfirst
    obtain ⟨hall, hlinks⟩ := ih hrest
    have hlink : link_of self name =
        some (path_part name, self.softlink proctype (log_label name)) := by
      unfold link_of
      rw [htype]
      rfl
    refine ⟨fun other hother => ?_, ?_⟩
    · rcases List.mem_cons.mp hother with rfl | hother
      · rw [hlink]
        rfl
      · exact hall other hother
    · rw [hlinks, Dict.lookup_assign]
      by_cases hhost : host_part name = host
      · subst hhost
        rw [if_pos rfl, List.filter_cons_of_pos (by simp), List.filterMap_cons_some hlink,
          Option.getD_some, List.append_assoc]
        rfl
      · rw [if_neg fun h => hhost h.symm, List.filter_cons_of_neg (by simpa using hhost)]

theorem softlinks_isOk {names : List String} {links : List (String × List (String × String))}
    (h : ∀ name ∈ names, (link_of self name).isSome) :
    ∃ links', names.foldlM self.add_softlink links = .ok links' := by
  refine foldlM_isOk (fun name hname links => ?_) links
  obtain ⟨link, hlink⟩ := Option.isSome_iff_exists.mp (h name hname)
  obtain ⟨proctype, htype, -⟩ := Option.map_eq_some_iff.mp hlink
  exact ⟨_, add_softlink_eq_ok.mpr ⟨proctype, htype, rfl⟩⟩

/-! ## Each process has a log file -/

theorem length_of_await_logfiles {answer : ℕ → Completed} {processes left : ℕ}
    {found : List String} (h : LogInterface.await_logfiles answer processes left = .ok found) :
    found.length = processes := by
  induction left with
  | zero => exact nomatch h
  | succ left ih =>
    unfold LogInterface.await_logfiles at h
    dsimp only at h
    split_ifs at h with hdone
    · exact Except.ok.inj h ▸ hdone.2
    · exact ih h

theorem logfiles_for_host_procinfos {answer : ℕ → Completed} {host : String}
    {files : List LogFile} (h : self.logfiles_for_host answer host = .ok files) :
    files.map LogFile.procinfo = self.procinfos.filter fun procinfo => procinfo.host == host := by
  unfold LogInterface.logfiles_for_host at h
  obtain ⟨_, -, h⟩ := bind_eq_ok.mp h
  obtain ⟨found, hfound, h⟩ := bind_eq_ok.mp h
  obtain rfl := Except.ok.inj h
  rw [List.map_map]
  exact List.map_fst_zip (by rw [length_of_await_logfiles hfound])

theorem discovered_procinfos {answer : String → ℕ → Completed} {hosts : List String}
    {lists : List (List LogFile)}
    (h : List.Forall₂ (fun host files => self.logfiles_for_host (answer host) host = .ok files)
      hosts lists) :
    lists.flatten.map LogFile.procinfo =
      hosts.flatMap fun host => self.procinfos.filter fun p => p.host == host := by
  induction h with
  | nil => rfl
  | cons hfirst _ ih =>
    rw [List.flatten_cons, List.map_append, List.flatMap_cons,
      logfiles_for_host_procinfos hfirst, ih]

theorem deterministic_procinfos {timestamp : String} {procs : List Procinfo}
    (h : List.Forall₂ (fun p file => self.deterministic_logfile timestamp p = .ok file)
      procs logfiles) : logfiles.map LogFile.procinfo = procs := by
  induction h with
  | nil => rfl
  | @cons procinfo file procs files hfirst _ ih =>
    rw [List.map_cons, ih]
    congr 1
    obtain ⟨label, -, hfile⟩ := bind_eq_ok.mp hfirst
    split at hfile
    · exact nomatch hfile
    · exact Except.ok.inj hfile ▸ rfl

/-- Each process has one log file. -/
theorem associated_procinfos {answer : String → ℕ → Completed} {hosts : List String}
    (hnodup : hosts.Nodup) (hhosts : ∀ p ∈ self.procinfos, p.host ∈ hosts)
    (h : self.associated_logfiles answer hosts = .ok logfiles) :
    (logfiles.map LogFile.procinfo).Perm self.procinfos := by
  have hdiscovered : (hosts.mapM fun host => self.logfiles_for_host (answer host) host).map
      List.flatten = .ok logfiles → (logfiles.map LogFile.procinfo).Perm self.procinfos := by
    intro h
    cases hlists : hosts.mapM fun host => self.logfiles_for_host (answer host) host with
    | error e =>
      rw [hlists] at h
      exact nomatch h
    | ok lists =>
      rw [hlists] at h
      obtain rfl := Except.ok.inj h
      rw [discovered_procinfos (mapM_eq_ok.mp hlists)]
      exact flatMap_keys_perm Procinfo.host hnodup self.procinfos hhosts
  unfold LogInterface.associated_logfiles at h
  split at h
  · split_ifs at h
    · exact List.Perm.of_eq (deterministic_procinfos (mapM_eq_ok.mp h))
    · exact hdiscovered h
  · exact hdiscovered h

/-! ## Looking names up -/

theorem get_log_filenames_eq_ok {answer : String → ℕ → Completed} {hosts : List String}
    (hfiles : self.associated_logfiles answer hosts = .ok logfiles)
    (h : self.get_artdaq_log_filenames answer hosts = .ok logs) :
    all_logfilenames logs = (by_type logfiles).map LogFile.fulllogname ∧
      ∀ p ∈ self.procinfos, ∃ name, determine_logfilename logs p = .ok name := by
  unfold LogInterface.get_artdaq_log_filenames at h
  obtain ⟨logfiles', hfiles', h⟩ := bind_eq_ok.mp h
  rw [hfiles] at hfiles'
  obtain rfl := Except.ok.inj hfiles'
  obtain ⟨names, hnames, h⟩ := bind_eq_ok.mp h
  obtain rfl := Except.ok.inj h
  refine ⟨all_logfilenames_foldl logfiles, fun p hp => ?_⟩
  have hback := List.Forall₂.flip (R := fun name p =>
    determine_logfilename (logfiles.foldl append_log_filename fun _ => []) p = .ok name)
    (mapM_eq_ok.mp hnames)
  obtain ⟨name, -, hname⟩ := Recursion.exists_of_forall₂ hback hp
  exact ⟨name, hname⟩

theorem get_log_filenames_of_mapM {answer : String → ℕ → Completed} {hosts names : List String}
    (hfiles : self.associated_logfiles answer hosts = .ok logfiles)
    (hnames : self.procinfos.mapM (determine_logfilename
      (logfiles.foldl append_log_filename fun _ => [])) = .ok names) :
    self.get_artdaq_log_filenames answer hosts =
      .ok (logfiles.foldl append_log_filename fun _ => []) := by
  unfold LogInterface.get_artdaq_log_filenames
  rw [hfiles]
  exact bind_eq_ok.mpr ⟨logfiles, rfl, bind_eq_ok.mpr ⟨names, hnames, rfl⟩⟩

/-- A name is found for a process if it is the only one with the label. -/
theorem determine_eq_ok {p : Procinfo} {file : LogFile} :
    determine_logfilename logs p = .ok file.fulllogname ↔
      (all_logfilenames logs).filter (contains ("/" ++ p.label ++ "-")) = [file.fulllogname] := by
  unfold determine_logfilename
  split
  · rename_i hnil
    rw [hnil]
    refine iff_of_false (fun h => ?_) (List.cons_ne_nil _ _).symm
    have hname := congrArg String.toList (Except.ok.inj h)
    rw [fulllogname_toList] at hname
    have hcolon : ':' ∈ "(LOGFILE UNDETERMINED)".toList := by
      rw [hname]
      exact List.mem_append_right _ List.mem_cons_self
    exact absurd hcolon (by decide)
  · rename_i name hone
    rw [hone, Except.ok.injEq, List.cons.injEq]
    simp
  · rename_i hnil hone
    refine iff_of_false (fun h => nomatch h) fun h => ?_
    exact hone _ h

/-- Where a label is found at all it is found once. -/
theorem filter_of_determined {p : Procinfo} {name name' : String}
    (h : determine_logfilename logs p = .ok name)
    (hmem : name' ∈ all_logfilenames logs) (hlabel : contains ("/" ++ p.label ++ "-") name' = true) :
    (all_logfilenames logs).filter (contains ("/" ++ p.label ++ "-")) = [name'] := by
  have hfound := List.mem_filter.mpr ⟨hmem, hlabel⟩
  unfold determine_logfilename at h
  split at h
  · rename_i hnil
    rw [hnil] at hfound
    exact absurd hfound List.not_mem_nil
  · rename_i found hone
    rw [hone] at hfound ⊢
    rw [List.mem_singleton.mp hfound]
  · exact nomatch h

/-! ## The links of a run -/

/-- The links that are made on a host. -/
theorem made_of_softlinks {links : List (String × List (String × String))} {host : String}
    {made : List (String × String)} (hlinks : self.softlink_logfiles logs = .ok links)
    (hmade : links.lookup host = some made) :
    made = ((all_logfilenames logs).filter fun name => host_part name = host).filterMap
      (link_of self) := by
  have hhost := (softlinks_of_names hlinks host).2
  rw [hmade] at hhost
  exact hhost

theorem link_of_eq_some {name : String} {link : String × String} :
    link_of self name = some link ↔
      ∃ proctype, self.proctype_of_label (log_label name) = some proctype ∧
        link = (path_part name, self.softlink proctype (log_label name)) := by
  unfold link_of
  rw [Option.map_eq_some_iff]
  exact exists_congr fun _ => and_congr_right fun _ => eq_comm

/-- A link in a directory of links. -/
theorem softlink_eq_iff {proctype proctype' : ProcType} {label : List Char} {name : String}
    (hlabel : '/' ∉ label) (hname : '/' ∉ name.toList) :
    self.softlink proctype label =
        self.log_directory ++ "/" ++ log_subdir proctype' ++ "/" ++ name ↔
      proctype = proctype' ∧ name = link_name self label := by
  rw [softlink_eq]
  constructor
  · intro h
    obtain ⟨htype, heq⟩ := link_parts (slash_not_mem_link_name label hlabel) hname h
    exact ⟨htype, heq.symm⟩
  · rintro ⟨rfl, rfl⟩
    rfl

theorem no_colon_of_linked {file : LogFile} (h : self.Linked logs file) :
    ':' ∉ file.full_hostname.toList ∧ ':' ∉ file.logfile.toList := by
  obtain ⟨links, hlinks, made, hmade, name, -, hfind⟩ := h
  have hmem := List.mem_of_find?_eq_some hfind
  rw [made_of_softlinks hlinks hmade] at hmem
  obtain ⟨found, hfound, hlink⟩ := List.mem_filterMap.mp hmem
  obtain ⟨proctype, -, heq⟩ := link_of_eq_some.mp hlink
  have hhost : host_part found = file.full_hostname := by
    simpa using List.of_mem_filter hfound
  rw [← hhost, (Prod.mk.inj heq).1]
  exact colon_not_mem_parts found

section Attributed

variable (hnames : all_logfilenames logs = (by_type logfiles).map LogFile.fulllogname)
include hnames

theorem exists_file_of_mem {name : String} (h : name ∈ all_logfilenames logs) :
    ∃ file ∈ logfiles, file.fulllogname = name := by
  rw [hnames] at h
  obtain ⟨file, hfile, hname⟩ := List.mem_map.mp h
  exact ⟨file, (by_type_perm logfiles).mem_iff.mp hfile, hname⟩

theorem fulllogname_mem {file : LogFile} (h : file ∈ logfiles) :
    file.fulllogname ∈ all_logfilenames logs := by
  rw [hnames]
  exact List.mem_map_of_mem ((by_type_perm logfiles).mem_iff.mpr h)

/-- Where each file is found by the label of its process no two have one name. -/
theorem fulllogname_nodup
    (h : ∀ file ∈ logfiles, determine_logfilename logs file.procinfo = .ok file.fulllogname) :
    (logfiles.map LogFile.fulllogname).Nodup := by
  rw [← ((by_type_perm logfiles).map LogFile.fulllogname).nodup_iff, ← hnames,
    List.nodup_iff_count_le_one]
  intro name
  by_cases hmem : name ∈ all_logfilenames logs
  · obtain ⟨file, hfile, rfl⟩ := exists_file_of_mem hnames hmem
    have hone := determine_eq_ok.mp (h file hfile)
    have hlabel : contains ("/" ++ file.procinfo.label ++ "-") file.fulllogname = true :=
      List.of_mem_filter (hone ▸ List.mem_singleton_self file.fulllogname)
    rw [← List.count_filter hlabel, hone, List.count_singleton_self]
  · rw [List.count_eq_zero.mpr hmem]
    exact Nat.zero_le 1

/-- The link to a file comes from its own name. -/
theorem own_link {file : LogFile} (hfile : self.Linked logs file)
    (hcolon : ∀ file ∈ logfiles, ':' ∉ file.full_hostname.toList ∧ ':' ∉ file.logfile.toList) :
    self.proctype_of_label (log_label file.fulllogname) = some file.procinfo.name ∧
      ∃ links made, self.softlink_logfiles logs = .ok links ∧
        links.lookup file.full_hostname = some made ∧
          made.find? (fun link => link.2 =
            self.softlink file.procinfo.name (log_label file.fulllogname)) =
          some (file.logfile, self.softlink file.procinfo.name (log_label file.fulllogname)) := by
  obtain ⟨links, hlinks, made, hmade, name, hname, hfind⟩ := hfile
  have hmem := List.mem_of_find?_eq_some hfind
  rw [made_of_softlinks hlinks hmade] at hmem
  obtain ⟨found, hfound, hlink⟩ := List.mem_filterMap.mp hmem
  obtain ⟨hfound, hhost⟩ := List.mem_filter.mp hfound
  obtain ⟨proctype, htype, heq⟩ := link_of_eq_some.mp hlink
  obtain ⟨hpath, hsoft⟩ := Prod.mk.inj heq
  obtain ⟨other, hother, rfl⟩ := exists_file_of_mem hnames hfound
  -- the name has this host and this path, so it is the name of the file
  obtain ⟨hhost', hpath'⟩ := parts_of_no_colon (hcolon other hother).1 (hcolon other hother).2
  have hsame : other.fulllogname = file.fulllogname := by
    have hhost := of_decide_eq_true hhost
    unfold LogFile.fulllogname
    rw [← hhost', hhost, ← hpath', hpath]
  rw [hsame] at htype hsoft
  obtain ⟨rfl, hlast⟩ := (softlink_eq_iff (slash_not_mem_log_label _) hname).mp hsoft.symm
  refine ⟨htype, links, made, hlinks, hmade, ?_⟩
  rw [softlink_eq, ← hlast]
  exact hfind

theorem attributable_of_linked
    (h : ∀ file ∈ logfiles, determine_logfilename logs file.procinfo = .ok file.fulllogname ∧
      self.Linked logs file) : self.Attributable logfiles := by
  have hcolon := fun file hfile => no_colon_of_linked (h file hfile).2
  have hnodup := fulllogname_nodup hnames fun file hfile => (h file hfile).1
  refine ⟨fun file hfile => ?_, hcolon, fun file hfile => ?_, ?_⟩
  · have hone := determine_eq_ok.mp (h file hfile).1
    exact List.of_mem_filter (hone ▸ List.mem_singleton_self file.fulllogname)
  · exact (own_link hnames (h file hfile).2 hcolon).1
  · refine List.Nodup.map_on (fun file hfile other hother hkey => ?_) hnodup.of_map
    obtain ⟨-, links, made, hlinks, hmade, hfind⟩ := own_link hnames (h file hfile).2 hcolon
    obtain ⟨-, links', made', hlinks', hmade', hfind'⟩ := own_link hnames (h other hother).2 hcolon
    obtain ⟨hhost, hkey⟩ := Prod.mk.inj hkey
    obtain ⟨htype, hlabel⟩ := Prod.mk.inj hkey
    rw [hlinks] at hlinks'
    obtain rfl := Except.ok.inj hlinks'
    rw [hhost, hmade'] at hmade
    obtain rfl := Option.some.inj hmade
    rw [htype, hlabel, hfind'] at hfind
    have hpath := (Prod.mk.inj (Option.some.inj hfind)).1
    refine List.inj_on_of_nodup_map hnodup hfile hother ?_
    unfold LogFile.fulllogname
    rw [hhost, hpath]

theorem linked_of_attributable (h : self.Attributable logfiles) {file : LogFile}
    (hfile : file ∈ logfiles) : self.Linked logs file := by
  have hlink : ∀ other ∈ logfiles, link_of self other.fulllogname = some (other.logfile,
      self.softlink other.procinfo.name (log_label other.fulllogname)) := by
    intro other hother
    obtain ⟨hhost, hpath⟩ := h.no_colon other hother
    refine link_of_eq_some.mpr ⟨_, h.own_type other hother, ?_⟩
    rw [(parts_of_no_colon hhost hpath).2]
  obtain ⟨links, hlinks⟩ : ∃ links, self.softlink_logfiles logs = .ok links := by
    refine softlinks_isOk fun name hname => ?_
    obtain ⟨other, hother, rfl⟩ := exists_file_of_mem hnames hname
    rw [hlink other hother]
    rfl
  have hgetD := (softlinks_of_names hlinks file.full_hostname).2
  have hmem : (file.logfile, self.softlink file.procinfo.name (log_label file.fulllogname)) ∈
      (links.lookup file.full_hostname).getD [] := by
    obtain ⟨hhost, hpath⟩ := h.no_colon file hfile
    rw [hgetD]
    refine List.mem_append_right _ (List.mem_filterMap.mpr ⟨file.fulllogname, ?_, hlink file hfile⟩)
    refine List.mem_filter.mpr ⟨fulllogname_mem hnames hfile, decide_eq_true ?_⟩
    exact (parts_of_no_colon hhost hpath).1
  cases hmade : links.lookup file.full_hostname with
  | none =>
    rw [hmade] at hmem
    exact absurd hmem List.not_mem_nil
  | some made =>
    rw [hmade, Option.getD_some] at hmem
    refine ⟨links, hlinks, made, hmade, link_name self (log_label file.fulllogname),
      slash_not_mem_link_name _ (slash_not_mem_log_label _), ?_⟩
    rw [← softlink_eq]
    obtain ⟨found, hfound⟩ : ∃ found, made.find? (fun link => link.2 =
        self.softlink file.procinfo.name (log_label file.fulllogname)) = some found :=
      Option.isSome_iff_exists.mp (List.find?_isSome.mpr ⟨_, hmem, by simp⟩)
    rw [hfound]
    have hname : found.2 = self.softlink file.procinfo.name (log_label file.fulllogname) := by
      simpa using List.find?_some hfound
    have hfound := List.mem_of_find?_eq_some hfound
    rw [made_of_softlinks hlinks hmade] at hfound
    obtain ⟨name, hmemname, hsome⟩ := List.mem_filterMap.mp hfound
    obtain ⟨hmemname, hhost⟩ := List.mem_filter.mp hmemname
    obtain ⟨other, hother, rfl⟩ := exists_file_of_mem hnames hmemname
    rw [hlink other hother] at hsome
    obtain rfl := Option.some.inj hsome
    -- the name of the link tells the key, and only this file has it
    rw [softlink_eq file.procinfo.name] at hname
    obtain ⟨htype, hlast⟩ := (softlink_eq_iff (slash_not_mem_log_label _)
      (slash_not_mem_link_name _ (slash_not_mem_log_label _))).mp hname
    have hlabel := link_name_injective hlast
    have hhost : other.full_hostname = file.full_hostname := by
      obtain ⟨hcolon, hpath⟩ := h.no_colon other hother
      rw [← (parts_of_no_colon hcolon hpath).1]
      exact of_decide_eq_true hhost
    have hsame : other = file := by
      refine List.inj_on_of_nodup_map h.distinct hother hfile ?_
      unfold LogFile.link_key
      rw [hhost, htype, hlabel]
    rw [hsame]

end Attributed

/-- Each process has one log file, and the rules by which names are made and taken apart agree on all
of them under a condition on the names, and under no other. -/
theorem logfiles_attributed_iff {answer : String → ℕ → Completed} {hosts : List String}
    (hnodup : hosts.Nodup) (hhosts : ∀ p ∈ self.procinfos, p.host ∈ hosts)
    (hfiles : self.associated_logfiles answer hosts = .ok logfiles)
    (hlogs : self.get_artdaq_log_filenames answer hosts = .ok logs) :
    (logfiles.map LogFile.procinfo).Perm self.procinfos ∧
      ((∀ file ∈ logfiles, determine_logfilename logs file.procinfo = .ok file.fulllogname ∧
          self.Linked logs file) ↔
        self.Attributable logfiles) := by
  have hperm := associated_procinfos hnodup hhosts hfiles
  obtain ⟨hnames, hfound⟩ := get_log_filenames_eq_ok hfiles hlogs
  refine ⟨hperm, attributable_of_linked hnames, fun h file hfile => ⟨?_, ?_⟩⟩
  · obtain ⟨name, hname⟩ := hfound file.procinfo (hperm.mem_iff.mp (List.mem_map_of_mem hfile))
    exact determine_eq_ok.mpr
      (filter_of_determined hname (fulllogname_mem hnames hfile) (h.has_label file hfile))
  · exact linked_of_attributable hnames h hfile

/-- A process whose log file has a name that it was told. -/
def one_logged (label_suffix : String) : LogInterface where
  procinfos := [{ Procinfo.new .EventBuilder "eb1" "1" with host := "h", port := "1" }]
  log_directory := "/l"
  label_suffix := .ok label_suffix
  deterministic_lognames := true
  HOSTNAME := "h"
  launch_log_timestamp := some "t"
  short_hostnames := [("h", "h")]
  run_number := 1

/-- The log file of this process. -/
def one_logfile (label_suffix path : String) : List LogFile :=
  (one_logged label_suffix).procinfos.map fun procinfo => ⟨procinfo, "h", path⟩

theorem one_logged_attributed :
    ∃ logfiles logs, (one_logged "").associated_logfiles (fun _ _ => ⟨[], [], 0⟩) ["h"] = .ok logfiles ∧
      (one_logged "").get_artdaq_log_filenames (fun _ _ => ⟨[], [], 0⟩) ["h"] = .ok logs ∧
      (logfiles.map LogFile.procinfo).Perm (one_logged "").procinfos ∧
      ∀ file ∈ logfiles, determine_logfilename logs file.procinfo = .ok file.fulllogname ∧
        (one_logged "").Linked logs file := by
  have hfiles : (one_logged "").associated_logfiles (fun _ _ => ⟨[], [], 0⟩) ["h"] =
      .ok (one_logfile "" "/l/eb1-h-1/eb1-h-1-t.log") := by decide +kernel
  have hlogs := get_log_filenames_of_mapM hfiles
    (show List.mapM _ _ = Except.ok ["h:/l/eb1-h-1/eb1-h-1-t.log"] by decide +kernel)
  have hattributed := logfiles_attributed_iff (by decide) (by decide) hfiles hlogs
  exact ⟨_, _, hfiles, hlogs, hattributed.1, hattributed.2.mpr
    ⟨by decide +kernel, by decide +kernel, by decide +kernel, by decide +kernel⟩⟩

/-- With a suffix the file of a process is not found by its label. -/
theorem suffixed_undetermined :
    ∃ (interface : LogInterface) (logfiles : List LogFile) (logs : LogLists),
      (interface.procinfos.map Procinfo.label).Nodup ∧
      interface.associated_logfiles (fun _ _ => ⟨[], [], 0⟩) ["h"] = .ok logfiles ∧
      interface.get_artdaq_log_filenames (fun _ _ => ⟨[], [], 0⟩) ["h"] = .ok logs ∧
      ∃ file ∈ logfiles, determine_logfilename logs file.procinfo ≠ .ok file.fulllogname := by
  have hfiles : (one_logged "_p0").associated_logfiles (fun _ _ => ⟨[], [], 0⟩) ["h"] =
      .ok (one_logfile "_p0" "/l/eb1_p0-h-1/eb1_p0-h-1-t.log") := by decide +kernel
  exact ⟨one_logged "_p0", one_logfile "_p0" "/l/eb1_p0-h-1/eb1_p0-h-1-t.log", _, by decide,
    hfiles,
    get_log_filenames_of_mapM hfiles (show List.mapM _ _ = Except.ok ["(LOGFILE UNDETERMINED)"] by decide +kernel),
    by decide +kernel⟩

end DaqInterface
