import Mathlib
import DaqInterface.Library.Fold
import DaqInterface.Model.BootFile
import DaqInterface.Model.Transfers

/-!
# What a boot accepts

Reading the boot file gives the processes consecutive ranks and gives every subsystem a
destination with a name or none (`get_boot_info_sound`).  From this and from the checks come the
facts on an accepted boot: which subsystems are declared (`destinations_declared`), when the
labels differ (`labels_unique_iff`), and which ranks and ports the processes have
(`ranks_and_ports`).
-/

namespace DaqInterface

variable {settings : BootSettings} {components : ℕ} {line : List Char} {r r' : Reading}

/-! ## What reading changes -/

/-- Nothing was learnt about subsystems. -/
structure SameSubsystems (r r' : Reading) : Prop where
  subsystems : r'.subsystems = r.subsystems
  subsystemDict : r'.subsystemDict = r.subsystemDict

/-- No process was completed. -/
structure SameProcesses (r r' : Reading) : Prop where
  procinfos : r'.procinfos = r.procinfos
  count : r'.num_actual_processes = r.num_actual_processes

theorem value_assign (key key' : String) (v : Option String) (d : List (String × Option String)) :
    value (Dict.assign key v d) key' = if key' = key then v.getD "" else value d key' := by
  unfold value
  rw [Dict.lookup_assign]
  split_ifs
  · rfl
  · rfl

theorem read_setting_ok (h : read_setting line r = .ok (some r')) :
    SameSubsystems r r' ∧ SameProcesses r r' := by
  unfold read_setting at h
  split at h
  · rw [← Option.some.inj (Except.ok.inj h)]
    exact ⟨⟨rfl, rfl⟩, ⟨rfl, rfl⟩⟩
  split at h
  · rw [← Option.some.inj (Except.ok.inj h)]
    exact ⟨⟨rfl, rfl⟩, ⟨rfl, rfl⟩⟩
  split at h
  · obtain ⟨level, -, h⟩ := Loop.map_eq_ok.mp h
    rw [← Option.some.inj h]
    exact ⟨⟨rfl, rfl⟩, ⟨rfl, rfl⟩⟩
  split at h
  · rw [← Option.some.inj (Except.ok.inj h)]
    exact ⟨⟨rfl, rfl⟩, ⟨rfl, rfl⟩⟩
  split at h
  · rw [← Option.some.inj (Except.ok.inj h)]
    exact ⟨⟨rfl, rfl⟩, ⟨rfl, rfl⟩⟩
  · cases h

/-- A line about a subsystem gives a key a value that is not empty. -/
theorem read_subsystem_ok {isWord : Char → Bool} (h : read_subsystem isWord line r = .ok r') :
    SameProcesses r r' ∧ r'.subsystems = r.subsystems ∧
      (r'.subsystemDict = r.subsystemDict ∨
        occurs "Subsystem" line = true ∧ ∃ key new, new ≠ "" ∧
          r'.subsystemDict = assign_subsystem key new r.subsystemDict) := by
  unfold read_subsystem at h
  split at h
  · rename_i hoccurs
    split at h
    · rename_i first key new rest hmatch
      obtain rfl := Except.ok.inj h
      refine ⟨⟨rfl, rfl⟩, rfl, Or.inr ⟨hoccurs, _, _, ?_, rfl⟩⟩
      have hkeeps : (re_subsystem isWord).KeepsLast := Pattern.keepsLast_row
        [spaces, Pattern.group (Pattern.some_of isWord), Pattern.some_of isSpace,
          Pattern.group nonspaces, spaces, Pattern.text ":", spaces]
      obtain ⟨g, hlast, hne⟩ := hkeeps.at_start hmatch
      obtain rfl : new = g := Option.some.inj hlast
      intro hempty
      have htext : (String.ofList new).toList = [] := by
        rw [hempty]
        rfl
      rw [String.toList_ofList] at htext
      exact hne htext
    · cases h
  · obtain rfl := Except.ok.inj h
    exact ⟨⟨rfl, rfl⟩, rfl, Or.inl rfl⟩

theorem read_member_frame (isWord : Char → Bool) (line : List Char) (r : Reading) :
    SameSubsystems r (read_member isWord line r) ∧ SameProcesses r (read_member isWord line r) := by
  unfold read_member
  split
  · split
    · exact ⟨⟨rfl, rfl⟩, ⟨rfl, rfl⟩⟩
    · exact ⟨⟨rfl, rfl⟩, ⟨rfl, rfl⟩⟩
  · exact ⟨⟨rfl, rfl⟩, ⟨rfl, rfl⟩⟩

theorem read_overwrite_frame (line : List Char) (r : Reading) :
    SameSubsystems r (read_overwrite line r) ∧ SameProcesses r (read_overwrite line r) := by
  unfold read_overwrite
  split
  · exact ⟨⟨rfl, rfl⟩, ⟨rfl, rfl⟩⟩
  · exact ⟨⟨rfl, rfl⟩, ⟨rfl, rfl⟩⟩

/-- Completing a process appends one with the next rank, or changes nothing. -/
theorem complete_process_ok (h : complete_process settings components r = .ok r') :
    SameSubsystems r r' ∧ (SameProcesses r r' ∨ ∃ p : BootProcinfo,
      r'.procinfos = r.procinfos ++ [p] ∧
      r'.num_actual_processes = r.num_actual_processes + 1 ∧
      p.rank = components + r.num_actual_processes ∧
      settings.port p.rank p.given_port = .ok p.port) := by
  unfold complete_process at h
  split at h
  · obtain ⟨port, hport, rfl⟩ := Loop.map_eq_ok.mp h
    exact ⟨⟨rfl, rfl⟩, Or.inr ⟨_, rfl, rfl, rfl, hport⟩⟩
  · obtain rfl := Except.ok.inj h
    exact ⟨⟨rfl, rfl⟩, Or.inl ⟨rfl, rfl⟩⟩

/-! ## The invariant of reading -/

/-- The processes have consecutive ranks, and the ports that go with them; the subsystems have
different names, and destinations with names. -/
structure Reading.Sound (settings : BootSettings) (components : ℕ) (r : Reading) : Prop where
  ranks : r.procinfos.map BootProcinfo.rank = List.range' components r.num_actual_processes
  ports : ∀ p ∈ r.procinfos, settings.port p.rank p.given_port = .ok p.port
  keys : (r.subsystems.map Prod.fst).Nodup
  destinations : ∀ entry ∈ r.subsystems, entry.2.destination ≠ some ""
  /-- What is known of the destination of the next subsystem. -/
  pending : value r.subsystemDict "destination" ≠ ""

theorem start_sound : Reading.start.Sound settings components where
  ranks := rfl
  ports := fun p hp => absurd hp List.not_mem_nil
  keys := List.nodup_nil
  destinations := fun entry hentry => absurd hentry List.not_mem_nil
  pending := by decide

theorem Reading.Sound.of_same (h : r.Sound settings components) (hss : SameSubsystems r r')
    (hprocs : SameProcesses r r') : r'.Sound settings components where
  ranks := by
    rw [hprocs.procinfos, hprocs.count]
    exact h.ranks
  ports := by
    rw [hprocs.procinfos]
    exact h.ports
  keys := by
    rw [hss.subsystems]
    exact h.keys
  destinations := by
    rw [hss.subsystems]
    exact h.destinations
  pending := by
    rw [hss.subsystemDict]
    exact h.pending

/-- A new value that is not empty leaves the destination with a name. -/
theorem pending_assign {key new : String} {d : List (String × Option String)} (hnew : new ≠ "")
    (h : value d "destination" ≠ "") :
    value (assign_subsystem key new d) "destination" ≠ "" := by
  unfold assign_subsystem
  split_ifs with hcond
  · rw [value_assign]
    split_ifs
    · exact hnew
    · exact h
  · push Not at hcond
    rw [value_assign, hcond.1, if_neg (by decide)]
    exact h

theorem read_subsystem_sound {isWord : Char → Bool} (hr : r.Sound settings components)
    (h : read_subsystem isWord line r = .ok r') : r'.Sound settings components := by
  obtain ⟨hprocs, hss, hdict⟩ := read_subsystem_ok h
  refine ⟨?_, ?_, ?_, ?_, ?_⟩
  · rw [hprocs.procinfos, hprocs.count]
    exact hr.ranks
  · rw [hprocs.procinfos]
    exact hr.ports
  · rw [hss]
    exact hr.keys
  · rw [hss]
    exact hr.destinations
  · rcases hdict with hdict | ⟨-, key, new, hnew, hdict⟩
    · rw [hdict]
      exact hr.pending
    · rw [hdict]
      exact pending_assign hnew hr.pending

theorem complete_subsystem_sound (hr : r.Sound settings components) :
    (complete_subsystem r).Sound settings components := by
  unfold complete_subsystem
  split_ifs
  · refine ⟨hr.ranks, hr.ports, Dict.keys_nodup_assign hr.keys, fun entry hentry => ?_, ?_⟩
    · rcases Dict.mem_assign hentry with rfl | hentry
      · unfold described_subsystem
        dsimp only
        split_ifs
        · exact fun heq => hr.pending (Option.some.inj heq)
        · simp
      · exact hr.destinations entry hentry
    · dsimp only
      unfold reset_subsystem
      rw [value_assign, if_neg (by decide), value_assign, if_pos rfl]
      decide
  · exact hr

theorem complete_process_sound (hr : r.Sound settings components)
    (h : complete_process settings components r = .ok r') : r'.Sound settings components := by
  obtain ⟨hss, hprocs | ⟨p, hprocs, hcount, hrank, hport⟩⟩ := complete_process_ok h
  · exact hr.of_same hss hprocs
  · refine ⟨?_, ?_, ?_, ?_, ?_⟩
    · rw [hprocs, hcount, List.map_append, hr.ranks, List.range'_1_concat, ← hrank]
      rfl
    · intro q hq
      rw [hprocs] at hq
      rcases List.mem_append.mp hq with hq | hq
      · exact hr.ports q hq
      · rw [List.mem_singleton.mp hq]
        exact hport
    · rw [hss.subsystems]
      exact hr.keys
    · rw [hss.subsystems]
      exact hr.destinations
    · rw [hss.subsystemDict]
      exact hr.pending

theorem read_line_sound {last : Bool} (hr : r.Sound settings components)
    (h : read_line settings components last line r = .ok r') : r'.Sound settings components := by
  unfold read_line at h
  split at h
  · obtain rfl := Except.ok.inj h
    exact hr
  · obtain ⟨expanded, -, h⟩ := Loop.bind_eq_ok.mp h
    obtain ⟨setting, hsetting, h⟩ := Loop.bind_eq_ok.mp h
    cases setting with
    | some s' =>
      obtain rfl := Except.ok.inj h
      obtain ⟨hss, hprocs⟩ := read_setting_ok hsetting
      exact hr.of_same hss hprocs
    | none =>
      obtain ⟨s, hs, h⟩ := Loop.bind_eq_ok.mp h
      have hsound := read_subsystem_sound hr hs
      obtain ⟨hss, hprocs⟩ := read_member_frame settings.isWord expanded s
      obtain ⟨hss', hprocs'⟩ :=
        read_overwrite_frame expanded (read_member settings.isWord expanded s)
      have hoverwrite := (hsound.of_same hss hprocs).of_same hss' hprocs'
      split at h
      · exact complete_process_sound (complete_subsystem_sound hoverwrite) h
      · rw [← Except.ok.inj h]
        exact hoverwrite

/-- What is known when the boot file has been read. -/
theorem get_boot_info_sound {content : String}
    (h : get_boot_info settings components content = .ok r) :
    r.Sound settings components ∧ r.subsystems ≠ [] := by
  obtain ⟨s, hs, h⟩ := Loop.bind_eq_ok.mp h
  have hstep : ∀ (done : List (List Char × ℕ)) (a : List Char × ℕ) (s s' : Reading),
      s.Sound settings components →
      read_line settings components (a.2 == (readlines content.toList).length - 1) a.1 s = .ok s' →
      s'.Sound settings components := fun done a s s' hs h => read_line_sound hs h
  have hsound : s.Sound settings components := Loop.foldlM_induct hstep start_sound hs
  split_ifs at h with hcount hempty
  · obtain rfl := Except.ok.inj h
    refine ⟨⟨hsound.ranks, hsound.ports, List.nodup_singleton _, ?_, hsound.pending⟩,
      List.cons_ne_nil _ _⟩
    intro entry hentry
    rw [List.mem_singleton.mp hentry]
    simp [Subsystem.default]
  · obtain rfl := Except.ok.inj h
    exact ⟨hsound, hempty⟩

/-! ## The checks -/

theorem check_destination_ok {subsystems : List (String × Subsystem)} {entry : String × Subsystem}
    (h : check_destination subsystems entry = .ok ()) {dest : String}
    (hdest : entry.2.destination = some dest) :
    ∃ info, subsystems.lookup dest = some info ∧ entry.1 ∈ info.sources := by
  unfold check_destination at h
  rw [hdest] at h
  obtain ⟨info, hinfo, h⟩ := Loop.bind_eq_ok.mp h
  split_ifs at h with hmem
  exact ⟨info, getitem_eq_ok.mp hinfo, hmem⟩

theorem check_boot_info_ok (h : check_boot_info settings r = .ok ()) :
    (r.procinfos.map BootProcinfo.label).Nodup ∧
      ∀ entry ∈ r.subsystems, check_destination r.subsystems entry = .ok () := by
  unfold check_boot_info at h
  split at h
  · cases h
  · dsimp only at h
    split_ifs at h with hscript hrouting hlabels
    exact ⟨hlabels, Loop.forM_eq_ok.mp h⟩

/-! ## The BoardReaders -/

/-- The BoardReader of a component has the name of the component as its label. -/
theorem boardreader_ok {component : String × List String} {rank : ℕ} {p : BootProcinfo}
    (h : boardreader settings component rank = .ok p) :
    p.label = component.1 ∧ p.rank = rank ∧ settings.port p.rank p.given_port = .ok p.port := by
  have hwith : ∀ host port subsystem allowed_processors prepend,
      boardreader_with settings rank component.1 host port subsystem allowed_processors prepend =
        .ok p →
      p.label = component.1 ∧ p.rank = rank ∧ settings.port p.rank p.given_port = .ok p.port := by
    intro host port subsystem allowed_processors prepend hmake
    obtain ⟨port', hport, rfl⟩ := Loop.map_eq_ok.mp hmake
    exact ⟨rfl, rfl, hport⟩
  unfold boardreader at h
  dsimp only at h
  split at h
  · cases h
  · exact hwith _ _ _ _ _ h
  · exact hwith _ _ _ _ _ h
  · exact hwith _ _ _ _ _ h
  · exact hwith _ _ _ _ _ h
  · cases h

/-- The processes of a boot: those of the boot file and the BoardReaders. -/
theorem build_procinfos_ok {components : Components} {procs result : List BootProcinfo}
    (h : build_procinfos settings components procs = .ok result) :
    ∃ readers : List BootProcinfo, result.Perm (procs ++ readers) ∧
      readers.map BootProcinfo.label = components.entries.map Prod.fst ∧
      readers.map BootProcinfo.rank = List.range components.entries.length ∧
      ∀ p ∈ readers, settings.port p.rank p.given_port = .ok p.port := by
  obtain ⟨readers, hreaders, h⟩ := Loop.bind_eq_ok.mp h
  have hall := (Loop.mapM_eq_ok.mp hreaders).imp fun a p hp => boardreader_ok hp
  refine ⟨readers, ?_, ?_, ?_, ?_⟩
  · unfold sort_procinfos at h
    split_ifs at h
    rw [← Except.ok.inj h]
    exact List.perm_insertionSort _ _
  · rw [← List.zipIdx_map_fst 0 components.entries, List.map_map, ← List.forall₂_eq_eq_eq,
      List.forall₂_map_left_iff, List.forall₂_map_right_iff]
    exact (hall.imp fun a p hp => hp.1).flip
  · rw [List.range_eq_range', ← List.zipIdx_map_snd 0 components.entries, ← List.forall₂_eq_eq_eq,
      List.forall₂_map_left_iff, List.forall₂_map_right_iff]
    exact (hall.imp fun a p hp => hp.2.1).flip
  · intro p hp
    obtain ⟨a, -, hport⟩ := Recursion.exists_of_forall₂ hall hp
    exact hport.2.2

/-- The steps of an accepted boot. -/
theorem boot_processes_ok {components : Components} {content : String} {booted : Booted}
    (h : boot_processes settings components content = .ok booted) :
    ∃ info : Reading, get_boot_info settings components.entries.length content = .ok info ∧
      check_boot_info settings info = .ok () ∧
      build_procinfos settings components info.procinfos = .ok booted.procinfos ∧
      booted.subsystems = info.subsystems := by
  unfold boot_processes at h
  split_ifs at h
  obtain ⟨info, hinfo, h⟩ := Loop.bind_eq_ok.mp h
  obtain ⟨⟨⟩, hcheck, h⟩ := Loop.bind_eq_ok.mp h
  obtain ⟨procs, hprocs, h⟩ := Loop.bind_eq_ok.mp h
  obtain rfl := Except.ok.inj h
  exact ⟨info, hinfo, hcheck, hprocs, rfl⟩

/-! ## Subsystems -/

/-- Nothing was said about subsystems yet. -/
structure Undeclared (r : Reading) : Prop where
  subsystems : r.subsystems = []
  id : r.subsystemDict.lookup "id" = some none

/-- A line that does not speak of subsystems declares none. -/
theorem read_line_undeclared {last : Bool} (hr : Undeclared r)
    (hline : ∀ line', expand_environment_variable_in_string settings.environ line = .ok line' →
      occurs "Subsystem" line' = false)
    (h : read_line settings components last line r = .ok r') : Undeclared r' := by
  have hsame : ∀ {s s' : Reading}, Undeclared s → SameSubsystems s s' → Undeclared s' :=
    fun hs hss => ⟨hss.subsystems.trans hs.subsystems, hss.subsystemDict ▸ hs.id⟩
  unfold read_line at h
  split at h
  · obtain rfl := Except.ok.inj h
    exact hr
  · obtain ⟨expanded, hexpanded, h⟩ := Loop.bind_eq_ok.mp h
    obtain ⟨setting, hsetting, h⟩ := Loop.bind_eq_ok.mp h
    cases setting with
    | some s' =>
      obtain rfl := Except.ok.inj h
      exact hsame hr (read_setting_ok hsetting).1
    | none =>
      obtain ⟨s, hs, h⟩ := Loop.bind_eq_ok.mp h
      obtain ⟨-, hss, hdict | ⟨hoccurs, -⟩⟩ := read_subsystem_ok hs
      · have hread : Undeclared (read_overwrite expanded (read_member settings.isWord expanded s)) :=
          hsame (hsame (hsame hr ⟨hss, hdict⟩) (read_member_frame _ _ _).1)
            (read_overwrite_frame _ _).1
        have hcomplete : complete_subsystem
            (read_overwrite expanded (read_member settings.isWord expanded s)) =
            read_overwrite expanded (read_member settings.isWord expanded s) := by
          unfold complete_subsystem
          rw [if_neg]
          intro hall
          have hknown := List.all_eq_true.mp hall _ (Dict.mem_of_lookup hread.id)
          cases hknown
        dsimp only at h
        split at h
        · rw [hcomplete] at h
          exact hsame hread (complete_process_ok h).1
        · rw [← Except.ok.inj h]
          exact hread
      · rw [hline expanded hexpanded] at hoccurs
        cases hoccurs

/-- In an accepted boot at least one subsystem is declared; the destination of a subsystem is
declared and has it among its sources; and where no line of the boot file speaks of subsystems,
the one subsystem is "1". -/
theorem destinations_declared {components : Components} {content : String} {booted : Booted}
    (h : boot_processes settings components content = .ok booted) :
    booted.subsystems ≠ [] ∧
      (∀ ss info dest, booted.subsystems.lookup ss = some info → info.destination = some dest →
        ∃ info', booted.subsystems.lookup dest = some info' ∧ ss ∈ info'.sources) ∧
      ((∀ line ∈ readlines content.toList, ∀ line',
          expand_environment_variable_in_string settings.environ line = .ok line' →
          occurs "Subsystem" line' = false) →
        booted.subsystems = [("1", Subsystem.default)]) := by
  obtain ⟨info, hinfo, hcheck, -, hsubsystems⟩ := boot_processes_ok h
  obtain ⟨-, hne⟩ := get_boot_info_sound hinfo
  rw [hsubsystems]
  refine ⟨hne, ?_, ?_⟩
  · intro ss entry dest hentry hdest
    exact check_destination_ok ((check_boot_info_ok hcheck).2 _ (Dict.mem_of_lookup hentry)) hdest
  · intro hlines
    obtain ⟨s, hs, hfinish⟩ := Loop.bind_eq_ok.mp hinfo
    have hstep : ∀ (done : List (List Char × ℕ)) (a : List Char × ℕ) (s s' : Reading),
        ((∀ b ∈ done, b.1 ∈ readlines content.toList) → Undeclared s) →
        read_line settings components.entries.length
          (a.2 == (readlines content.toList).length - 1) a.1 s = .ok s' →
        (∀ b ∈ done ++ [a], b.1 ∈ readlines content.toList) → Undeclared s' := by
      intro done a s s' hs hread hmem
      have hdone := hs fun b hb => hmem b (List.mem_append_left [a] hb)
      have hline := hlines a.1 (hmem a (List.mem_append_right done List.mem_cons_self))
      exact read_line_undeclared hdone hline hread
    have hundeclared : Undeclared s :=
      Loop.foldlM_induct hstep (fun _ => ⟨rfl, rfl⟩) hs fun b hb => List.fst_mem_of_mem_zipIdx hb
    split_ifs at hfinish with hcount hempty
    · rw [← Except.ok.inj hfinish]
    · exact absurd hundeclared.subsystems hempty

/-- The attributes of a boot without anything special. -/
def usual_settings : BootSettings where
  environ := [("ARTDAQ_BASE_PORT", "10000"), ("ARTDAQ_PORTS_PER_PARTITION", "1000")]
  partition_number := 0
  exists_path := fun _ => true
  isWord := fun c => c.isAlphanum || c == '_'

/-- A boot file. -/
def boot_file (lines : List String) : String :=
  "\n".intercalate ("DAQ setup script: /setup.sh" :: "" :: lines) ++ "\n"

/-- One component. -/
def one_component (arguments : List String) : Components :=
  ⟨[("component01", arguments)], List.nodup_singleton _⟩

/-- The boot with one component in a subsystem. -/
def boot_with_component (subsystem : String) (lines : List String) : Except String Booted :=
  boot_processes usual_settings (one_component ["localhost", "-1", subsystem]) (boot_file lines)

/-- A subsystem and its destination. -/
def two_subsystems : List String :=
  ["Subsystem id: 1", "Subsystem destination: 2", "", "Subsystem id: 2", "Subsystem source: 1"]

/-- The destination is declared. -/
theorem second_subsystem_declared :
    ∃ booted, boot_with_component "1" two_subsystems = .ok booted ∧
      ∃ info, booted.subsystems.lookup "2" = some info ∧ "1" ∈ info.sources := by
  have htest : (boot_with_component "1" two_subsystems).toOption.any (fun booted =>
      booted.subsystems.lookup "1" == some ⟨[], some "2", true⟩) = true := by decide +kernel
  obtain ⟨booted, hbooted, hfirst⟩ := Loop.exists_of_any htest
  exact ⟨booted, hbooted, (destinations_declared hbooted).2.1 "1" _ "2" (eq_of_beq hfirst) rfl⟩

/-- A source and a process whose subsystems are declared nowhere. -/
def undeclared_subsystems : List String :=
  ["Subsystem id: 1", "Subsystem source: 7", "", "EventBuilder host: localhost",
    "EventBuilder label: EventBuilder1", "EventBuilder subsystem: 5"]

/-- The boot is accepted all the same. -/
theorem undeclared_accepted :
    ∃ booted, boot_with_component "9" undeclared_subsystems = .ok booted ∧
      (∀ p ∈ booted.procinfos, p.subsystem ∉ booted.subsystems.map Prod.fst) ∧
      ∃ entry ∈ booted.subsystems, ∃ source ∈ entry.2.sources,
        source ∉ booted.subsystems.map Prod.fst := by
  have htest : (boot_with_component "9" undeclared_subsystems).toOption.any (fun booted =>
      decide ((∀ p ∈ booted.procinfos, p.subsystem ∉ booted.subsystems.map Prod.fst) ∧
        ∃ entry ∈ booted.subsystems, ∃ source ∈ entry.2.sources,
          source ∉ booted.subsystems.map Prod.fst)) = true := by decide +kernel
  obtain ⟨booted, hbooted, hboth⟩ := Loop.exists_of_any htest
  exact ⟨booted, hbooted, of_decide_eq_true hboth⟩

/-! ## Labels -/

/-- The labels of an accepted boot differ exactly where no component is called like a process of
the boot file. -/
theorem labels_unique_iff {components : Components} {content : String} {booted : Booted}
    (h : boot_processes settings components content = .ok booted) :
    ∃ info, get_boot_info settings components.entries.length content = .ok info ∧
      ((booted.procinfos.map BootProcinfo.label).Nodup ↔
        ∀ p ∈ info.procinfos, p.label ∉ components.entries.map Prod.fst) := by
  obtain ⟨info, hinfo, hcheck, hbuild, -⟩ := boot_processes_ok h
  obtain ⟨readers, hperm, hlabels, -, -⟩ := build_procinfos_ok hbuild
  have hunique : (info.procinfos.map BootProcinfo.label).Nodup := (check_boot_info_ok hcheck).1
  refine ⟨info, hinfo, ?_⟩
  rw [(hperm.map BootProcinfo.label).nodup_iff, List.map_append, hlabels,
    List.nodup_append]
  constructor
  · rintro ⟨-, -, hdisjoint⟩ p hp hmem
    exact hdisjoint p.label (List.mem_map_of_mem hp) p.label hmem rfl
  · intro hdisjoint
    refine ⟨hunique, components.keys_nodup, fun label hlabel label' hlabel' heq => ?_⟩
    obtain ⟨p, hp, rfl⟩ := List.mem_map.mp hlabel
    exact hdisjoint p hp (heq ▸ hlabel')

/-- One process. -/
def builder_lines (label : String) : List String :=
  ["EventBuilder host: localhost", "EventBuilder label: " ++ label]

/-- A process that is not called like the component. -/
theorem builder_and_component_differ :
    ∃ booted, boot_with_component "1" (builder_lines "EventBuilder1") = .ok booted ∧
      booted.procinfos.length = 2 ∧ (booted.procinfos.map BootProcinfo.label).Nodup := by
  have htest : (boot_with_component "1" (builder_lines "EventBuilder1")).toOption.any (fun booted =>
      booted.procinfos.length == 2) = true := by decide +kernel
  have hread : (get_boot_info usual_settings 1 (boot_file (builder_lines "EventBuilder1"))).toOption.any
      (fun info => info.procinfos.all fun p => p.label != "component01") = true := by decide +kernel
  obtain ⟨booted, hbooted, hlength⟩ := Loop.exists_of_any htest
  obtain ⟨info, hinfo, hiff⟩ := labels_unique_iff hbooted
  obtain ⟨info', hinfo', hlabels⟩ := Loop.exists_of_any hread
  obtain rfl := Except.ok.inj (hinfo.symm.trans hinfo')
  refine ⟨booted, hbooted, eq_of_beq hlength, hiff.mpr fun p hp hmem => ?_⟩
  have hne := List.all_eq_true.mp hlabels p hp
  rw [List.mem_singleton.mp hmem] at hne
  cases hne

/-- A process that is called like the component. -/
theorem builder_called_like_component :
    ∃ booted, boot_with_component "1" (builder_lines "component01") = .ok booted ∧
      booted.procinfos.map BootProcinfo.label = ["component01", "component01"] := by
  have htest : (boot_with_component "1" (builder_lines "component01")).toOption.any (fun booted =>
      booted.procinfos.map BootProcinfo.label == ["component01", "component01"]) = true := by
    decide +kernel
  obtain ⟨booted, hbooted, hlabels⟩ := Loop.exists_of_any htest
  exact ⟨booted, hbooted, eq_of_beq hlabels⟩

/-! ## Ranks and ports -/

/-- Different ranks have different default ports. -/
theorem port_injective {rank rank' : ℕ} {port : String} (h : settings.port rank none = .ok port)
    (h' : settings.port rank' none = .ok port) : rank = rank' := by
  obtain ⟨n, hn, htext⟩ := Loop.map_eq_ok.mp h
  obtain ⟨n', hn', htext'⟩ := Loop.map_eq_ok.mp h'
  obtain rfl : n = n' := Int.repr_injective (htext.trans htext'.symm)
  obtain ⟨base, hbase, hn⟩ := Loop.bind_eq_ok.mp hn
  obtain ⟨per, hper, hn⟩ := Loop.bind_eq_ok.mp hn
  obtain ⟨base', hbase', hn'⟩ := Loop.bind_eq_ok.mp hn'
  obtain ⟨per', hper', hn'⟩ := Loop.bind_eq_ok.mp hn'
  obtain rfl := Except.ok.inj (hbase.symm.trans hbase')
  obtain rfl := Except.ok.inj (hper.symm.trans hper')
  have hsum : base + 100 + settings.partition_number * per + rank =
      base + 100 + settings.partition_number * per + rank' :=
    (Except.ok.inj hn).trans (Except.ok.inj hn').symm
  omega

/-- The ranks of the processes of an accepted boot, and the ports that go with them. -/
theorem ranks_of_boot {components : Components} {content : String} {booted : Booted}
    (h : boot_processes settings components content = .ok booted) :
    (booted.procinfos.map BootProcinfo.rank).Perm (List.range booted.procinfos.length) ∧
      ∀ p ∈ booted.procinfos, settings.port p.rank p.given_port = .ok p.port := by
  obtain ⟨info, hinfo, -, hbuild, -⟩ := boot_processes_ok h
  obtain ⟨hsound, -⟩ := get_boot_info_sound hinfo
  obtain ⟨readers, hperm, -, hranks, hports⟩ := build_procinfos_ok hbuild
  have hreaders : readers.length = components.entries.length := by
    have hmap := congrArg List.length hranks
    rwa [List.length_map, List.length_range] at hmap
  have hprocs : info.procinfos.length = info.num_actual_processes := by
    have hmap := congrArg List.length hsound.ranks
    rwa [List.length_map, List.length_range'] at hmap
  constructor
  · have hlength := hperm.length_eq
    rw [List.length_append, hreaders, hprocs, add_comm] at hlength
    refine (hperm.map BootProcinfo.rank).trans ?_
    -- the BoardReaders have the first ranks, the processes of the boot file those behind
    rw [List.map_append, hranks, hsound.ranks, hlength, List.range_eq_range', List.range_eq_range',
      ← List.range'_append_1, Nat.zero_add]
    exact List.perm_append_comm
  · intro p hp
    rcases List.mem_append.mp (hperm.mem_iff.mp hp) with hp | hp
    · exact hsound.ports p hp
    · exact hports p hp

/-- In an accepted boot of `n` processes the ranks are 0, ..., n - 1, each once, and the ports that
are not given explicitly are different. -/
theorem ranks_and_ports {components : Components} {content : String} {booted : Booted}
    (h : boot_processes settings components content = .ok booted) :
    (booted.procinfos.map BootProcinfo.rank).Perm (List.range booted.procinfos.length) ∧
      ((booted.procinfos.filter fun p => p.given_port = none).map BootProcinfo.port).Nodup := by
  obtain ⟨hall, hport⟩ := ranks_of_boot h
  refine ⟨hall, ?_⟩
  have hnodup : (booted.procinfos.map BootProcinfo.rank).Nodup :=
    hall.nodup_iff.mpr List.nodup_range
  have hsub : ((booted.procinfos.filter fun p => p.given_port = none).map
      BootProcinfo.rank).Nodup := hnodup.sublist (List.filter_sublist.map _)
  -- two processes with the same default port have the same rank
  refine List.Nodup.map_on ?_ (List.Nodup.of_map _ hsub)
  intro p hp q hq heq
  obtain ⟨hpmem, hpnone⟩ := List.mem_filter.mp hp
  obtain ⟨hqmem, hqnone⟩ := List.mem_filter.mp hq
  have hpport := hport p hpmem
  have hqport := hport q hqmem
  rw [of_decide_eq_true hpnone] at hpport
  rw [of_decide_eq_true hqnone, ← heq] at hqport
  exact List.inj_on_of_nodup_map hnodup hpmem hqmem (port_injective hpport hqport)

/-- The second of two components is given the port that is the default of the first. -/
def port_given_twice : Components :=
  ⟨[("component01", ["localhost", "-1"]), ("component02", ["localhost", "10100"])], by decide⟩

/-- Ranks and default ports of one component and one process. -/
theorem ranks_of_two :
    ∃ booted, boot_with_component "1" (builder_lines "EventBuilder1") = .ok booted ∧
      (booted.procinfos.map BootProcinfo.rank).Perm (List.range booted.procinfos.length) := by
  obtain ⟨booted, hbooted⟩ : ∃ booted,
      boot_with_component "1" (builder_lines "EventBuilder1") = .ok booted :=
    Loop.exists_of_isOk (by decide +kernel)
  exact ⟨booted, hbooted, (ranks_and_ports hbooted).1⟩

/-- Both components are on one host and have one port. -/
theorem port_assigned_twice :
    ∃ booted, boot_processes usual_settings port_given_twice (boot_file []) = .ok booted ∧
      booted.procinfos.map BootProcinfo.host = ["localhost", "localhost"] ∧
      booted.procinfos.map BootProcinfo.port = ["10100", "10100"] := by
  have htest : (boot_processes usual_settings port_given_twice (boot_file [])).toOption.any
      (fun booted => decide (booted.procinfos.map BootProcinfo.host = ["localhost", "localhost"] ∧
        booted.procinfos.map BootProcinfo.port = ["10100", "10100"])) = true := by decide +kernel
  obtain ⟨booted, hbooted, hports⟩ := Loop.exists_of_any htest
  exact ⟨booted, hbooted, of_decide_eq_true hports⟩

/-! ## What the bookkeeping finds -/

/-- The destinations of the subsystems of an accepted boot have names. -/
theorem parsed_destinations_named {components : Components} {content : String} {booted : Booted}
    (h : boot_processes settings components content = .ok booted) :
    ∀ entry ∈ booted.subsystems, entry.2.destination ≠ some "" := by
  obtain ⟨info, hinfo, -, -, hsubsystems⟩ := boot_processes_ok h
  rw [hsubsystems]
  exact (get_boot_info_sound hinfo).1.destinations

/-- The subsystems and ranks of an accepted boot are as the tables of sources and destinations
need them. -/
theorem bookkeeping_after_boot {components : Components} {content : String} {booted : Booted}
    (h : boot_processes settings components content = .ok booted) {b : Bookkeeping}
    (hsubsystems : b.subsystems = booted.subsystems)
    (hranks : b.procinfos.map Procinfo.rank = booted.procinfos.map BootProcinfo.rank) :
    (∀ ss dest_ss, b.destination_of ss = some dest_ss → dest_ss ≠ "") ∧
      (b.procinfos.map Procinfo.rank).Nodup := by
  constructor
  · rintro ss dest_ss hdest rfl
    obtain ⟨info, hinfo, hnone⟩ := Option.bind_eq_some_iff.mp hdest
    rw [hsubsystems] at hinfo
    exact parsed_destinations_named h _ (Dict.mem_of_lookup hinfo) hnone
  · rw [hranks]
    exact (ranks_of_boot h).1.nodup_iff.mpr List.nodup_range

end DaqInterface
