import DaqInterface.Model.Routers

/-!
# Init fragments

The last part of `bookkeeping_for_fhicl_documents_artdaq_v3_base`: the number of init fragments
that a process waits for.  The processes that send to it are found by a search in their
documents; the number is computed for the first process of each type in a subsystem and taken
for the others.
-/

namespace DaqInterface

open Pattern

def re_root_net_output : Pattern := row [text "module_type:", spaces, text "\"RootNetOutput\""]

def re_art_analyzer_cnt : Pattern :=
  row [spaces, parameter "art_analyzer_count", group (some_of isDecimal)]

def re_init_frag_count : Pattern := row [parameter "init_fragment_count", some_of fun c => !isSpace c]

/-- `art_analyzer_count`. -/
def art_analyzer_count (p : Procinfo) : Except String ℤ :=
  match first_group re_art_analyzer_cnt p.document with
  | some value => int_of_float_text value
  | none => .ok 1

/-! ## Senders -/

/-- `destination_string`. -/
def destination_string (q : Procinfo) : String := "d" ++ toString q.rank ++ ":"

/-- One turn of the loop over the RootNetOutput modules of a process: whether the rank of another
process stands in the range around the module. -/
def sends_in_range (p q : Procinfo) (last_start : ℕ) (module : List Char) : Except String Bool :=
  match enclosing_table_range p.document.toList module last_start with
  | none => .error ("Bookkeeping error: RootNetOutput module was found in " ++ p.label ++
      " but unable to locate the enclosing table")
  | some (start, stop) =>
    let table := (p.document.toList.take stop).drop start
    if ¬ "destinations:".toList <:+: table then
      .error ("Bookkeeping error: unable to find a destinations table within " ++ p.label ++
        "'s RootNetOutput's enclosing table")
    else .ok (decide ((destination_string q).toList <:+: table))

/-- The loop over the RootNetOutput modules of a process. -/
def sends_in_modules (p q : Procinfo) : ℕ → List (ℕ × List Char) → Except String Bool
  | _, [] => .ok false
  | last_start, (place, module) :: modules => do
    let sends ← sends_in_range p q last_start module
    if sends then pure true else sends_in_modules p q (place + module.length) modules

/-- `sends_to_via_RootNetOutput`. -/
def sends_to_via_RootNetOutput (p q : Procinfo) : Except String Bool :=
  sends_in_modules p q 0 (re_root_net_output.finditer p.document.toList)

/-! ## Counts -/

/-- What some processes that may send to a process add to its count. -/
def count_senders (senders : List Procinfo) (q : Procinfo) : Except String ℤ :=
  senders.foldlM (fun count p => do
    let sends ← sends_to_via_RootNetOutput p q
    if sends then do
      let n ← art_analyzer_count p
      pure (count + n)
    else pure count) 0

/-- `_procinfos_by_ss_name`. -/
def procinfos_by_ss_name (procinfos : List Procinfo) (ss : String) (name : ProcType) :
    List Procinfo :=
  procinfos.filter fun p => p.subsystem == ss && p.name == name

/-- The count of a process in a subsystem, from the documents as they are. -/
def init_fragment_count (procinfos : List Procinfo) (entry : String × Subsystem) (q : Procinfo) :
    Except String ℤ :=
  match q.name with
  | .EventBuilder =>
    count_senders (entry.2.sources.flatMap fun ss => procinfos_by_ss_name procinfos ss .EventBuilder) q
  | .DataLogger => count_senders (procinfos_by_ss_name procinfos q.subsystem .EventBuilder) q
  | .Dispatcher => do
    let count ← count_senders (procinfos_by_ss_name procinfos q.subsystem .DataLogger) q
    -- without DataLoggers the EventBuilders send to the Dispatchers
    if count = 0 then count_senders (procinfos_by_ss_name procinfos q.subsystem .EventBuilder) q
    else pure count
  | .BoardReader => .ok 0
  | .RoutingManager => .ok 0

/-- The types of processes, in the order in which a subsystem is gone through. -/
def init_order : List ProcType :=
  [.EventBuilder, .DataLogger, .Dispatcher, .BoardReader, .RoutingManager]

/-- The places of the processes of a subsystem, in this order. -/
def init_places (procinfos : List Procinfo) (ss : String) : List ℕ :=
  init_order.flatMap fun name => (procinfos.zipIdx.filter fun (p, _) =>
    p.subsystem == ss && p.name == name).map Prod.snd

/-- The loop inside a subsystem: the processes, and the count of each type that has come up. -/
structure InitLoop where
  procinfos : List Procinfo
  init_fragment_counts : List (ProcType × ℤ)

/-- The counts once the count of the type of a process is known. -/
def InitLoop.count (loop : InitLoop) (entry : String × Subsystem) (q : Procinfo) :
    Except String (List (ProcType × ℤ)) :=
  match loop.init_fragment_counts.lookup q.name with
  | some _ => .ok loop.init_fragment_counts
  | none => (init_fragment_count loop.procinfos entry q).map fun count =>
      Dict.assign q.name count loop.init_fragment_counts

/-- The document of a process with its count. -/
def with_init_fragment_count (q : Procinfo) (count : ℤ) : Procinfo :=
  q.with_document (String.ofList (substitute re_init_frag_count
    ("init_fragment_count: " ++ toString count) q.document.toList))

/-- One turn of the loop inside a subsystem. -/
def InitLoop.turn (entry : String × Subsystem) (loop : InitLoop) (i : ℕ) : Except String InitLoop :=
  match loop.procinfos[i]? with
  | none => .ok loop
  | some q => (loop.count entry q).map fun counts =>
      { procinfos := loop.procinfos.set i
          (with_init_fragment_count q ((counts.lookup q.name).getD 0))
        init_fragment_counts := counts }

/-- The counts of one subsystem. -/
def write_subsystem_counts (procinfos : List Procinfo) (entry : String × Subsystem) :
    Except String (List Procinfo) :=
  ((init_places procinfos entry.1).foldlM (InitLoop.turn entry) ⟨procinfos, []⟩).map
    InitLoop.procinfos

/-- The counts of all subsystems. -/
def write_init_fragment_counts (subsystems : List (String × Subsystem)) (procinfos : List Procinfo) :
    Except String (List Procinfo) :=
  subsystems.foldlM write_subsystem_counts procinfos

end DaqInterface
