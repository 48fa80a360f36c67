import DaqInterface.Properties.Passes
import DaqInterface.Properties.RouterPorts

/-!
# What is left as it was around a router process

`bookkeep_table_for_router_process` cuts a table out of a document, makes its passes over the
table and puts the document together again.  Where there is no such table, the indices are -1, and
two line ends are put in before the last character of the document.  Where there is one and the
passes find what they are meant to find in it, nothing but the values of three parameters is
changed in it, and nothing outside (`router_frame`).
-/

namespace DaqInterface

open Scan Parts

/-! ## Tables of a document -/

/-- The number of characters of the table that begins here. -/
def table_extent (rest : List Char) : Option ℕ :=
  let open_brace := (bare .code rest).idxOf braces.opening
  (braces.close_at 1 ((bare .code rest).drop (open_brace + 1))).map (open_brace + 1 + · + 1)

/-- A table of the document, with what stands before and behind it. -/
structure TableAt (key document before inside behind : List Char) : Prop where
  split : document = before ++ (inside ++ behind)
  begins : begins_table key before.reverse (inside ++ behind) = true
  extent : table_extent (inside ++ behind) = some inside.length

/-- A table begins somewhere in the document. -/
def HasTable (key document : List Char) : Prop :=
  ∃ j ≤ document.length, begins_table key (document.take j).reverse (document.drop j) = true

instance (key document : List Char) : Decidable (HasTable key document) :=
  inferInstanceAs (Decidable (∃ j ≤ document.length, _ = true))

/-- The parameters that a table gives for a router process. -/
def is_router_key (key : List Char) : Bool :=
  ["table_update_port".toList, "routing_token_port".toList,
    "routing_manager_hostname".toList].contains key

/-- The parts of a table between these parameters. -/
def router_parts (before inside : List Char) : List (Segment Parameter) :=
  parts (parameters is_router_key) 0 before.reverse inside

/-- The document is the old one with other values for these parameters in a table, and with white
space around the table; without such a table, it is the old one. -/
inductive RouterFrame (key document result : List Char) : Prop
  | table (before inside behind blanks blanks' : List Char) (value : Parameter → List Char)
      (htable : TableAt key document before inside behind)
      (hblanks : ∀ c ∈ blanks ++ blanks', isSpace c = true)
      (hresult : result = before ++ (blanks ++ (render (fun _ p => p.with_value (value p))
        (router_parts before inside) ++ (blanks' ++ behind))))
  | none (hnone : ¬ HasTable key document) (hresult : result = document)

variable {key document before inside behind result : List Char}

theorem TableAt.hasTable (h : TableAt key document before inside behind) : HasTable key document := by
  refine ⟨before.length, ?_, ?_⟩
  · rw [h.split, List.length_append]
    omega
  · rw [h.split, List.take_left, List.drop_left]
    exact h.begins

/-- Without a table, the frame is that nothing has been changed. -/
theorem RouterFrame.eq_of_not_hasTable (hframe : RouterFrame key document result)
    (h : ¬ HasTable key document) : result = document := by
  cases hframe with
  | table before inside behind blanks blanks' value htable => exact absurd htable.hasTable h
  | none _ hresult => exact hresult

/-! ## The range -/

theorem reference_here_word {rest original : List Char} (h : reference_here key rest = some original) :
    original ≠ [] ∧ ∀ c ∈ original, isSpace c = false := by
  unfold reference_here at h
  split at h
  · rename_i more hmore
    split_ifs at h with hreference
    obtain rfl := Option.some.inj h
    refine ⟨hreference.2, fun c hc => ?_⟩
    have hword := List.all_eq_true.mp List.all_takeWhile c hc
    simpa using hword
  · cases h

/-- What `table_range` finds begins with a character that is no white space. -/
theorem table_range_in_head {n startingloc table_start table_end : ℕ} {text : List Char}
    (hne : key ≠ []) (hword : ∀ c ∈ key, isSpace c = false)
    (h : table_range_in n text key startingloc = .ok (some (table_start, table_end))) :
    ∃ c, text[table_start]? = some c ∧ isSpace c = false := by
  induction n generalizing text key startingloc table_start table_end with
  | zero => cases h
  | succ n ih =>
    unfold table_range_in at h
    cases hfind : find key text startingloc with
    | none =>
      rw [hfind] at h
      cases h
    | some loc =>
      rw [hfind] at h
      dsimp only at h
      cases hlocal : local_reference key (text.drop loc) with
      | some original =>
        -- the table of another name
        rw [hlocal] at h
        obtain ⟨i, -, hi⟩ := Option.bind_eq_some_iff.mp hlocal
        obtain ⟨hne', hword'⟩ := reference_here_word hi
        exact ih hne' hword' h
      | none =>
        rw [hlocal] at h
        dsimp only at h
        split_ifs at h with hopens
        · obtain ⟨length, -, hrange⟩ := Loop.map_eq_ok.mp h
          obtain ⟨rfl, -⟩ := Prod.mk.inj (Option.some.inj hrange)
          obtain ⟨c, tail, rfl⟩ := List.exists_cons_of_ne_nil hne
          obtain ⟨rest, hrest⟩ := prefix_of_opens_table hopens
          refine ⟨c, ?_, hword c List.mem_cons_self⟩
          rw [← List.head?_drop, ← hrest]
          rfl
        · obtain ⟨range, hrest, hrange⟩ := Loop.map_eq_ok.mp h
          obtain ⟨⟨table_start', table_end'⟩, rfl, hsome⟩ := Option.map_eq_some_iff.mp hrange
          obtain ⟨rfl, -⟩ := Prod.mk.inj hsome
          obtain ⟨c, hc, hspace⟩ := ih hne hword hrest
          refine ⟨c, ?_, hspace⟩
          rw [List.getElem?_drop] at hc
          exact hc

namespace Bookkeeper

/-- The pieces of the document with line ends between them are another document. -/
theorem slices_ne {range : Option (ℕ × ℕ)} (hrange : ∀ table_start table_end,
      range = some (table_start, table_end) →
        ∃ c, document[table_start]? = some c ∧ isSpace c = false) (table : List Char) :
    (slices document range).1 ++ "\n".toList ++ table ++ "\n".toList ++
      (slices document range).2.2 ≠ document := by
  have hnewline : "\n".toList = ['\n'] := by decide
  rw [hnewline]
  cases range with
  | none =>
    intro heq
    have hlength := congrArg List.length heq
    simp only [slices, List.length_append, List.length_dropLast, List.length_drop,
      List.length_singleton] at hlength
    omega
  | some range =>
    obtain ⟨table_start, table_end⟩ := range
    obtain ⟨c, hc, hspace⟩ := hrange table_start table_end rfl
    have hlt : table_start < document.length := (List.getElem?_eq_some_iff.mp hc).1
    intro heq
    have hchar := congrArg (·[table_start]?) heq
    have htake : (document.take table_start).length = table_start := by
      rw [List.length_take]
      omega
    simp only [slices, List.append_assoc] at hchar
    rw [List.getElem?_append_right (by omega), htake, Nat.sub_self, hc] at hchar
    obtain rfl := Option.some.inj hchar
    revert hspace
    decide

/-! ## The passes -/

theorem not_isDigit_of_isSpace {c : Char} (h : isSpace c = true) : c.isDigit = false := by
  by_contra hdigit
  rw [not_isSpace_of_isDigit (by simpa using hdigit)] at h
  cases h

/-- The passes over a table. -/
def RouterAddress.passes (address : RouterAddress) (tell_hostname : Bool) : List Pass :=
  [⟨"table_update_port", Char.isDigit, (toString address.table_update_port).toList,
      fun _ hc => not_isDigit_of_isSpace hc⟩,
    ⟨"routing_token_port", Char.isDigit, (toString address.routing_token_port).toList,
      fun _ hc => not_isDigit_of_isSpace hc⟩] ++
  if tell_hostname then
    [⟨"routing_manager_hostname", fun c => !isSpace c,
      ("\"" ++ strip_quotes address.routing_manager_hostname ++ "\"").toList,
      fun _ hc => not_nonspace hc⟩]
  else []

/-- To put an address into a table is to make the passes over it. -/
theorem RouterAddress.write_eq (address : RouterAddress) (tell_hostname : Bool)
    (table : List Char) : address.write tell_hostname table =
      (address.passes tell_hostname).foldl (fun table pass => pass.run table) table := by
  have hupdate : "table_update_port: ".toList = "table_update_port".toList ++ ": ".toList := by
    decide +kernel
  have htoken : "routing_token_port: ".toList = "routing_token_port".toList ++ ": ".toList := by
    decide +kernel
  have hhost : "routing_manager_hostname: \"".toList =
      "routing_manager_hostname".toList ++ (": ".toList ++ "\"".toList) := by
    decide +kernel
  unfold RouterAddress.write RouterAddress.passes substitute
  simp only [String.toList_append, hupdate, htoken, hhost, List.append_assoc]
  cases tell_hostname <;> rfl

theorem RouterAddress.passes_names (address : RouterAddress) (tell_hostname : Bool) :
    ((address.passes tell_hostname).map Pass.name).Nodup := by
  cases tell_hostname
  · exact (by decide : ["table_update_port", "routing_token_port"].Nodup)
  · exact (by decide :
      ["table_update_port", "routing_token_port", "routing_manager_hostname"].Nodup)

variable {self : Bookkeeper} {routes : Routes} {p p' : Procinfo} {table : RouterTable}

/-- The name of the host is written into the tables of a process. -/
def tells_hostname (self : Bookkeeper) (p : Procinfo) : Bool :=
  decide (p.name ≠ .RoutingManager ∨ !self.disable_private_network_bookkeeping)

/-- The table that is found is one of the document, and in it the passes find whole parameters with
their names and nothing else. -/
structure TableFound (bookkeeper : Bookkeeper) (routes : Routes) (p : Procinfo)
    (table : RouterTable) (before inside behind : List Char) : Prop where
  place : TableAt table.tablename.toList p.document.toList before inside behind
  range : table_range p.document.toList table.tablename.toList 0 =
    .ok (some (before.length, before.length + inside.length))
  passes : ∀ address, bookkeeper.router_address routes p table = .ok address →
    all_find (router_parts before inside) [] (address.passes (bookkeeper.tells_hostname p)) = true

/-- The document that is written. -/
theorem bookkeep_table_document
    (h : self.bookkeep_table_for_router_process routes p table = .ok p') :
    ∃ range address, table_range p.document.toList table.tablename.toList 0 = .ok range ∧
      self.router_address routes p table = .ok address ∧
      p'.document.toList = (slices p.document.toList range).1 ++ "\n".toList ++
        address.write (self.tells_hostname p) (slices p.document.toList range).2.1 ++
          "\n".toList ++ (slices p.document.toList range).2.2 := by
  unfold bookkeep_table_for_router_process at h
  obtain ⟨range, hrange, h⟩ := Loop.bind_eq_ok.mp h
  obtain ⟨again, -, h⟩ := Loop.bind_eq_ok.mp h
  split_ifs at h with honce
  obtain ⟨address, haddress, h⟩ := Loop.bind_eq_ok.mp h
  obtain rfl := Except.ok.inj h
  refine ⟨range, address, hrange, haddress, ?_⟩
  rw [Procinfo.with_document_document, String.toList_ofList]
  rfl

/-- Where there is no table with the name, the document is not left as it was; where the table that
is found is one of the document and the passes find what they are meant to find in it, only the
values of the three parameters are changed in it, and only white space is put around it. -/
theorem router_frame (hne : table.tablename.toList ≠ [])
    (hword : ∀ c ∈ table.tablename.toList, isSpace c = false)
    (h : self.bookkeep_table_for_router_process routes p table = .ok p') :
    (RouterFrame table.tablename.toList p.document.toList p'.document.toList →
        HasTable table.tablename.toList p.document.toList) ∧
      ((∃ before inside behind, self.TableFound routes p table before inside behind) →
        RouterFrame table.tablename.toList p.document.toList p'.document.toList) := by
  obtain ⟨range, address, hrange, haddress, hdocument⟩ := bookkeep_table_document h
  constructor
  · intro hframe
    by_contra hnone
    have hsame := hframe.eq_of_not_hasTable hnone
    rw [hdocument] at hsame
    refine slices_ne (fun table_start table_end heq => ?_) _ hsame
    rw [heq] at hrange
    exact table_range_in_head hne hword hrange
  · rintro ⟨before, inside, behind, hfound⟩
    obtain rfl := Except.ok.inj (hrange.symm.trans hfound.range)
    have hstop : p.document.toList.take (before.length + inside.length) = before ++ inside := by
      rw [hfound.place.split, ← List.append_assoc, ← List.length_append, List.take_left]
    have hslices : slices p.document.toList (some (before.length, before.length + inside.length)) =
        (before, inside, behind) := by
      unfold slices
      dsimp only
      rw [hstop, List.drop_left, hfound.place.split, List.take_left, ← List.append_assoc,
        ← List.length_append, List.drop_left]
    have hpasses := run_passes (address.passes_names (self.tells_hostname p))
      (hfound.passes address haddress)
    rw [hslices, RouterAddress.write_eq] at hdocument
    have hblank : ∀ c ∈ "\n".toList ++ "\n".toList, isSpace c = true :=
      Scan.forall_of_all (by decide)
    refine .table before inside behind "\n".toList "\n".toList
      (value_after (address.passes (self.tells_hostname p))) hfound.place hblank ?_
    rw [hdocument, hpasses]
    simp only [List.append_assoc]
    rfl

/-- A RoutingManager for the EventBuilders of a subsystem, with its port. -/
def one_route : Routes :=
  ⟨[(⟨"1", "EventBuilder"⟩, 10010)], [(⟨"1", "EventBuilder"⟩, "mu2edaq02")], 1⟩

/-- An EventBuilder with the table for tokens. -/
def builder_with_tokens (document : String) : Procinfo :=
  labelled .EventBuilder "EventBuilder1" "1" "not set" document

/-- Only the port and the host are changed. -/
theorem tokens_framed : ∃ p', (two_subsystems []).bookkeep_table_for_router_process one_route
      (builder_with_tokens "a: 1 tokens: \x7b routing_token_port: 0 b: \x7b\x7d \x7d c: 2\n")
      ⟨.own, "tokens", "EventBuilder"⟩ = .ok p' ∧
    RouterFrame "tokens".toList
      "a: 1 tokens: \x7b routing_token_port: 0 b: \x7b\x7d \x7d c: 2\n".toList
      p'.document.toList := by
  have htest : ((two_subsystems []).bookkeep_table_for_router_process one_route
      (builder_with_tokens "a: 1 tokens: \x7b routing_token_port: 0 b: \x7b\x7d \x7d c: 2\n")
      ⟨.own, "tokens", "EventBuilder"⟩).toOption.any (fun _ => true) = true := by decide +kernel
  obtain ⟨p', hp', -⟩ := Loop.exists_of_any htest
  refine ⟨p', hp', (router_frame (by decide) (Scan.forall_of_all (by decide)) hp').2
    ⟨"a: 1 ".toList, "tokens: \x7b routing_token_port: 0 b: \x7b\x7d \x7d".toList, " c: 2\n".toList,
      ⟨by decide +kernel, by decide +kernel, by decide +kernel⟩, by decide +kernel, ?_⟩⟩
  intro address haddress
  have hread : (two_subsystems []).router_address one_route
      (builder_with_tokens "a: 1 tokens: \x7b routing_token_port: 0 b: \x7b\x7d \x7d c: 2\n")
      ⟨.own, "tokens", "EventBuilder"⟩ = .ok ⟨10011, 10010, "mu2edaq02"⟩ := by decide +kernel
  obtain rfl := Except.ok.inj (haddress.symm.trans hread)
  decide +kernel

/-- In a document without the table, line ends are put in. -/
theorem no_table_changed : ∃ p', (two_subsystems []).bookkeep_table_for_router_process one_route
      (builder_with_tokens "a: 1\n") ⟨.own, "tokens", "EventBuilder"⟩ = .ok p' ∧
    ¬ RouterFrame "tokens".toList "a: 1\n".toList p'.document.toList := by
  have htest : ((two_subsystems []).bookkeep_table_for_router_process one_route
      (builder_with_tokens "a: 1\n") ⟨.own, "tokens", "EventBuilder"⟩).toOption.any (fun p' =>
        decide (p'.document.toList ≠ "a: 1\n".toList)) = true := by decide +kernel
  obtain ⟨p', hp', htest⟩ := Loop.exists_of_any htest
  refine ⟨p', hp', fun hframe => ?_⟩
  exact of_decide_eq_true htest (hframe.eq_of_not_hasTable (by decide +kernel))

end Bookkeeper

end DaqInterface
