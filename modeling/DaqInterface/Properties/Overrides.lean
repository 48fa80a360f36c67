import DaqInterface.Model.Documents
import DaqInterface.Properties.Passes
import DaqInterface.Properties.RouterPorts

/-!
# Values from the boot file

The last pass over the documents gives parameters the values that stand in the boot file.  A key
is looked for as a text, the old value is taken to end at the next white space, and the new one
is read as a replacement text.  Where none of this goes wrong, exactly the parameters with one of
the keys get their values, all of them at once (`set_overwrites_eq`).
-/

namespace DaqInterface

open Parts

/-- The pass for a pair of the boot file. -/
def overwrite_pass (pair : String × String) : Pass :=
  ⟨pair.1, fun c => !isSpace c, pair.2.toList, fun _ hc => not_nonspace hc⟩

/-- The boot file has a value for the key. -/
def is_overwritten (pairs : List (String × String)) (key : List Char) : Bool :=
  (pairs.lookup (String.ofList key)).isSome

/-- The parts of a document between the parameters that get a value. -/
def overwritten_parts (pairs : List (String × String)) (document : List Char) :
    List (Segment Parameter) :=
  parameter_parts (is_overwritten pairs) document

/-- The value that a parameter gets. -/
def overwritten_value (pairs : List (String × String)) (p : Parameter) : List Char :=
  ((pairs.lookup (String.ofList p.key)).map String.toList).getD p.value

/-- The document in which exactly the parameters with one of the keys have the values of the boot
file, letter by letter. -/
def overwritten (pairs : List (String × String)) (document : List Char) : List Char :=
  render (fun _ p => p.with_value (overwritten_value pairs p)) (overwritten_parts pairs document)

/-- The pairs can be written into the document as they are meant. -/
structure Overwritable (pairs : List (String × String)) (document : List Char) : Prop where
  /-- No backslash makes a pair stand for something else. -/
  literal : ∀ pair ∈ pairs, Template.Literal (pair.1 ++ ": " ++ pair.2).toList
  /-- The parameters are written as the passes write them, and their values are single words. -/
  words : ∀ item ∈ items (overwritten_parts pairs document),
    item.2.gap = ": ".toList ∧ ∀ c ∈ item.2.value, isSpace c = false
  /-- Behind the pairs before it, each pair finds these parameters, up to the next white space, and
  nothing else. -/
  found : all_find (overwritten_parts pairs document) [] (pairs.map overwrite_pass) = true

variable {pairs : List (String × String)} {document : List Char}

/-- Reading the boot file, no key comes twice. -/
theorem read_overwrite_nodup (line : List Char) {s : Reading}
    (h : (s.bootfile_fhicl_overwrites.map Prod.fst).Nodup) :
    ((read_overwrite line s).bootfile_fhicl_overwrites.map Prod.fst).Nodup := by
  unfold read_overwrite
  split
  · exact Dict.keys_nodup_assign h
  · exact h

/-- The value of the first pass that takes a parameter is that of its key. -/
theorem value_after_overwrites {p : Parameter} (hgap : p.gap = ": ".toList)
    (hvalue : ∀ c ∈ p.value, isSpace c = false) :
    value_after (pairs.map overwrite_pass) p = overwritten_value pairs p := by
  unfold value_after overwritten_value
  induction pairs with
  | nil => rfl
  | cons pair pairs ih =>
    have hall : p.value.all (overwrite_pass pair).ok = true := by
      refine List.all_eq_true.mpr fun c hc => ?_
      show (!isSpace c) = true
      rw [hvalue c hc]
      rfl
    by_cases hkey : p.key = pair.1.toList
    · have htakes : (overwrite_pass pair).takes p = true := by
        simp only [Pass.takes, Bool.and_eq_true, beq_iff_eq]
        exact ⟨⟨hkey, hgap⟩, hall⟩
      have hlookup : (pair :: pairs).lookup (String.ofList p.key) = some pair.2 := by
        obtain ⟨key, value⟩ := pair
        rw [hkey, String.ofList_toList]
        exact List.lookup_cons_self
      rw [List.map_cons, List.find?_cons_of_pos (by exact htakes), hlookup]
      rfl
    · have htakes : ¬ (overwrite_pass pair).takes p = true := by
        simp only [Pass.takes, Bool.and_eq_true, beq_iff_eq]
        exact fun h => hkey h.1.1
      have hlookup : (pair :: pairs).lookup (String.ofList p.key) =
          pairs.lookup (String.ofList p.key) := by
        have hne : String.ofList p.key ≠ pair.1 := by
          intro heq
          rw [← heq, String.toList_ofList] at hkey
          exact hkey rfl
        rw [List.lookup_cons, beq_false_of_ne hne]
      rw [List.map_cons, List.find?_cons_of_neg (by exact htakes), hlookup]
      exact ih

theorem render_congr {α : Type} {f g : List Char → α → List Char} {l : List (Segment α)}
    (h : ∀ item ∈ items l, f item.1 item.2 = g item.1 item.2) : render f l = render g l := by
  rw [← flatten_pieces_eq_render, ← flatten_pieces_eq_render, pieces_congr h]

/-- Pairs that stand for themselves are put in one after the other. -/
theorem foldlM_literal (h : ∀ pair ∈ pairs, Template.Literal (pair.1 ++ ": " ++ pair.2).toList) :
    pairs.foldlM (fun document (fhicl_key, fhicl_value) => Template.sub (re_overwritten fhicl_key) 0
        (fhicl_key ++ ": " ++ fhicl_value).toList document) document =
      .ok ((pairs.map overwrite_pass).foldl (fun document pass => pass.run document) document) := by
  induction pairs generalizing document with
  | nil => rfl
  | cons pair pairs ih =>
    obtain ⟨key, new⟩ := pair
    have hreplacement : (key ++ ": " ++ new).toList = (overwrite_pass (key, new)).replacement := by
      unfold Pass.replacement overwrite_pass
      rw [String.toList_append, String.toList_append, List.append_assoc]
    have hfirst := Template.sub_literal (re_overwritten key) (h (key, new) List.mem_cons_self) document
    rw [List.foldlM_cons]
    dsimp only
    rw [hfirst, hreplacement]
    exact ih fun other hother => h other (List.mem_cons_of_mem _ hother)

namespace Bookkeeper

variable {self : Bookkeeper} {p : Procinfo}

/-- Where the pairs can be written as they are meant, exactly the parameters with their keys get
their values. -/
theorem set_overwrites_eq (hkeys : (self.bootfile_fhicl_overwrites.map Prod.fst).Nodup)
    (h : Overwritable self.bootfile_fhicl_overwrites p.document.toList) :
    self.set_overwrites p =
      .ok (overwritten self.bootfile_fhicl_overwrites p.document.toList) := by
  have hnames : ((self.bootfile_fhicl_overwrites.map overwrite_pass).map Pass.name).Nodup := by
    rw [List.map_map]
    exact hkeys
  unfold set_overwrites
  rw [foldlM_literal h.literal, run_passes hnames h.found]
  refine congrArg Except.ok (render_congr fun item hitem => ?_)
  obtain ⟨hgap, hvalue⟩ := h.words item hitem
  show item.2.with_value _ = item.2.with_value _
  rw [value_after_overwrites hgap hvalue]

/-- A configuration with values in the boot file. -/
def with_overwrites (pairs : List (String × String)) : Bookkeeper :=
  { two_subsystems [] with bootfile_fhicl_overwrites := pairs }

/-- Two pairs, and a document with a parameter for each. -/
def two_pairs : List (String × String) := [("verbose", "true"), ("daq.size", "7")]

def two_parameters : Procinfo :=
  labelled .EventBuilder "EventBuilder1" "1" "not set" "daq.size: 5 verbose: \"no\" # not daq\n"

theorem two_overwritable : Overwritable two_pairs two_parameters.document.toList := by
  have hwords : ∀ item ∈ items (overwritten_parts two_pairs two_parameters.document.toList),
      item.2.gap = ": ".toList ∧ item.2.value.all (fun c => !isSpace c) = true :=
    Scan.forall_of_all (by decide +kernel)
  refine ⟨by decide +kernel, fun item hitem => ?_, by decide +kernel⟩
  obtain ⟨hgap, hvalue⟩ := hwords item hitem
  refine ⟨hgap, fun c hc => ?_⟩
  simpa using List.all_eq_true.mp hvalue c hc

/-- Two parameters get their values. -/
theorem both_overwritten : (with_overwrites two_pairs).set_overwrites two_parameters =
    .ok (overwritten two_pairs two_parameters.document.toList) := by
  have hkeys : ((with_overwrites two_pairs).bootfile_fhicl_overwrites.map Prod.fst).Nodup := by
    decide
  exact set_overwrites_eq hkeys two_overwritable

example : overwritten two_pairs two_parameters.document.toList =
    "daq.size: 7 verbose: true # not daq\n".toList := by decide +kernel

/-- A parameter whose key ends with that of another one gets its value. -/
theorem longer_key_overwritten :
    ∃ document, (with_overwrites [("id", "7")]).set_overwrites
        (labelled .EventBuilder "EventBuilder1" "1" "not set" "board_id: 5\n") = .ok document ∧
      document ≠ overwritten [("id", "7")] "board_id: 5\n".toList := by
  refine ⟨"board_id: 7\n".toList, ?_, ?_⟩
  · decide +kernel
  · decide +kernel

end Bookkeeper

end DaqInterface
