import Mathlib.Data.List.Forall2
import Mathlib.Logic.Function.Basic
import Lipi.Settings.Basic

/-!
# Fields in a tree of settings

The four settings are the fields of three tables. A tree that has text for all of them
(`Holds`) keeps it under assignments of text to fields: each assignment changes the fields that it
gives and no others (`Holds.setAll`), and the settings are read from the text (`Holds.ofTree`).
-/

namespace Lipi

namespace Settings

/-- A setting that can be given. -/
inductive Field where
  | extension
  | loopTracking
  | runtime
  | invalidSyntaxMarker
  deriving DecidableEq, Repr

namespace Field

/-- The table that holds the field. -/
def group : Field → String
  | extension => "source"
  | loopTracking => "compile"
  | runtime | invalidSyntaxMarker => "runtime"

def name : Field → String
  | extension => "extension"
  | loopTracking => "loop_tracking"
  | runtime => "node"
  | invalidSyntaxMarker => "invalid_syntax_marker"

/-- What the field is unless something else is given. -/
def default : Field → String
  | extension => "skt"
  | loopTracking => "block-stack"
  | runtime => "node"
  | invalidSyntaxMarker => "Unexpected"

theorem name_injective {field other : Field} (same : field.name = other.name) : field = other := by
  revert same
  cases field <;> cases other <;> decide

end Field

/-! ### Text for fields -/

/-- Text for fields, in the order in which it is given. -/
abbrev Given := List (Field × String)

namespace Given

/-- The fields that text is given for. -/
def fields (given : Given) : List Field :=
  given.map Prod.fst

/-- The values after text has been given for some of the fields. -/
def revise (given : Given) (values : Field → String) : Field → String :=
  given.foldl (fun values (field, value) => Function.update values field value) values

theorem revise_cons (pair : Field × String) (given : Given) (values : Field → String) :
    revise (pair :: given) values = given.revise (Function.update values pair.1 pair.2) := rfl

theorem revise_append (front back : Given) (values : Field → String) :
    revise (front ++ back) values = back.revise (front.revise values) := by
  unfold revise
  rw [List.foldl_append]

variable {given : Given} {field : Field} {value : String} {values : Field → String}

/-- The value of a field does not depend on the values of others. -/
theorem revise_congr {others : Field → String} (same : values field = others field) :
    given.revise values field = given.revise others field := by
  induction given generalizing values others with
  | nil => exact same
  | cons pair given ih =>
    rw [revise_cons, revise_cons]
    apply ih
    by_cases here : field = pair.1
    · rw [here, Function.update_self, Function.update_self]
    · rw [Function.update_of_ne here, Function.update_of_ne here, same]

theorem revise_of_not_mem (absent : field ∉ given.fields) :
    given.revise values field = values field := by
  induction given generalizing values with
  | nil => rfl
  | cons pair given ih =>
    unfold fields at absent ih
    rw [List.map_cons, List.mem_cons, not_or] at absent
    rw [revise_cons, ih absent.2, Function.update_of_ne absent.1]

theorem revise_of_mem (once : given.fields.Nodup) (member : (field, value) ∈ given) :
    given.revise values field = value := by
  obtain ⟨front, back, rfl⟩ := List.append_of_mem member
  unfold fields at once
  rw [List.map_append, List.map_cons] at once
  have absent := (List.nodup_cons.mp (List.nodup_append.mp once).2.1).1
  rw [revise_append, revise_cons, revise_of_not_mem absent, Function.update_self]

end Given

/-- The settings with the values of fields and a tracking. -/
def ofValues (values : Field → String) (tracking : LoopTracking) : Settings where
  extension := values .extension
  loopTracking := tracking
  runtime := values .runtime
  invalidSyntaxMarker := values .invalidSyntaxMarker

/-! ### Assignments of text to fields -/

/-- The entry of a table gives text for a field. -/
structure GivesEntry (group : String) (entry : String × Setting) (given : Field × String) :
    Prop where
  group : given.1.group = group
  name : foldCase entry.1 = given.1.name
  text : entry.2 = .text given.2

/-- The assignment gives text for fields and nothing else: for one by its key, or for those of a
group by a table. -/
inductive Gives : Key × Setting → Given → Prop where
  | leaf {group name value : String} {field : Field} (grouped : foldCase group = field.group)
      (named : foldCase name = field.name) :
      Gives ([.name group, .name name], .text value) [(field, value)]
  | table {group : String} {entries : List (String × Setting)} {given : Given}
      (each : List.Forall₂ (GivesEntry (foldCase group)) entries given) :
      Gives ([.name group], .table entries) given

/-- Assignments that give text for fields, one after another. -/
inductive GivesAll : List (Key × Setting) → Given → Prop where
  | nil : GivesAll [] []
  | cons {assignment : Key × Setting} {assignments : List (Key × Setting)} {given later : Given}
      (here : Gives assignment given) (rest : GivesAll assignments later) :
      GivesAll (assignment :: assignments) (given ++ later)

end Settings

open Settings

namespace Setting

/-! ### Tables -/

theorem lookup_filter_of_ne {name other : String} (different : other ≠ name)
    (entries : List (String × Setting)) :
    (entries.filter (·.1 ≠ name)).lookup other = entries.lookup other := by
  induction entries with
  | nil => rfl
  | cons entry entries ih =>
    obtain ⟨first, value⟩ := entry
    by_cases same : first = name
    · subst same
      rw [List.filter_cons_of_neg (by simp), ih, List.lookup_cons, beq_false_of_ne different]
    · rw [List.filter_cons_of_pos (by simpa using same), List.lookup_cons, List.lookup_cons, ih]

theorem get?_replace (root : Setting) (name other : String) (value : Setting) :
    (replace root name value).get? other =
      if other = name then some value else root.get? other := by
  unfold replace get?
  rw [Setting.entries, List.lookup_cons]
  by_cases same : other = name
  · rw [if_pos same, beq_iff_eq.mpr same]
  · rw [if_neg same, beq_false_of_ne same, lookup_filter_of_ne same]

theorem get?_put_text (root : Setting) (name other content : String) :
    (put root name (.text content)).get? other =
      if other = foldCase name then some (.text content) else root.get? other := by
  rw [put, get?_replace]

/-! ### Fields -/

/-- The table has text for the fields of a group. -/
def HoldsGroup (table : Setting) (group : String) (values : Field → String) : Prop :=
  ∀ field : Field, field.group = group → table.get? field.name = some (.text (values field))

/-- The tree has text for all fields. -/
def Holds (root : Setting) (values : Field → String) : Prop :=
  ∀ field : Field, ∃ table, root.get? field.group = some table ∧
    table.get? field.name = some (.text (values field))

theorem holds_defaults : Holds Settings.defaults Field.default := by
  intro field
  cases field <;> exact ⟨_, rfl, rfl⟩

variable {root table : Setting} {group : String} {values : Field → String} {given : Given}

theorem HoldsGroup.put {entry : String × Setting} {pair : Field × String}
    (holds : HoldsGroup table group values) (gives : GivesEntry group entry pair) :
    HoldsGroup (put table entry.1 entry.2) group (Function.update values pair.1 pair.2) := by
  intro field grouped
  rw [gives.text, get?_put_text, gives.name]
  by_cases same : field = pair.1
  · rw [same, if_pos rfl, Function.update_self]
  · rw [if_neg (fun names => same (Field.name_injective names)), Function.update_of_ne same]
    exact holds field grouped

theorem HoldsGroup.merge {entries : List (String × Setting)} (holds : HoldsGroup table group values)
    (each : List.Forall₂ (GivesEntry group) entries given) :
    HoldsGroup (merge table entries) group (given.revise values) := by
  induction each generalizing table values with
  | nil =>
    rw [Setting.merge]
    exact holds
  | cons gives _ ih =>
    rw [Setting.merge]
    exact ih (holds.put gives)

/-- Where one table is replaced, the fields of the others stay as they are. -/
theorem Holds.replace {changed : Field → String} (holds : Holds root values)
    (here : HoldsGroup table group changed)
    (others : ∀ field : Field, field.group ≠ group → changed field = values field) :
    Holds (replace root group table) changed := by
  intro field
  rw [get?_replace]
  by_cases same : field.group = group
  · exact ⟨table, if_pos same, here field same⟩
  · rw [if_neg same, others field same]
    exact holds field

theorem Holds.holdsGroup (holds : Holds root values) (group : String) (absent : Setting) :
    HoldsGroup ((root.get? group).getD absent) group values := by
  rintro field rfl
  obtain ⟨table, found, text⟩ := holds field
  rwa [found, Option.getD_some]

/-! ### Assignments -/

theorem group_of_mem {entries : List (String × Setting)}
    (each : List.Forall₂ (GivesEntry group) entries given) {field : Field}
    (member : field ∈ given.fields) : field.group = group := by
  induction each with
  | nil => simp [Given.fields] at member
  | cons gives _ ih =>
    rcases List.mem_cons.mp member with rfl | member
    · exact gives.group
    · exact ih member

theorem Holds.setAt {assignment : Key × Setting} (holds : Holds root values)
    (gives : Gives assignment given) :
    Holds (setAt assignment.2 assignment.1 root) (given.revise values) := by
  cases gives with
  | @leaf group name value field grouped named =>
    have entry : GivesEntry field.group (name, .text value) (field, value) := ⟨rfl, named, rfl⟩
    rw [Setting.setAt, Setting.setAt, grouped]
    · refine holds.replace ((holds.holdsGroup _ _).put entry) fun other different => ?_
      exact Function.update_of_ne (fun same => different (by rw [same])) _ _
    · simp
  | @table group entries given each =>
    rw [Setting.setAt, Setting.put]
    refine holds.replace ((holds.holdsGroup _ _).merge each) fun field different => ?_
    exact Given.revise_of_not_mem fun member => different (group_of_mem each member)

/-- Assignments one after another change the fields in the order in which they are given. -/
theorem Holds.setAll {assignments : List (Key × Setting)} (holds : Holds root values)
    (gives : GivesAll assignments given) :
    Holds (setAll root assignments) (given.revise values) := by
  induction gives generalizing root values with
  | nil => exact holds
  | @cons assignment assignments given later here rest ih =>
    rw [Given.revise_append]
    exact ih (holds.setAt here)

/-! ### Settings -/

theorem Holds.field? (holds : Holds root values) (field : Field) (place : Nat) :
    Settings.field? root field.group field.name place = .ok (some (.text (values field))) := by
  obtain ⟨table, found, text⟩ := holds field
  unfold Settings.field?
  rw [found]
  cases table with
  | table entries => exact congrArg Except.ok text
  | _ => cases text

theorem Holds.textField (holds : Holds root values) (field : Field) (place : Nat) :
    Settings.textField root field.group field.name place = .ok (values field) := by
  unfold Settings.textField
  rw [holds.field? field place]
  rfl

theorem Holds.trackingField (holds : Holds root values) :
    Settings.trackingField root = trackingNamed (values .loopTracking) := by
  have found := holds.field? .loopTracking 0
  unfold Settings.trackingField
  rw [Field.group, Field.name] at found
  rw [found]
  rfl

/-- The settings of a tree with text for all fields depend on how loop tracking is named. -/
theorem Holds.ofTree (holds : Holds root values) :
    Settings.ofTree root = (trackingNamed (values .loopTracking)).map (ofValues values) := by
  have extension := holds.textField .extension 0
  have runtime := holds.textField .runtime 0
  have marker := holds.textField .invalidSyntaxMarker 1
  simp only [Field.group, Field.name] at extension runtime marker
  unfold Settings.ofTree
  rw [extension, holds.trackingField, runtime, marker]
  cases trackingNamed (values .loopTracking) <;> rfl

end Setting

end Lipi
