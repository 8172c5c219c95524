import Lipi.Machine.FileTree
import Lipi.Settings.Basic
import Lipi.Toml.Document

/-!
# Layers of settings

Settings come in layers over the defaults: files, environment variables and overrides. A later
layer wins over an earlier one, and overrides win over all the others. Overrides are kept apart in a
store that goes by keys as they are written, so one setting can have several overrides there. Which
of them wins depends on the order in which the store is gone through.
-/

namespace Lipi.Settings

open Toml (Value)

/-- Where settings come from. -/
inductive Layer where
  | file (path : String) (required : Bool)
  | environment
  | override (key : String) (value : Value)

/-- Assignments of values to keys, in order. -/
abbrev Assignments := List (Key × Setting)

/-! ### Files -/

/-- The file that a path means: the one it leads to, or else the one with `.toml` added to its
name. -/
def settingsFile? (files : FileTree) (path : String) : Option String :=
  if files.isFile path then some path
  else match Path.fileName? path with
    | none => none
    | some name =>
      let names := ((Path.names path).reverse.dropWhile (· ≠ name)).drop 1
      let extended := "/".intercalate (names.reverse ++ [name ++ ".toml"])
      if files.isFile extended then some extended else none

/-- The assignments of a file's content. -/
def fileAssignments? (content : Bytes) : Option Assignments := do
  let document := Text.decodeLossy content
  let table ← Toml.parse? ((Text.after? ['\ufeff'] document).getD document)
  return table.map fun (key, value) => (Key.parse key, .ofToml value)

/-! ### The environment -/

/-- Variables and their values. -/
abbrev Environment := List (String × String)

/-- What the names of variables with settings start with. -/
def variableStart : Text := "sutra__".toList

/-- Writes dots for double underscores. -/
def dotted : Text → Text
  | '_' :: '_' :: text => '.' :: dotted text
  | c :: text => c :: dotted text
  | [] => []

/-- The assignments of environment variables. -/
def environmentAssignments (env : Environment) : Assignments :=
  env.filterMap fun (name, value) =>
    (Text.after? variableStart (foldCase name).toList).map fun rest =>
      (Key.parse (String.ofList (dotted rest)), .text value)

/-! ### Loading -/

/-- The assignments of a layer that is not an override. -/
def Layer.assignments (files : FileTree) (env : Environment) :
    Layer → Except SettingsError Assignments
  | file path required =>
    match settingsFile? files path with
    | none => if required then .error (.missingFile path) else .ok []
    | some found =>
      match (files.read found).toOption.bind fileAssignments? with
      | some assignments => .ok assignments
      | none => .error (.badFile path)
  | environment => .ok (environmentAssignments env)
  | override .. => .ok []

/-- The assignment of an override. -/
def Layer.overrides : Layer → Except SettingsError Assignments
  | override key value =>
    match Key.parse? key with
    | some steps => .ok [(steps, .ofToml value)]
    | none => .error (.badKey key)
  | _ => .ok []

/-- Overrides by their keys as they are written. Letter case counts. -/
structure Store where
  entries : Assignments
  distinct : (entries.map Prod.fst).Nodup

namespace Store

def empty : Store :=
  ⟨[], .nil⟩

/-- Puts an override in, in place of the one with the same key. -/
def insert (store : Store) (override : Key × Setting) : Store where
  entries := store.entries.filter (·.1 ≠ override.1) ++ [override]
  distinct := by
    rw [List.map_append, List.map_singleton, List.nodup_append]
    refine ⟨store.distinct.sublist (List.filter_sublist.map _), by simp, ?_⟩
    intro key member other last
    obtain ⟨entry, kept, rfl⟩ := List.mem_map.mp member
    rw [List.mem_singleton.mp last]
    exact of_decide_eq_true (List.mem_filter.mp kept).2

/-- The store after overrides have been put in one by one. -/
def ofList (overrides : Assignments) : Store :=
  overrides.foldl insert empty

end Store

/-- An order in which stores are gone through. Nothing more is known of it. -/
structure StoreOrder where
  arrange : Store → Assignments
  perm : ∀ store, (arrange store).Perm store.entries

namespace StoreOrder

/-- The order in which what was put in last comes first. -/
def newestFirst : StoreOrder where
  arrange store := store.entries.reverse
  perm store := List.reverse_perm store.entries

end StoreOrder

/-- Loads the settings from layers over the defaults. The keys of overrides are checked before any
file is read. -/
def loadIn (order : StoreOrder) (files : FileTree) (env : Environment) (layers : List Layer) :
    Except SettingsError Settings := do
  let overrides ← layers.mapM Layer.overrides
  let assignments ← layers.mapM (Layer.assignments files env)
  let store := Store.ofList overrides.flatten
  ofTree (Setting.setAll defaults (assignments.flatten ++ order.arrange store))

def load (files : FileTree) (env : Environment) (layers : List Layer) :
    Except SettingsError Settings :=
  loadIn .newestFirst files env layers

end Lipi.Settings
