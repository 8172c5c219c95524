import Lipi.Settings.Key
import Lipi.Settings.Setting

/-!
# Trees of settings

Settings are kept as a table of tables. An assignment to a name replaces what is there, except that
a table is merged into the one that is there. What is in the way of a key gives way to it.
-/

namespace Lipi.Setting

open Settings (Key foldCase)

/-- Replaces the setting under a name, or adds the name. What is not a table becomes one. -/
def replace (root : Setting) (name : String) (value : Setting) : Setting :=
  .table ((name, value) :: root.entries.filter (·.1 ≠ name))

mutual

/-- Assigns a setting to a name. -/
def put (root : Setting) (name : String) : Setting → Setting
  | .table incoming =>
    let name := foldCase name
    replace root name (merge ((get? root name).getD (.table [])) incoming)
  | .list items => replace root (foldCase name) (.list items)
  | .text content => replace root (foldCase name) (.text content)
  | .literal content => replace root (foldCase name) (.literal content)
  | .unset => replace root (foldCase name) .unset

/-- Assigns the settings of a table one after another. -/
def merge (target : Setting) : List (String × Setting) → Setting
  | [] => target
  | (name, value) :: rest => merge (put target name value) rest

end

/-- A list with unset places added, so that it has the place of an index: at its end, or in front of
it for an index that counts from the end. -/
def reach (items : List Setting) (index : Int) : List Setting :=
  if 0 ≤ index then items ++ List.replicate (index.toNat + 1 - items.length) .unset
  else List.replicate ((-index).toNat - items.length) .unset ++ items

/-- Changes the item at an index. What is not a list becomes one, and one that is too short is
lengthened. -/
def modifyItem (root : Setting) (index : Int) (change : Setting → Setting) : Setting :=
  let items := reach root.items index
  let place := if 0 ≤ index then index.toNat else items.length - (-index).toNat
  .list (items.modify place change)

/-- Assigns a setting to a key, and makes the tables and lists on the way. -/
def setAt (value : Setting) : Key → Setting → Setting
  | [], _ => value
  | [.name name], root => put root name value
  | .name name :: rest, root =>
    let name := foldCase name
    replace root name (setAt value rest ((get? root name).getD .unset))
  | .place index :: rest, root => modifyItem root index (setAt value rest)

/-- Assignments one after another. -/
def setAll (root : Setting) (assignments : List (Key × Setting)) : Setting :=
  assignments.foldl (fun root (key, value) => setAt value key root) root

end Lipi.Setting
