import Mathlib.Data.List.Induction
import Mathlib.Data.List.Nodup
import Lipi.Proofs.Settings.Fields
import Lipi.Settings.Layer

/-!
# The store of overrides

A store has one entry for every key that overrides were written with, the one that was put in last
(`mem_stored_iff`). Several entries can lead to one field. In whatever order they are gone through,
the field ends up with the value of one of them (`Given.exists_entry_of_revise`).
-/

namespace Lipi.Settings

/-! ### Entries for fields -/

namespace Field

def all : List Field := [extension, loopTracking, runtime, invalidSyntaxMarker]

/-- The field that a key leads to, in any letter case. -/
def ofKey? : Key → Option Field
  | [.name group, .name name] =>
    all.find? fun field => foldCase group = field.group ∧ foldCase name = field.name
  | _ => none

end Field

theorem gives_of_ofKey? {key : Key} {field : Field} (leads : Field.ofKey? key = some field)
    (value : String) : Gives (key, .text value) [(field, value)] := by
  unfold Field.ofKey? at leads
  split at leads
  · have found := List.find?_some leads
    rw [decide_eq_true_iff] at found
    exact .leaf found.1 found.2
  · cases leads

namespace Given

/-- What an entry gives if it has text for the key of a field. -/
def ofEntry : Key × Setting → Given
  | (key, .text value) => (Field.ofKey? key).toList.map (·, value)
  | _ => []

/-- A field that is given has one of the values it is given. -/
theorem mem_revise {given : Given} {field : Field} (member : field ∈ given.fields)
    (values : Field → String) : (field, given.revise values field) ∈ given := by
  induction given generalizing values with
  | nil => cases member
  | cons pair given ih =>
    rw [revise_cons]
    by_cases later : field ∈ fields given
    · exact List.mem_cons_of_mem _ (ih later _)
    · rw [revise_of_not_mem later]
      rcases List.mem_cons.mp member with rfl | member
      · rw [Function.update_self]
        exact List.mem_cons_self
      · exact absurd member later

theorem mem_flatMap_ofEntry_iff {entries : Assignments} {field : Field} {value : String} :
    (field, value) ∈ entries.flatMap ofEntry ↔
      ∃ key, (key, .text value) ∈ entries ∧ Field.ofKey? key = some field := by
  rw [List.mem_flatMap]
  constructor
  · rintro ⟨⟨key, setting⟩, member, gives⟩
    unfold ofEntry at gives
    split at gives
    · rename_i written content same
      cases same
      obtain ⟨other, leads, same⟩ := List.mem_map.mp gives
      cases same
      exact ⟨key, member, Option.mem_toList.mp leads⟩
    · cases gives
  · rintro ⟨key, member, leads⟩
    exact ⟨_, member, by simp [ofEntry, leads]⟩

/-- With entries for a field gone through in order, the field has the value of one of them. -/
theorem exists_entry_of_revise {entries : Assignments} {key : Key} {field : Field} {value : String}
    (member : (key, .text value) ∈ entries) (leads : Field.ofKey? key = some field)
    (values : Field → String) :
    ∃ other, (other, .text (revise (entries.flatMap ofEntry) values field)) ∈ entries ∧
      Field.ofKey? other = some field := by
  have given : field ∈ fields (entries.flatMap ofEntry) :=
    List.mem_map_of_mem (mem_flatMap_ofEntry_iff.mpr ⟨key, member, leads⟩)
  exact mem_flatMap_ofEntry_iff.mp (mem_revise given values)

theorem givesAll_flatMap_ofEntry {entries : Assignments}
    (leaves : ∀ entry ∈ entries, ∃ key field value,
      entry = (key, .text value) ∧ Field.ofKey? key = some field) :
    GivesAll entries (entries.flatMap ofEntry) := by
  induction entries with
  | nil => exact .nil
  | cons entry entries ih =>
    obtain ⟨⟨key, field, value, rfl, leads⟩, rest⟩ := List.forall_mem_cons.mp leaves
    have given : ofEntry (key, .text value) = [(field, value)] := by simp [ofEntry, leads]
    rw [List.flatMap_cons, given]
    exact .cons (gives_of_ofKey? leads value) (ih rest)

end Given

/-! ### Stored entries -/

namespace Layer

/-- The entry that a layer puts into the store. -/
def override? : Layer → Option (Key × Setting)
  | override key value => (Key.parse? key).map (·, .ofToml value)
  | _ => none

def key? (layer : Layer) : Option Key :=
  layer.override?.map Prod.fst

end Layer

def stored (layers : List Layer) : Store :=
  .ofList (layers.filterMap Layer.override?)

theorem stored_append_singleton (layers : List Layer) (layer : Layer) :
    stored (layers ++ [layer]) =
      match layer.override? with
      | some override => (stored layers).insert override
      | none => stored layers := by
  unfold stored Store.ofList
  cases override : layer.override? with
  | none => simp [override]
  | some entry => simp [override]

theorem Store.mem_insert_iff {store : Store} {entry other : Key × Setting} :
    entry ∈ (store.insert other).entries ↔
      if entry.1 = other.1 then entry = other else entry ∈ store.entries := by
  unfold Store.insert
  by_cases same : entry.1 = other.1
  · simp [same]
  · have different : entry ≠ other := fun equal => same (by rw [equal])
    simp [same, different]

theorem Store.eq_of_mem {store : Store} {key : Key} {setting other : Setting}
    (first : (key, setting) ∈ store.entries) (second : (key, other) ∈ store.entries) :
    setting = other :=
  congrArg Prod.snd (List.inj_on_of_nodup_map store.distinct first second rfl)

/-- An entry of the store comes from the last layer with its key. -/
theorem mem_stored_iff {layers : List Layer} {key : Key} {setting : Setting} :
    (key, setting) ∈ (stored layers).entries ↔
      ∃ layer, (layers.filter (·.key? = some key)).getLast? = some layer ∧
        layer.override? = some (key, setting) := by
  induction layers using List.reverseRecOn with
  | nil => simp [stored, Store.ofList, Store.empty]
  | append_singleton layers layer ih =>
    rw [stored_append_singleton, List.filter_append]
    cases override : layer.override? with
    | none =>
      have keyless : layer.key? = none := by rw [Layer.key?, override]; rfl
      rw [ih, List.filter_cons_of_neg (by simp [keyless]), List.filter_nil, List.append_nil]
    | some entry =>
      have keyed : layer.key? = some entry.1 := by rw [Layer.key?, override]; rfl
      show (key, setting) ∈ ((stored layers).insert entry).entries ↔ _
      rw [Store.mem_insert_iff]
      by_cases same : key = entry.1
      · rw [if_pos same, List.filter_cons_of_pos (by simp [keyed, same])]
        simp [override, eq_comm]
      · rw [if_neg same, ih, List.filter_cons_of_neg (by simp [keyed, Ne.symm same]),
          List.filter_nil, List.append_nil]

/-! ### Orders -/

/-- The order that goes through chosen entries last. -/
def StoreOrder.chosenLast (chosen : Key × Setting → Bool) : StoreOrder where
  arrange store := store.entries.filter (!chosen ·) ++ store.entries.filter chosen
  perm store := List.perm_append_comm.trans (List.filter_append_perm chosen store.entries)

end Lipi.Settings
