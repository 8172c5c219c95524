import Lipi.Proofs.Settings.Store

/-!
# Layers that give text for fields

By precedence a field has its value from the last override that gives it, or else from the last
other layer, or else by default (`Effective`). Overrides of one field with keys in different letter
case stand side by side in the store, so the field can get the value of each of them (`Candidate`).
What is loaded depends on the values that the fields end with and on nothing else (`loadIn_eq`).
-/

namespace Lipi.Settings

namespace Layer

def isOverride : Layer → Bool
  | override .. => true
  | _ => false

/-- The layer can be read, and it gives text for fields and nothing else, for each at most once. An
override gives it for the field that its key leads to. -/
inductive Assigns (files : FileTree) (env : Environment) : Layer → Given → Prop where
  | source {layer : Layer} {assignments : Assignments} {given : Given}
      (plain : layer.isOverride = false) (read : layer.assignments files env = .ok assignments)
      (gives : GivesAll assignments given) (once : given.fields.Nodup) :
      Assigns files env layer given
  | override {key : String} {steps : Key} {field : Field} {value : String}
      (parsed : Key.parse? key = some steps) (leads : Field.ofKey? steps = some field) :
      Assigns files env (.override key (.text value)) [(field, value)]

variable {files : FileTree} {env : Environment} {layer : Layer} {given : Given}

theorem Assigns.once (assigned : layer.Assigns files env given) : given.fields.Nodup := by
  cases assigned with
  | source plain read gives once => exact once
  | override parsed leads => simp [Given.fields]

theorem override?_of_not_isOverride (plain : layer.isOverride = false) : layer.override? = none := by
  cases layer with
  | override => cases plain
  | _ => rfl

theorem isOverride_of_key? {key : Key} (keyed : layer.key? = some key) : layer.isOverride := by
  cases layer with
  | override => rfl
  | _ => cases keyed

theorem Assigns.exists_key (assigned : layer.Assigns files env given)
    (isOverride : layer.isOverride) : ∃ key, layer.key? = some key := by
  cases assigned with
  | source plain => simp [plain] at isOverride
  | @override _ steps _ _ parsed => exact ⟨steps, by simp [key?, override?, parsed]⟩

/-- A layer with a key is an override, which gives the text of its entry for one field. -/
theorem Assigns.exists_of_key? {key : Key} (assigned : layer.Assigns files env given)
    (keyed : layer.key? = some key) :
    ∃ field value, layer.override? = some (key, .text value) ∧ Field.ofKey? key = some field ∧
      given = [(field, value)] := by
  cases assigned with
  | source plain => simp [key?, override?_of_not_isOverride plain] at keyed
  | @override written steps field value parsed leads =>
    simp only [key?, override?, parsed, Option.map_some, Option.some.injEq] at keyed
    subst keyed
    exact ⟨field, value, by simp [override?, parsed, Setting.ofToml], leads, rfl⟩

theorem Assigns.mem_iff {key : Key} {field : Field} {value : String}
    (assigned : layer.Assigns files env given) (keyed : layer.key? = some key) :
    (field, value) ∈ given ↔
      layer.override? = some (key, .text value) ∧ Field.ofKey? key = some field := by
  obtain ⟨field', value', override, leads, rfl⟩ := assigned.exists_of_key? keyed
  rw [override, leads]
  simp [eq_comm, and_comm]

theorem Assigns.exists_mem {key : Key} {field : Field} (assigned : layer.Assigns files env given)
    (keyed : layer.key? = some key) (leads : Field.ofKey? key = some field) :
    ∃ value, (field, value) ∈ given := by
  obtain ⟨field', value, override, leads', rfl⟩ := assigned.exists_of_key? keyed
  rw [leads] at leads'
  cases leads'
  exact ⟨value, List.mem_cons_self⟩

end Layer

/-- The value that a field gets: from the last override that gives it, or else from the last other
layer that does, or else the default. -/
inductive Effective (given : Layer → Given) (layers : List Layer) (field : Field) :
    String → Prop where
  | override {before after : List Layer} {layer : Layer} {value : String}
      (split : layers = before ++ layer :: after) (isOverride : layer.isOverride)
      (assigned : (field, value) ∈ given layer)
      (last : ∀ later ∈ after, later.isOverride → field ∉ (given later).fields) :
      Effective given layers field value
  | source {before after : List Layer} {layer : Layer} {value : String}
      (noOverride : ∀ layer ∈ layers, layer.isOverride → field ∉ (given layer).fields)
      (split : layers = before ++ layer :: after) (assigned : (field, value) ∈ given layer)
      (last : ∀ later ∈ after, field ∉ (given later).fields) : Effective given layers field value
  | default (unassigned : ∀ layer ∈ layers, field ∉ (given layer).fields) :
      Effective given layers field field.default

/-- All overrides that give the field have the same key. -/
def OneSpelling (given : Layer → Given) (layers : List Layer) (field : Field) : Prop :=
  ∃ key, ∀ layer ∈ layers, layer.isOverride → field ∈ (given layer).fields → layer.key? = some key

/-- The values that a field can get: the one by precedence, and those of the overrides that are the
last with their own key. -/
inductive Candidate (given : Layer → Given) (layers : List Layer) (field : Field) :
    String → Prop where
  | byPrecedence {value : String} (effective : Effective given layers field value) :
      Candidate given layers field value
  | byKey {key : Key} {layer : Layer} {value : String}
      (last : (layers.filter (·.key? = some key)).getLast? = some layer)
      (assigned : (field, value) ∈ given layer) : Candidate given layers field value

variable {files : FileTree} {env : Environment} {given : Layer → Given} {layers : List Layer}
  {field : Field}

/-! ### Values after all layers -/

/-- The layers in the order in which they take effect: overrides after all others. -/
def inEffect (layers : List Layer) : List Layer :=
  layers.filter (!·.isOverride) ++ layers.filter (·.isOverride)

/-- The values of the fields after all layers have taken effect. -/
def valuesAfter (given : Layer → Given) (layers : List Layer) : Field → String :=
  Given.revise ((inEffect layers).flatMap given) Field.default

section Chosen

variable {chosen : Layer → Bool} {values : Field → String}

theorem revise_of_unassigned
    (absent : ∀ layer ∈ layers, chosen layer → field ∉ (given layer).fields) :
    Given.revise ((layers.filter chosen).flatMap given) values field = values field := by
  apply Given.revise_of_not_mem
  intro member
  obtain ⟨pair, inside, rfl⟩ := List.mem_map.mp member
  obtain ⟨layer, here, gives⟩ := List.mem_flatMap.mp inside
  obtain ⟨member, isChosen⟩ := List.mem_filter.mp here
  exact absent layer member isChosen (List.mem_map_of_mem gives)

theorem revise_of_last {before after : List Layer} {layer : Layer} {value : String}
    (once : (given layer).fields.Nodup) (isChosen : chosen layer)
    (assigned : (field, value) ∈ given layer)
    (last : ∀ later ∈ after, chosen later → field ∉ (given later).fields) :
    Given.revise (((before ++ layer :: after).filter chosen).flatMap given) values field =
      value := by
  rw [List.filter_append, List.filter_cons_of_pos isChosen, List.flatMap_append, List.flatMap_cons,
    Given.revise_append, Given.revise_append, revise_of_unassigned last,
    Given.revise_of_mem once assigned]

end Chosen

theorem exists_last {p : Layer → Prop} (some : ∃ layer ∈ layers, p layer) :
    ∃ before layer after, layers = before ++ layer :: after ∧ p layer ∧
      ∀ later ∈ after, ¬ p later := by
  induction layers with
  | nil => simp at some
  | cons first layers ih =>
    by_cases later : ∃ layer ∈ layers, p layer
    · obtain ⟨before, layer, after, rfl, here, last⟩ := ih later
      exact ⟨first :: before, layer, after, rfl, here, last⟩
    · obtain ⟨layer, member, here⟩ := some
      rcases List.mem_cons.mp member with rfl | member
      · exact ⟨[], layer, layers, rfl, here, fun other inside holds => later ⟨other, inside, holds⟩⟩
      · exact absurd ⟨layer, member, here⟩ later

theorem exists_effective (given : Layer → Given) (layers : List Layer) (field : Field) :
    ∃ value, Effective given layers field value := by
  by_cases overridden : ∃ layer ∈ layers, layer.isOverride ∧ field ∈ (given layer).fields
  · obtain ⟨before, layer, after, split, ⟨isOverride, member⟩, last⟩ := exists_last overridden
    obtain ⟨⟨_, value⟩, gives, rfl⟩ := List.mem_map.mp member
    exact ⟨value, .override split isOverride gives fun later inside holds present =>
      last later inside ⟨holds, present⟩⟩
  · have noOverride : ∀ layer ∈ layers, layer.isOverride → field ∉ (given layer).fields :=
      fun layer inside isOverride present => overridden ⟨layer, inside, isOverride, present⟩
    by_cases assigned : ∃ layer ∈ layers, field ∈ (given layer).fields
    · obtain ⟨before, layer, after, split, member, last⟩ := exists_last assigned
      obtain ⟨⟨_, value⟩, gives, rfl⟩ := List.mem_map.mp member
      exact ⟨value, .source noOverride split gives last⟩
    · exact ⟨_, .default fun layer inside present => assigned ⟨layer, inside, present⟩⟩

theorem Effective.eq_valuesAfter {value : String}
    (once : ∀ layer ∈ layers, (given layer).fields.Nodup)
    (effective : Effective given layers field value) : value = valuesAfter given layers field := by
  unfold valuesAfter inEffect
  rw [List.flatMap_append, Given.revise_append]
  cases effective with
  | @override before after layer value split isOverride assigned last =>
    subst split
    exact (revise_of_last (once layer (by simp)) isOverride assigned last).symm
  | @source before after layer value noOverride split assigned last =>
    -- The layer gives the field and no override does, so it is none.
    have plain : !layer.isOverride := by
      by_contra isOverride
      exact noOverride layer (by simp [split]) (by simpa using isOverride)
        (List.mem_map_of_mem assigned)
    rw [revise_of_unassigned noOverride]
    subst split
    exact (revise_of_last (once layer (by simp)) plain assigned fun later inside _ =>
      last later inside).symm
  | default unassigned =>
    rw [revise_of_unassigned fun layer inside _ => unassigned layer inside,
      revise_of_unassigned fun layer inside _ => unassigned layer inside]

theorem effective_iff (assigned : ∀ layer ∈ layers, layer.Assigns files env (given layer))
    {value : String} :
    Effective given layers field value ↔ value = valuesAfter given layers field := by
  have once : ∀ layer ∈ layers, (given layer).fields.Nodup :=
    fun layer inside => (assigned layer inside).once
  refine ⟨Effective.eq_valuesAfter once, ?_⟩
  rintro rfl
  obtain ⟨value, effective⟩ := exists_effective given layers field
  rwa [← effective.eq_valuesAfter once]

/-! ### Names of trackings -/

theorem foldCase_name (tracking : LoopTracking) : foldCase tracking.name = tracking.name := by
  cases tracking <;> decide

theorem trackingNamed_eq_ok_iff {name : String} {tracking : LoopTracking} :
    trackingNamed name = .ok tracking ↔ tracking.name = foldCase name := by
  unfold trackingNamed
  constructor
  · intro found
    split at found
    · rename_i chosen search
      cases found
      have matched := List.find?_some search
      rwa [decide_eq_true_eq, foldCase_name] at matched
    · cases found
  · intro named
    have search : LoopTracking.all.find? (foldCase ·.name = foldCase name) = some tracking := by
      simp only [foldCase_name, ← named]
      cases tracking <;> decide
    rw [search]

theorem trackingNamed_eq_error_iff {name : String} :
    (∃ error, trackingNamed name = .error error) ↔
      foldCase name ≠ "block-stack" ∧ foldCase name ≠ "counter" := by
  cases named : trackingNamed name with
  | error error =>
    have unknown (tracking : LoopTracking) : foldCase name ≠ tracking.name := by
      intro same
      rw [trackingNamed_eq_ok_iff.mpr same.symm] at named
      cases named
    exact ⟨fun _ => ⟨unknown .blockStack, unknown .counter⟩, fun _ => ⟨error, rfl⟩⟩
  | ok tracking =>
    have same := trackingNamed_eq_ok_iff.mp named
    rw [← same]
    cases tracking <;> simp [LoopTracking.name]

/-! ### Loading -/

theorem GivesAll.append {front back : List (Key × Setting)} {earlier later : Given}
    (first : GivesAll front earlier) (second : GivesAll back later) :
    GivesAll (front ++ back) (earlier ++ later) := by
  induction first with
  | nil => exact second
  | cons here _ ih =>
    rw [List.append_assoc]
    exact .cons here ih

section Reading

variable {read : Layer → Except SettingsError Assignments}

/-- All assignments that are read from layers. -/
def readAll (read : Layer → Except SettingsError Assignments) (layers : List Layer) :
    Except SettingsError Assignments :=
  (layers.mapM read).map List.flatten

theorem readAll_cons (layer : Layer) (layers : List Layer) :
    readAll read (layer :: layers) =
      (read layer).bind fun first => (readAll read layers).map (first ++ ·) := by
  unfold readAll
  rw [List.mapM_cons]
  cases read layer with
  | error error => rfl
  | ok first => cases layers.mapM read <;> rfl

theorem readAll_cons_of_ok {layer : Layer} {first rest : Assignments}
    (here : read layer = .ok first) (later : readAll read layers = .ok rest) :
    readAll read (layer :: layers) = .ok (first ++ rest) := by
  rw [readAll_cons, here, later]
  rfl

theorem readAll_filter {chosen : Layer → Bool}
    (skipped : ∀ layer, chosen layer = false → read layer = .ok []) (layers : List Layer) :
    readAll read (layers.filter chosen) = readAll read layers := by
  induction layers with
  | nil => rfl
  | cons layer layers ih =>
    by_cases isChosen : chosen layer
    · rw [List.filter_cons_of_pos isChosen, readAll_cons, readAll_cons, ih]
    · rw [List.filter_cons_of_neg isChosen, ih, readAll_cons,
        skipped layer (by simpa using isChosen)]
      cases readAll read layers <;> rfl

end Reading

theorem loadIn_eq_readAll (order : StoreOrder) (files : FileTree) (env : Environment)
    (layers : List Layer) :
    loadIn order files env layers = (readAll Layer.overrides layers).bind fun overrides =>
      (readAll (Layer.assignments files env) layers).bind fun sources =>
        ofTree (Setting.setAll defaults (sources ++ order.arrange (.ofList overrides))) := by
  unfold loadIn readAll
  cases layers.mapM Layer.overrides with
  | error error => rfl
  | ok overrides => cases layers.mapM (Layer.assignments files env) <;> rfl

theorem overrides_of_not_isOverride {layer : Layer} (plain : layer.isOverride = false) :
    layer.overrides = .ok [] := by
  cases layer with
  | override => cases plain
  | _ => rfl

theorem readAll_of_assigns (assigned : ∀ layer ∈ layers, layer.Assigns files env (given layer)) :
    readAll Layer.overrides layers = .ok (layers.filterMap Layer.override?) ∧
      ∃ sources, readAll (Layer.assignments files env) layers = .ok sources ∧
        GivesAll sources ((layers.filter (!·.isOverride)).flatMap given) := by
  induction layers with
  | nil => exact ⟨rfl, [], rfl, .nil⟩
  | cons layer layers ih =>
    obtain ⟨here, later⟩ := List.forall_mem_cons.mp assigned
    obtain ⟨readOverrides, sources, readSources, giveSources⟩ := ih later
    generalize gives : given layer = pairs at here
    cases here with
    | @source _ assignments _ plain read givesAll once =>
      rw [List.filter_cons_of_pos (by simp [plain]), List.flatMap_cons, gives,
        List.filterMap_cons_none (Layer.override?_of_not_isOverride plain)]
      exact ⟨readAll_cons_of_ok (overrides_of_not_isOverride plain) readOverrides,
        _, readAll_cons_of_ok read readSources, givesAll.append giveSources⟩
    | @override key steps field value parsed leads =>
      have entry : Layer.override? (.override key (.text value)) = some (steps, .text value) := by
        simp [Layer.override?, parsed, Setting.ofToml]
      have override : Layer.overrides (.override key (.text value)) =
          .ok [(steps, .text value)] := by
        simp [Layer.overrides, parsed, Setting.ofToml]
      rw [List.filter_cons_of_neg (by simp [Layer.isOverride]), List.filterMap_cons_some entry]
      exact ⟨readAll_cons_of_ok override readOverrides,
        _, readAll_cons_of_ok rfl readSources, giveSources⟩

/-! ### Values in an order of the store -/

/-- The values of the fields after all layers have taken effect, with the store in some order. -/
def valuesIn (order : StoreOrder) (given : Layer → Given) (layers : List Layer) :
    Field → String :=
  Given.revise ((order.arrange (stored layers)).flatMap Given.ofEntry)
    (Given.revise ((layers.filter (!·.isOverride)).flatMap given) Field.default)

theorem mem_of_getLast?_filter {key : Key} {layer : Layer}
    (last : (layers.filter (·.key? = some key)).getLast? = some layer) :
    layer ∈ layers ∧ layer.key? = some key := by
  have member := List.mem_filter.mp (List.mem_of_getLast? last)
  exact ⟨member.1, of_decide_eq_true member.2⟩

theorem exists_text_of_mem_stored
    (assigned : ∀ layer ∈ layers, layer.Assigns files env (given layer))
    {entry : Key × Setting} (member : entry ∈ (stored layers).entries) :
    ∃ key field value, entry = (key, .text value) ∧ Field.ofKey? key = some field := by
  obtain ⟨key, setting⟩ := entry
  obtain ⟨layer, last, override⟩ := mem_stored_iff.mp member
  obtain ⟨inside, keyed⟩ := mem_of_getLast?_filter last
  obtain ⟨field, value, override', leads, -⟩ := (assigned layer inside).exists_of_key? keyed
  rw [override] at override'
  exact ⟨key, field, value, Option.some.inj override', leads⟩

theorem loadIn_eq (assigned : ∀ layer ∈ layers, layer.Assigns files env (given layer))
    (order : StoreOrder) :
    loadIn order files env layers =
      (trackingNamed (valuesIn order given layers .loopTracking)).map
        (ofValues (valuesIn order given layers)) := by
  obtain ⟨readOverrides, sources, readSources, giveSources⟩ := readAll_of_assigns assigned
  have giveStore : GivesAll (order.arrange (stored layers))
      ((order.arrange (stored layers)).flatMap Given.ofEntry) := by
    apply Given.givesAll_flatMap_ofEntry
    intro entry member
    exact exists_text_of_mem_stored assigned ((order.perm _).mem_iff.mp member)
  have holds := Setting.holds_defaults.setAll (giveSources.append giveStore)
  rw [Given.revise_append] at holds
  rw [loadIn_eq_readAll, readSources, readOverrides]
  exact holds.ofTree

end Lipi.Settings
