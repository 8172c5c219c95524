import Lipi.Proofs.Settings.Layering

/-!
# Settings by precedence

The store has values for a field exactly if an override gives it, and each of them is what some
order of the store ends with (`exists_order`). If all overrides of a field have one key, there is
only one value, that of the last override (`valuesIn_of_oneSpelling`).
-/

namespace Lipi.Settings

variable {files : FileTree} {env : Environment} {given : Layer → Given} {layers : List Layer}
  {field : Field} {value : String}

/-! ### Stored values -/

/-- An override gives the field. -/
def Overridden (given : Layer → Given) (layers : List Layer) (field : Field) : Prop :=
  ∃ layer ∈ layers, layer.isOverride ∧ field ∈ (given layer).fields

/-- The store has the value for a field under some key. -/
def StoredFor (layers : List Layer) (field : Field) (value : String) : Prop :=
  ∃ key, Field.ofKey? key = some field ∧ (key, .text value) ∈ (stored layers).entries

section Assigned

variable (assigned : ∀ layer ∈ layers, layer.Assigns files env (given layer))
include assigned

theorem storedFor_iff :
    StoredFor layers field value ↔
      ∃ key layer, (layers.filter (·.key? = some key)).getLast? = some layer ∧
        (field, value) ∈ given layer := by
  refine exists_congr fun key => ?_
  rw [mem_stored_iff, ← exists_and_left]
  refine exists_congr fun layer => ?_
  constructor
  · rintro ⟨leads, last, override⟩
    obtain ⟨inside, keyed⟩ := mem_of_getLast?_filter last
    exact ⟨last, ((assigned layer inside).mem_iff keyed).mpr ⟨override, leads⟩⟩
  · rintro ⟨last, gives⟩
    obtain ⟨inside, keyed⟩ := mem_of_getLast?_filter last
    obtain ⟨override, leads⟩ := ((assigned layer inside).mem_iff keyed).mp gives
    exact ⟨leads, last, override⟩

theorem Overridden.of_storedFor (found : StoredFor layers field value) :
    Overridden given layers field := by
  obtain ⟨key, layer, last, gives⟩ := (storedFor_iff assigned).mp found
  obtain ⟨inside, keyed⟩ := mem_of_getLast?_filter last
  exact ⟨layer, inside, Layer.isOverride_of_key? keyed, List.mem_map_of_mem gives⟩

/-- The last of the overrides with one key gives the field that any of them gives. -/
theorem Overridden.exists_storedFor (overridden : Overridden given layers field) :
    ∃ value, StoredFor layers field value := by
  obtain ⟨layer, inside, isOverride, member⟩ := overridden
  obtain ⟨⟨_, value⟩, gives, rfl⟩ := List.mem_map.mp member
  obtain ⟨key, keyed⟩ := (assigned layer inside).exists_key isOverride
  obtain ⟨-, leads⟩ := ((assigned layer inside).mem_iff keyed).mp gives
  cases found : (layers.filter (·.key? = some key)).getLast? with
  | none =>
    have among : layer ∈ layers.filter (·.key? = some key) := by simp [inside, keyed]
    rw [List.getLast?_eq_none_iff.mp found] at among
    cases among
  | some last =>
    obtain ⟨inside', keyed'⟩ := mem_of_getLast?_filter found
    obtain ⟨value', gives'⟩ := (assigned last inside').exists_mem keyed' leads
    exact ⟨value', (storedFor_iff assigned).mpr ⟨key, last, found, gives'⟩⟩

theorem Effective.storedFor_or (effective : Effective given layers field value) :
    StoredFor layers field value ∨ ¬ Overridden given layers field := by
  cases effective with
  | @override before after layer value split isOverride gives last =>
    have here := assigned layer (by simp [split])
    obtain ⟨key, keyed⟩ := here.exists_key isOverride
    obtain ⟨-, leads⟩ := (here.mem_iff keyed).mp gives
    have others : after.filter (·.key? = some key) = [] := by
      rw [List.filter_eq_nil_iff]
      intro later inside same
      have keyed' : later.key? = some key := of_decide_eq_true same
      obtain ⟨_, gives'⟩ := (assigned later (by simp [split, inside])).exists_mem keyed' leads
      exact last later inside (Layer.isOverride_of_key? keyed') (List.mem_map_of_mem gives')
    have isLast : (layers.filter (·.key? = some key)).getLast? = some layer := by
      rw [split, List.filter_append, List.filter_cons_of_pos (by simp [keyed]), others]
      simp
    exact .inl ((storedFor_iff assigned).mpr ⟨key, layer, isLast, gives⟩)
  | source noOverride split gives last =>
    refine .inr ?_
    rintro ⟨layer, inside, isOverride, member⟩
    exact noOverride layer inside isOverride member
  | default unassigned =>
    refine .inr ?_
    rintro ⟨layer, inside, -, member⟩
    exact unassigned layer inside member

theorem candidate_iff :
    Candidate given layers field value ↔ StoredFor layers field value ∨
      (¬ Overridden given layers field ∧ value = valuesAfter given layers field) := by
  constructor
  · intro candidate
    cases candidate with
    | byPrecedence effective =>
      rcases effective.storedFor_or assigned with found | free
      · exact .inl found
      · exact .inr ⟨free, (effective_iff assigned).mp effective⟩
    | byKey last gives => exact .inl ((storedFor_iff assigned).mpr ⟨_, _, last, gives⟩)
  · rintro (found | ⟨-, same⟩)
    · obtain ⟨key, layer, last, gives⟩ := (storedFor_iff assigned).mp found
      exact .byKey last gives
    · exact .byPrecedence ((effective_iff assigned).mpr same)

/-! ### Values and the order of the store -/

theorem storedFor_valuesIn (order : StoreOrder) (overridden : Overridden given layers field) :
    StoredFor layers field (valuesIn order given layers field) := by
  obtain ⟨value, key, leads, member⟩ := overridden.exists_storedFor assigned
  rw [← (order.perm _).mem_iff] at member
  obtain ⟨other, member', leads'⟩ := Given.exists_entry_of_revise member leads _
  exact ⟨other, leads', (order.perm _).mem_iff.mp member'⟩

theorem valuesIn_of_not_overridden (order : StoreOrder)
    (free : ¬ Overridden given layers field) :
    valuesIn order given layers field = valuesAfter given layers field := by
  have absent : field ∉
      Given.fields ((order.arrange (stored layers)).flatMap Given.ofEntry) := by
    intro member
    obtain ⟨⟨_, value⟩, inside, rfl⟩ := List.mem_map.mp member
    obtain ⟨key, among, leads⟩ := Given.mem_flatMap_ofEntry_iff.mp inside
    exact free (.of_storedFor assigned ⟨key, leads, (order.perm _).mem_iff.mp among⟩)
  unfold valuesIn valuesAfter inEffect
  rw [Given.revise_of_not_mem absent, List.flatMap_append, Given.revise_append,
    revise_of_unassigned fun layer inside isOverride member =>
      free ⟨layer, inside, isOverride, member⟩]

theorem key_eq_of_mem_stored {key only : Key}
    (single : ∀ layer ∈ layers, layer.isOverride → field ∈ (given layer).fields →
      layer.key? = some only)
    (leads : Field.ofKey? key = some field) (member : (key, .text value) ∈ (stored layers).entries) :
    key = only := by
  obtain ⟨layer, last, override⟩ := mem_stored_iff.mp member
  obtain ⟨inside, keyed⟩ := mem_of_getLast?_filter last
  have gives := ((assigned layer inside).mem_iff keyed).mpr ⟨override, leads⟩
  have same := single layer inside (Layer.isOverride_of_key? keyed) (List.mem_map_of_mem gives)
  rw [keyed] at same
  exact Option.some.inj same

/-- With one key for its overrides, a field has its value by precedence in every order. -/
theorem valuesIn_of_oneSpelling (order : StoreOrder) (oneSpelling : OneSpelling given layers field) :
    valuesIn order given layers field = valuesAfter given layers field := by
  by_cases overridden : Overridden given layers field
  · obtain ⟨only, single⟩ := oneSpelling
    obtain ⟨key, leads, member⟩ := storedFor_valuesIn assigned order overridden
    have effective : Effective given layers field (valuesAfter given layers field) :=
      (effective_iff assigned).mpr rfl
    rcases effective.storedFor_or assigned with ⟨key', leads', member'⟩ | free
    · rw [key_eq_of_mem_stored assigned single leads member] at member
      rw [key_eq_of_mem_stored assigned single leads' member'] at member'
      exact Setting.text.inj (Store.eq_of_mem member member')
    · exact absurd overridden free
  · exact valuesIn_of_not_overridden assigned order overridden

theorem candidate_valuesIn (order : StoreOrder) (field : Field) :
    Candidate given layers field (valuesIn order given layers field) := by
  rw [candidate_iff assigned]
  by_cases overridden : Overridden given layers field
  · exact .inl (storedFor_valuesIn assigned order overridden)
  · exact .inr ⟨overridden, valuesIn_of_not_overridden assigned order overridden⟩

/-- Every choice among the candidates is made by some order: it goes through the entries with the
chosen values last. -/
theorem exists_order {choice : Field → String}
    (candidates : ∀ field, Candidate given layers field (choice field)) :
    ∃ order, valuesIn order given layers = choice := by
  let chosen : Key × Setting → Bool := fun entry =>
    (Given.ofEntry entry).all fun pair => pair.2 = choice pair.1
  refine ⟨.chosenLast chosen, funext fun field => ?_⟩
  rcases (candidate_iff assigned).mp (candidates field) with ⟨key, leads, member⟩ | ⟨free, same⟩
  · have among : (key, .text (choice field)) ∈ (stored layers).entries.filter chosen := by
      simp [member, chosen, Given.ofEntry, leads]
    unfold valuesIn StoreOrder.chosenLast
    rw [List.flatMap_append, Given.revise_append]
    obtain ⟨other, among', leads'⟩ := Given.exists_entry_of_revise among leads _
    simpa [chosen, Given.ofEntry, leads'] using (List.mem_filter.mp among').2
  · rw [valuesIn_of_not_overridden assigned _ free, same]

end Assigned

/-! ### Layers moved and left out -/

/-- Overrides and other layers can change places as long as each keep their order. -/
theorem loadIn_of_moved (order : StoreOrder) {others : List Layer}
    (overrides : others.filter (·.isOverride) = layers.filter (·.isOverride))
    (sources : others.filter (!·.isOverride) = layers.filter (!·.isOverride)) :
    loadIn order files env others = loadIn order files env layers := by
  have noOverride : ∀ layer : Layer, layer.isOverride = false → layer.overrides = .ok [] :=
    fun _ => overrides_of_not_isOverride
  have noSource : ∀ layer : Layer, (!layer.isOverride) = false →
      layer.assignments files env = .ok [] := by
    intro layer isOverride
    cases layer with
    | override => rfl
    | _ => cases isOverride
  rw [loadIn_eq_readAll, loadIn_eq_readAll, ← readAll_filter noOverride others,
    ← readAll_filter noOverride layers, ← readAll_filter noSource others,
    ← readAll_filter noSource layers, overrides, sources]

/-- A layer takes effect at one place among the others. -/
theorem exists_inEffect (before : List Layer) (layer : Layer) (after : List Layer) :
    ∃ front back, inEffect (before ++ layer :: after) = front ++ layer :: back ∧
      inEffect (before ++ after) = front ++ back := by
  unfold inEffect
  simp only [List.filter_append]
  by_cases isOverride : layer.isOverride
  · rw [List.filter_cons_of_neg (by simp [isOverride]), List.filter_cons_of_pos isOverride]
    exact ⟨_, _, (List.append_assoc ..).symm, (List.append_assoc ..).symm⟩
  · rw [List.filter_cons_of_pos (by simp [isOverride]), List.filter_cons_of_neg isOverride]
    exact ⟨_, _, by rw [List.append_assoc, List.cons_append], List.append_assoc ..⟩

section LeftOut

variable {before after : List Layer} {layer : Layer}

theorem valuesAfter_of_left_out (unassigned : field ∉ (given layer).fields) :
    valuesAfter given (before ++ layer :: after) field =
      valuesAfter given (before ++ after) field := by
  obtain ⟨front, back, whole, rest⟩ := exists_inEffect before layer after
  unfold valuesAfter
  rw [whole, rest, List.flatMap_append, List.flatMap_append, List.flatMap_cons,
    Given.revise_append, Given.revise_append, Given.revise_append]
  exact Given.revise_congr (Given.revise_of_not_mem unassigned)

theorem mem_of_left_out {other : Layer} (inside : other ∈ before ++ after) :
    other ∈ before ++ layer :: after :=
  ((List.sublist_cons_self layer after).append_left before).mem inside

theorem OneSpelling.of_left_out (oneSpelling : OneSpelling given (before ++ layer :: after) field) :
    OneSpelling given (before ++ after) field := by
  obtain ⟨key, single⟩ := oneSpelling
  exact ⟨key, fun other inside => single other (mem_of_left_out inside)⟩

theorem overridden_of_left_out (unassigned : field ∉ (given layer).fields) :
    Overridden given (before ++ layer :: after) field ↔
      Overridden given (before ++ after) field := by
  constructor
  · rintro ⟨other, inside, isOverride, member⟩
    have different : other ≠ layer := by
      rintro rfl
      exact unassigned member
    exact ⟨other, by simpa [different] using inside, isOverride, member⟩
  · rintro ⟨other, inside, gives⟩
    exact ⟨other, mem_of_left_out inside, gives⟩

variable (assigned : ∀ other ∈ before ++ layer :: after, other.Assigns files env (given other))
include assigned

theorem storedFor_of_left_out (unassigned : field ∉ (given layer).fields) :
    StoredFor (before ++ layer :: after) field value ↔ StoredFor (before ++ after) field value := by
  refine exists_congr fun key => and_congr_right fun leads => ?_
  -- A layer with this key would give the field.
  have other : layer.key? ≠ some key := by
    intro keyed
    obtain ⟨_, gives⟩ := (assigned layer (by simp)).exists_mem keyed leads
    exact unassigned (List.mem_map_of_mem gives)
  rw [mem_stored_iff, mem_stored_iff, List.filter_append,
    List.filter_cons_of_neg (by simp [other]), List.filter_append]

theorem candidate_of_left_out (unassigned : field ∉ (given layer).fields) :
    Candidate given (before ++ layer :: after) field value ↔
      Candidate given (before ++ after) field value := by
  rw [candidate_iff assigned, candidate_iff fun other inside => assigned other (mem_of_left_out inside),
    storedFor_of_left_out assigned unassigned, overridden_of_left_out unassigned,
    valuesAfter_of_left_out unassigned]

end LeftOut

/-! ### Settings -/

/-- The text that a field of the settings is shown as. -/
def shown (settings : Settings) : Field → String
  | .extension => settings.extension
  | .loopTracking => settings.loopTracking.name
  | .runtime => settings.runtime
  | .invalidSyntaxMarker => settings.invalidSyntaxMarker

/-- How a value for a field is shown: letter case does not count in the name of a tracking. -/
def Field.shownAs : Field → String → String
  | .loopTracking, value => foldCase value
  | _, value => value

/-- Loading gives the settings with these values. It fails exactly if the one for loop tracking is
no name of one, in any letter case. -/
structure LoadedAs (result : Except SettingsError Settings) (values : Field → String) : Prop where
  settings : ∀ settings, result = .ok settings →
    settings.extension = values .extension ∧
    settings.loopTracking.name = foldCase (values .loopTracking) ∧
    settings.runtime = values .runtime ∧
    settings.invalidSyntaxMarker = values .invalidSyntaxMarker
  fails : (∃ error, result = .error error) ↔
    foldCase (values .loopTracking) ≠ "block-stack" ∧ foldCase (values .loopTracking) ≠ "counter"

theorem loadedAs_ofValues (values : Field → String) :
    LoadedAs ((trackingNamed (values .loopTracking)).map (ofValues values)) values := by
  constructor
  · intro settings loaded
    cases named : trackingNamed (values .loopTracking) with
    | error error =>
      rw [named] at loaded
      cases loaded
    | ok tracking =>
      rw [named] at loaded
      cases loaded
      exact ⟨rfl, trackingNamed_eq_ok_iff.mp named, rfl, rfl⟩
  · rw [← trackingNamed_eq_error_iff]
    cases trackingNamed (values .loopTracking) with
    | error error => simp [Except.map]
    | ok tracking => simp [Except.map]

theorem LoadedAs.shown {result : Except SettingsError Settings} {values : Field → String}
    (loadedAs : LoadedAs result values) {settings : Settings} (loaded : result = .ok settings)
    (field : Field) : settings.shown field = field.shownAs (values field) := by
  obtain ⟨extension, tracking, runtime, marker⟩ := loadedAs.settings settings loaded
  cases field with
  | extension => exact extension
  | loopTracking => exact tracking
  | runtime => exact runtime
  | invalidSyntaxMarker => exact marker

theorem loadedAs_loadIn (assigned : ∀ layer ∈ layers, layer.Assigns files env (given layer))
    (order : StoreOrder) :
    LoadedAs (loadIn order files env layers) (valuesIn order given layers) := by
  rw [loadIn_eq assigned]
  exact loadedAs_ofValues _

/-- The settings that layers make. In every order of the store each field gets a candidate for its
value, the one by precedence if its overrides have one key, and every choice among candidates is
made by some order. It does not matter where the overrides stand among the other layers, and a layer
has no influence on the fields that it does not give. -/
theorem settings_by_precedence
    (assigned : ∀ layer ∈ layers, layer.Assigns files env (given layer)) :
    (∀ order, ∃ values, LoadedAs (loadIn order files env layers) values ∧
      ∀ field, Candidate given layers field (values field) ∧
        (OneSpelling given layers field →
          ∀ value, Effective given layers field value ↔ value = values field)) ∧
    (∀ values : Field → String, (∀ field, Candidate given layers field (values field)) →
      ∃ order, LoadedAs (loadIn order files env layers) values) ∧
    (∀ (order : StoreOrder) (others : List Layer),
      others.filter (·.isOverride) = layers.filter (·.isOverride) →
      others.filter (!·.isOverride) = layers.filter (!·.isOverride) →
      loadIn order files env others = loadIn order files env layers) ∧
    (∀ before layer after, layers = before ++ layer :: after → ∀ field ∉ (given layer).fields,
      (∀ value, Candidate given layers field value ↔
        Candidate given (before ++ after) field value) ∧
      (OneSpelling given layers field → ∀ order order' : StoreOrder,
        (∀ settings others, loadIn order files env layers = .ok settings →
          loadIn order' files env (before ++ after) = .ok others →
          settings.shown field = others.shown field) ∧
        (field = .loopTracking → ((∃ error, loadIn order files env layers = .error error) ↔
          ∃ error, loadIn order' files env (before ++ after) = .error error)))) := by
  refine ⟨?values, ?orders, fun order others => loadIn_of_moved order, ?leftOut⟩
  case values =>
    intro order
    refine ⟨valuesIn order given layers, loadedAs_loadIn assigned order, fun field => ?_⟩
    refine ⟨candidate_valuesIn assigned order field, fun oneSpelling value => ?_⟩
    rw [valuesIn_of_oneSpelling assigned order oneSpelling]
    exact effective_iff assigned
  case orders =>
    intro values candidates
    obtain ⟨order, rfl⟩ := exists_order assigned candidates
    exact ⟨order, loadedAs_loadIn assigned order⟩
  case leftOut =>
    rintro before layer after rfl field unassigned
    refine ⟨fun value => candidate_of_left_out assigned unassigned, ?_⟩
    intro oneSpelling order order'
    have fewer : ∀ other ∈ before ++ after, other.Assigns files env (given other) :=
      fun other inside => assigned other (mem_of_left_out inside)
    have values : valuesIn order given (before ++ layer :: after) field =
        valuesIn order' given (before ++ after) field := by
      rw [valuesIn_of_oneSpelling assigned order oneSpelling,
        valuesIn_of_oneSpelling fewer order' oneSpelling.of_left_out,
        valuesAfter_of_left_out unassigned]
    have whole := loadedAs_loadIn assigned order
    have rest := loadedAs_loadIn fewer order'
    refine ⟨?_, ?_⟩
    · intro settings others loaded loaded'
      rw [whole.shown loaded, rest.shown loaded', values]
    · rintro rfl
      rw [whole.fails, rest.fails, values]

/-! ### An override before a file and an environment -/

/-- A file that gives the runtime, with names in other letter case. -/
def runtimeFile : Bytes := Text.encode "[Runtime]\nNODE = \"bun\"\n".toList

def runtimeTree : FileTree := { entries := [(["sutra.toml"], .file runtimeFile false)] }

def mistakenEnvironment : Environment := [("SUTRA__COMPILE__LOOP_TRACKING", "bogus")]

def mixedLayers : List Layer :=
  [.override "Compile.Loop_Tracking" (.text "COUNTER"), .file "sutra" true, .environment]

def mixedGiven : Layer → Given
  | .override .. => [(.loopTracking, "COUNTER")]
  | .file .. => [(.runtime, "bun")]
  | .environment => [(.loopTracking, "bogus")]

/-- Whether assignments are those of `runtimeFile`. -/
def giveRuntime : Option Assignments → Bool
  | some [([.name group], .table [(name, .text value)])] =>
    group = "Runtime" ∧ name = "NODE" ∧ value = "bun"
  | _ => false

theorem fileAssignments?_runtimeFile : fileAssignments? runtimeFile =
    some [([.name "Runtime"], .table [("NODE", .text "bun")])] := by
  have gives : giveRuntime (fileAssignments? runtimeFile) = true := by decide +kernel
  unfold giveRuntime at gives
  split at gives
  · simp_all
  · cases gives

theorem mixedLayers_assigns :
    ∀ layer ∈ mixedLayers, layer.Assigns runtimeTree mistakenEnvironment (mixedGiven layer) := by
  unfold mixedLayers
  rw [List.forall_mem_cons, List.forall_mem_cons, List.forall_mem_singleton]
  refine ⟨?override, ?file, ?environment⟩
  case override =>
    have parsed : Key.parse? "Compile.Loop_Tracking" =
        some [.name "Compile", .name "Loop_Tracking"] := rfl
    exact .override parsed (by decide)
  case file =>
    have found : settingsFile? runtimeTree "sutra" = some "sutra.toml" := by decide
    have content : runtimeTree.read "sutra.toml" = .ok runtimeFile := by rfl
    have read : (Layer.file "sutra" true).assignments runtimeTree mistakenEnvironment =
        .ok [([.name "Runtime"], .table [("NODE", .text "bun")])] := by
      unfold Layer.assignments
      simp only [found, content, Except.toOption, Option.bind_some, fileAssignments?_runtimeFile]
    exact .source rfl read (.cons (.table (.cons ⟨by decide, by decide, rfl⟩ .nil)) .nil) (by decide)
  case environment =>
    have read : Layer.environment.assignments runtimeTree mistakenEnvironment =
        .ok [([.name "compile", .name "loop_tracking"], .text "bogus")] := rfl
    exact .source rfl read (.cons (.leaf (by decide) (by decide)) .nil) (by decide)

theorem mixedLayers_load :
    (∀ layer ∈ mixedLayers, layer.Assigns runtimeTree mistakenEnvironment (mixedGiven layer)) ∧
    ∃ settings, load runtimeTree mistakenEnvironment mixedLayers = .ok settings ∧
      settings.extension = "skt" ∧ settings.loopTracking.name = "counter" ∧
      settings.runtime = "bun" := by
  obtain ⟨inOrder, -⟩ := settings_by_precedence mixedLayers_assigns
  obtain ⟨values, loadedAs, chosen⟩ := inOrder .newestFirst
  have effective : ∀ field value, Effective mixedGiven mixedLayers field value →
      value = values field := by
    intro field value
    have oneSpelling : OneSpelling mixedGiven mixedLayers field :=
      ⟨[.name "Compile", .name "Loop_Tracking"], by cases field <;> decide⟩
    exact ((chosen field).2 oneSpelling value).mp
  have extension : "skt" = values .extension := effective _ _ (.default (by decide))
  have tracking : "COUNTER" = values .loopTracking :=
    effective _ _ (.override (List.nil_append mixedLayers).symm rfl (by decide) (by decide))
  have split : mixedLayers = [.override "Compile.Loop_Tracking" (.text "COUNTER")] ++
      .file "sutra" true :: [.environment] := rfl
  have runtime : "bun" = values .runtime :=
    effective _ _ (.source (by decide) split (by decide) (by decide))
  refine ⟨mixedLayers_assigns, ?_⟩
  cases made : load runtimeTree mistakenEnvironment mixedLayers with
  | error error =>
    have fails := loadedAs.fails.mp ⟨error, made⟩
    rw [← tracking] at fails
    exact absurd fails.2 (by decide)
  | ok settings =>
    obtain ⟨shownExtension, shownTracking, shownRuntime, -⟩ := loadedAs.settings settings made
    rw [← tracking] at shownTracking
    exact ⟨settings, rfl, by rw [shownExtension, extension], by rw [shownTracking]; decide,
      by rw [shownRuntime, runtime]⟩

/-! ### Overrides in two spellings -/

/-- Every field is loaded with its value by precedence. -/
def LoadedByPrecedence (given : Layer → Given) (layers : List Layer)
    (result : Except SettingsError Settings) : Prop :=
  ∀ field value settings, Effective given layers field value → result = .ok settings →
    settings.shown field = field.shownAs value

def twoSpellings : List Layer :=
  [.override "runtime.node" (.text "a"), .override "Runtime.Node" (.text "b")]

def spellingGiven : Layer → Given
  | .override _ (.text value) => [(.runtime, value)]
  | _ => []

theorem twoSpellings_assigns :
    ∀ layer ∈ twoSpellings, layer.Assigns { entries := [] } [] (spellingGiven layer) := by
  unfold twoSpellings
  rw [List.forall_mem_cons, List.forall_mem_singleton]
  have lower : Key.parse? "runtime.node" = some [.name "runtime", .name "node"] := rfl
  have upper : Key.parse? "Runtime.Node" = some [.name "Runtime", .name "Node"] := rfl
  exact ⟨.override lower (by decide), .override upper (by decide)⟩

/-- The last override of a field need not win if an earlier one has its key in other letter
case. -/
theorem later_spelling_not_preferred :
    (∀ layer ∈ twoSpellings, layer.Assigns { entries := [] } [] (spellingGiven layer)) ∧
      ¬ LoadedByPrecedence spellingGiven twoSpellings (load { entries := [] } [] twoSpellings) := by
  refine ⟨twoSpellings_assigns, fun byPrecedence => ?_⟩
  have split : twoSpellings = [.override "runtime.node" (.text "a")] ++
      .override "Runtime.Node" (.text "b") :: [] := rfl
  have effective : Effective spellingGiven twoSpellings .runtime "b" :=
    .override split rfl (by decide) (by decide)
  have loaded := loadIn_eq twoSpellings_assigns .newestFirst
  have wrong := byPrecedence .runtime "b" _ effective loaded
  revert wrong
  decide

end Lipi.Settings
