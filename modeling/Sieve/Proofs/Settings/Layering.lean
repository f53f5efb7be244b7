import Mathlib
import Sieve.Proofs.Settings.Leaves

/-!
# Settings in layers

Layers count setting by setting: every single setting has the value that is told of it by the last layer
that tells one, whatever the layers tell of the rest of its section.

* `Layer.WellTyped`: whatever a layer tells of the settings can be read as such;
* `Leaf.told?`, `Leaf.value`: what the last of some layers tells of a setting, and the value that it
  has after them;
* `Settings.ofLayers_leaves`: layers that are laid over one another give every setting that value, and
  `Settings.ofLayers_given` says so of layers over what the caller tells;
* `Settings.fileLayer_missing`, `Settings.fileLayer_toml`: what the layer of a file is;
* `Settings.loadFrom_layered`: the same for loading.
-/

namespace Sieve

/-- Whatever a layer tells of the settings can be read as such. -/
def Layer.WellTyped (l : Layer) : Prop :=
  ∀ (α : Type) (leaf : Settings.Leaf α), l.suits leaf.fits leaf.path = true

namespace Settings

open Setting

/-- What is told of a setting by the last of some layers that tells anything of it. -/
def Leaf.told? {α : Type} (leaf : Leaf α) (layers : List Layer) : Option Setting :=
  (layers.filterMap (Layer.tells? leaf.path)).getLast?

/-- The value that layers tell of a setting, and else the one that it has by default. -/
def Leaf.value {α : Type} (leaf : Leaf α) (layers : List Layer) (default : Settings) : α :=
  ((leaf.told? layers).bind leaf.read).getD (leaf.of default)

/-! ### Layers over one another -/

variable {α : Type} {layer : Layer} {layers : List Layer}

theorem Leaf.told?_cons (leaf : Leaf α) (layer : Layer) (layers : List Layer) :
    leaf.told? (layer :: layers) = (leaf.told? layers).or (layer.tells? leaf.path) :=
  getLast?_filterMap_cons ..

theorem Leaf.prevails_layers (leaf : Leaf α) (h : ∀ l ∈ layers, l.WellTyped) :
    Prevails leaf.fits leaf.path (leaf.told? layers) (some (table []))
      (table (layers.foldl (fun under layer => layer.overlay under) [])) := by
  obtain ⟨name, rest, hpath⟩ := leaf.exists_path_eq
  rw [told?, hpath]
  exact Layer.prevails_layers leaf.fits_table fun l hl => hpath ▸ h l hl α leaf

/-- What layers tell of a setting fits. -/
theorem Leaf.fits_of_told? {leaf : Leaf α} (h : ∀ l ∈ layers, l.WellTyped) {t : Setting}
    (ht : leaf.told? layers = some t) : leaf.fits t = true := by
  have hp := leaf.prevails_layers h
  exact fits_of_found? hp.suits (hp.found.trans (by rw [ht]; rfl))

/-- Where layers are laid over one another, every setting has the value that they tell of it. -/
theorem ofLayers_leaves (h : ∀ l ∈ layers, l.WellTyped) :
    ofLayers layers = .ok (ofLeaves fun _ leaf => leaf.value layers {}) := by
  rw [ofLayers, ofLayer_leaves fun leaf => (leaf.prevails_layers h).suits]
  congr 2
  funext α leaf
  obtain ⟨name, rest, hpath⟩ := leaf.exists_path_eq
  have hnone : found? leaf.path (table []) = none := by rw [hpath]; rfl
  rw [Leaf.valueIn, (leaf.prevails_layers h).found, Option.bind_some, hnone, Option.or_none]
  rfl

/-- A further layer counts for what it tells, and leaves the rest as it was. -/
theorem Leaf.value_append (leaf : Leaf α) (h : layer.WellTyped) (layers : List Layer)
    (default : Settings) : leaf.value (layers ++ [layer]) default =
      ((layer.tells? leaf.path).bind leaf.read).getD (leaf.value layers default) := by
  have htold : leaf.told? (layers ++ [layer]) = (layer.tells? leaf.path).or (leaf.told? layers) := by
    cases ht : layer.tells? leaf.path <;> simp [told?, ht]
  rw [value, htold]
  cases ht : layer.tells? leaf.path with
  | none => rfl
  | some t =>
    have hfits : leaf.fits t = true :=
      fits_of_told? (List.forall_mem_singleton.2 h) (show leaf.told? [layer] = some t by simp [told?, ht])
    obtain ⟨a, ha⟩ := Option.isSome_iff_exists.1 hfits
    simp [ha]

/-! ### What the caller tells -/

theorem address_serviceName : Step.address "service_name" = [.member "service_name"] := by
  decide +kernel

theorem address_environment : Step.address "environment" = [.member "environment"] := by
  decide +kernel

theorem given_wellTyped (service environment : String) : (given service environment).WellTyped := by
  intro α leaf
  cases leaf <;> simp [given, Layer.suits, suitsFrom, address_serviceName, address_environment,
    Leaf.path, Setting.suits, Leaf.fits, Leaf.read, text?]

/-- What the caller tells takes the place of two defaults. -/
theorem read_given (service environment : String) (leaf : Leaf α) :
    (((given service environment).tells? leaf.path).bind leaf.read).getD (leaf.of {}) =
      leaf.of { serviceName := service, environment := environment } := by
  cases leaf <;> simp [given, Layer.tells?, tellsFrom?, address_serviceName, address_environment,
    Leaf.path, Setting.tells?, Leaf.read, text?, Leaf.of]

theorem ofLayers_given (service environment : String) (h : ∀ l ∈ layers, l.WellTyped) :
    ofLayers (given service environment :: layers) = .ok (ofLeaves fun _ leaf =>
      leaf.value layers { serviceName := service, environment := environment }) := by
  rw [ofLayers_leaves (List.forall_mem_cons.2 ⟨given_wellTyped service environment, h⟩)]
  congr 2
  funext α leaf
  rw [Leaf.value, Leaf.value, Leaf.told?_cons]
  cases ht : leaf.told? layers with
  | none => exact read_given service environment leaf
  | some t =>
    obtain ⟨a, ha⟩ := Option.isSome_iff_exists.1 (Leaf.fits_of_told? h ht)
    simp [ha]

/-! ### Files -/

variable {files : String → Option String} {name contents : String}

/-- The first file that there is has to be in its format. -/
theorem firstFile_cons (files : String → Option String) (file : String) (read? : Format)
    (others : List (String × Format)) : firstFile (m := Id) files ((file, read?) :: others) =
      match files file with
      | none => firstFile (m := Id) files others
      | some contents =>
        match read? (String.ofList (Toml.withoutMark contents.toList)) with
        | some l => .ok l
        | none => .error (.unreadable file) := by
  rfl

theorem firstFile_missing {others : List (String × Format)} (h : ∀ f ∈ others, files f.1 = none) :
    firstFile (m := Id) files others = .ok [] := by
  induction others with
  | nil => rfl
  | cons f others ih =>
    rw [firstFile_cons, h f List.mem_cons_self]
    exact ih fun g hg => h g (List.mem_cons_of_mem f hg)

/-- A file that is missing in every format tells nothing. -/
theorem fileLayer_missing
    (h : ∀ ext ∈ "" :: formats.map Prod.fst, files (name ++ ".toml" ++ ext) = none) :
    fileLayer (m := Id) files name = .ok [] := by
  refine firstFile_missing fun f hf => ?_
  rcases List.mem_cons.1 hf with rfl | hf
  · simpa using h "" List.mem_cons_self
  · obtain ⟨format, hformat, rfl⟩ := List.mem_map.1 hf
    exact h format.1 (List.mem_cons_of_mem _ (List.mem_map_of_mem hformat))

/-- A file in TOML tells what is read in it. -/
theorem fileLayer_toml (h : files (name ++ ".toml") = some contents) (hname : lacksStem name = false)
    (hread : Toml.read? (String.ofList (Toml.withoutMark contents.toList)) = some layer) :
    fileLayer (m := Id) files name = .ok layer := by
  simp only [fileLayer, firstFile_cons, h, hname, Bool.false_eq_true, if_false, hread]

/-! ### Loading -/

/-- **Layers count setting by setting.**  Loading gives every setting the value that is told by the last
of the layers, first the files in their order and then the variables; without one it has its built-in
default, or the name of the service or of the environment that the caller tells.  On the way a layer
leaves each setting of which it tells nothing as the layers below gave it, even where it tells of others
in the same section. -/
theorem loadFrom_layered {vars : List (String × String)} {service environment : String}
    {general environmental special : Layer}
    (hgeneral : fileLayer (m := Id) files "default" = .ok general)
    (henvironmental : fileLayer (m := Id) files environment = .ok environmental)
    (hspecial : fileLayer (m := Id) files service = .ok special)
    (htyped : ∀ l ∈ [general, environmental, special, .ofVariables vars], l.WellTyped) :
    (∃ s, loadFrom (m := Id) files vars service environment = .ok s ∧
      ∀ (α : Type) (leaf : Leaf α), leaf.of s =
        leaf.value [general, environmental, special, .ofVariables vars]
          { serviceName := service, environment := environment }) ∧
    ∀ below layer, below ++ [layer] <+: [general, environmental, special, .ofVariables vars] →
      ∃ s t, ofLayers (given service environment :: below) = .ok s ∧
        ofLayers (given service environment :: (below ++ [layer])) = .ok t ∧
        ∀ (α : Type) (leaf : Leaf α), leaf.of t =
          ((layer.tells? leaf.path).bind leaf.read).getD (leaf.of s) := by
  constructor
  · refine ⟨_, ?_, fun α leaf => Leaf.of_ofLeaves leaf _⟩
    show (do
      let general ← fileLayer (m := Id) files "default"
      let environmental ← fileLayer files environment
      let special ← fileLayer files service
      ofLayers [given service environment, general, environmental, special, .ofVariables vars]) = _
    rw [hgeneral, henvironmental, hspecial]
    exact ofLayers_given service environment htyped
  · intro below layer hfirst
    have hboth : ∀ l ∈ below ++ [layer], l.WellTyped := fun l hl => htyped l (hfirst.subset hl)
    have hbelow : ∀ l ∈ below, l.WellTyped := fun l hl => hboth l (List.mem_append_left _ hl)
    refine ⟨_, _, ofLayers_given service environment hbelow,
      ofLayers_given service environment hboth, fun α leaf => ?_⟩
    rw [Leaf.of_ofLeaves, Leaf.of_ofLeaves]
    exact leaf.value_append (hboth layer (by simp)) below _

/-- The files of a service that has none of its own. -/
def sampleFiles (file : String) : Option String :=
  if file = "default.toml" then
    some "service_name = \"base\"\n[pipeline.retry]\nmax_retries = 5\ninitial_delay_ms = 50\n"
  else if file = "production.toml" then
    some "[pipeline.retry]\nmax_retries = 7\n[observability]\nlog_level = \"warn\"\n"
  else none

/-- What `default.toml` tells there. -/
def sampleGeneral : Layer :=
  [("pipeline", table [("retry", table [("initial_delay_ms", int 50), ("max_retries", int 5)])]),
    ("service_name", text "base")]

/-- What `production.toml` tells there. -/
def sampleEnvironmental : Layer :=
  [("observability", table [("log_level", text "warn")]),
    ("pipeline", table [("retry", table [("max_retries", int 7)])])]

/-- Variables, one of which is not about settings. -/
def sampleVariables : List (String × String) :=
  [("FILTER_PIPELINE__CACHE__TTL_SECS", "60"), ("PATH", "/bin"),
    ("Filter_Observability__Json_Logs", "TRUE")]

/-- What the other variables tell. -/
def sampleVaried : Layer :=
  [("pipeline.cache.ttl_secs", int 60), ("observability.json_logs", truth true)]

/-- Two files tell of parts of the same section, and variables of parts of two others; no layer tells all of a
section. -/
theorem loadFrom_layered_production :
    loadFrom (m := Id) sampleFiles sampleVariables "orders" "production" = .ok
      { serviceName := "base"
        environment := "production"
        retry := { limit := 7, initial := 50 }
        cache := { seconds := 60 }
        observability := { logLevel := "warn", jsonLogs := true } } := by
  have hgeneral : fileLayer (m := Id) sampleFiles "default" = .ok sampleGeneral :=
    fileLayer_toml rfl (by decide +kernel) (by cbv)
  have henvironmental : fileLayer (m := Id) sampleFiles "production" = .ok sampleEnvironmental :=
    fileLayer_toml rfl (by decide +kernel) (by cbv)
  have hspecial : fileLayer (m := Id) sampleFiles "orders" = .ok [] :=
    fileLayer_missing (by decide +kernel)
  have hvaried : Layer.ofVariables sampleVariables = sampleVaried := rfl
  have haddresses : ["pipeline", "observability", "pipeline.cache.ttl_secs",
      "observability.json_logs"].map Step.address =
        [[.member "pipeline"], [.member "observability"],
          [.member "pipeline", .member "cache", .member "ttl_secs"],
          [.member "observability", .member "json_logs"]] := by decide +kernel
  simp only [List.map_cons, List.map_nil, List.cons.injEq, and_true] at haddresses
  have htyped : ∀ l ∈ [sampleGeneral, sampleEnvironmental, [], sampleVaried], l.WellTyped := by
    intro l hl α leaf
    simp only [List.mem_cons, List.not_mem_nil, or_false] at hl
    rcases hl with rfl | rfl | rfl | rfl <;>
      simp only [Layer.suits, sampleGeneral, sampleEnvironmental, sampleVaried, List.all_cons,
        List.all_nil, haddresses, address_serviceName] <;>
      cases leaf <;> rfl
  obtain ⟨⟨s, hs, hleaf⟩, -⟩ := loadFrom_layered hgeneral henvironmental hspecial (hvaried ▸ htyped)
  rw [hs]
  refine congrArg _ (eq_of_leaves fun α leaf => (hleaf α leaf).trans ?_)
  simp only [hvaried, Leaf.value, Leaf.told?, List.filterMap_cons, List.filterMap_nil, Layer.tells?,
    sampleGeneral, sampleEnvironmental, sampleVaried, haddresses, address_serviceName]
  cases leaf <;> rfl

end Settings

end Sieve
