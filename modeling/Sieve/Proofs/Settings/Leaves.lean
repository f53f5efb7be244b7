import Mathlib.Data.List.Induction
import Sieve.Proofs.Settings.Overlay

/-!
# Single settings

The settings of a service are read off a layer one by one.

* `Settings.Leaf`: the single settings, with the path at which a layer has them, how they are read, and
  where they end up.  There are no others (`Settings.eq_of_leaves`);
* `Layer.within`: the section that a way of names leads to, which is read as the table that it is
  (`Settings.part_of_suits`);
* `Settings.ofLayer_leaves`: if what stands at their paths fits, reading a layer gives every single
  setting its value, and each that is missing its own default.
-/

namespace Sieve

namespace Settings

/-- The single settings, with the types of their values. -/
inductive Leaf : Type → Type
  | serviceName : Leaf String
  | environment : Leaf String
  | retryLimit : Leaf Nat
  | retryInitial : Leaf Nat
  | retryCap : Leaf Nat
  | cacheEnabled : Leaf Bool
  | cacheSeconds : Leaf Nat
  | cacheCapacity : Leaf Nat
  | loggedName : Leaf String
  | logLevel : Leaf String
  | jsonLogs : Leaf Bool
  | metricsEnabled : Leaf Bool

namespace Leaf

/-- Where a setting stands below the sections. -/
def path {α : Type} : Leaf α → List String
  | serviceName => ["service_name"]
  | environment => ["environment"]
  | retryLimit => ["pipeline", "retry", "max_retries"]
  | retryInitial => ["pipeline", "retry", "initial_delay_ms"]
  | retryCap => ["pipeline", "retry", "max_delay_ms"]
  | cacheEnabled => ["pipeline", "cache", "enabled"]
  | cacheSeconds => ["pipeline", "cache", "ttl_secs"]
  | cacheCapacity => ["pipeline", "cache", "max_entries"]
  | loggedName => ["observability", "service_name"]
  | logLevel => ["observability", "log_level"]
  | jsonLogs => ["observability", "json_logs"]
  | metricsEnabled => ["observability", "metrics_enabled"]

/-- A setting as a value of its type; numbers are below `2 ^ 32` or `2 ^ 64`. -/
def read {α : Type} : Leaf α → Setting → Option α
  | serviceName | environment | loggedName | logLevel => Setting.text?
  | retryLimit => Setting.count? (2 ^ 32)
  | retryInitial | retryCap | cacheSeconds | cacheCapacity => Setting.count? (2 ^ 64)
  | cacheEnabled | jsonLogs | metricsEnabled => Setting.truth?

/-- The value of a setting. -/
def of {α : Type} : Leaf α → Settings → α
  | serviceName, s => s.serviceName
  | environment, s => s.environment
  | retryLimit, s => s.retry.limit
  | retryInitial, s => s.retry.initial
  | retryCap, s => s.retry.cap
  | cacheEnabled, s => s.cache.enabled
  | cacheSeconds, s => s.cache.seconds
  | cacheCapacity, s => s.cache.capacity
  | loggedName, s => s.observability.serviceName
  | logLevel, s => s.observability.logLevel
  | jsonLogs, s => s.observability.jsonLogs
  | metricsEnabled, s => s.observability.metricsEnabled

/-- Whether a setting can be read as a value. -/
def fits {α : Type} (leaf : Leaf α) (s : Setting) : Bool := (leaf.read s).isSome

variable {α : Type} (leaf : Leaf α)

/-- No single setting is a table. -/
theorem fits_table (ms : Layer) : leaf.fits (.table ms) = false := by cases leaf <;> rfl

theorem exists_path_eq : ∃ name rest, leaf.path = name :: rest := by cases leaf <;> exact ⟨_, _, rfl⟩

end Leaf

/-- The settings with given values. -/
def ofLeaves (value : (α : Type) → Leaf α → α) : Settings where
  serviceName := value _ .serviceName
  environment := value _ .environment
  retry :=
    { limit := value _ .retryLimit, initial := value _ .retryInitial, cap := value _ .retryCap }
  cache :=
    { enabled := value _ .cacheEnabled
      seconds := value _ .cacheSeconds
      capacity := value _ .cacheCapacity }
  observability :=
    { serviceName := value _ .loggedName
      logLevel := value _ .logLevel
      jsonLogs := value _ .jsonLogs
      metricsEnabled := value _ .metricsEnabled }

@[simp] theorem Leaf.of_ofLeaves {α : Type} (leaf : Leaf α) (value : (α : Type) → Leaf α → α) :
    leaf.of (ofLeaves value) = value α leaf := by
  cases leaf <;> rfl

/-- Settings are nothing but the values of the single settings. -/
theorem eq_of_leaves {s t : Settings} (h : ∀ (α : Type) (leaf : Leaf α), leaf.of s = leaf.of t) :
    s = t := by
  have heq : (fun α (leaf : Leaf α) => leaf.of s) = fun α leaf => leaf.of t := by
    funext α leaf
    exact h α leaf
  exact congrArg ofLeaves heq

end Settings

/-- The section that a way of names leads to; it is empty if there is none. -/
def Layer.within (way : List String) (l : Layer) : Layer :=
  way.foldl (fun l name => Setting.members (Keyed.lookup name l)) l

namespace Settings

open Setting

/-! ### Sections -/

section Sections

variable {fits : Setting → Bool} {way : List String} {name next : String} {path : List String}
  {l : Layer}

theorem within_append (way : List String) (name : String) (l : Layer) :
    l.within (way ++ [name]) = members (Keyed.lookup name (l.within way)) := by
  simp [Layer.within]

theorem found?_part (name next : String) (path : List String) (l : Layer) :
    found? (name :: next :: path) (table l) =
      found? (next :: path) (table (members (Keyed.lookup name l))) := by
  rw [found?_cons, ← bind_found?_cons]
  rfl

theorem suits_part (h : (table l).suits fits (name :: next :: path) = true) :
    (table (members (Keyed.lookup name l))).suits fits (next :: path) = true :=
  suits_members fun _ hu => suits_of_lookup h hu

/-- What stands in a section stands there as in a layer of its own. -/
theorem found?_within (way : List String) (name : String) (path : List String) (l : Layer) :
    found? (way ++ name :: path) (table l) = found? (name :: path) (table (l.within way)) := by
  induction way using List.reverseRecOn generalizing name path with
  | nil => rfl
  | append_singleton way n ih =>
    rw [List.append_assoc, List.singleton_append, ih, found?_part, within_append]

theorem suits_within (h : (table l).suits fits (way ++ name :: path) = true) :
    (table (l.within way)).suits fits (name :: path) = true := by
  induction way using List.reverseRecOn generalizing name path with
  | nil => exact h
  | append_singleton way n ih =>
    rw [List.append_assoc, List.singleton_append] at h
    rw [within_append]
    exact suits_part (ih h)

/-- On the way to a setting a section is read as the table that it is. -/
theorem part_of_suits (h : (table l).suits fits (way ++ name :: next :: path) = true)
    (names : List String) : part (l.within way) name names = .ok (l.within (way ++ [name])) := by
  rw [within_append]
  cases hs : Keyed.lookup name (l.within way) with
  | none => simp [part, member, members, hs]
  | some s =>
    obtain ⟨ms, rfl, -⟩ := suits_cons_iff.1 (suits_of_lookup (suits_within h) hs)
    simp [part, member, members, members?, hs]

end Sections

/-! ### Reading one layer -/

/-- The value of a setting in a layer whose settings stand at their paths. -/
def Leaf.valueIn {α : Type} (leaf : Leaf α) (l : Layer) : α :=
  ((found? leaf.path (table l)).bind leaf.read).getD (leaf.of {})

section Reading

variable {l : Layer} (h : ∀ {α : Type} (leaf : Leaf α), (table l).suits leaf.fits leaf.path = true)
include h

/-- A member of a section is read as the single setting that it is. -/
theorem member_leaf {α : Type} (leaf : Leaf α) (way : List String) {name : String}
    (hpath : leaf.path = way ++ [name]) :
    member leaf.read (l.within way) name (leaf.of {}) = .ok (leaf.valueIn l) := by
  have hsuits : (table (l.within way)).suits leaf.fits [name] = true := suits_within (hpath ▸ h leaf)
  rw [Leaf.valueIn, hpath, found?_within, found?_cons]
  cases hs : Keyed.lookup name (l.within way) with
  | none => simp [member, members, hs]
  | some s =>
    have hfits : leaf.fits s = true := suits_of_lookup hsuits hs
    obtain ⟨a, ha⟩ := Option.isSome_iff_exists.1 hfits
    simp [member, members, hs, ha]

/-- A section on the way to a single setting is read as the table that it is. -/
theorem part_leaf {α : Type} (leaf : Leaf α) (way : List String) {name next : String}
    {path : List String} (hpath : leaf.path = way ++ name :: next :: path) (names : List String) :
    part (l.within way) name names = .ok (l.within (way ++ [name])) :=
  part_of_suits (hpath ▸ h leaf) names

theorem readRetry_leaves : readRetry (l.within ["pipeline"]) = .ok
    { limit := Leaf.retryLimit.valueIn l
      initial := Leaf.retryInitial.valueIn l
      cap := Leaf.retryCap.valueIn l } := by
  have hpart : ∀ names, part (l.within ["pipeline"]) "retry" names =
      .ok (l.within ["pipeline", "retry"]) := part_leaf h .retryLimit ["pipeline"] rfl
  have hlimit : member (count? (2 ^ 32)) (l.within ["pipeline", "retry"]) "max_retries" 2 =
      .ok (Leaf.retryLimit.valueIn l) := member_leaf h .retryLimit ["pipeline", "retry"] rfl
  have hinitial : member (count? (2 ^ 64)) (l.within ["pipeline", "retry"]) "initial_delay_ms" 100 =
      .ok (Leaf.retryInitial.valueIn l) := member_leaf h .retryInitial ["pipeline", "retry"] rfl
  have hcap : member (count? (2 ^ 64)) (l.within ["pipeline", "retry"]) "max_delay_ms" 5000 =
      .ok (Leaf.retryCap.valueIn l) := member_leaf h .retryCap ["pipeline", "retry"] rfl
  simp only [readRetry, hpart, hlimit, hinitial, hcap, bind, Except.bind, pure, Except.pure]

theorem readCache_leaves : readCache (l.within ["pipeline"]) = .ok
    { enabled := Leaf.cacheEnabled.valueIn l
      seconds := Leaf.cacheSeconds.valueIn l
      capacity := Leaf.cacheCapacity.valueIn l } := by
  have hpart : ∀ names, part (l.within ["pipeline"]) "cache" names =
      .ok (l.within ["pipeline", "cache"]) := part_leaf h .cacheEnabled ["pipeline"] rfl
  have henabled : member truth? (l.within ["pipeline", "cache"]) "enabled" true =
      .ok (Leaf.cacheEnabled.valueIn l) := member_leaf h .cacheEnabled ["pipeline", "cache"] rfl
  have hseconds : member (count? (2 ^ 64)) (l.within ["pipeline", "cache"]) "ttl_secs" 300 =
      .ok (Leaf.cacheSeconds.valueIn l) := member_leaf h .cacheSeconds ["pipeline", "cache"] rfl
  have hcapacity : member (count? (2 ^ 64)) (l.within ["pipeline", "cache"]) "max_entries" 1024 =
      .ok (Leaf.cacheCapacity.valueIn l) := member_leaf h .cacheCapacity ["pipeline", "cache"] rfl
  simp only [readCache, hpart, henabled, hseconds, hcapacity, bind, Except.bind, pure, Except.pure]

theorem readObservability_leaves : readObservability l = .ok
    { serviceName := Leaf.loggedName.valueIn l
      logLevel := Leaf.logLevel.valueIn l
      jsonLogs := Leaf.jsonLogs.valueIn l
      metricsEnabled := Leaf.metricsEnabled.valueIn l } := by
  have hpart : ∀ names, part l "observability" names = .ok (l.within ["observability"]) :=
    part_leaf h .loggedName [] rfl
  have hname : member text? (l.within ["observability"]) "service_name" "unknown-service" =
      .ok (Leaf.loggedName.valueIn l) := member_leaf h .loggedName ["observability"] rfl
  have hlevel : member text? (l.within ["observability"]) "log_level" "info" =
      .ok (Leaf.logLevel.valueIn l) := member_leaf h .logLevel ["observability"] rfl
  have hjson : member truth? (l.within ["observability"]) "json_logs" false =
      .ok (Leaf.jsonLogs.valueIn l) := member_leaf h .jsonLogs ["observability"] rfl
  have hmetrics : member truth? (l.within ["observability"]) "metrics_enabled" true =
      .ok (Leaf.metricsEnabled.valueIn l) := member_leaf h .metricsEnabled ["observability"] rfl
  simp only [readObservability, hpart, hname, hlevel, hjson, hmetrics, bind, Except.bind, pure, Except.pure]

/-- A layer is read setting by setting. -/
theorem ofLayer_leaves : ofLayer l = .ok (ofLeaves fun _ leaf => leaf.valueIn l) := by
  have hpart : ∀ names, part l "pipeline" names = .ok (l.within ["pipeline"]) :=
    part_leaf h .retryLimit [] rfl
  have hname : member text? l "service_name" "" = .ok (Leaf.serviceName.valueIn l) :=
    member_leaf h .serviceName [] rfl
  have henvironment : member text? l "environment" "" = .ok (Leaf.environment.valueIn l) :=
    member_leaf h .environment [] rfl
  simp only [ofLayer, hpart, hname, henvironment, readRetry_leaves h, readCache_leaves h,
    readObservability_leaves h, bind, Except.bind, pure, Except.pure]
  rfl

end Reading

end Settings

end Sieve
