import Sieve.Pipeline.Layers
import Sieve.Pipeline.Script
import Sieve.Settings.Basic

/-!
# Plans of pipelines

A plan describes the stages of a pipeline, and `Workshop.assemble` builds them on a host.

* The stages are built from left to right, and the first error counts.  It is a section of settings
  or a tree that cannot be decoded, or a nested pipeline that cannot be composed;
* caches that a plan calls by one name are one cache, with the bounds given where the name comes up
  first; a cache without a name, and every prepared terminal, is used by one stage only;
* a cache whose settings are not enabled is left out.
-/

namespace Sieve

/-- A cache by name and bounds, by its settings in JSON, or without name and without limit. -/
inductive CachePlan
  | named (name : String) (lifetime capacity : Option Nat)
  | configured (settings : Json)
  | own (lifetime : Option Nat)

/-- A retry policy, or one by its settings in JSON. -/
inductive RetryPlan
  | policy (p : RetryPolicy)
  | configured (settings : Json)

/-- A call of a script, with the tree in JSON. -/
structure CallPlan where
  manner : Manner
  tree : Option Json := none
  attributes : List (String × Json) := []

/-- A stage of a pipeline. -/
inductive StagePlan
  | logging (pipeline : String)
  | caching (c : CachePlan)
  | retrying (r : RetryPlan)
  | script (s : Script) (calls : List CallPlan)
  | filtering (e : Evaluator) (items : List Json)
  | prepared (name : String) (outcomes : List Outcome) (guarded : Bool)
  | echo
  | pipeline (stages : List StagePlan)

instance : Inhabited StagePlan := ⟨.echo⟩

/-- Why a plan cannot be carried out. -/
inductive PlanError
  | unreadable (e : DecodeError)
  | uncomposed (e : PipelineError)

/-- A host under construction: how many caches and prepared terminals there are already, and the
numbers of the named caches. -/
structure Workshop where
  host : Host := {}
  caches : Nat := 0
  terminals : Nat := 0
  named : List (String × Nat) := []

namespace Workshop

/-- Adds a cache, and gives its number. -/
def addCache (w : Workshop) (c : Cache (List Json)) : Nat × Workshop :=
  (w.caches, { w with
    host := { w.host with caches := update w.host.caches w.caches c }
    caches := w.caches + 1 })

/-- The number of a named cache, which is added if it is new. -/
def cacheNamed (w : Workshop) (name : String) (c : Cache (List Json)) : Nat × Workshop :=
  match Keyed.lookup name w.named with
  | some i => (i, w)
  | none =>
    let (i, w) := w.addCache c
    (i, { w with named := Keyed.insert name i w.named })

/-- Adds a prepared terminal, and gives its number. -/
def addTerminal (w : Workshop) : Nat × Workshop :=
  (w.terminals, { w with terminals := w.terminals + 1 })

/-- Decodes what a plan gives in JSON. -/
def decode {α : Type} (read : Decoder α) (j : Json) : Except PlanError α :=
  (Decode.ofJson read j).mapError .unreadable

/-- A cache with bounds in milliseconds and in number. -/
def bounded (lifetime capacity : Option Nat) : Cache (List Json) :=
  .ofBounds (lifetime.map (· * 10 ^ 6)) (capacity.getD 1024)

/-- The number of the cache of a plan, unless it is left out. -/
def cache (w : Workshop) : CachePlan → Except PlanError (Option Nat × Workshop)
  | .named name lifetime capacity =>
    let (i, w) := w.cacheNamed name (bounded lifetime capacity)
    .ok (some i, w)
  | .configured settings => do
    let s ← decode CacheSettings.read settings
    if s.enabled then
      let (i, w) := w.addCache (.ofSettings s)
      return (some i, w)
    else return (none, w)
  | .own lifetime =>
    let (i, w) := w.addCache (bounded lifetime none)
    .ok (some i, w)

/-- The policy of a plan. -/
def policy : RetryPlan → Except PlanError RetryPolicy
  | .policy p => .ok p
  | .configured settings => (decode RetrySettings.read settings).map .ofSettings

/-- The calls of a script. -/
def calls : List CallPlan → Except PlanError (List ScriptCall)
  | [] => .ok []
  | c :: cs => do
    let tree ← match c.tree with
      | none => pure none
      | some j => (decode Group.read j).map some
    let rest ← calls cs
    return ⟨c.manner, tree, c.attributes⟩ :: rest

mutual

/-- Builds a stage, unless it is left out. -/
def stage (w : Workshop) : StagePlan → Except PlanError (Option (Stage Host) × Workshop)
  | .logging pipeline => .ok (some (.middleware (.logging pipeline)), w)
  | .caching c => do
    let (i, w) ← w.cache c
    return (i.map fun i => .middleware (.caching i), w)
  | .retrying r => do
    let p ← policy r
    return (some (.middleware (.retrying p)), w)
  | .script s plan => do
    let cs ← calls plan
    return (some (.middleware { s with calls := cs }.middleware), w)
  | .filtering e items => .ok (some (.terminal (.filtering e items)), w)
  | .prepared name outcomes guarded =>
    let (i, w) := w.addTerminal
    let e := Executor.prepared name i outcomes
    .ok (some (.terminal (if guarded then e.guarded else e)), w)
  | .echo => .ok (some (.terminal .echo), w)
  | .pipeline plans => do
    let (stages, w) ← stageAll w plans
    let p ← (Pipeline.compose stages).mapError .uncomposed
    return (some (.terminal p.executeWith), w)

/-- Builds stages from left to right. -/
def stageAll (w : Workshop) : List StagePlan → Except PlanError (List (Stage Host) × Workshop)
  | [] => .ok ([], w)
  | plan :: plans => do
    let (s, w) ← stage w plan
    let (ss, w) ← stageAll w plans
    return (s.toList ++ ss, w)

end

/-- Builds a pipeline. -/
def assemble (plans : List StagePlan) : Except PlanError (Pipeline Host × Workshop) := do
  let (stages, w) ← stageAll {} plans
  let p ← (Pipeline.compose stages).mapError .uncomposed
  return (p, w)

end Workshop

end Sieve
