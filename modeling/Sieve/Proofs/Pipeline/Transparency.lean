import Sieve.CommandLine
import Sieve.Proofs.Pipeline.Composition
import Sieve.Proofs.Pipeline.Soundness

/-!
# Pipelines that answer as their terminal does

Logging, caching and retrying change nothing in what a pipeline answers.

* `StockLayer`: the ready-made middlewares, with any policy and any number of caches;
* `Executor.outcomes`: the outcomes of a row of calls.  Between two calls the host may change in any
  way that leaves the caches in use alone; the clock may be set, for one;
* `Pipeline.transparent`: the outcomes of any layers around a filter, and what the command line
  prints.
-/

namespace Sieve

/-! ### Layers -/

/-- A ready-made middleware. -/
inductive StockLayer
  | logging (pipeline : String)
  | retrying (p : RetryPolicy)
  | caching (cache : Nat)

namespace StockLayer

/-- The middleware of a layer. -/
def middleware : StockLayer → Middleware Host
  | logging p => .logging p
  | retrying p => .retrying p
  | caching i => .caching i

/-- The cache that a layer uses. -/
def cache? : StockLayer → Option Nat
  | caching i => some i
  | _ => none

/-- The caches that layers use. -/
def caches (ls : List StockLayer) : List Nat := ls.filterMap cache?

/-- Layers around a filter. -/
def pipeline (ls : List StockLayer) (e : Evaluator) (items : List Json) : Pipeline Host :=
  ⟨ls.map middleware, .filtering e items⟩

/-- The stages of layers around a filter. -/
def stages (ls : List StockLayer) (e : Evaluator) (items : List Json) : List (Stage Host) :=
  ls.map (fun l => .middleware l.middleware) ++ [.terminal (.filtering e items)]

end StockLayer

/-! ### Calls -/

/-- A call of a pipeline, and what becomes of the host before it. -/
structure Call where
  before : Host → Host
  tree : Tree
  context : Context

/-- What happens before a call leaves the given caches alone. -/
def Call.Spares (used : List Nat) (c : Call) : Prop :=
  ∀ h : Host, ∀ i ∈ used, (c.before h).caches i = h.caches i

/-- The outcomes of calls, one after another. -/
def Executor.outcomes (x : Executor Host) : List Call → Host → List Outcome
  | [], _ => []
  | c :: cs, h =>
    (x c.tree c.context (c.before h)).1 :: outcomes x cs (x c.tree c.context (c.before h)).2

/-! ### Pipelines -/

namespace Executor

variable {used : List Nat} {answer : Tree → List Json} {x : Executor Host}

/-- A layer that keeps its results in a cache in use. -/
theorem transparent_around (hx : x.Transparent used answer) (l : StockLayer)
    (hl : ∀ i ∈ l.cache?, i ∈ used) : (l.middleware.around x).Transparent used answer := by
  cases l with
  | logging pipeline => exact transparent_logging hx pipeline
  | retrying p => exact transparent_retrying hx p
  | caching i => exact transparent_caching hx (hl i rfl)

/-- The outcomes of calls between which the caches in use are left alone. -/
theorem outcomes_of_transparent (hx : x.Transparent used answer) (calls : List Call) (h : Host)
    (hs : h.Sound used answer) (hc : ∀ c ∈ calls, c.Spares used) :
    x.outcomes calls h = calls.map fun c => .ok (answer c.tree) := by
  induction calls generalizing h with
  | nil => rfl
  | cons c calls ih =>
    have hbefore := hs.of_caches_eq (hc c List.mem_cons_self h)
    obtain ⟨hr, hs⟩ := hx c.tree c.context (c.before h) hbefore
    have hrest := ih _ hs fun c' hc' => hc c' (List.mem_cons_of_mem _ hc')
    rw [outcomes, hr, hrest, List.map_cons]

end Executor

namespace StockLayer

theorem transparent_pipeline (ls : List StockLayer) (e : Evaluator) (items : List Json)
    {used : List Nat} (hu : ∀ i ∈ caches ls, i ∈ used) :
    (pipeline ls e items).executeWith.Transparent used (e.filter items) := by
  induction ls with
  | nil => exact Executor.transparent_filtering used e items
  | cons l ls ih =>
    have hl : ∀ i ∈ l.cache?, i ∈ used := fun i hi =>
      hu i (List.mem_filterMap.2 ⟨l, List.mem_cons_self, hi⟩)
    have hls : ∀ i ∈ caches ls, i ∈ used := by
      intro i hi
      obtain ⟨l', hl', hi⟩ := List.mem_filterMap.1 hi
      exact hu i (List.mem_filterMap.2 ⟨l', List.mem_cons_of_mem _ hl', hi⟩)
    rw [pipeline, List.map_cons, Pipeline.executeWith_cons]
    exact Executor.transparent_around (ih hls) l hl

/-- Layers in front of a filter make a pipeline. -/
theorem compose_stages (ls : List StockLayer) (e : Evaluator) (items : List Json) :
    Pipeline.compose (stages ls e items) = .ok (pipeline ls e items) := by
  have hstages : stages ls e items = (pipeline ls e items).stages := by
    rw [stages, Pipeline.stages, pipeline, List.map_map]
    rfl
  rw [hstages, Pipeline.compose_stages]

end StockLayer

/-- The outcomes of a pipeline of layers all of whose caches are empty at first. -/
theorem StockLayer.outcomes_pipeline (ls : List StockLayer) (e : Evaluator) (items : List Json)
    (h : Host) (hempty : ∀ i ∈ caches ls, (h.caches i).entries = []) (calls : List Call)
    (hc : ∀ c ∈ calls, c.Spares (caches ls)) :
    (pipeline ls e items).executeWith.outcomes calls h =
      calls.map fun c => .ok (e.filter items c.tree) :=
  Executor.outcomes_of_transparent (transparent_pipeline ls e items fun _ hi => hi) calls h
    (fun i hi => .of_empty (hempty i hi)) hc

/-! ### The command line -/

namespace CommandLine

/-- The layers that the settings ask for. -/
def layers (s : Settings) : List StockLayer :=
  .logging name :: (if s.cache.enabled then [.caching 0] else []) ++
    [.retrying (.ofSettings s.retry)]

theorem pipeline_eq (s : Settings) (items : List Json) :
    pipeline s items = StockLayer.pipeline (layers s) {} items := by
  unfold pipeline StockLayer.pipeline middlewares layers
  cases s.cache.enabled <;> rfl

/-- What is printed for items. -/
def printed (rows : List Json) : String := (Json.arr rows).indented ++ "\n"

theorem run_eq (s : Settings) (tree : Tree) (items : List Json) :
    (run s tree items).1 = .ok (printed (({} : Evaluator).filter items tree)) := by
  have htransparent := StockLayer.transparent_pipeline (layers s) {} items fun _ hi => hi
  obtain ⟨hr, -⟩ := htransparent tree {} (host s) fun i _ => .of_empty rfl
  rw [← pipeline_eq] at hr
  change ((pipeline s items).execute tree {} (host s)).1 = _ at hr
  unfold run
  cases he : (pipeline s items).execute tree {} (host s) with
  | mk r h =>
    rw [he] at hr
    cases hr
    rfl

/-- What is reported of two files that can be read, whatever the settings are. -/
theorem filter_eq (readFile : String → Id (Option String)) (vars : List (String × String))
    (r : FilterRequest) {tree : Tree} {items : List Json}
    (hi : (readInputs readFile r).run = .ok (tree, items)) :
    (filter readFile vars r).exitCode = 0 ∧ (filter readFile vars r).error = none ∧
      (filter readFile vars r).output = printed (({} : Evaluator).filter items tree) := by
  have hrun : ∀ s, ∃ metrics, run s tree items =
      (.ok (printed (({} : Evaluator).filter items tree)), metrics) := by
    intro s
    exact ⟨(run s tree items).2, Prod.ext (run_eq s tree items) rfl⟩
  have hinputs : (readInputs readFile r).run = pure (.ok (tree, items)) := hi
  unfold filter
  rw [hinputs]
  simp only [bind, pure]
  -- settings that cannot be loaded are reported, and the default ones are used
  cases (Settings.load readFile vars name).run with
  | ok s =>
    obtain ⟨metrics, hm⟩ := hrun s
    simp [hm]
  | error e =>
    obtain ⟨metrics, hm⟩ := hrun fallback
    simp [hm]

end CommandLine

/-! ### Transparency -/

/-- Layers around a filter make a pipeline, and every call of it answers with the items that pass
the tree, whatever has been asked before.  So does the command line, whatever its settings are. -/
theorem Pipeline.transparent (e : Evaluator) (items : List Json) (ls : List StockLayer) :
    Pipeline.compose (StockLayer.stages ls e items) = .ok (StockLayer.pipeline ls e items) ∧
    (∀ (h : Host) (calls : List Call), (∀ i ∈ StockLayer.caches ls, (h.caches i).entries = []) →
      (∀ c ∈ calls, c.Spares (StockLayer.caches ls)) →
      (StockLayer.pipeline ls e items).executeWith.outcomes calls h =
        calls.map fun c => .ok (e.filter items c.tree)) ∧
    (∀ (s : Settings) (tree : Tree),
      (CommandLine.run s tree items).1 = .ok (CommandLine.printed (({} : Evaluator).filter items tree))) ∧
    ∀ (readFile : String → Id (Option String)) (vars : List (String × String)) (r : FilterRequest)
      (tree : Tree), (CommandLine.readInputs readFile r).run = .ok (tree, items) →
      (CommandLine.filter readFile vars r).exitCode = 0 ∧
      (CommandLine.filter readFile vars r).error = none ∧
      (CommandLine.filter readFile vars r).output =
        CommandLine.printed (({} : Evaluator).filter items tree) := by
  refine ⟨StockLayer.compose_stages ls e items, ?_, ?_, ?_⟩
  · intro h calls hempty hcalls
    exact StockLayer.outcomes_pipeline ls e items h hempty calls hcalls
  · intro s tree
    exact CommandLine.run_eq s tree items
  · intro readFile vars r tree hi
    exact CommandLine.filter_eq readFile vars r hi

/-- Two items, of which one has a field. -/
def fewItems : List Json := [.obj [("a", .bool true)], .obj []]

/-- A tree that asks for the field. -/
def asksForField : Tree := ⟨"root", .and, [.rule ⟨"r", "a", "ne", .null, "text", none⟩]⟩

/-- Two caches, one in use twice, among the other layers. -/
def mixedLayers : List StockLayer :=
  [.caching 0, .logging "p", .retrying .standard, .caching 1, .caching 0]

theorem increasing_noRows : Keyed.Increasing ([] : List (String × Entry (List Json))) :=
  List.Pairwise.nil

/-- Caches that keep one result for five nanoseconds. -/
def narrowHost : Host :=
  { caches := fun _ => { lifetime := some 5, capacity := 1, increasing := increasing_noRows } }

/-- Calls for two trees in turn, the clock being set in between. -/
def alternatingCalls : List Call :=
  [⟨id, asksForField, {}⟩,
   ⟨fun h => { h with now := h.now + 3 }, { asksForField with children := [] }, {}⟩,
   ⟨id, asksForField, {}⟩]

/-- Two files, by name. -/
def fewFiles (name : String) : Id (Option String) :=
  if name = "tree" then some "\x7b\"id\":\"root\",\"children\":[]\x7d"
  else if name = "items" then some "[true,null]"
  else none

theorem readInputs_fewFiles : (CommandLine.readInputs fewFiles ⟨"tree", "items", none, false⟩).run =
    .ok (⟨"root", .and, []⟩, [.bool true, .null]) := by
  have htree : Source.ofText "\x7b\"id\":\"root\",\"children\":[]\x7d" =
      ⟨.object [(some "id", .string (some "root")), (some "children", .array [] .closed)] .closed,
        false⟩ := by
    cbv
  have hitems : Source.ofText "[true,null]" = ⟨.array [.bool true, .null] .closed, false⟩ := by
    cbv
  have hread : CommandLine.readItems "[true,null]" = .ok [.bool true, .null] := by
    simp [CommandLine.readItems, Decode.ofText, hitems, Decode.readList, maxDepth, Origin.enter,
      Decode.readEach, Decode.readJson, Ending.close, bind, Except.bind, pure, Except.pure]
  have hgroup : Decode.ofText Group.read "\x7b\"id\":\"root\",\"children\":[]\x7d" =
      .ok (⟨"root", .and, []⟩ : Tree) := by
    simp [Decode.ofText, htree, Group.read, maxDepth, Origin.enter, readGroupMembers, readChildren,
      GroupParts.start, Decode.readName, Decode.readString, Mark.fixed, Mark.ofId, Ending.close,
      Node.readAll, GroupParts.finish, Decode.required, bind, Except.bind, pure, Except.pure]
  simp [CommandLine.readInputs, fewFiles, hread, hgroup, ExceptT.run, ExceptT.bind, ExceptT.mk,
    ExceptT.bindCont, ExceptT.lift, ExceptT.pure, liftM, monadLift, MonadLift.monadLift,
    Functor.map, bind, pure]

theorem Pipeline.transparent_mixedLayers :
    (StockLayer.pipeline mixedLayers {} fewItems).executeWith.outcomes alternatingCalls narrowHost =
      [.ok [.obj [("a", .bool true)]], .ok fewItems, .ok [.obj [("a", .bool true)]]] ∧
    (CommandLine.filter fewFiles [] ⟨"tree", "items", none, false⟩).output =
      CommandLine.printed [.bool true, .null] := by
  constructor
  · refine ((Pipeline.transparent {} fewItems mixedLayers).2.1 narrowHost alternatingCalls
      (fun _ _ => rfl) ?_).trans ?_
    · intro c hc
      simp only [alternatingCalls, List.mem_cons, List.not_mem_nil, or_false] at hc
      rcases hc with rfl | rfl | rfl
      · exact fun _ _ _ => rfl
      · exact fun _ _ _ => rfl
      · exact fun _ _ _ => rfl
    · rfl
  · have hfilter : ({} : Evaluator).filter [.bool true, .null] (⟨"root", .and, []⟩ : Tree) =
        [.bool true, .null] := rfl
    have hreport := (Pipeline.transparent {} [.bool true, .null] []).2.2.2 fewFiles [] _ _
      readInputs_fewFiles
    rw [hreport.2.2, hfilter]

end Sieve
