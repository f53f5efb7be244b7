import Sieve.Pipeline.Basic

/-!
# Pipelines within pipelines

A pipeline is an executor, so it may be the terminal of another pipeline.  The two then do what one
pipeline of all their middlewares does, however these use their handles.

* `Pipeline.compose_stages`: middlewares in front of a terminal make a pipeline, be that terminal a pipeline
  itself or not;
* `Invocation`, `Pipeline.noted`: stages that note each of their invocations in the state, by their place in
  the row of all stages.  Any state will do, and any way of noting;
* `Pipeline.executeWith_append` is the induction on the outer middlewares.  What is below the last of them is
  the inner pipeline in the one case and the inner row of stages in the other;
* `Pipeline.nested_eq_flat`: outcome, state and invocations of both.
-/

namespace Sieve

variable {σ : Type}

/-! ### Composing -/

namespace Pipeline

/-- The stages of a pipeline. -/
def stages (p : Pipeline σ) : List (Stage σ) :=
  p.middlewares.map .middleware ++ [.terminal p.terminal]

theorem middlewaresFrom_map (index : Nat) (ms : List (Middleware σ)) :
    middlewaresFrom index (ms.map .middleware) = .ok ms := by
  induction ms generalizing index with
  | nil => rfl
  | cons m ms ih =>
    rw [List.map_cons, middlewaresFrom, ih]
    rfl

/-- Middlewares in front of a terminal make a pipeline. -/
theorem compose_stages (p : Pipeline σ) : compose p.stages = .ok p := by
  simp only [compose, stages, List.getLast?_concat, List.dropLast_concat, middlewaresFrom_map]
  rfl

/-- Middlewares around the pipeline of others are all of them around its terminal. -/
theorem executeWith_append (ms₁ ms₂ : List (Middleware σ)) (e : Executor σ) :
    (mk (ms₁ ++ ms₂) e).executeWith = (mk ms₁ (mk ms₂ e).executeWith).executeWith := by
  induction ms₁ with
  | nil => rfl
  | cons m ms₁ ih => rw [List.cons_append, executeWith_cons, executeWith_cons, ih]

end Pipeline

/-! ### Invocations -/

/-- An invocation of a stage: the place of the stage, and what it was given. -/
structure Invocation where
  place : Nat
  tree : Tree
  context : Context

section Noted

variable (note : Invocation → σ → σ)

/-- A middleware that notes its invocations. -/
def Middleware.noted (place : Nat) (m : Middleware σ) : Middleware σ where
  name := m.name
  handle t ctx next d s := m.handle t ctx next d (note ⟨place, t, ctx⟩ s)

/-- A terminal that notes its invocations. -/
def Executor.noted (place : Nat) (e : Executor σ) : Executor σ := fun t ctx s =>
  e t ctx (note ⟨place, t, ctx⟩ s)

/-- Middlewares that note their invocations, the first of which stands at a place. -/
def Middleware.notedFrom : Nat → List (Middleware σ) → List (Middleware σ)
  | _, [] => []
  | place, m :: ms => m.noted note place :: notedFrom (place + 1) ms

/-- A pipeline whose stages note their invocations, the first of which stands at a place. -/
def Pipeline.noted (place : Nat) (p : Pipeline σ) : Pipeline σ where
  middlewares := Middleware.notedFrom note place p.middlewares
  terminal := p.terminal.noted note (place + p.middlewares.length)

theorem Middleware.notedFrom_append (place : Nat) (ms₁ ms₂ : List (Middleware σ)) :
    notedFrom note place (ms₁ ++ ms₂) =
      notedFrom note place ms₁ ++ notedFrom note (place + ms₁.length) ms₂ := by
  induction ms₁ generalizing place with
  | nil => rfl
  | cons m ms₁ ih =>
    have hplace : place + 1 + ms₁.length = place + (m :: ms₁).length := by
      rw [List.length_cons]
      omega
    rw [List.cons_append, notedFrom, notedFrom, ih, hplace, List.cons_append]

end Noted

/-! ### The inner pipeline as a terminal -/

/-- **Middlewares around a terminal that is the pipeline of further middlewares make a pipeline, and so do all
of them around the inner terminal.  On every tree, in every context and from every state the two have the
same outcome and leave the same state; and if every stage notes its invocations in the state, they make the
same invocations in the same order, whatever the middlewares do.** -/
theorem Pipeline.nested_eq_flat (ms₁ ms₂ : List (Middleware σ)) (e : Executor σ) :
    compose (mk ms₂ e).stages = .ok ⟨ms₂, e⟩ ∧
    compose (mk ms₁ (mk ms₂ e).executeWith).stages = .ok ⟨ms₁, (mk ms₂ e).executeWith⟩ ∧
    compose (mk (ms₁ ++ ms₂) e).stages = .ok ⟨ms₁ ++ ms₂, e⟩ ∧
    (∀ t ctx s, (mk ms₁ (mk ms₂ e).executeWith).executeWith t ctx s = (mk (ms₁ ++ ms₂) e).executeWith t ctx s) ∧
    ∀ (note : Invocation → σ → σ) t ctx s,
      (mk (Middleware.notedFrom note 0 ms₁) ((mk ms₂ e).noted note ms₁.length).executeWith).executeWith t ctx s =
        ((mk (ms₁ ++ ms₂) e).noted note 0).executeWith t ctx s := by
  refine ⟨compose_stages _, compose_stages _, compose_stages _, ?_, ?_⟩
  · intro t ctx s
    rw [executeWith_append]
  · intro note t ctx s
    have hplace : 0 + (ms₁ ++ ms₂).length = ms₁.length + ms₂.length := by
      rw [List.length_append, Nat.zero_add]
    simp only [noted]
    rw [Middleware.notedFrom_append, Nat.zero_add, hplace, executeWith_append]

/-- Goes below a second time if the first time has failed. -/
def insistent : Middleware σ where
  name := "insistent"
  handle t ctx next := do
    match ← next.run t ctx with
    | .ok rows => return .ok rows
    | .error _ => next.retry t ctx

/-- Asks for another combinator. -/
def lenient : Middleware σ where
  name := "lenient"
  handle t ctx next := next.run { t with combinator := .or } ctx

/-- A terminal that fails until five stages have been invoked, where the state is the list of invocations. -/
def reluctant : Executor (List Invocation) := fun _ _ past =>
  (if past.length < 5 then .error (.execution "down") else .ok [], past)

/-- The inner pipeline is invoked twice, and its terminal gets the changed tree each time. -/
example : (Pipeline.mk (Middleware.notedFrom (fun i past => past ++ [i]) 0 [insistent])
      ((Pipeline.mk [lenient] reluctant).noted (fun i past => past ++ [i]) 1).executeWith).executeWith
        ⟨"root", .and, []⟩ {} [] =
    (.ok [], [⟨0, ⟨"root", .and, []⟩, {}⟩, ⟨1, ⟨"root", .and, []⟩, {}⟩, ⟨2, ⟨"root", .or, []⟩, {}⟩,
      ⟨1, ⟨"root", .and, []⟩, {}⟩, ⟨2, ⟨"root", .or, []⟩, {}⟩]) := rfl

end Sieve
