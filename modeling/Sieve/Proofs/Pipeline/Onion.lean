import Sieve.Proofs.Pipeline.Composition

/-!
# Layers of an onion

Which lists of stages make a pipeline, and in which order its stages come to act.

* `Pipeline.compose_eq_ok_iff`, `Pipeline.compose_eq_missingStage_iff`,
  `Pipeline.compose_eq_unexpectedTerminal_iff`: the pipelines and the two errors, by the shape of the list;
* `Middleware.Passes`, `Middleware.Stops`: middlewares that write down when they are entered and, if they go
  below, when they are left.  Whatever else they do to a state of their own, and whatever they look at, is
  left open;
* `Pipeline.executeWith_passing`, `Pipeline.executeWith_stopping`: an execution enters the middlewares from
  the first on and leaves them in the opposite order, be what is below a success or a failure.  Both are
  inductions on the middlewares, by what one of them does around anything below it;
* `Pipeline.onion`: composition and execution of any list of stages.
-/

namespace Sieve

variable {σ : Type}

/-! ### Composing -/

namespace Pipeline

/-- Only middlewares are taken for middlewares. -/
theorem middlewaresFrom_eq_ok_iff {index : Nat} {stages : List (Stage σ)} {ms : List (Middleware σ)} :
    middlewaresFrom index stages = .ok ms ↔ stages = ms.map .middleware := by
  refine ⟨fun h => ?_, fun h => h ▸ middlewaresFrom_map index ms⟩
  induction stages generalizing index ms with
  | nil =>
    cases h
    rfl
  | cons stage stages ih =>
    cases stage with
    | terminal e => cases h
    | middleware m =>
      rw [middlewaresFrom] at h
      cases hrest : middlewaresFrom (index + 1) stages with
      | error x =>
        rw [hrest] at h
        cases h
      | ok rest =>
        rw [hrest] at h
        cases h
        rw [ih hrest, List.map_cons]

/-- What is refused is the first terminal. -/
theorem middlewaresFrom_eq_error_iff {index : Nat} {stages : List (Stage σ)} {x : PipelineError} :
    middlewaresFrom index stages = .error x ↔
      ∃ (ms : List (Middleware σ)) (e : Executor σ) (rest : List (Stage σ)),
        stages = ms.map .middleware ++ .terminal e :: rest ∧ x = .unexpectedTerminal (index + ms.length) := by
  constructor
  · intro h
    induction stages generalizing index with
    | nil => cases h
    | cons stage stages ih =>
      cases stage with
      | terminal e =>
        cases h
        exact ⟨[], e, stages, rfl, rfl⟩
      | middleware m =>
        rw [middlewaresFrom] at h
        cases hrest : middlewaresFrom (index + 1) stages with
        | ok rest =>
          rw [hrest] at h
          cases h
        | error y =>
          rw [hrest] at h
          cases h
          obtain ⟨ms, e, rest, rfl, rfl⟩ := ih hrest
          exact ⟨m :: ms, e, rest, rfl, by rw [List.length_cons, Nat.add_right_comm, Nat.add_assoc]⟩
  · rintro ⟨ms, e, rest, rfl, rfl⟩
    induction ms generalizing index with
    | nil => rfl
    | cons m ms ih =>
      have hplace : index + 1 + ms.length = index + (m :: ms).length := by
        rw [List.length_cons]
        omega
      rw [List.map_cons, List.cons_append, middlewaresFrom, ih, hplace]
      rfl

/-- A list whose last stage is a terminal is composed from the others. -/
theorem compose_concat_terminal (stages : List (Stage σ)) (e : Executor σ) :
    compose (stages ++ [.terminal e]) = (middlewaresFrom 0 stages).map (⟨·, e⟩) := by
  simp only [compose, List.getLast?_concat, List.dropLast_concat]

theorem compose_of_getLast? {stages : List (Stage σ)} (h : ∀ e, stages.getLast? ≠ some (.terminal e)) :
    compose stages = .error .missingStage := by
  rw [compose]
  split
  next e he => exact absurd he (h e)
  next => rfl

/-- Either the last stage is a terminal, or a terminal is missing. -/
theorem compose_cases (stages : List (Stage σ)) :
    (∃ front e, stages = front ++ [.terminal e] ∧
      compose stages = (middlewaresFrom 0 front).map (⟨·, e⟩)) ∨
    ((∀ e, stages.getLast? ≠ some (.terminal e)) ∧ compose stages = .error .missingStage) := by
  by_cases h : ∃ e, stages.getLast? = some (.terminal e)
  · obtain ⟨e, he⟩ := h
    obtain ⟨front, rfl⟩ := List.getLast?_eq_some_iff.1 he
    exact .inl ⟨front, e, rfl, compose_concat_terminal front e⟩
  · have hlast : ∀ e, stages.getLast? ≠ some (.terminal e) := fun e he => h ⟨e, he⟩
    exact .inr ⟨hlast, compose_of_getLast? hlast⟩

/-- The lists that make a pipeline: middlewares in front of a terminal. -/
theorem compose_eq_ok_iff {stages : List (Stage σ)} {p : Pipeline σ} :
    compose stages = .ok p ↔ stages = p.stages := by
  refine ⟨fun h => ?_, fun h => h ▸ compose_stages p⟩
  obtain ⟨front, e, rfl, hfront⟩ | ⟨-, hmissing⟩ := compose_cases stages
  · rw [hfront] at h
    cases hms : middlewaresFrom 0 front with
    | error x =>
      rw [hms] at h
      cases h
    | ok ms =>
      rw [hms] at h
      cases h
      rw [Pipeline.stages, middlewaresFrom_eq_ok_iff.1 hms]
  · rw [hmissing] at h
    cases h

/-- What comes in the place of a pipeline if the last stage is a terminal is an error about another one. -/
theorem compose_concat_eq_error_iff {front : List (Stage σ)} {e : Executor σ} {x : PipelineError} :
    compose (front ++ [.terminal e]) = .error x ↔
      ∃ (ms : List (Middleware σ)) (e' : Executor σ) (rest : List (Stage σ)),
        front = ms.map .middleware ++ .terminal e' :: rest ∧ x = .unexpectedTerminal ms.length := by
  have hfront : middlewaresFrom 0 front = .error x ↔ _ := middlewaresFrom_eq_error_iff
  simp only [Nat.zero_add] at hfront
  rw [compose_concat_terminal, ← hfront]
  cases middlewaresFrom 0 front with
  | error y => exact ⟨fun h => by cases h; rfl, fun h => by cases h; rfl⟩
  | ok ms => exact ⟨fun h => (nomatch h), fun h => (nomatch h)⟩

/-- A stage is missing if there is none or the last is not a terminal. -/
theorem compose_eq_missingStage_iff {stages : List (Stage σ)} :
    compose stages = .error .missingStage ↔ ∀ e, stages.getLast? ≠ some (.terminal e) := by
  refine ⟨fun h e he => ?_, compose_of_getLast?⟩
  obtain ⟨front, rfl⟩ := List.getLast?_eq_some_iff.1 he
  obtain ⟨_, _, _, -, hunexpected⟩ := compose_concat_eq_error_iff.1 h
  cases hunexpected

/-- A terminal is unexpected if it is the first of several and the last stage is one as well. -/
theorem compose_eq_unexpectedTerminal_iff {stages : List (Stage σ)} {index : Nat} :
    compose stages = .error (.unexpectedTerminal index) ↔
      ∃ (ms : List (Middleware σ)) (e last : Executor σ) (rest : List (Stage σ)),
        stages = ms.map .middleware ++ .terminal e :: (rest ++ [.terminal last]) ∧ index = ms.length := by
  constructor
  · intro h
    obtain ⟨front, last, rfl, -⟩ | ⟨-, hmissing⟩ := compose_cases stages
    · obtain ⟨ms, e, rest, rfl, hindex⟩ := compose_concat_eq_error_iff.1 h
      cases hindex
      exact ⟨ms, e, last, rest, by rw [List.append_assoc, List.cons_append], rfl⟩
    · rw [hmissing] at h
      cases h
  · rintro ⟨ms, e, last, rest, rfl, rfl⟩
    have hconcat : ms.map .middleware ++ .terminal e :: (rest ++ [.terminal last]) =
        (ms.map .middleware ++ .terminal e :: rest) ++ [.terminal last] := by
      rw [List.append_assoc, List.cons_append]
    rw [hconcat, compose_concat_eq_error_iff]
    exact ⟨ms, e, rest, rfl, rfl⟩

/-- Composing fails in no other way. -/
theorem compose_error_cases {stages : List (Stage σ)} {x : PipelineError} (h : compose stages = .error x) :
    x = .missingStage ∨ ∃ index, x = .unexpectedTerminal index := by
  obtain ⟨front, e, rfl, -⟩ | ⟨-, hmissing⟩ := compose_cases stages
  · obtain ⟨ms, _, _, -, rfl⟩ := compose_concat_eq_error_iff.1 h
    exact .inr ⟨ms.length, rfl⟩
  · rw [hmissing] at h
    cases h
    exact .inl rfl

end Pipeline

/-! ### Passages -/

/-- What is written down: a middleware is entered or left, or the terminal runs on a tree in a context. -/
inductive Passage
  | entered (middleware : String)
  | ran (tree : Tree) (ctx : Context)
  | left (middleware : String)

/-- A state beside the passages that are written down. -/
abbrev Written (σ : Type) := σ × List Passage

namespace Middleware

/-- The passages into middlewares. -/
def entries (ms : List (Middleware (Written σ))) : List Passage := ms.map fun m => .entered m.name

/-- The passages out of middlewares, the innermost first. -/
def exits (ms : List (Middleware (Written σ))) : List Passage := ms.reverse.map fun m => .left m.name

/-- A middleware that writes down that it is entered, runs what is below it once on the tree and in the context
that it has got, writes down that it is left, and answers with the outcome. -/
def Passes (m : Middleware (Written σ)) : Prop :=
  ∀ (t : Tree) (ctx : Context) (next : Next (Written σ)) (s : σ) (past : List Passage), ∃ s₁ s₂,
    let inner := next.run t ctx .idle (s₁, past ++ [.entered m.name])
    m.handle t ctx next .idle (s, past) = (inner.1, (s₂, inner.2.2 ++ [.left m.name]))

/-- A middleware that writes down that it is entered and answers itself, whatever is below it. -/
def Stops (m : Middleware (Written σ)) (answer : Tree → Context → Written σ → Outcome) : Prop :=
  ∀ t ctx s past, ∃ s', ∀ next, m.handle t ctx next .idle (s, past) =
    ((answer t ctx (s, past), .idle), (s', past ++ [.entered m.name]))

variable {m : Middleware (Written σ)}

/-- One middleware that passes on, around anything. -/
theorem Passes.around (h : m.Passes) (below : Executor (Written σ)) (t : Tree) (ctx : Context) (s : σ)
    (past : List Passage) : ∃ s₁ s₂, m.around below t ctx (s, past) =
      ((below t ctx (s₁, past ++ [.entered m.name])).1,
        (s₂, (below t ctx (s₁, past ++ [.entered m.name])).2.2 ++ [.left m.name])) := by
  obtain ⟨s₁, s₂, hhandle⟩ := h t ctx ⟨below⟩ s past
  rw [Next.run, Next.call_of_mayFollow _ rfl] at hhandle
  refine ⟨s₁, s₂, ?_⟩
  rw [Middleware.around, hhandle]

/-- One that answers itself, around anything. -/
theorem Stops.around {answer : Tree → Context → Written σ → Outcome} (h : m.Stops answer)
    (below : Executor (Written σ)) (t : Tree) (ctx : Context) (s : σ) (past : List Passage) :
    ∃ s', m.around below t ctx (s, past) = (answer t ctx (s, past), (s', past ++ [.entered m.name])) := by
  obtain ⟨s', hhandle⟩ := h t ctx s past
  refine ⟨s', ?_⟩
  rw [Middleware.around, hhandle ⟨below⟩]

end Middleware

/-- A terminal that writes down that it runs. -/
def Executor.written (e : Executor σ) : Executor (Written σ) := fun t ctx (s, past) =>
  let (r, s) := e t ctx s
  (r, (s, past ++ [.ran t ctx]))

/-! ### Executing -/

namespace Pipeline

open Middleware (entries exits)

/-- Middlewares that pass on, around anything. -/
theorem executeWith_passing {ms : List (Middleware (Written σ))} (h : ∀ m ∈ ms, m.Passes)
    (below : Executor (Written σ)) (t : Tree) (ctx : Context) (s : σ) (past : List Passage) :
    ∃ s₁ s₂, (mk ms below).executeWith t ctx (s, past) =
      ((below t ctx (s₁, past ++ entries ms)).1,
        (s₂, (below t ctx (s₁, past ++ entries ms)).2.2 ++ exits ms)) := by
  induction ms generalizing s past with
  | nil =>
    refine ⟨s, (below t ctx (s, past)).2.1, ?_⟩
    simp only [entries, exits, List.map_nil, List.reverse_nil, List.append_nil]
    rfl
  | cons m ms ih =>
    obtain ⟨s₀, s₂, haround⟩ := (h m List.mem_cons_self).around (mk ms below).executeWith t ctx s past
    obtain ⟨s₁, _, hrest⟩ := ih (fun m hm => h m (List.mem_cons_of_mem _ hm)) s₀ (past ++ [.entered m.name])
    refine ⟨s₁, s₂, ?_⟩
    rw [executeWith_cons, haround, hrest]
    simp only [entries, exits, List.map_cons, List.reverse_cons, List.map_append, List.map_nil, List.append_assoc,
      List.cons_append, List.nil_append]

/-- A middleware that answers itself, below some that pass on. -/
theorem executeWith_stopping {outer inner : List (Middleware (Written σ))} {m : Middleware (Written σ)}
    {answer : Tree → Context → Written σ → Outcome} (h : ∀ m ∈ outer, m.Passes) (hm : m.Stops answer)
    (e : Executor (Written σ)) (t : Tree) (ctx : Context) (s : σ) (past : List Passage) :
    ∃ s₁ s₂, (mk (outer ++ m :: inner) e).executeWith t ctx (s, past) =
      (answer t ctx (s₁, past ++ entries outer), (s₂, past ++ entries (outer ++ [m]) ++ exits outer)) := by
  obtain ⟨s₁, s₂, hexecute⟩ := executeWith_passing h (m.around (mk inner e).executeWith) t ctx s past
  obtain ⟨s', haround⟩ := hm.around (mk inner e).executeWith t ctx s₁ (past ++ entries outer)
  refine ⟨s₁, s₂, ?_⟩
  rw [executeWith_append, executeWith_cons, hexecute, haround]
  simp only [entries, List.map_append, List.map_cons, List.map_nil, List.append_assoc]

/-- **Which lists of stages make a pipeline, and in which order its stages act.**

* A list makes a pipeline just if it consists of middlewares in front of one terminal.  A stage is missing if the
  list does not end in a terminal.  Otherwise the first of several terminals is unexpected, and is told by its
  index; there is no other error.
* If all middlewares pass on, they are entered from the first on, the terminal runs once on the caller's tree and
  in the caller's context, and they are left from the last on; the outcome is the terminal's.
* If one answers itself and those in front of it pass on, it is the last to be entered, nothing below it acts,
  those in front of it are left, and the outcome is its answer. -/
theorem onion (stages : List (Stage (Written σ))) :
    (∀ p, compose stages = .ok p ↔ stages = p.middlewares.map .middleware ++ [.terminal p.terminal]) ∧
    (compose stages = .error .missingStage ↔ ∀ e, stages.getLast? ≠ some (.terminal e)) ∧
    (∀ index, compose stages = .error (.unexpectedTerminal index) ↔
      ∃ (ms : List (Middleware (Written σ))) (e last : Executor (Written σ)) (rest : List (Stage (Written σ))),
        stages = ms.map .middleware ++ .terminal e :: (rest ++ [.terminal last]) ∧ index = ms.length) ∧
    (∀ x, compose stages = .error x → x = .missingStage ∨ ∃ index, x = .unexpectedTerminal index) ∧
    (∀ ms e, compose stages = .ok ⟨ms, Executor.written e⟩ → (∀ m ∈ ms, m.Passes) →
      ∀ t ctx s past, ∃ s₁ s₂, (mk ms e.written).executeWith t ctx (s, past) =
        ((e t ctx s₁).1, (s₂, past ++ entries ms ++ [.ran t ctx] ++ exits ms))) ∧
    ∀ outer m inner e answer, compose stages = .ok ⟨outer ++ m :: inner, e⟩ → (∀ m ∈ outer, m.Passes) →
      m.Stops answer → ∀ t ctx s past, ∃ s₁ s₂, (mk (outer ++ m :: inner) e).executeWith t ctx (s, past) =
        (answer t ctx (s₁, past ++ entries outer), (s₂, past ++ entries (outer ++ [m]) ++ exits outer)) := by
  refine ⟨fun p => compose_eq_ok_iff, compose_eq_missingStage_iff, fun index => compose_eq_unexpectedTerminal_iff,
    fun x => compose_error_cases, ?_, ?_⟩
  · intro ms e _ hms t ctx s past
    obtain ⟨s₁, s₂, hexecute⟩ := executeWith_passing hms e.written t ctx s past
    exact ⟨s₁, s₂, hexecute⟩
  · intro outer m inner e answer _ houter hm t ctx s past
    exact executeWith_stopping houter hm e t ctx s past

end Pipeline

/-! ### Plain middlewares -/

/-- Writes down a passage. -/
def write (passage : Passage) : Handling (Written σ) Unit := fun d (s, past) => (((), d), (s, past ++ [passage]))

/-- A middleware that does nothing besides. -/
def Middleware.passing (name : String) : Middleware (Written σ) where
  name
  handle t ctx next := do
    write (.entered name)
    let r ← next.run t ctx
    write (.left name)
    return r

/-- A middleware that always gives the same answer. -/
def Middleware.stopping (name : String) (r : Outcome) : Middleware (Written σ) where
  name
  handle _ _ _ := do
    write (.entered name)
    return r

theorem Middleware.passes_passing (name : String) : (passing name : Middleware (Written σ)).Passes :=
  fun t ctx next s past => ⟨s, (next.run t ctx .idle (s, past ++ [.entered name])).2.1, rfl⟩

theorem Middleware.stops_stopping (name : String) (r : Outcome) :
    (stopping name r : Middleware (Written σ)).Stops fun _ _ _ => r :=
  fun _ _ s _ => ⟨s, fun _ => rfl⟩

/-- A terminal that counts its executions and fails. -/
def refusing : Executor Nat := fun _ _ n => (.error (.execution "down"), n + 1)

/-- Two middlewares around a failure; the same with a third between them that answers; and a terminal too many. -/
theorem Pipeline.onion_refusing :
    (∃ n, (mk [.passing "a", .passing "b"] refusing.written).executeWith ⟨"root", .and, []⟩ {} (0, []) =
      (.error (.execution "down"),
        (n, [.entered "a", .entered "b", .ran ⟨"root", .and, []⟩ {}, .left "b", .left "a"]))) ∧
    (∃ n, (mk [.passing "a", .stopping "cut" (.ok []), .passing "b"] refusing.written).executeWith
      ⟨"root", .and, []⟩ {} (0, []) = (.ok [], (n, [.entered "a", .entered "cut", .left "a"]))) ∧
    compose [.middleware (.passing "a"), .terminal refusing.written, .terminal refusing.written] =
      .error (.unexpectedTerminal 1) := by
  obtain ⟨hok, -, -, -, hpassing, -⟩ := onion (mk [.passing "a", .passing "b"] refusing.written).stages
  obtain ⟨hok', -, -, -, -, hstopping⟩ :=
    onion (mk [.passing "a", .stopping "cut" (.ok []), .passing "b"] refusing.written).stages
  obtain ⟨-, -, hunexpected, -⟩ :=
    onion [.middleware (.passing "a"), .terminal refusing.written, .terminal refusing.written]
  refine ⟨?_, ?_, ?_⟩
  · obtain ⟨_, n, h⟩ := hpassing _ _ ((hok _).2 rfl) (by simp [Middleware.passes_passing])
      ⟨"root", .and, []⟩ {} 0 []
    exact ⟨n, h⟩
  · obtain ⟨_, n, h⟩ := hstopping [.passing "a"] _ [.passing "b"] _ _ ((hok' _).2 rfl)
      (by simp [Middleware.passes_passing]) (Middleware.stops_stopping "cut" (.ok [])) ⟨"root", .and, []⟩ {} 0 []
    exact ⟨n, h⟩
  · exact (hunexpected 1).2 ⟨[.passing "a"], refusing.written, refusing.written, [], rfl, rfl⟩

end Sieve
