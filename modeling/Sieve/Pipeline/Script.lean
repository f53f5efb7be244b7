import Sieve.Filter.Walk
import Sieve.Pipeline.Host

/-!
# Stages for rehearsals

Stages that do as they are told, by which the behaviour of a pipeline can be watched.

* `Script`: a middleware that reaches below as often as its script says, and notes what comes back;
* `Executor.prepared`: a terminal with a list of outcomes, one for each call; the last one stays;
* `Executor.echo`: a terminal that answers with what it was given;
* `Executor.guarded`: a terminal all of whose errors are taken for failures of the execution.
-/

namespace Sieve

/-- One way of reaching below, with another tree and with more attributes if so told. -/
structure ScriptCall where
  manner : Manner
  tree : Option Tree := none
  attributes : List (String × Json) := []

/-- What becomes of the last outcome: nothing, or it is replaced by rows or by a failure. -/
inductive ScriptEnd
  | keep
  | rows (items : List Json)
  | failure (message : String)

/-- A middleware by its script. -/
structure Script where
  name : String
  calls : List ScriptCall
  stopsOnError : Bool := false
  ending : ScriptEnd := .keep
  extra : Option Json := none

namespace Script

/-- Whether an outcome ends the calls. -/
def stopsAfter (s : Script) : Outcome → Bool
  | .ok _ => false
  | .error _ => s.stopsOnError

/-- Makes the calls, and gives the last outcome. -/
def callAll (s : Script) (t : Tree) (ctx : Context) (next : Next Host) :
    List ScriptCall → Outcome → Handling Host Outcome
  | [], last => return last
  | c :: cs, _ => do
    let r ← next.call c.manner (c.tree.getD t) (ctx.withAttributes c.attributes)
    Host.note (.dispatched s.name c.manner r)
    if s.stopsAfter r then return r else s.callAll t ctx next cs r

/-- What the script makes of the last outcome. -/
def conclude (s : Script) (last : Outcome) : Outcome :=
  let r : Outcome := match s.ending with
    | .keep => last
    | .rows items => .ok items
    | .failure m => .error (.execution m)
  r.map (· ++ s.extra.toList)

/-- The middleware of a script. -/
def middleware (s : Script) : Middleware Host where
  name := s.name
  handle t ctx next := do
    Host.note (.entered s.name)
    let last ← s.callAll t ctx next s.calls (.ok [])
    let r := s.conclude last
    Host.note (.left s.name r)
    return r

end Script

namespace Executor

variable {σ : Type}

/-- The outcome of a call that so many calls went before. -/
def outcomeAt (outcomes : List Outcome) (count : Nat) : Outcome :=
  ((outcomes[count]?).or outcomes.getLast?).getD (.ok [])

/-- Gives one outcome after another. -/
def prepared (name : String) (terminal : Nat) (outcomes : List Outcome) : Executor Host := fun _ _ => do
  let n ← Host.count terminal
  Host.note (.called name n)
  return outcomeAt outcomes n

/-- Takes every error for a failure of the execution with the wording of that error. -/
def guarded (e : Executor σ) : Executor σ := fun t ctx => do
  match ← e t ctx with
  | .ok rows => return .ok rows
  | .error e => return .error (.execution e.message)

/-- Gives one row that tells the root of the tree, its combinator and its size, and the context. -/
def echo : Executor σ := fun t ctx =>
  return .ok [.obj
    [("attributes", .obj ctx.attributes), ("combinator", .str t.combinator.name),
     ("nodes", .nat t.nodeCount), ("root", .str t.id),
     ("tenant", (ctx.attribute? "tenant").getD .null)]]

end Executor

end Sieve
