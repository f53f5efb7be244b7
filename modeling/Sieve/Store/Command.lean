import Sieve.Store

/-!
# Commands and sessions

* `Command`: the changes that a store can be told to make, with `Store.run`, which makes one and
  gives the answer;
* `Session`: a store together with the subscriptions and the snapshots that its users hold by name,
  with `Session.step` for everything that may happen to it.
-/

namespace Sieve

/-- A change that a store can be told to make. -/
inductive Command
  | addRule (draft : Rule Unit) (parent : Option String)
  | addGroup (draft : Group Unit) (parent : Option String)
  | updateRule (id : String) (patch : RulePatch)
  | updateGroup (id : String) (patch : GroupPatch)
  | removeRule (id : String)
  | removeGroup (id : String)
  | removeNode (id : String)
  | replace (tree : Tree)
  | reset

/-- What a store answers. -/
inductive Answer
  | added (id : String)
  | refused (e : StoreError)
  | updated (hit : Bool)
  | removed (node : Option (Node String))
  | done

/-- The answer to an addition. -/
def Store.ofAdded (s : Store) : Except StoreError (String × Store) → Answer × Store
  | .ok (id, s) => (.added id, s)
  | .error e => (.refused e, s)

/-- Makes a change. -/
def Store.run (s : Store) : Command → Answer × Store
  | .addRule d p => s.ofAdded (s.addRule d p)
  | .addGroup d p => s.ofAdded (s.addGroup d p)
  | .updateRule id p => ((s.updateRule id p).map .updated fun s => s)
  | .updateGroup id p => ((s.updateGroup id p).map .updated fun s => s)
  | .removeRule id => ((s.remove id (some .rule)).map .removed fun s => s)
  | .removeGroup id => ((s.remove id (some .group)).map .removed fun s => s)
  | .removeNode id => ((s.remove id none).map .removed fun s => s)
  | .replace t => (.done, s.replace t)
  | .reset => (.done, s.reset)

/-- Makes several changes. -/
def Store.runAll (s : Store) (cs : List Command) : Store := cs.foldl (fun s c => (s.run c).2) s

/-- A store and what its users hold. -/
structure Session where
  store : Store
  subscriptions : List (String × Subscription) := []
  snapshots : List (String × Tree) := []

/-- What may happen to a session. -/
inductive Happening
  | change (c : Command)
  | subscribe (name : String)
  | look (name : String)
  | glance (name : String)
  | snapshot (name : String)

/-- What a session answers.  A watcher learns whether something is new, and gets the latest tree. -/
inductive Notice
  | answer (a : Answer)
  | news (changed : Bool) (latest : Tree)
  | done

namespace Session

/-- Whether a watcher has something new to see; one that never subscribed has not. -/
def hasNews (s : Session) (name : String) : Bool :=
  ((Keyed.lookup name s.subscriptions).map s.store.hasChanged).getD false

/-- Lets a watcher start from the present. -/
def subscribe (s : Session) (name : String) : Session :=
  { s with subscriptions := Keyed.insert name s.store.subscribe s.subscriptions }

/-- One thing happens.  A look marks the latest tree as seen, a glance does not. -/
def step (s : Session) : Happening → Notice × Session
  | .change c =>
    let (a, store) := s.store.run c
    (.answer a, { s with store := store })
  | .subscribe name => (.done, s.subscribe name)
  | .look name => (.news (s.hasNews name) s.store.channel.latest, s.subscribe name)
  | .glance name => (.news (s.hasNews name) s.store.channel.latest, s)
  | .snapshot name => (.done, { s with snapshots := Keyed.insert name s.store.tree s.snapshots })

end Session

end Sieve
