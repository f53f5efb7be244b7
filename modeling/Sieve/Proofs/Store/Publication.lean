import Sieve.Proofs.Store.Step
import Sieve.Proofs.Tree.Equality
import Sieve.Proofs.Tree.Outline

/-!
# Publication

The owner of a store, its readers and its watchers have the same tree at every time, and whoever
watches learns of every new tree.

* `Store.Made`: the stores that are made of nothing, of a configuration, of a tree or of a text;
* `Store.Coherent`: what is in the cell of the store is the tree of the owner, and all publications are
  counted;
* `Store.publishes_run` is the step: a change leaves the store alone, or publishes a tree that differs from
  the one before.  Each operation looks in its own way whether there is something to publish, and none
  publishes the tree that stands there already;
* `Store.cell_run`: no operation gives a store another cell.  So a reader that was made at any time names
  the cell of the store (`Session.cell_runAll`);
* `Session.changes` counts the times that the tree has become another one;
* `Session.coherent_runAll`: the run, with what a reader gets that was made at any time before, and with
  what a watcher has to see since its last look.
-/

namespace Sieve

namespace Store

/-- A store just made. -/
inductive Made : Store → Prop
  | empty (ids : IdSupply) : Made (Store.empty ids)
  | ofConfig (ids : IdSupply) (c : FilterConfig) : Made (Store.ofConfig ids c)
  | ofTree (ids : IdSupply) (t : Tree) : Made (Store.ofTree ids t)
  | ofText (ids : IdSupply) (text : String) (s : Store) (read : Store.ofText ids text = .ok s) : Made s

/-- Owner, readers and watchers have the same tree, and every publication has been counted. -/
structure Coherent (s : Store) : Prop where
  published : s.cells s.cell = s.tree
  latest : s.channel.latest = s.tree
  revision : s.channel.revision = s.version

theorem coherent_ofTree (ids : IdSupply) (t : Tree) : (ofTree ids t).Coherent := ⟨rfl, rfl, rfl⟩

theorem Made.coherent {s : Store} (h : s.Made) : s.Coherent ∧ s.version = 0 := by
  cases h with
  | empty ids => exact ⟨coherent_ofTree _ _, rfl⟩
  | ofConfig ids c => exact ⟨coherent_ofTree _ _, rfl⟩
  | ofTree ids t => exact ⟨coherent_ofTree ids t, rfl⟩
  | ofText ids text s read =>
    unfold Store.ofText at read
    split at read
    next t ht =>
      cases read
      exact ⟨coherent_ofTree ids t, rfl⟩
    next => cases read

/-! ### One change -/

/-- What a change may do to a store: nothing, or it publishes a different tree. -/
def Publishes (s s' : Store) : Prop :=
  s' = s ∨ ∃ ids t, (s.tree == t) = false ∧ s' = { s with ids := ids }.commit t

theorem publishes_add (s : Store) (d : Node Unit) (p : Option String) :
    s.Publishes (s.ofAdded (s.add d p)).2 := by
  obtain ⟨-, he⟩ | ⟨path, g, t, hg, ht, he⟩ := s.add_cases d p <;> rw [he]
  · exact .inl rfl
  · exact .inr ⟨_, t, (Group.beq_replaceAt (Group.at?_of_first? hg) ht).trans (Group.beq_push g _), rfl⟩

theorem publishes_updateRule (s : Store) (id : String) (p : RulePatch) :
    s.Publishes (s.updateRule id p).2 := by
  obtain ⟨-, he⟩ | ⟨path, r, hr, ⟨-, he⟩ | ⟨hne, t, ht, he⟩⟩ := s.updateRule_cases id p <;> rw [he]
  · exact .inl rfl
  · exact .inl rfl
  · -- the operation compares the changed rule with the old one, and not the other way round
    rw [Rule.beq_comm] at hne
    exact .inr ⟨_, t, (Group.beq_replaceAt (Group.at?_of_first? hr) ht).trans hne, rfl⟩

theorem publishes_updateGroup (s : Store) (id : String) (p : GroupPatch) :
    s.Publishes (s.updateGroup id p).2 := by
  obtain ⟨-, he⟩ | ⟨path, g, hg, ⟨-, he⟩ | ⟨hne, t, ht, he⟩⟩ := s.updateGroup_cases id p <;> rw [he]
  · exact .inl rfl
  · exact .inl rfl
  · have hdiffer : Node.beq g.toNode (p.apply g).toNode = false := by rw [Group.beq_apply, hne]; rfl
    exact .inr ⟨_, t, (Group.beq_replaceAt (Group.at?_of_first? hg) ht).trans hdiffer, rfl⟩

theorem publishes_remove (s : Store) (id : String) (kind : Option Kind) :
    s.Publishes (s.remove id kind).2 := by
  obtain he | ⟨n, t, -, hr, he⟩ := s.remove_cases id kind <;> rw [he]
  · exact .inl rfl
  · obtain ⟨l, r, hs, ht⟩ := Group.ids_remove? hr
    have hids : s.tree.ids ≠ t.ids := fun heq => n.ids_ne_nil (by simpa [hs, ht] using heq)
    exact .inr ⟨_, t, Group.beq_of_ids_ne hids, rfl⟩

theorem publishes_replace (s : Store) (t : Tree) : s.Publishes (s.replace t) := by
  obtain ⟨-, he⟩ | ⟨hne, he⟩ := s.replace_cases t <;> rw [he]
  · exact .inl rfl
  · exact .inr ⟨_, t, hne, rfl⟩

/-- A change leaves a store alone, or publishes a tree that differs from the one before. -/
theorem publishes_run (s : Store) (c : Command) : s.Publishes (s.run c).2 := by
  cases c with
  | addRule d p => exact s.publishes_add (.rule d) p
  | addGroup d p => exact s.publishes_add d.toNode p
  | updateRule id p => exact s.publishes_updateRule id p
  | updateGroup id p => exact s.publishes_updateGroup id p
  | removeRule id => exact s.publishes_remove id (some .rule)
  | removeGroup id => exact s.publishes_remove id (some .group)
  | removeNode id => exact s.publishes_remove id none
  | replace t => exact s.publishes_replace t
  | reset => exact s.publishes_replace _

/-! ### The cell of a store -/

/-- No operation gives a store another cell. -/
theorem cell_run (s : Store) (c : Command) : (s.run c).2.cell = s.cell := by
  obtain he | ⟨ids, t, -, he⟩ := s.publishes_run c <;> rw [he]
  rfl

/-- A tree that is published is in the cell, and is the latest on the channel. -/
theorem Coherent.commit {s : Store} (hs : s.Coherent) (ids : IdSupply) (t : Tree) :
    ({ s with ids := ids }.commit t).Coherent :=
  ⟨if_pos rfl, rfl, congrArg (· + 1) hs.revision⟩

end Store

/-! ### What happens to a session -/

namespace Session

/-- Several things happen. -/
def runAll (s : Session) (hs : List Happening) : Session := hs.foldl (fun s h => (s.step h).2) s

/-- The number of times that the tree becomes a different one. -/
def changes : Session → List Happening → Nat
  | _, [] => 0
  | s, h :: hs =>
    (if s.store.tree == (s.step h).2.store.tree then 0 else 1) + changes (s.step h).2 hs

end Session

/-- The watcher that has now seen the latest tree. -/
def Happening.marked? : Happening → Option String
  | .subscribe name => some name
  | .look name => some name
  | _ => none

namespace Session

theorem runAll_cons (s : Session) (h : Happening) (hs : List Happening) :
    s.runAll (h :: hs) = (s.step h).2.runAll hs := rfl

theorem runAll_append (s : Session) (hs hs' : List Happening) :
    s.runAll (hs ++ hs') = (s.runAll hs).runAll hs' := List.foldl_append

/-- Only a change touches the store. -/
theorem publishes_step (s : Session) (h : Happening) : s.store.Publishes (s.step h).2.store := by
  cases h with
  | change c => exact s.store.publishes_run c
  | subscribe name => exact .inl rfl
  | look name => exact .inl rfl
  | glance name => exact .inl rfl
  | snapshot name => exact .inl rfl

/-- One step keeps a store coherent, and the version counts the step if it makes a different tree. -/
theorem coherent_step {s : Session} (hs : s.store.Coherent) (h : Happening) :
    (s.step h).2.store.Coherent ∧ (s.step h).2.store.version =
      s.store.version + if s.store.tree == (s.step h).2.store.tree then 0 else 1 := by
  obtain he | ⟨ids, t, hne, he⟩ := s.publishes_step h
  · rw [he, Group.beq_self]
    exact ⟨hs, rfl⟩
  · rw [he, Store.tree_commit, hne]
    exact ⟨hs.commit ids t, rfl⟩

/-- A run keeps a store coherent, and the version counts the trees that differ from the one before. -/
theorem version_runAll {s : Session} (hs : s.store.Coherent) (run : List Happening) :
    (s.runAll run).store.Coherent ∧ (s.runAll run).store.version = s.store.version + s.changes run := by
  induction run generalizing s with
  | nil => exact ⟨hs, rfl⟩
  | cons h run ih =>
    obtain ⟨hstep, hversion⟩ := coherent_step hs h
    obtain ⟨hrun, hcount⟩ := ih hstep
    refine ⟨hrun, ?_⟩
    rw [runAll_cons, hcount, hversion, changes, Nat.add_assoc]

/-- Only a change could give the store of a session another cell. -/
theorem cell_step (s : Session) (h : Happening) : (s.step h).2.store.cell = s.store.cell := by
  cases h with
  | change c => exact s.store.cell_run c
  | subscribe name => rfl
  | look name => rfl
  | glance name => rfl
  | snapshot name => rfl

/-- A reader names the cell of the store, whenever it was made. -/
theorem cell_runAll (s : Session) (run : List Happening) :
    (s.runAll run).store.cell = s.store.cell := by
  induction run generalizing s with
  | nil => rfl
  | cons h run ih => rw [runAll_cons, ih, cell_step]

/-! ### Watchers -/

variable {name : String}

/-- A mark says that everything published so far has been seen. -/
theorem lookup_step_of_marked {h : Happening} (s : Session) (hm : h.marked? = some name) :
    Keyed.lookup name (s.step h).2.subscriptions = some ⟨s.store.channel.revision⟩ := by
  cases h with
  | subscribe other =>
    cases hm
    exact (Keyed.lookup_insert _ _ _ _).trans (if_pos rfl)
  | look other =>
    cases hm
    exact (Keyed.lookup_insert _ _ _ _).trans (if_pos rfl)
  | change c => cases hm
  | glance other => cases hm
  | snapshot other => cases hm

/-- Whatever else happens leaves alone what a watcher has seen. -/
theorem lookup_step {h : Happening} (s : Session) (hm : h.marked? ≠ some name) :
    Keyed.lookup name (s.step h).2.subscriptions = Keyed.lookup name s.subscriptions := by
  cases h with
  | subscribe other =>
    have hne : other ≠ name := fun he => hm (congrArg some he)
    exact (Keyed.lookup_insert _ _ _ _).trans (if_neg hne)
  | look other =>
    have hne : other ≠ name := fun he => hm (congrArg some he)
    exact (Keyed.lookup_insert _ _ _ _).trans (if_neg hne)
  | change c => rfl
  | glance other => rfl
  | snapshot other => rfl

theorem lookup_runAll (s : Session) {run : List Happening}
    (hm : ∀ h ∈ run, h.marked? ≠ some name) :
    Keyed.lookup name (s.runAll run).subscriptions = Keyed.lookup name s.subscriptions := by
  induction run generalizing s with
  | nil => rfl
  | cons h run ih =>
    rw [runAll_cons, ih _ fun h' hh' => hm h' (List.mem_cons_of_mem _ hh'),
      lookup_step s (hm h List.mem_cons_self)]

/-- A watcher has something to see if there are publications since its last mark. -/
theorem hasNews_runAll {mark : Happening} (s : Session) (hmark : mark.marked? = some name)
    {run : List Happening} (hrun : ∀ h ∈ run, h.marked? ≠ some name) :
    (s.runAll (mark :: run)).hasNews name = true ↔
      s.store.channel.revision ≠ (s.runAll (mark :: run)).store.channel.revision := by
  have hseen := lookup_runAll (s.step mark).2 hrun
  rw [lookup_step_of_marked s hmark] at hseen
  rw [hasNews, runAll_cons, hseen]
  simp [Store.hasChanged]

/-! ### Coherence -/

/-- **At every time all readers, whenever they were made, and all watchers get the tree of the owner, the
version is the number of publications and of the times that the tree has become a different one, and a
watcher has something new to see if and only if the version has grown since it last marked the tree as
seen.** -/
theorem coherent_runAll {store : Store} (made : store.Made) (run : List Happening) :
    (∀ before after, run = before ++ after →
      (runAll { store } run).store.load (runAll { store } before).store.reader =
        (runAll { store } run).store.tree) ∧
    (runAll { store } run).store.channel.latest = (runAll { store } run).store.tree ∧
    (runAll { store } run).store.version = changes { store } run ∧
    (runAll { store } run).store.version = (runAll { store } run).store.channel.revision ∧
    ∀ name before mark after, run = before ++ mark :: after → mark.marked? = some name →
      (∀ h ∈ after, h.marked? ≠ some name) →
      ((runAll { store } run).hasNews name = true ↔
        (runAll { store } before).store.version < (runAll { store } run).store.version) := by
  obtain ⟨hcoherent, hzero⟩ := made.coherent
  obtain ⟨hrun, hversion⟩ := version_runAll (s := { store }) hcoherent run
  refine ⟨fun before _ _ => ?_, hrun.latest, ?_, hrun.revision.symm, ?_⟩
  · rw [Store.load, Store.reader, cell_runAll, ← cell_runAll _ run]
    exact hrun.published
  · rw [hversion, hzero, Nat.zero_add]
  · rintro name before mark after rfl hmark hafter
    obtain ⟨hbefore, -⟩ := version_runAll (s := { store }) hcoherent before
    have hgrows := (version_runAll hbefore (mark :: after)).2
    rw [runAll_append] at hrun ⊢
    rw [hasNews_runAll _ hmark hafter, hbefore.revision, hrun.revision]
    omega

/-- A store with a few ids to give away. -/
def watchedStore : Store := .empty ⟨fun n => ["root", "a"].getD n "", 0⟩

/-- A rule comes in before somebody watches.  Then everything is taken out, and once more. -/
def watchedRun : List Happening :=
  [.change (.addRule (Rule.draft "age" "gt" "number") none), .subscribe "w", .change .reset,
    .glance "w", .change .reset]

theorem coherent_watchedRun :
    (runAll { store := watchedStore } watchedRun).store.tree.ids = ["root"] ∧
      (runAll { store := watchedStore } watchedRun).store.load watchedStore.reader =
        (runAll { store := watchedStore } watchedRun).store.tree ∧
      (runAll { store := watchedStore } watchedRun).store.version = 2 ∧
      (runAll { store := watchedStore } watchedRun).hasNews "w" = true := by
  obtain ⟨hload, -, hversion, -, hnews⟩ := coherent_runAll (.empty _ : watchedStore.Made) watchedRun
  have hafter : ∀ h ∈ [Happening.change .reset, .glance "w", .change .reset],
      h.marked? ≠ some "w" := by decide
  refine ⟨by decide, hload [] _ rfl, hversion.trans (by decide), ?_⟩
  exact (hnews "w" [_] (.subscribe "w") _ rfl rfl hafter).2 (by decide)

end Session

end Sieve
