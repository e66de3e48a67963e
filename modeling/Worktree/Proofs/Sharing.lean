import Worktree.Proofs.Growing

/-!
# Many owners of one store

Any number of trees and repositories work on one store, in any order, and others put contents into
it besides.  `Shared` is such a store with its owners, `Event` what can happen next, and
`Shared.run` a whole history.  Reading and reporting change neither owners nor store, so they are no
events; what they come to is asked of the state that a history leads to.

* `Shared.store_step` — whatever happens, the store is only put into;
* `Shared.Supplied.step` — whatever happens, the store has every object that an owner refers to;
* `references_stay_supplied` — so nothing that an owner does ever meets a missing object.

No two contents need to have different digests for this.
-/

namespace Worktree

open ObjectStore (putAll)

/-- A store and those who work on it. -/
structure Shared (σ : Type) where
  owners : List Owner
  store : σ

/-- What can happen to a shared store.  Owners are numbered in the order in which they came. -/
inductive Event where
  /-- Somebody puts a content. -/
  | put (content : ByteArray)
  /-- A tree without files comes. -/
  | newTree
  /-- The tree of a snapshot comes, if the store answers for the snapshot. -/
  | loadTree (s : Snapshot)
  /-- A repository without files and commits comes. -/
  | newRepository
  /-- The repository of a snapshot comes, if the store answers for the snapshot. -/
  | openRepository (s : Snapshot)
  /-- An owner makes a change. -/
  | change (owner : Nat) (c : Change)

namespace Shared

section Steps

variable {σ : Type} [ObjectStore σ]

/-- The state with one owner more, if the owner could be made. -/
def enlist (s : Shared σ) (o : Except Fault Owner) : Except Fault (Option Snapshot) × Shared σ :=
  match o with
  | .ok o => (.ok none, { s with owners := s.owners ++ [o] })
  | .error f => (.error f, s)

/-- What an event comes to, which is a snapshot if it is a commit, and the state after it.  A change
by an owner that there is not does nothing. -/
def step (s : Shared σ) : Event → Except Fault (Option Snapshot) × Shared σ
  | .put content => (.ok none, { s with store := (ObjectStore.put s.store content).2 })
  | .newTree => s.enlist (.ok (.tree .empty))
  | .loadTree snapshot => s.enlist ((Tree.load s.store snapshot).map .tree)
  | .newRepository => s.enlist (.ok (.repository .empty))
  | .openRepository snapshot => s.enlist ((Repository.load s.store snapshot).map .repository)
  | .change i c =>
    match s.owners[i]? with
    | none => (.ok none, s)
    | some o =>
      match o.change s.store c with
      | .ok x => (.ok x.recorded, ⟨s.owners.set i x.now, x.store⟩)
      | .error f => (.error f, s)

/-- The state after a history. -/
def run (s : Shared σ) (events : List Event) : Shared σ :=
  events.foldl (fun s e => (s.step e).2) s

omit [ObjectStore σ] in
/-- A new owner changes nothing about the store and the other owners. -/
theorem snd_enlist (s : Shared σ) (o : Except Fault Owner) :
    (s.enlist o).2 = s ∨ ∃ new, o = .ok new ∧ (s.enlist o).2 = ⟨s.owners ++ [new], s.store⟩ := by
  cases o with
  | error f => exact .inl rfl
  | ok new => exact .inr ⟨new, rfl, rfl⟩

/-- A change by an owner leaves the state alone, or it is a change that this owner can make. -/
theorem snd_step_change (s : Shared σ) (i : Nat) (c : Change) :
    (s.step (.change i c)).2 = s ∨
      ∃ o x, s.owners[i]? = some o ∧ o.change s.store c = .ok x ∧
        (s.step (.change i c)).2 = ⟨s.owners.set i x.now, x.store⟩ := by
  cases ho : s.owners[i]? with
  | none => exact .inl (by simp only [step, ho])
  | some o =>
      cases hx : o.change s.store c with
      | error f => exact .inl (by simp only [step, ho, hx])
      | ok x => exact .inr ⟨o, x, rfl, hx, by simp only [step, ho, hx]⟩

end Steps

/-! ## The store -/

/-- Whatever happens, the store is only put into. -/
theorem store_step (s : Shared Store) (e : Event) :
    ∃ contents, (s.step e).2.store = putAll s.store contents := by
  have henlist : ∀ o, (s.enlist o).2.store = putAll s.store [] := by
    intro o
    rcases s.snd_enlist o with heq | ⟨new, -, heq⟩ <;> rw [heq] <;> rfl
  cases e with
  | put content => exact ⟨[content], rfl⟩
  | newTree => exact ⟨[], henlist _⟩
  | loadTree snapshot => exact ⟨[], henlist _⟩
  | newRepository => exact ⟨[], henlist _⟩
  | openRepository snapshot => exact ⟨[], henlist _⟩
  | change i c =>
      rcases s.snd_step_change i c with heq | ⟨o, x, -, hx, heq⟩
      · exact ⟨[], congrArg Shared.store heq⟩
      · obtain ⟨y, hy, rfl⟩ := Owner.change_eq_ok hx
        obtain ⟨contents, -, hstore⟩ := Tree.store_of_change hy
        exact ⟨contents, (congrArg Shared.store heq).trans hstore⟩

theorem within_step (s : Shared Store) (e : Event) : s.store.Within (s.step e).2.store := by
  obtain ⟨contents, hstore⟩ := s.store_step e
  rw [hstore]
  exact .putAll s.store contents

/-- **The store of a history only grows.** -/
theorem within_run (s : Shared Store) (events : List Event) :
    s.store.Within (s.run events).store := by
  induction events generalizing s with
  | nil => exact .refl s.store
  | cons e rest ih => exact (s.within_step e).trans (ih (s.step e).2)

/-! ## The owners -/

/-- The store has every object that any of the owners refers to. -/
def Supplied (s : Shared Store) : Prop :=
  ∀ o ∈ s.owners, o.Supplied s.store

namespace Supplied

variable {s : Shared Store}

theorem enlist (h : s.Supplied) {o : Except Fault Owner}
    (ho : ∀ new, o = .ok new → new.Supplied s.store) : (s.enlist o).2.Supplied := by
  rcases s.snd_enlist o with heq | ⟨new, hnew, heq⟩
  · rw [heq]
    exact h
  · rw [heq]
    intro other hmem
    rcases List.mem_append.mp hmem with hold | hlast
    · exact h other hold
    · obtain rfl := List.mem_singleton.mp hlast
      exact ho other hnew

/-- **One event.**  The one who acts is supplied by what the event does, and the others because the
store has only grown. -/
theorem step (h : s.Supplied) (e : Event) : (s.step e).2.Supplied := by
  have hgrown : s.store.Within (s.step e).2.store := s.within_step e
  cases e with
  | put content => exact fun o ho => (h o ho).of_within hgrown
  | newTree =>
      apply h.enlist
      rintro new ⟨⟩
      exact Owner.supplied_tree_empty s.store
  | loadTree snapshot =>
      apply h.enlist
      intro new hnew
      obtain ⟨t, ht, rfl⟩ := map_eq_ok_iff.mp hnew
      exact Owner.supplied_of_load ht
  | newRepository =>
      apply h.enlist
      rintro new ⟨⟩
      exact Owner.supplied_repository_empty s.store
  | openRepository snapshot =>
      apply h.enlist
      intro new hnew
      obtain ⟨r, hr, rfl⟩ := map_eq_ok_iff.mp hnew
      exact Owner.supplied_of_open hr
  | change i c =>
      rcases s.snd_step_change i c with heq | ⟨o, x, ho, hx, heq⟩
      · rw [heq]
        exact h
      · rw [heq] at hgrown ⊢
        intro other hmem
        rcases List.mem_or_eq_of_mem_set hmem with hold | rfl
        · exact (h other hold).of_within hgrown
        · exact (h o (List.mem_of_getElem? ho)).change hx

/-- **A whole history.** -/
theorem run (h : s.Supplied) (events : List Event) : (s.run events).Supplied := by
  induction events generalizing s with
  | nil => exact h
  | cons e rest ih => exact ih (h.step e)

end Supplied

end Shared

/-- **References stay supplied.**  After any history on a shared store, whatever was in it at first,
the store has every object that a tree or the head of a repository refers to.  So no commit and no
report fails, whatever the snapshot reported against, and reading a file, now or in the head, fails
only for want of the file. -/
theorem references_stay_supplied (store : Store) (events : List Event) :
    let s := Shared.run ⟨[], store⟩ events
    ∀ o ∈ s.owners, o.Supplied s.store ∧
      (∃ k, o.working.commit s.store = .ok k) ∧
      (∀ options snapshot, ∃ r, o.working.report options s.store snapshot = .ok r) ∧
      (∀ path f, o.working.read s.store (.ofString path) = .error f →
        f = .notFound (.ofString path)) ∧
      ∀ r, o = .repository r →
        (∃ k, r.commit s.store = .ok k) ∧
        (∀ options, ∃ report, r.reportWith options s.store = .ok report) ∧
        ∀ path f, r.readHead s.store (.ofString path) = .error f →
          f = .notFound (.ofString path) := by
  intro s o ho
  have hnone : (⟨[], store⟩ : Shared Store).Supplied :=
    fun _ hmem => absurd hmem List.not_mem_nil
  have hsupplied : o.Supplied s.store := hnone.run events o ho
  have hfound := hsupplied.not_missing
  refine ⟨hsupplied, ?_, ?_, ?_, ?_⟩
  · exact (failsAtFirst_commit o.working s.store).exists_ok hfound
  · intro options snapshot
    exact (failsAtFirst_report o.working s.store snapshot options).exists_ok hfound
  · intro path f hf
    exact Tree.eq_notFound_of_read_error hfound hf
  · rintro r rfl
    refine ⟨?_, ?_, ?_⟩
    · rw [Repository.commit_eq_map]
      exact ((failsAtFirst_commit r.tree s.store).map _).exists_ok hfound
    · intro options
      exact (failsAtFirst_report r.tree s.store r.head options).exists_ok hfound
    · intro path f hf
      rw [Repository.readHead_eq_read] at hf
      have hhead : ∀ p d, ¬ r.head.Missing s.store p d :=
        Snapshot.not_missing_iff.mpr (hsupplied.head r.head rfl)
      exact Tree.eq_notFound_of_read_error (Tree.not_missing_ofSnapshot hhead) hf

/-- A tree records a file, a repository opens a snapshot of it, moves the file and commits; a
snapshot of an object that the store does not have yet is refused. -/
theorem references_stay_supplied_after_handover :
    let a := Digest.ofContent ⟨#[97]⟩
    let b := Digest.ofContent ⟨#[98]⟩
    let c := Digest.ofContent ⟨#[99]⟩
    let events : List Event := [.newTree, .put ⟨#[97]⟩, .change 0 (.write "./x" ⟨#[98]⟩),
      .change 0 .commit, .openRepository (.ofList [(.ofString "x", b), (.ofString "y", a)]),
      .loadTree (.ofList [(.ofString "x", c)]), .change 1 (.rename "/x" "u/../v"),
      .change 1 (.write "x" ⟨#[99]⟩), .change 1 .commit, .change 0 (.remove "x")]
    let s := Shared.run ⟨[], .empty⟩ events
    let head : Snapshot := .ofList [(.ofString "v", b), (.ofString "x", c), (.ofString "y", a)]
    let r : Repository := ⟨.ofSnapshot head, head, {}⟩
    Owner.repository r ∈ s.owners ∧ (Owner.repository r).Supplied s.store ∧
      ∃ k, r.commit s.store = .ok k := by
  intro a b c events s head r
  have hmem : Owner.repository r ∈ s.owners := by decide +kernel
  obtain ⟨hsupplied, -, -, -, hrepository⟩ := references_stay_supplied .empty events _ hmem
  exact ⟨hmem, hsupplied, (hrepository r rfl).1⟩

end Worktree
