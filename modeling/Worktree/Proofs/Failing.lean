import Worktree.Proofs.Hosting

/-!
# How requests fail

A store can lose objects in two ways: it can refuse to give an object out, and it can deny having
it.  Reading a file asks the first question; checking a snapshot, loading one, committing and
reporting ask the second.  The two answers need not agree.

* `ReadsEntry` is the law of reading one entry of a tree or of a head;
* `ne_objectNotFound_of_serve` says that a store's own fault is never passed on;
* `eq_of_serve_error` says that a request that fails leaves the host as it was.

`faults_exactly` collects when each request fails, with which fault, and what it leaves.
-/

namespace Worktree

variable {σ : Type} [ObjectStore σ]

/-- What reading a path comes to when this is what is known of it: not found unless the entry is
live, corrupt exactly when the entry is committed and the store does not give its object out, and
otherwise the content. -/
structure ReadsEntry (store : σ) (p : Path) (entry : Option Entry)
    (result : Except Fault ByteArray) : Prop where
  notFound_iff : result = .error (.notFound p) ↔ entry.any Entry.isLive = false
  corrupt_iff : ∀ d, result = .error (.corrupt p d) ↔
    entry = some (.committed d) ∧ ∃ f, ObjectStore.get store d = .error f
  ok_iff : ∀ content, result = .ok content ↔
    entry = some (.written content) ∨
      ∃ d, entry = some (.committed d) ∧ ObjectStore.get store d = .ok content
  no_other : ∀ f, result = .error f → f = .notFound p ∨ ∃ d, f = .corrupt p d

namespace Tree

/-- A recorded digest reads as a committed entry does. -/
theorem readsEntry_fetch (store : σ) (p : Path) (d : Digest) :
    ReadsEntry store p (some (.committed d)) (fetch store p d) := by
  constructor
  · rw [fetch_eq_error_iff]
    simp [Entry.isLive]
  · intro e
    rw [fetch_eq_error_iff]
    simp only [Fault.corrupt.injEq, true_and, Option.some.injEq, Entry.committed.injEq]
    constructor
    · intro h
      obtain ⟨rfl, hget⟩ := h
      exact ⟨rfl, hget⟩
    · intro h
      obtain ⟨rfl, hget⟩ := h
      exact ⟨rfl, hget⟩
  · intro content
    rw [fetch_eq_ok_iff]
    simp
  · intro f hf
    exact .inr ⟨d, (fetch_eq_error_iff.mp hf).1⟩

theorem readsEntry_notFound (store : σ) (p : Path) {entry : Option Entry}
    (hdead : entry.any Entry.isLive = false) :
    ReadsEntry store p entry (.error (.notFound p)) := by
  have hnot_live : ∀ e, e.isLive = true → entry ≠ some e := by
    intro e he hentry
    rw [hentry] at hdead
    exact absurd he (by simpa using hdead)
  constructor
  · exact iff_of_true rfl hdead
  · intro d
    have hne := hnot_live (.committed d) rfl
    simp [hne]
  · intro content
    have hwritten := hnot_live (.written content) rfl
    have hcommitted : ∀ d, entry ≠ some (.committed d) := fun d => hnot_live (.committed d) rfl
    simp [hwritten, hcommitted]
  · intro f hf
    exact .inl (Except.error.inj hf).symm

/-- Reading a path of a tree follows its entry. -/
theorem readsEntry_read (store : σ) (t : Tree) (p : Path) :
    ReadsEntry store p (t.lookup p) (t.read store p) := by
  unfold read
  cases t.lookup p with
  | none => exact readsEntry_notFound store p rfl
  | some e =>
      cases e with
      | removed => exact readsEntry_notFound store p rfl
      | written content =>
          constructor
          · simp [Entry.isLive]
          · simp
          · simp [eq_comm]
          · intro f hf
            exact absurd hf (by simp)
      | committed d => exact readsEntry_fetch store p d

end Tree

/-- Reading a path of the head follows its record, taken as a committed entry. -/
theorem Repository.readsEntry_readHead (store : σ) (r : Repository) (p : Path) :
    ReadsEntry store p ((r.head.lookup p).map .committed) (r.readHead store p) := by
  unfold readHead
  cases r.head.lookup p with
  | none => exact Tree.readsEntry_notFound store p rfl
  | some d => exact Tree.readsEntry_fetch store p d

theorem ReadsEntry.ne_objectNotFound {store : σ} {p : Path} {entry : Option Entry}
    {result : Except Fault ByteArray} (h : ReadsEntry store p entry result) (d : Digest) :
    result ≠ .error (.objectNotFound d) := by
  intro hresult
  rcases h.no_other _ hresult with hf | ⟨e, hf⟩
  · exact absurd hf (by simp)
  · exact absurd hf (by simp)

/-- Text fails as its content does, or because the content is no text. -/
theorem Tree.ne_objectNotFound_of_readText (store : σ) (t : Tree) (p : Path) (d : Digest) :
    t.readText store p ≠ .error (.objectNotFound d) := by
  unfold readText
  cases hread : t.read store p with
  | error f =>
      intro hresult
      obtain rfl : f = .objectNotFound d := Except.error.inj hresult
      exact (readsEntry_read store t p).ne_objectNotFound d hread
  | ok content =>
      intro hresult
      cases hdecode : Text.decode content with
      | error reason =>
          simp [bind, Except.bind, hdecode, throw, throwThe, MonadExceptOf.throw] at hresult
      | ok text => simp [bind, Except.bind, hdecode, pure, Except.pure] at hresult

/-- A repository is committed as its tree is. -/
theorem Repository.commit_eq_map (store : σ) (r : Repository) :
    r.commit store = (r.tree.commit store).map fun c =>
      ({ r with tree := c.tree, head := c.snapshot }, c.store) := by
  unfold commit
  cases r.tree.commit store <;> rfl

/-- Moving a file of a repository fails as moving it in the tree does. -/
theorem Repository.rename_eq_error_iff {r : Repository} {source target : Path} {f : Fault} :
    r.rename source target = .error f ↔ r.isLive source = false ∧ f = .notFound source := by
  rw [isLive, ← @Tree.rename_eq_error_iff r.tree source target f]
  unfold rename
  cases r.tree.rename source target <;> simp [bind, Except.bind, pure, Except.pure]

namespace Host

theorem change_eq_error {h : Host σ} {c : Change} {f : Fault} (hf : (h.change c).1 = .error f) :
    (∃ p, f = .notFound p) ∨ ∃ p d, f = .corrupt p d := by
  cases c with
  | write path content => exact absurd hf (by simp [change])
  | remove path => exact absurd hf (by simp [change])
  | rename source target =>
      cases hr : h.repository.rename (.ofString source) (.ofString target) with
      | ok r => simp [change, hr] at hf
      | error g =>
          obtain rfl : g = f := by simpa [change, hr] using hf
          exact .inl ⟨_, (Repository.rename_eq_error_iff.mp hr).2⟩
  | commit =>
      cases hr : h.repository.commit h.store with
      | ok r => simp [change, hr] at hf
      | error g =>
          obtain rfl : g = f := by simpa [change, hr] using hf
          rw [Repository.commit_eq_map, map_eq_error_iff] at hr
          obtain ⟨p, d, hg, -⟩ := (failsAtFirst_commit _ _).names_first g hr
          exact .inr ⟨p, d, hg⟩

/-- A change that fails leaves the host as it was. -/
theorem eq_of_change_error {h : Host σ} {c : Change} {f : Fault}
    (hf : (h.change c).1 = .error f) : (h.change c).2 = h := by
  cases c with
  | write path content => exact absurd hf (by simp [change])
  | remove path => exact absurd hf (by simp [change])
  | rename source target =>
      cases hr : h.repository.rename (.ofString source) (.ofString target) with
      | ok r => simp [change, hr] at hf
      | error g => simp [change, hr]
  | commit =>
      cases hr : h.repository.commit h.store with
      | ok r => simp [change, hr] at hf
      | error g => simp [change, hr]

omit [ObjectStore σ] in
theorem eq_of_install_error {α : Type} {h : Host σ} {put : α → Host σ}
    {result : Except Fault α} {f : Fault} (hf : (h.install put result).1 = .error f) :
    result = .error f ∧ (h.install put result).2 = h := by
  cases result with
  | ok a => exact absurd hf (by simp [install])
  | error g =>
      obtain rfl : g = f := Except.error.inj hf
      exact ⟨rfl, rfl⟩

/-- A request that fails leaves the host as it was. -/
theorem eq_of_serve_error {h : Host σ} {q : Request} {f : Fault}
    (hf : (h.serve q).1 = .error f) : (h.serve q).2 = h := by
  cases q with
  | change c => exact eq_of_change_error (map_eq_error_iff.mp hf)
  | load s => exact (eq_of_install_error hf).2
  | reopen s => exact (eq_of_install_error hf).2
  | _ => rfl

/-- No request is answered with the store's own fault. -/
theorem ne_objectNotFound_of_serve (h : Host σ) (q : Request) (d : Digest) :
    (h.serve q).1 ≠ .error (.objectNotFound d) := by
  intro hf
  cases q with
  | change c =>
      rcases change_eq_error (map_eq_error_iff.mp hf) with ⟨p, heq⟩ | ⟨p, e, heq⟩
      · exact absurd heq (by simp)
      · exact absurd heq (by simp)
  | isLive path => exact absurd hf (by simp [serve, answer, Except.map])
  | read path =>
      exact (Tree.readsEntry_read _ _ _).ne_objectNotFound d (map_eq_error_iff.mp hf)
  | readText path =>
      exact Tree.ne_objectNotFound_of_readText _ _ _ d (map_eq_error_iff.mp hf)
  | readHead path =>
      exact (h.repository.readsEntry_readHead _ _).ne_objectNotFound d (map_eq_error_iff.mp hf)
  | report => exact (failsAtFirst_report _ _ _ _).ne_objectNotFound d (map_eq_error_iff.mp hf)
  | reportWith o =>
      exact (failsAtFirst_report _ _ _ _).ne_objectNotFound d (map_eq_error_iff.mp hf)
  | compare o s => exact (failsAtFirst_report _ _ _ _).ne_objectNotFound d (map_eq_error_iff.mp hf)
  | verify s => exact (failsAtFirst_verify _ _).ne_objectNotFound d (map_eq_error_iff.mp hf)
  | load s => exact (failsAtFirst_load _ _).ne_objectNotFound d (eq_of_install_error hf).1
  | reopen s => exact (failsAtFirst_open _ _).ne_objectNotFound d (eq_of_install_error hf).1

end Host

/-- **Faults, exactly.**  Whatever the store refuses to give out and whatever it denies having:

* reading a file, now or in the head, fails as its entry says;
* checking, loading and opening a snapshot and committing a tree fail exactly when the store denies
  having an object, and name the first path in byte order;
* moving a file fails exactly when there is none;
* no request is answered with the store's own fault;
* a request that fails leaves tree, head and store as they were, and so does a change made in place,
  entry by entry. -/
theorem faults_exactly (h : Host σ) :
    (∀ path,
      (h.repository.read h.store (.ofString path) = .error (.notFound (.ofString path)) ↔
        h.repository.isLive (.ofString path) = false) ∧
      ReadsEntry h.store (.ofString path) (h.repository.tree.lookup (.ofString path))
        (h.repository.read h.store (.ofString path)) ∧
      ReadsEntry h.store (.ofString path)
        ((h.repository.head.lookup (.ofString path)).map .committed)
        (h.repository.readHead h.store (.ofString path))) ∧
    (∀ s : Snapshot,
      FailsAtFirst (s.Missing h.store) (s.verify h.store) ∧
      FailsAtFirst (s.Missing h.store) (Tree.load h.store s) ∧
      FailsAtFirst (s.Missing h.store) (Repository.load h.store s)) ∧
    (FailsAtFirst (h.repository.tree.Missing h.store) (h.repository.tree.commit h.store) ∧
      FailsAtFirst (h.repository.tree.Missing h.store) (h.repository.commit h.store)) ∧
    (∀ source target f,
      h.repository.rename (.ofString source) (.ofString target) = .error f ↔
        h.repository.isLive (.ofString source) = false ∧ f = .notFound (.ofString source)) ∧
    (∀ q d, (h.serve q).1 ≠ .error (.objectNotFound d)) ∧
    (∀ q f, (h.serve q).1 = .error f → (h.serve q).2 = h) ∧
    ∀ c, (InPlace.change c).on h = h.change c ∧
      ∀ f, ((InPlace.change c).on h).1 = .error f → ((InPlace.change c).on h).2 = h := by
  refine ⟨?_, ?_, ⟨?_, ?_⟩, ?_, ?_, ?_, ?_⟩
  · intro path
    have hread := Tree.readsEntry_read h.store h.repository.tree (.ofString path)
    refine ⟨?_, hread, h.repository.readsEntry_readHead h.store (.ofString path)⟩
    rw [Repository.isLive, Tree.isLive_eq_any]
    exact hread.notFound_iff
  · intro s
    exact ⟨failsAtFirst_verify s h.store, failsAtFirst_load s h.store,
      failsAtFirst_open s h.store⟩
  · exact failsAtFirst_commit h.repository.tree h.store
  · rw [Repository.commit_eq_map]
    exact (failsAtFirst_commit h.repository.tree h.store).map _
  · intro source target f
    exact Repository.rename_eq_error_iff
  · exact h.ne_objectNotFound_of_serve
  · intro q f hf
    exact Host.eq_of_serve_error hf
  · intro c
    refine ⟨InPlace.on_change c h, ?_⟩
    intro f hf
    rw [InPlace.on_change] at hf ⊢
    exact Host.eq_of_change_error hf

end Worktree
