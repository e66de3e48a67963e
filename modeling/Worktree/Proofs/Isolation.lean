import Mathlib.Logic.Function.Basic
import Worktree.Proofs.Growing

/-!
# Repositories that share a store do not see each other

Any number of repositories are asked for changes and for answers, in any order, and share one store.
What each of them is answered, and what becomes of it, is what it would be if nobody else were
there: all that the others do is to put objects into the store, and a repository looks at no object
but those that it refers to.

The comparison is between two runs, the joint one and the one of a repository alone.  The store of
the latter is within the store of the former, and that is all there is between them
(`Sharers.AlikeFor`).  A commit keeps it so: what the repository puts alone is kept in the joint
store too, unless another content with the same digest is there already, which is what
`Sharers.Meets` and the assumption about digests exclude.

* `Host.serve_cases` says once all that a request can do;
* `Sharers.AlikeFor.of_other` and `Sharers.AlikeFor.serve` are the single steps, a request to another
  repository and one to this;
* `sharers_are_isolated` is the whole run.
-/

namespace Worktree

open ObjectStore (putAll)

/-! ## One repository over two stores -/

/-- Whether a request is about nothing but the repository's own files and commits.  The others name
a snapshot that the store must answer for. -/
def Request.isOwn : Request → Bool
  | .verify _ => false
  | .load _ => false
  | .reopen _ => false
  | _ => true

section TwoStores

variable {s u : Store} {t : Tree}

/-- Where only known contents are kept and put, only known contents are kept afterwards. -/
theorem Store.mem_of_get?_putAll {known : Set ByteArray} {contents : List ByteArray}
    (hstored : ∀ d c, u.objects.get? d = some c → c ∈ known) (hcontents : ∀ c ∈ contents, c ∈ known)
    (d : Digest) (c : ByteArray) (h : (putAll u contents).objects.get? d = some c) : c ∈ known := by
  rcases Store.eq_or_mem_of_get?_putAll h with hold | ⟨hmem, -⟩
  · exact hstored d c hold
  · exact hcontents c hmem

/-- The same contents put on both sides keep one store within the other, where digests tell apart
all contents of the larger one. -/
theorem Store.within_putAll_putAll (h : s.Within u) (hstore : u.IsPut) {contents : List ByteArray}
    {known : Set ByteArray} (hinj : Set.InjOn Digest.ofContent known)
    (hstored : ∀ d c, u.objects.get? d = some c → c ∈ known)
    (hcontents : ∀ c ∈ contents, c ∈ known) : (putAll s contents).Within (putAll u contents) := by
  intro d c hc
  rcases Store.eq_or_mem_of_get?_putAll hc with hold | ⟨hmem, rfl⟩
  · exact Store.get?_putAll_of_get? (h d c hold) contents
  -- The larger store may have had an object there already, and then it kept that one.
  · have hkept : (putAll u contents).contains (.ofContent c) = true :=
      (Store.contains_putAll u contents _).mpr (.inr ⟨c, hmem, rfl⟩)
    exact Store.get?_ofContent (hstore.putAll contents) hinj
      (Store.mem_of_get?_putAll hstored hcontents) (hcontents c hmem) hkept

theorem Tree.readText_of_within (h : s.Within u) (hfound : ∀ p d, ¬ t.Missing s p d) (p : Path) :
    t.readText u p = t.readText s p := by
  unfold readText
  rw [read_of_within h hfound]

theorem Tree.report_of_within (h : s.Within u) (hfound : ∀ p d, ¬ t.Missing s p d)
    (o : ReportOptions) (snapshot : Snapshot) : t.report o u snapshot = t.report o s snapshot := by
  have hsmall : t.report o s snapshot = .ok _ := Tree.report_eq_ok_iff.mpr ⟨hfound, rfl⟩
  have hlarge : t.report o u snapshot = .ok _ :=
    Tree.report_eq_ok_iff.mpr ⟨Tree.not_missing_of_within h hfound, rfl⟩
  rw [hsmall, hlarge]

/-- A change to a tree comes to the same on both sides and puts the same contents. -/
theorem Tree.change_of_within (h : s.Within u) (hfound : ∀ p d, ¬ t.Missing s p d) (c : Change) :
    (∃ f, t.change s c = .error f ∧ t.change u c = .error f) ∨
    ∃ now contents recorded, contents ⊆ t.contents ∧
      t.change s c = .ok ⟨now, putAll s contents, recorded⟩ ∧
      t.change u c = .ok ⟨now, putAll u contents, recorded⟩ := by
  cases c with
  | write path content => exact .inr ⟨_, [], none, List.nil_subset _, rfl, rfl⟩
  | remove path => exact .inr ⟨_, [], none, List.nil_subset _, rfl, rfl⟩
  | rename source target =>
      cases hr : t.rename (.ofString source) (.ofString target) with
      | error f => exact .inl ⟨f, by simp only [change, hr]; rfl, by simp only [change, hr]; rfl⟩
      | ok v =>
          exact .inr ⟨v, [], none, List.nil_subset _, by simp only [change, hr]; rfl,
            by simp only [change, hr]; rfl⟩
  | commit =>
      have hsmall := Tree.commit_eq_ok_iff.mpr ⟨hfound, Tree.recorded_eq t s⟩
      have hlarge :=
        Tree.commit_eq_ok_iff.mpr ⟨Tree.not_missing_of_within h hfound, Tree.recorded_eq t u⟩
      refine .inr ⟨ofSnapshot t.digests, t.contents, some t.digests, List.Subset.refl _, ?_, ?_⟩
      · rw [change, hsmall]
        rfl
      · rw [change, hlarge]
        rfl

end TwoStores

/-! ## Requests to a host -/

namespace Host

section Cases

variable {σ : Type} [ObjectStore σ]

/-- **All that a request can do.**  It leaves everything as it was, or it changes the tree, or it
takes the tree of a snapshot, which no repository does that asks for its own only. -/
theorem serve_cases (r : Repository) (store : σ) (q : Request) :
    ((⟨r, store⟩ : Host σ).serve q).2 = ⟨r, store⟩ ∨
    (∃ c x, q = .change c ∧ r.tree.change store c = .ok x ∧
      ((⟨r, store⟩ : Host σ).serve q).2 =
        ⟨{ r with tree := x.now, head := x.recorded.getD r.head }, x.store⟩) ∨
    (q.isOwn = false ∧ ∃ r' s, ((⟨r, store⟩ : Host σ).serve q).2 = ⟨r', store⟩ ∧
      r'.tree = Tree.ofSnapshot s) := by
  cases q with
  | change c =>
      have hchange := change_eq r store c
      cases hx : r.tree.change store c with
      | error f =>
          rw [hx] at hchange
          exact .inl (by simp only [serve, hchange])
      | ok x =>
          rw [hx] at hchange
          exact .inr (.inl ⟨c, x, rfl, hx, by simp only [serve, hchange]⟩)
  | load s =>
      cases hload : Tree.load store s with
      | error f => exact .inl (by simp only [serve, hload, install])
      | ok t =>
          obtain ⟨-, rfl⟩ := Tree.load_eq_ok_iff.mp hload
          refine .inr (.inr ⟨rfl, { r with tree := .ofSnapshot s }, s, ?_, rfl⟩)
          simp only [serve, hload, install]
  | reopen s =>
      cases hload : Repository.load store s with
      | error f => exact .inl (by simp only [serve, hload, install])
      | ok r' =>
          have hopened := hload
          rw [Repository.load_eq_map, map_eq_ok_iff] at hopened
          obtain ⟨-, -, rfl⟩ := hopened
          refine .inr (.inr ⟨rfl, ⟨.ofSnapshot s, s, {}⟩, s, ?_, rfl⟩)
          simp only [serve, hload, install]
  | _ => exact .inl rfl

end Cases

variable {s u : Store} {r : Repository}

/-- A request puts contents that are written in the tree. -/
theorem store_serve (r : Repository) (store : Store) (q : Request) :
    ∃ contents, contents ⊆ r.tree.contents ∧
      ((⟨r, store⟩ : Host Store).serve q).2.store = putAll store contents := by
  rcases serve_cases r store q with heq | ⟨c, x, -, hx, heq⟩ | ⟨-, r', snapshot, heq, -⟩
  · rw [heq]
    exact ⟨[], List.nil_subset _, rfl⟩
  · rw [heq]
    exact Tree.store_of_change hx
  · rw [heq]
    exact ⟨[], List.nil_subset _, rfl⟩

/-- What is written in the tree after a request was written before, or the request writes it. -/
theorem written_serve {store : Store} {q : Request} {content : ByteArray}
    (h : content ∈ ((⟨r, store⟩ : Host Store).serve q).2.repository.tree.contents) :
    (∃ path, q = .change (.write path content)) ∨ content ∈ r.tree.contents := by
  rcases serve_cases r store q with heq | ⟨c, x, rfl, hx, heq⟩ | ⟨-, r', snapshot, heq, htree⟩
  · rw [heq] at h
    exact .inr h
  · rw [heq] at h
    rcases Tree.change_cases hx with ⟨k, -, hk, rfl⟩ | ⟨-, -, -, hentries⟩
    · obtain ⟨-, rfl⟩ := Tree.commit_eq_ok_iff.mp hk
      have hmem : content ∈ (Tree.ofSnapshot (r.tree.recorded store).snapshot).contents := h
      rw [Tree.contents_ofSnapshot] at hmem
      exact absurd hmem List.not_mem_nil
    · obtain ⟨p, hp⟩ := Tree.mem_contents_iff.mp h
      rcases hentries p _ hp with hremoved | ⟨path, new, rfl, hwritten⟩ | ⟨q, hq⟩
      · exact absurd hremoved (by simp)
      · obtain rfl := Entry.written.inj hwritten
        exact .inl ⟨path, rfl⟩
      · exact .inr (Tree.mem_contents_iff.mpr ⟨q, hq⟩)
  · rw [heq, htree, Tree.contents_ofSnapshot] at h
    exact absurd h List.not_mem_nil

/-- A repository that the store supplies is supplied after each request for its own. -/
theorem supplied_serve {store : Store} (h : (Owner.repository r).Supplied store) {q : Request}
    (hq : q.isOwn = true) :
    (Owner.repository ((⟨r, store⟩ : Host Store).serve q).2.repository).Supplied
      ((⟨r, store⟩ : Host Store).serve q).2.store := by
  rcases serve_cases r store q with heq | ⟨c, x, -, hx, heq⟩ | ⟨hother, -⟩
  · rw [heq]
    exact h
  · have hchange : (Owner.repository r).change store c =
        .ok ⟨(Owner.repository r).replace x.now x.recorded, x.store, x.recorded⟩ := by
      rw [Owner.change_eq_map, Owner.working, hx]
      rfl
    rw [heq]
    exact h.change hchange
  · rw [hq] at hother
    exact absurd hother (by decide)

/-- **One change on both sides.**  A repository that a store supplies is changed alike over this
store and over one that it is within, and the same contents are put. -/
theorem change_of_within (h : s.Within u) (hr : (Owner.repository r).Supplied s) (c : Change) :
    ((⟨r, u⟩ : Host Store).change c).1 = ((⟨r, s⟩ : Host Store).change c).1 ∧
    ((⟨r, u⟩ : Host Store).change c).2.repository =
      ((⟨r, s⟩ : Host Store).change c).2.repository ∧
    ∃ contents, contents ⊆ r.tree.contents ∧
      ((⟨r, s⟩ : Host Store).change c).2.store = putAll s contents ∧
      ((⟨r, u⟩ : Host Store).change c).2.store = putAll u contents := by
  rw [change_eq, change_eq]
  have hfound : ∀ p d, ¬ r.tree.Missing s p d := hr.not_missing
  rcases Tree.change_of_within h hfound c with
    ⟨f, hs, hu⟩ | ⟨now, contents, recorded, hcontents, hs, hu⟩
  · rw [hs, hu]
    exact ⟨rfl, rfl, [], List.nil_subset _, rfl, rfl⟩
  · rw [hs, hu]
    exact ⟨rfl, rfl, contents, hcontents, rfl, rfl⟩

/-- **One answer on both sides.**  Such a repository is answered alike by both stores. -/
theorem answer_of_within (h : s.Within u) (hr : (Owner.repository r).Supplied s) {q : Request}
    (hq : q.isOwn = true) :
    ((⟨r, u⟩ : Host Store).serve q).1 = ((⟨r, s⟩ : Host Store).serve q).1 := by
  have hfound : ∀ p d, ¬ r.tree.Missing s p d := hr.not_missing
  have hhead : ∀ p d, ¬ (Tree.ofSnapshot r.head).Missing s p d :=
    Tree.not_missing_ofSnapshot (Snapshot.not_missing_iff.mpr (hr.head r.head rfl))
  cases q with
  | change c =>
      exact congrArg (Except.map fun _ => Answer.done) (change_of_within h hr c).1
  | isLive path => rfl
  | read path => exact congrArg (Except.map Answer.content) (Tree.read_of_within h hfound _)
  | readText path => exact congrArg (Except.map Answer.text) (Tree.readText_of_within h hfound _)
  | readHead path =>
      have hread : r.readHead u (.ofString path) = r.readHead s (.ofString path) := by
        rw [Repository.readHead_eq_read, Repository.readHead_eq_read, Tree.read_of_within h hhead]
      exact congrArg (Except.map Answer.content) hread
  | report =>
      exact congrArg (Except.map Answer.report) (Tree.report_of_within h hfound r.options r.head)
  | reportWith o =>
      exact congrArg (Except.map Answer.report) (Tree.report_of_within h hfound o r.head)
  | compare o snapshot =>
      exact congrArg (Except.map Answer.report) (Tree.report_of_within h hfound o snapshot)
  | verify snapshot => exact absurd hq (by simp [Request.isOwn])
  | load snapshot => exact absurd hq (by simp [Request.isOwn])
  | reopen snapshot => exact absurd hq (by simp [Request.isOwn])

/-- **One request on both sides.**  Such a repository becomes the same on both sides. -/
theorem serve_of_within (h : s.Within u) (hr : (Owner.repository r).Supplied s) {q : Request}
    (hq : q.isOwn = true) :
    ((⟨r, u⟩ : Host Store).serve q).2.repository = ((⟨r, s⟩ : Host Store).serve q).2.repository ∧
    ∃ contents, contents ⊆ r.tree.contents ∧
      ((⟨r, s⟩ : Host Store).serve q).2.store = putAll s contents ∧
      ((⟨r, u⟩ : Host Store).serve q).2.store = putAll u contents := by
  cases q with
  | change c => exact (change_of_within h hr c).2
  | verify snapshot => exact absurd hq (by simp [Request.isOwn])
  | load snapshot => exact absurd hq (by simp [Request.isOwn])
  | reopen snapshot => exact absurd hq (by simp [Request.isOwn])
  | _ => exact ⟨rfl, [], List.nil_subset _, rfl, rfl⟩

end Host

/-! ## Many repositories and one store -/

/-- Repositories that share a store. -/
structure Sharers (ι σ : Type) where
  repository : ι → Repository
  store : σ

/-- The repositories that a party can begin with: a new one, and one opened at a snapshot that the
store answers for, with any options. -/
inductive Repository.Begins {σ : Type} [ObjectStore σ] (store : σ) : Repository → Prop where
  | new (o : ReportOptions) : Begins store (Repository.empty.withOptions o)
  | opened {s : Snapshot} {r : Repository} (h : Repository.load store s = .ok r)
      (o : ReportOptions) : Begins store (r.withOptions o)

namespace Sharers

variable {ι : Type} [DecidableEq ι]

section Steps

variable {σ : Type} [ObjectStore σ]

/-- What one of the repositories is answered, and the state after it. -/
def serve (s : Sharers ι σ) (i : ι) (q : Request) : Except Fault Answer × Sharers ι σ :=
  let done := (⟨s.repository i, s.store⟩ : Host σ).serve q
  (done.1, ⟨Function.update s.repository i done.2.repository, done.2.store⟩)

/-- The state after requests by any of the repositories. -/
def run (s : Sharers ι σ) (requests : List (ι × Request)) : Sharers ι σ :=
  requests.foldl (fun s x => (s.serve x.1 x.2).2) s

/-- What one of the repositories sees of a run: the answer to each of its requests, and the
repository after it. -/
def trace (i : ι) (s : Sharers ι σ) : List (ι × Request) → List (Except Fault Answer × Repository)
  | [] => []
  | (j, q) :: rest =>
    let done := s.serve j q
    if j = i then (done.1, done.2.repository i) :: trace i done.2 rest else trace i done.2 rest

theorem repository_serve_self (s : Sharers ι σ) (i : ι) (q : Request) :
    (s.serve i q).2.repository i = ((⟨s.repository i, s.store⟩ : Host σ).serve q).2.repository :=
  Function.update_self ..

theorem repository_serve_of_ne (s : Sharers ι σ) {i j : ι} (h : i ≠ j) (q : Request) :
    (s.serve j q).2.repository i = s.repository i :=
  Function.update_of_ne h ..

end Steps

/-! ### Contents that are met -/

/-- All contents kept in the store or written in a tree are among the known ones. -/
structure Meets (known : Set ByteArray) (s : Sharers ι Store) : Prop where
  isPut : s.store.IsPut
  stored : ∀ d c, s.store.objects.get? d = some c → c ∈ known
  written : ∀ i, ∀ c ∈ (s.repository i).tree.contents, c ∈ known

/-- Requests that write known contents only meet no others. -/
theorem Meets.serve {known : Set ByteArray} {s : Sharers ι Store} (h : s.Meets known) (i : ι)
    {q : Request} (hq : ∀ path c, q = .change (.write path c) → c ∈ known) :
    (s.serve i q).2.Meets known := by
  obtain ⟨contents, hcontents, hstore⟩ := Host.store_serve (s.repository i) s.store q
  have hput : (s.serve i q).2.store = putAll s.store contents := hstore
  have hknown : ∀ c ∈ contents, c ∈ known := fun c hmem => h.written i c (hcontents hmem)
  constructor
  · rw [hput]
    exact h.isPut.putAll contents
  · rw [hput]
    exact Store.mem_of_get?_putAll h.stored hknown
  · intro j c hc
    by_cases hj : j = i
    · subst hj
      rw [repository_serve_self] at hc
      rcases Host.written_serve hc with ⟨path, hnew⟩ | hold
      · exact hq path c hnew
      · exact h.written j c hold
    · rw [repository_serve_of_ne s hj] at hc
      exact h.written j c hc

/-! ### The joint run and the run alone -/

/-- A repository is the same in a joint state and in a state of its own, whose store has all that
it refers to and is within the joint store. -/
structure AlikeFor (i : ι) (joint alone : Sharers ι Store) : Prop where
  same : joint.repository i = alone.repository i
  within : alone.store.Within joint.store
  supplied : (Owner.repository (alone.repository i)).Supplied alone.store

namespace AlikeFor

variable {i : ι} {joint alone : Sharers ι Store}

/-- What another repository is asked does not touch the state of this one. -/
theorem of_other (h : AlikeFor i joint alone) {j : ι} (hj : i ≠ j) (q : Request) :
    AlikeFor i (joint.serve j q).2 alone := by
  obtain ⟨contents, -, hstore⟩ := Host.store_serve (joint.repository j) joint.store q
  have hput : (joint.serve j q).2.store = putAll joint.store contents := hstore
  constructor
  · rw [repository_serve_of_ne joint hj]
    exact h.same
  · rw [hput]
    exact h.within.trans (.putAll joint.store contents)
  · exact h.supplied

/-- **One request of its own** is answered alike in both states, and leaves them alike. -/
theorem serve (h : AlikeFor i joint alone) {known : Set ByteArray} (hmeets : joint.Meets known)
    (hinj : Set.InjOn Digest.ofContent known) {q : Request} (hq : q.isOwn = true) :
    (joint.serve i q).1 = (alone.serve i q).1 ∧
      AlikeFor i (joint.serve i q).2 (alone.serve i q).2 := by
  obtain ⟨hrepository, contents, hcontents, hsmall, hlarge⟩ :=
    Host.serve_of_within h.within h.supplied hq
  have hknown : ∀ c ∈ contents, c ∈ known :=
    fun c hmem => hmeets.written i c (h.same ▸ hcontents hmem)
  have halone : (alone.serve i q).2.store = putAll alone.store contents := hsmall
  have hjoint : (joint.serve i q).2.store = putAll joint.store contents := by
    rw [← hlarge, ← h.same]
    rfl
  refine ⟨?_, ?_, ?_, ?_⟩
  · show ((⟨joint.repository i, joint.store⟩ : Host Store).serve q).1 = _
    rw [h.same]
    exact Host.answer_of_within h.within h.supplied hq
  · rw [repository_serve_self, repository_serve_self, h.same]
    exact hrepository
  · rw [halone, hjoint]
    exact Store.within_putAll_putAll h.within hmeets.isPut hinj hmeets.stored hknown
  · rw [repository_serve_self]
    exact Host.supplied_serve h.supplied hq

/-- **A whole run.**  The repository sees the same in the joint run and in the run from which all
requests to others are left out, and it is the same at their ends. -/
theorem trace_eq (h : AlikeFor i joint alone) {known : Set ByteArray} (hmeets : joint.Meets known)
    (hinj : Set.InjOn Digest.ofContent known) {requests : List (ι × Request)}
    (hknown : ∀ j path c, (j, .change (.write path c)) ∈ requests → c ∈ known)
    (hown : ∀ q, (i, q) ∈ requests → q.isOwn = true) :
    joint.trace i requests = alone.trace i (requests.filter fun x => x.1 = i) ∧
      AlikeFor i (joint.run requests) (alone.run (requests.filter fun x => x.1 = i)) := by
  -- The joint state steps at every request, the state alone only at those that are kept.
  induction requests generalizing joint alone with
  | nil => exact ⟨rfl, h⟩
  | cons x rest ih =>
      obtain ⟨j, q⟩ := x
      have hnext : (joint.serve j q).2.Meets known := by
        refine hmeets.serve j ?_
        rintro path c rfl
        exact hknown j path c List.mem_cons_self
      have hknown' : ∀ j path c, (j, .change (.write path c)) ∈ rest → c ∈ known :=
        fun k path c hmem => hknown k path c (List.mem_cons_of_mem _ hmem)
      have hown' : ∀ q, (i, q) ∈ rest → q.isOwn = true :=
        fun q hmem => hown q (List.mem_cons_of_mem _ hmem)
      by_cases hj : j = i
      · subst hj
        obtain ⟨hanswer, hafter⟩ := h.serve hmeets hinj (hown q List.mem_cons_self)
        obtain ⟨htrace, hend⟩ := ih hafter hnext hknown' hown'
        rw [List.filter_cons_of_pos (by simp)]
        refine ⟨?_, hend⟩
        simp only [trace, if_true, hanswer, hafter.same, htrace]
      · obtain ⟨htrace, hend⟩ := ih (h.of_other (Ne.symm hj) q) hnext hknown' hown'
        rw [List.filter_cons_of_neg (by simpa using hj)]
        refine ⟨?_, hend⟩
        simp only [trace, if_neg hj, htrace]

end AlikeFor

/-- The contents that a run can meet: those that the store gives out and those that are written. -/
def known (s : Sharers ι Store) (requests : List (ι × Request)) : Set ByteArray :=
  {c | (∃ d, s.store.get d = .ok c) ∨ ∃ i path, (i, .change (.write path c)) ∈ requests}

end Sharers

/-- Who begins has written nothing, and the store has all that they refer to. -/
theorem Repository.Begins.supplied {store : Store} {r : Repository} (h : r.Begins store) :
    (Owner.repository r).Supplied store ∧ r.tree.contents = [] := by
  cases h with
  | new o =>
      have hempty := Owner.supplied_repository_empty store
      exact ⟨⟨hempty.working, hempty.head⟩, rfl⟩
  | @opened s r hload o =>
      have hopened := Owner.supplied_of_open hload
      refine ⟨⟨hopened.working, hopened.head⟩, ?_⟩
      rw [Repository.load_eq_map, map_eq_ok_iff] at hload
      obtain ⟨-, -, rfl⟩ := hload
      exact Tree.contents_ofSnapshot s

namespace Sharers

variable {ι : Type} {s : Sharers ι Store}

theorem meets_known (hstore : s.store.IsPut) (hbegins : ∀ i, (s.repository i).Begins s.store)
    (requests : List (ι × Request)) : s.Meets (s.known requests) where
  isPut := hstore
  stored d _ hc := .inl ⟨d, Store.get_eq_ok_iff.mpr hc⟩
  written i c hc := by
    rw [(hbegins i).supplied.2] at hc
    exact absurd hc List.not_mem_nil

theorem alikeFor_self {i : ι} (hbegins : (s.repository i).Begins s.store) : AlikeFor i s s where
  same := rfl
  within := .refl s.store
  supplied := hbegins.supplied.1

end Sharers

/-- **Isolation.**  Repositories that begin on a shared store are asked for anything, in any order.
One of them asks for its own files and commits only, and no two contents that the store gives out or
anybody writes have one digest.  Then this repository is given the same answers as without the
others, and after each request and at the end it has the same tree and the same head.

A part of a run is a run, so it is the same after every request of the others too. -/
theorem sharers_are_isolated {ι : Type} [DecidableEq ι] {s : Sharers ι Store}
    (hstore : s.store.IsPut) (hbegins : ∀ j, (s.repository j).Begins s.store)
    (requests : List (ι × Request)) (hinj : Set.InjOn Digest.ofContent (s.known requests)) (i : ι)
    (hown : ∀ q, (i, q) ∈ requests → q.isOwn = true) :
    s.trace i requests = s.trace i (requests.filter fun x => x.1 = i) ∧
      (s.run requests).repository i =
        (s.run (requests.filter fun x => x.1 = i)).repository i := by
  have hknown : ∀ j path c, (j, .change (.write path c)) ∈ requests → c ∈ s.known requests :=
    fun j path _ hmem => .inr ⟨j, path, hmem⟩
  have hmeets := Sharers.meets_known hstore hbegins requests
  have halike := Sharers.alikeFor_self (hbegins i)
  obtain ⟨htrace, hend⟩ := halike.trace_eq hmeets hinj hknown hown
  exact ⟨htrace, hend.same⟩

/-- A new repository and one opened at a snapshot write and commit the same content, and the second
checks a snapshot and goes back to where it began. -/
theorem sharers_are_isolated_with_one_content :
    let store := putAll Store.empty [⟨#[97]⟩]
    let head : Snapshot := .ofList [(.ofString "x", .ofContent ⟨#[97]⟩)]
    let s : Sharers Bool Store :=
      ⟨fun j => if j then ⟨.ofSnapshot head, head, {}⟩ else .empty, store⟩
    let requests : List (Bool × Request) := [(true, .change (.write "x" ⟨#[98]⟩)),
      (false, .change (.write "./y" ⟨#[98]⟩)), (true, .change .commit), (false, .read "x"),
      (false, .change .commit), (true, .verify head), (true, .change (.remove "x")),
      (false, .change (.rename "y" "x")), (true, .reopen head), (false, .readHead "y"),
      (false, .reportWith .full)]
    store.IsPut ∧ (∀ j, (s.repository j).Begins store) ∧
      Set.InjOn Digest.ofContent (s.known requests) ∧
      (∀ q, (false, q) ∈ requests → q.isOwn = true) ∧
      s.trace false requests = s.trace false (requests.filter fun x => x.1 = false) := by
  intro store head s requests
  have hstore : store.IsPut := ⟨_, rfl⟩
  have hbegins : ∀ j, (s.repository j).Begins store := by
    intro j
    cases j with
    | false => exact .new {}
    | true =>
        have hload : Repository.load store head = .ok ⟨.ofSnapshot head, head, {}⟩ := by
          decide +kernel
        exact .opened hload {}
  have hinj : Set.InjOn Digest.ofContent (s.known requests) := by
    refine Digest.injOn_of_eq_or_eq (a := ⟨#[97]⟩) (b := ⟨#[98]⟩) ?_ (by decide +kernel)
    intro c hc
    rcases hc with ⟨d, hget⟩ | ⟨i, path, hmem⟩
    · have hkept := Store.mem_of_get_putAll_empty hget
      exact .inl (List.mem_singleton.mp hkept)
    · simp only [requests, List.mem_cons, Prod.mk.injEq, Request.change.injEq, Change.write.injEq,
        reduceCtorEq, and_false, List.not_mem_nil, or_false] at hmem
      rcases hmem with ⟨-, -, hc⟩ | ⟨-, -, hc⟩
      · exact .inr hc
      · exact .inr hc
  have hown : ∀ q, (false, q) ∈ requests → q.isOwn = true := by
    intro q hmem
    have hall : ∀ x ∈ requests, x.1 = false → x.2.isOwn = true := by decide
    exact hall (false, q) hmem rfl
  exact ⟨hstore, hbegins, hinj, hown,
    (sharers_are_isolated hstore hbegins requests hinj false hown).1⟩

end Worktree
