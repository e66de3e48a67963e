import Worktree.Proofs.Committing
import Worktree.Proofs.Hosting

/-!
# A repository is two maps

Seen from outside, a repository is two plain maps from paths to contents: the files as they are now
and the files as they were at the last commit.  Entries of three kinds, markers, digests and the
store are how this is kept, and no run of changes shows them.

* `Ledger` is the pair of maps, and `Ledger.change`, `Ledger.read` and `Ledger.lines` are what
  changes, reading and reporting mean for it;
* `Represents` says when an entry stands for a content, and `Mirrors` when a repository on a store
  in memory stands for a ledger;
* `Mirrors.change` is the step: every change keeps the two together and comes to the same on both
  sides; `Mirrors.run` follows for whole runs;
* `SameFiles` and `SameContents` are what can be observed, and `repository_refines_ledger` says that
  it agrees after any run.

Two different contents with one digest would be one object of the store.  So what is read back, and
what is compared, agrees as long as no two different contents that the store held at first or that
the run wrote have the same digest; which files there are needs no such proviso.
-/

namespace Worktree

open ObjectStore (putAll)

/-! ## Two maps -/

/-- The contents of all files, now and at the last commit. -/
structure Ledger where
  working : OrderedMap Path ByteArray
  head : OrderedMap Path ByteArray

namespace Ledger

/-- The ledger without files. -/
def empty : Ledger := ⟨.empty, .empty⟩

/-- A map without the binding of a path. -/
def erase (m : OrderedMap Path ByteArray) (p : Path) : OrderedMap Path ByteArray :=
  m.filterMapWithKey fun q content => if q = p then none else some content

/-- What a change comes to, and the ledger after it. -/
def change (l : Ledger) : Change → Except Fault Unit × Ledger
  | .write path content =>
    (.ok (), { l with working := l.working.insert (.ofString path) content })
  | .remove path => (.ok (), { l with working := erase l.working (.ofString path) })
  | .rename source target =>
    match l.working.get? (.ofString source) with
    | none => (.error (.notFound (.ofString source)), l)
    | some content =>
      if Path.ofString source = .ofString target then (.ok (), l)
      else
        (.ok (), { l with
          working := (erase l.working (.ofString source)).insert (.ofString target) content })
  | .commit => (.ok (), { l with head := l.working })

/-- The content of a path. -/
def read (m : OrderedMap Path ByteArray) (p : Path) : Except Fault ByteArray :=
  match m.get? p with
  | some content => .ok content
  | none => .error (.notFound p)

/-- How a path stands that has these contents: they are compared byte by byte. -/
def contrast : Option ByteArray → Option ByteArray → Option Status
  | some _, none => some .untracked
  | none, some _ => some .deleted
  | some now, some before => some (if now.data = before.data then .unmodified else .modified)
  | none, none => none

/-- How a path stands. -/
def standing (l : Ledger) (p : Path) : Option Status :=
  contrast (l.working.get? p) (l.head.get? p)

/-- The lines of a report: the paths of either map in order, each with its standing. -/
def lines (l : Ledger) (o : ReportOptions) : List Line :=
  (OrderedMap.unionKeys l.working l.head).keys.filterMap fun p =>
    ((l.standing p).filter o.admits).map fun s => ⟨p.text, s⟩

theorem get?_erase (m : OrderedMap Path ByteArray) (p q : Path) :
    (erase m p).get? q = if q = p then none else m.get? q := by
  rw [erase, OrderedMap.get?_filterMapWithKey]
  by_cases hq : q = p
  · cases m.get? q <;> simp [hq]
  · cases m.get? q <;> simp [hq]

end Ledger

/-- Makes changes one after the other; gives what each comes to, and the last state. -/
def Change.run {S : Type} (step : S → Change → Except Fault Unit × S) :
    List Change → S → List (Except Fault Unit) × S
  | [], s => ([], s)
  | c :: rest, s =>
    let now := step s c
    let later := run step rest now.2
    (now.1 :: later.1, later.2)

/-! ## The simulation -/

/-- What is known of a path stands for a content, on a store that keeps the objects of committed
entries; all contents are among the `known` ones. -/
inductive Represents (known : Set ByteArray) (store : Store) :
    Option Entry → Option ByteArray → Prop where
  | unknown : Represents known store none none
  | removed : Represents known store (some .removed) none
  | written {content : ByteArray} (hknown : content ∈ known) :
      Represents known store (some (.written content)) (some content)
  | committed {content : ByteArray} (hknown : content ∈ known)
      (hkept : store.contains (.ofContent content) = true) :
      Represents known store (some (.committed (.ofContent content))) (some content)

namespace Represents

variable {known : Set ByteArray} {store : Store} {entry : Option Entry}
  {content? : Option ByteArray}

theorem bind_digest? (h : Represents known store entry content?) :
    entry.bind Entry.digest? = content?.map Digest.ofContent := by
  cases h <;> rfl

theorem mem_known (h : Represents known store entry content?) {content : ByteArray}
    (hc : content? = some content) : content ∈ known := by
  cases h with
  | unknown => exact absurd hc nofun
  | removed => exact absurd hc nofun
  | written hknown => exact Option.some.inj hc ▸ hknown
  | committed hknown hkept => exact Option.some.inj hc ▸ hknown

theorem mem_known_of_written (h : Represents known store entry content?) {content : ByteArray}
    (he : entry = some (.written content)) : content ∈ known := by
  cases h with
  | unknown => exact absurd he nofun
  | removed => exact absurd he (by simp)
  | written hknown =>
      obtain rfl := Entry.written.inj (Option.some.inj he)
      exact hknown
  | committed hknown hkept => exact absurd he (by simp)

theorem contains_of_committed (h : Represents known store entry content?) {d : Digest}
    (he : entry = some (.committed d)) : store.contains d = true := by
  cases h with
  | unknown => exact absurd he nofun
  | removed => exact absurd he (by simp)
  | written hknown => exact absurd he (by simp)
  | committed hknown hkept =>
      obtain rfl := Entry.committed.inj (Option.some.inj he)
      exact hkept

theorem filter_isLive (h : Represents known store entry content?) :
    Represents known store (entry.filter Entry.isLive) content? := by
  cases h with
  | unknown => exact .unknown
  | removed => exact .unknown
  | written hknown => exact .written hknown
  | committed hknown hkept => exact .committed hknown hkept

theorem isSome_filter_isLive (h : Represents known store entry content?) :
    (entry.filter Entry.isLive).isSome = content?.isSome := by
  cases h <;> rfl

end Represents

/-- A repository on a store in memory stands for a ledger. -/
structure Mirrors (known : Set ByteArray) (h : Host Store) (l : Ledger) : Prop where
  isPut : h.store.IsPut
  stored_known : ∀ d content, h.store.objects.get? d = some content → content ∈ known
  working : ∀ p, Represents known h.store (h.repository.tree.lookup p) (l.working.get? p)
  head : ∀ p, Represents known h.store ((Tree.ofSnapshot h.repository.head).lookup p)
    (l.head.get? p)

namespace Mirrors

variable {known : Set ByteArray} {h : Host Store} {l : Ledger}

/-! ### One change -/

theorem write (hm : Mirrors known h l) {path : String} {content : ByteArray}
    (hknown : content ∈ known) :
    Mirrors known (h.change (.write path content)).2 (l.change (.write path content)).2 := by
  refine ⟨hm.isPut, hm.stored_known, ?_, hm.head⟩
  intro p
  show Represents known h.store ((h.repository.tree.write (.ofString path) content).lookup p)
    ((l.working.insert (.ofString path) content).get? p)
  rw [Tree.lookup_write, OrderedMap.get?_insert]
  by_cases hp : p = .ofString path
  · rw [if_pos hp, if_pos hp]
    exact .written hknown
  · rw [if_neg hp, if_neg hp]
    exact hm.working p

theorem remove (hm : Mirrors known h l) (path : String) :
    Mirrors known (h.change (.remove path)).2 (l.change (.remove path)).2 := by
  refine ⟨hm.isPut, hm.stored_known, ?_, hm.head⟩
  intro p
  show Represents known h.store ((h.repository.tree.remove (.ofString path)).lookup p)
    ((Ledger.erase l.working (.ofString path)).get? p)
  rw [Tree.lookup_remove, Ledger.get?_erase]
  by_cases hp : p = .ofString path
  · rw [if_pos hp, if_pos hp]
    exact .removed
  · rw [if_neg hp, if_neg hp]
    exact hm.working p

theorem isLive_eq (hm : Mirrors known h l) (p : Path) :
    h.repository.isLive p = l.working.contains p :=
  (hm.working p).isSome_filter_isLive

theorem rename (hm : Mirrors known h l) (source target : String) :
    (h.change (.rename source target)).1 = (l.change (.rename source target)).1 ∧
      Mirrors known (h.change (.rename source target)).2
        (l.change (.rename source target)).2 := by
  have hlive : h.repository.tree.isLive (.ofString source)
      = (l.working.get? (.ofString source)).isSome := hm.isLive_eq _
  cases hsource : l.working.get? (.ofString source) with
  | none =>
      have hdead : h.repository.tree.isLive (.ofString source) = false := by
        rw [hlive, hsource]
        rfl
      have hrename : h.repository.tree.rename (.ofString source) (.ofString target)
          = .error (.notFound (.ofString source)) :=
        Tree.rename_eq_error_iff.mpr ⟨hdead, rfl⟩
      simp only [Host.change, Repository.rename, hrename, Ledger.change, hsource]
      exact ⟨rfl, hm⟩
  | some content =>
      have hfile : h.repository.tree.isLive (.ofString source) = true := by
        rw [hlive, hsource]
        rfl
      by_cases hsame : Path.ofString source = .ofString target
      · have hrename : h.repository.tree.rename (.ofString source) (.ofString target)
            = .ok h.repository.tree := by
          rw [← hsame, Tree.rename_self hfile]
        simp only [Host.change, Repository.rename, hrename, Ledger.change, hsource, if_pos hsame]
        exact ⟨rfl, hm⟩
      · obtain ⟨u, hu⟩ := Tree.exists_rename hfile (.ofString target)
        simp only [Host.change, Repository.rename, hu, Ledger.change, hsource, if_neg hsame]
        refine ⟨rfl, hm.isPut, hm.stored_known, ?_, hm.head⟩
        -- The entry moves as it is, so a committed file stays committed under its new name.
        have hmoved := (hm.working (.ofString source)).filter_isLive
        rw [hsource] at hmoved
        intro p
        show Represents known h.store (u.lookup p) (((Ledger.erase l.working
          (.ofString source)).insert (.ofString target) content).get? p)
        rw [Tree.lookup_rename hu hsame, OrderedMap.get?_insert, Ledger.get?_erase]
        by_cases htarget : p = .ofString target
        · rw [if_pos htarget, if_pos htarget]
          exact hmoved
        · rw [if_neg htarget, if_neg htarget]
          by_cases hp : p = .ofString source
          · rw [if_pos hp, if_pos hp]
            exact .removed
          · rw [if_neg hp, if_neg hp]
            exact hm.working p

/-- The digests of the files are those of their contents. -/
theorem lookup_digests (hm : Mirrors known h l) (p : Path) :
    h.repository.tree.digests.lookup p = (l.working.get? p).map .ofContent := by
  rw [Tree.lookup_digests]
  exact (hm.working p).bind_digest?

theorem lookup_head (hm : Mirrors known h l) (p : Path) :
    h.repository.head.lookup p = (l.head.get? p).map .ofContent := by
  have hdigest := (hm.head p).bind_digest?
  rw [← Tree.lookup_digests, Tree.digests_ofSnapshot] at hdigest
  exact hdigest

/-- The store keeps the object of every committed entry. -/
theorem not_missing (hm : Mirrors known h l) :
    ∀ p d, ¬ h.repository.tree.Missing h.store p d := by
  apply Tree.not_missing_iff.mpr
  intro p d hp
  exact (hm.working p).contains_of_committed hp

/-- After a commit the tree and the head are both the tree of the new snapshot, which stands for
the working map; every content behind it is in the store now. -/
theorem commit (hm : Mirrors known h l) :
    (h.change .commit).1 = .ok () ∧
      Mirrors known (h.change .commit).2 (l.change .commit).2 := by
  have hok : h.repository.tree.commit h.store = .ok (h.repository.tree.recorded h.store) :=
    Tree.commit_eq_ok_iff.mpr ⟨hm.not_missing, rfl⟩
  simp only [Host.change, Repository.commit, hok, Tree.recorded_eq]
  -- One statement serves tree and head, since both are made of the new snapshot.
  have hrep : ∀ p, Represents known (putAll h.store h.repository.tree.contents)
      ((Tree.ofSnapshot h.repository.tree.digests).lookup p) (l.working.get? p) := by
    intro p
    rw [Tree.lookup_ofSnapshot, hm.lookup_digests]
    cases hp : l.working.get? p with
    | none => exact .unknown
    | some content =>
        have hdigest : h.repository.tree.digests.lookup p = some (.ofContent content) := by
          rw [hm.lookup_digests, hp, Option.map_some]
        have hkept := Tree.contains_putAll_contents hm.not_missing
          (Tree.lookup_digests_eq_some_iff.mp hdigest)
        exact .committed ((hm.working p).mem_known hp) hkept
  refine ⟨rfl, hm.isPut.putAll _, ?_, hrep, hrep⟩
  intro d content hget
  rcases Store.eq_or_mem_of_get?_putAll hget with hold | ⟨hnew, -⟩
  · exact hm.stored_known d content hold
  · obtain ⟨p, hp⟩ := Tree.mem_contents_iff.mp hnew
    exact (hm.working p).mem_known_of_written hp

/-- **One step.**  A change comes to the same on both sides and keeps them together. -/
theorem change (hm : Mirrors known h l) (c : Change)
    (hknown : ∀ path content, c = .write path content → content ∈ known) :
    (h.change c).1 = (l.change c).1 ∧ Mirrors known (h.change c).2 (l.change c).2 := by
  cases c with
  | write path content => exact ⟨rfl, hm.write (hknown path content rfl)⟩
  | remove path => exact ⟨rfl, hm.remove path⟩
  | rename source target => exact hm.rename source target
  | commit => exact hm.commit

/-- **A whole run.** -/
theorem run {changes : List Change}
    (hknown : ∀ path content, .write path content ∈ changes → content ∈ known) :
    ∀ {h : Host Store} {l : Ledger}, Mirrors known h l →
      (Change.run Host.change changes h).1 = (Change.run Ledger.change changes l).1 ∧
        Mirrors known (Change.run Host.change changes h).2
          (Change.run Ledger.change changes l).2 := by
  induction changes with
  | nil => exact fun hm => ⟨rfl, hm⟩
  | cons c rest ih =>
      intro h l hm
      have hstep := hm.change c fun path content hc => hknown path content (hc ▸ List.mem_cons_self)
      have hrest := ih (fun path content hmem =>
        hknown path content (List.mem_cons_of_mem c hmem)) hstep.2
      refine ⟨?_, hrest.2⟩
      simp only [Change.run]
      rw [hstep.1, hrest.1]

/-! ### What can be observed -/

theorem paths_eq (hm : Mirrors known h l) : h.repository.tree.paths = l.working.keys := by
  rw [Tree.paths_eq_paths_digests]
  refine OrderedMap.keys_eq_of_isSome_eq fun p => ?_
  show (h.repository.tree.digests.lookup p).isSome = _
  rw [hm.lookup_digests, Option.isSome_map]

theorem paths_head_eq (hm : Mirrors known h l) : h.repository.head.paths = l.head.keys := by
  refine OrderedMap.keys_eq_of_isSome_eq fun p => ?_
  show (h.repository.head.lookup p).isSome = _
  rw [hm.lookup_head, Option.isSome_map]

/-- Reading an entry that stands for a content gives this content, when no other known content has
its digest. -/
theorem read_eq (hm : Mirrors known h l) (hinj : Set.InjOn Digest.ofContent known) {t : Tree}
    {m : OrderedMap Path ByteArray} {p : Path}
    (hrep : Represents known h.store (t.lookup p) (m.get? p)) :
    t.read h.store p = Ledger.read m p := by
  unfold Tree.read Ledger.read
  generalize t.lookup p = entry at hrep
  generalize m.get? p = content? at hrep
  cases hrep with
  | unknown => rfl
  | removed => rfl
  | written hknown => rfl
  | committed hknown hkept =>
      have hget := Store.get?_ofContent hm.isPut hinj hm.stored_known hknown hkept
      exact Tree.fetch_eq_ok hget p

theorem read_working_eq (hm : Mirrors known h l) (hinj : Set.InjOn Digest.ofContent known)
    (p : Path) : h.repository.read h.store p = Ledger.read l.working p :=
  hm.read_eq hinj (hm.working p)

theorem read_head_eq (hm : Mirrors known h l) (hinj : Set.InjOn Digest.ofContent known)
    (p : Path) : h.repository.readHead h.store p = Ledger.read l.head p := by
  rw [← hm.read_eq hinj (hm.head p)]
  unfold Repository.readHead Tree.read
  rw [Tree.lookup_ofSnapshot]
  cases h.repository.head.lookup p <;> rfl

/-- Comparing digests is comparing contents, when no two known contents have the same digest. -/
theorem standing_eq (hm : Mirrors known h l) (hinj : Set.InjOn Digest.ofContent known)
    (p : Path) :
    Status.ofDigests (h.repository.tree.digests.lookup p) (h.repository.head.lookup p)
      = l.standing p := by
  rw [hm.lookup_digests, hm.lookup_head, Ledger.standing]
  cases hnow : l.working.get? p with
  | none => cases l.head.get? p <;> rfl
  | some now =>
      cases hbefore : l.head.get? p with
      | none => rfl
      | some before =>
          have hiff : Digest.ofContent now = .ofContent before ↔ now.data = before.data :=
            (hinj.eq_iff ((hm.working p).mem_known hnow) ((hm.head p).mem_known hbefore)).trans
              ByteArray.ext_iff
          simp [Status.ofDigests, Ledger.contrast, hiff]

end Mirrors

/-- The admitted lines of a map of statuses are those of the paths that can have one. -/
theorem admittedLines_eq_lines {l : Ledger} {statuses : OrderedMap Path Status}
    (h : ∀ p, statuses.get? p = l.standing p) (o : ReportOptions) :
    Snapshot.admittedLines o statuses = l.lines o := by
  have hstatuses : statuses
      = OrderedMap.merge (fun _ => Ledger.contrast) l.working l.head := by
    refine OrderedMap.ext_get? fun p => ?_
    rw [h, OrderedMap.get?_merge fun _ => rfl]
    rfl
  rw [hstatuses, Snapshot.admittedLines, OrderedMap.toList_merge, List.filter_filterMap,
    List.map_filterMap, Ledger.lines]
  congr 1
  funext p
  show (((l.standing p).map (p, ·)).filter _).map _ = _
  cases l.standing p with
  | none => rfl
  | some s => by_cases ho : o.admits s = true <;> simp [Option.filter, ho]

/-- The host has the files that the ledger has, now and at the last commit. -/
structure SameFiles (h : Host Store) (l : Ledger) : Prop where
  isLive : ∀ path,
    h.repository.isLive (.ofString path) = l.working.contains (.ofString path)
  paths : h.repository.tree.paths = l.working.keys
  size : h.repository.tree.size = l.working.size
  head_paths : h.repository.head.paths = l.head.keys

/-- Reading and reporting give what they give for the ledger. -/
structure SameContents (h : Host Store) (l : Ledger) : Prop where
  read : ∀ path, h.repository.read h.store (.ofString path) = Ledger.read l.working (.ofString path)
  readHead : ∀ path,
    h.repository.readHead h.store (.ofString path) = Ledger.read l.head (.ofString path)
  report : ∀ o, ∃ r, h.repository.reportWith o h.store = .ok r ∧ r.lines = l.lines o ∧
    r.lines.Pairwise fun a b => Text.compare a.path b.path = .lt

namespace Mirrors

variable {known : Set ByteArray} {h : Host Store} {l : Ledger}

theorem sameFiles (hm : Mirrors known h l) : SameFiles h l where
  isLive path := hm.isLive_eq (.ofString path)
  paths := hm.paths_eq
  size := by
    show h.repository.tree.paths.length = l.working.toList.length
    rw [hm.paths_eq, OrderedMap.keys, List.length_map]
  head_paths := hm.paths_head_eq

theorem sameContents (hm : Mirrors known h l) (hinj : Set.InjOn Digest.ofContent known) :
    SameContents h l where
  read path := hm.read_working_eq hinj (.ofString path)
  readHead path := hm.read_head_eq hinj (.ofString path)
  report := by
    intro o
    have hlines := Snapshot.lines_difference o h.repository.tree.digests h.repository.head
    refine ⟨_, Tree.report_eq_ok_iff.mpr ⟨hm.not_missing, rfl⟩, ?_, ?_⟩
    · rw [hlines]
      apply admittedLines_eq_lines
      intro p
      rw [Snapshot.get?_statuses]
      exact hm.standing_eq hinj p
    · rw [hlines]
      exact Snapshot.pairwise_admittedLines o _

end Mirrors

/-! ## Runs from the start -/

/-- The contents that a run can meet: those that the store gives out and those that are written. -/
def known (store : Store) (changes : List Change) : Set ByteArray :=
  {c | (∃ d, store.get d = .ok c) ∨ ∃ path, .write path c ∈ changes}

/-- A new repository on a store stands for the ledger without files. -/
theorem mirrors_empty {store : Store} (hstore : store.IsPut) (changes : List Change) :
    Mirrors (known store changes) ⟨.empty, store⟩ .empty where
  isPut := hstore
  stored_known := fun d _ hget => .inl ⟨d, Store.get_eq_ok_iff.mpr hget⟩
  working := fun _ => .unknown
  head := fun _ => .unknown

/-- **Refinement.**  A new repository on a store that holds whatever was put into it before, and
the ledger without files, go through the same changes, spelled in any way.  Every change comes to
the same on both sides, and afterwards both have the same files; when no two different contents
that the run can meet have one digest, they also read the same and report the same.

A part of a run is a run, so this holds after every change. -/
theorem repository_refines_ledger {store : Store} (hstore : store.IsPut)
    (changes : List Change) :
    let host := Change.run Host.change changes ⟨.empty, store⟩
    let ledger := Change.run Ledger.change changes .empty
    host.1 = ledger.1 ∧ SameFiles host.2 ledger.2 ∧
      (Set.InjOn Digest.ofContent (known store changes) → SameContents host.2 ledger.2) := by
  intro host ledger
  have hwritten : ∀ path content, .write path content ∈ changes → content ∈ known store changes :=
    fun path _ hmem => .inr ⟨path, hmem⟩
  obtain ⟨houtcomes, hm⟩ := Mirrors.run hwritten (mirrors_empty hstore changes)
  exact ⟨houtcomes, hm.sameFiles, hm.sameContents⟩

/-- Two contents, one of them kept before the run; names are spelled in several ways, a committed
file is moved over another, and a file that is gone is moved. -/
theorem repository_refines_ledger_of_two_contents :
    let store := putAll Store.empty [⟨#[97]⟩]
    let changes : List Change := [.write "./a//b" ⟨#[98]⟩, .write "c" ⟨#[97]⟩, .commit,
      .rename "/a/b" "x/../c", .rename "a/b" "d", .commit]
    store.IsPut ∧ Set.InjOn Digest.ofContent (known store changes) ∧
      let host := Change.run Host.change changes ⟨.empty, store⟩
      let ledger := Change.run Ledger.change changes .empty
      host.1 = ledger.1 ∧ SameFiles host.2 ledger.2 ∧ SameContents host.2 ledger.2 := by
  intro store changes
  have hstore : store.IsPut := ⟨_, rfl⟩
  have hinj : Set.InjOn Digest.ofContent (known store changes) := by
    refine Digest.injOn_of_eq_or_eq (a := ⟨#[97]⟩) (b := ⟨#[98]⟩) ?_ (by decide +kernel)
    intro c hc
    rcases hc with ⟨d, hget⟩ | ⟨path, hmem⟩
    · have hkept := Store.mem_of_get_putAll_empty hget
      exact .inl (List.mem_singleton.mp hkept)
    · simp only [changes, List.mem_cons, Change.write.injEq, reduceCtorEq, List.not_mem_nil,
        or_false] at hmem
      rcases hmem with ⟨-, hc⟩ | ⟨-, hc⟩
      · exact .inr hc
      · exact .inl hc
  obtain ⟨houtcomes, hfiles, hcontents⟩ := repository_refines_ledger hstore changes
  exact ⟨hstore, hinj, houtcomes, hfiles, hcontents hinj⟩

end Worktree
