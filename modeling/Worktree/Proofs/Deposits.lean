import Worktree.Proofs.Isolation

/-!
# What commits bring to a store

A store in memory that begins without objects ends up with the contents that commits brought to it
and with nothing else.  What a commit brings is what is written in the tree at that moment, so this
is a statement about the whole history of those who share the store: a content that is overwritten,
removed or replaced by another file before anybody commits it leaves no trace, and a content that
was committed once stays, whatever becomes of its files.

* `Sharers.deposits` are the contents that a run brings to the store;
* `Sharers.store_serve` is the single step: a request puts what it brings, and only a commit that
  succeeds brings anything;
* `Sharers.store_run` is the whole run, on any store;
* `store_holds_deposits` is the run on a store that begins without objects.
-/

namespace Worktree

open ObjectStore (putAll)

/-- What a commit is answered with, and the host after it. -/
theorem Host.serve_commit {σ : Type} [ObjectStore σ] (r : Repository) (store : σ) :
    (⟨r, store⟩ : Host σ).serve (.change .commit) =
      match r.tree.commit store with
      | .ok k => (.ok .done, ⟨{ r with tree := k.tree, head := k.snapshot }, k.store⟩)
      | .error f => (.error f, ⟨r, store⟩) := by
  rw [serve, change_eq, Tree.change]
  cases r.tree.commit store <;> rfl

namespace Sharers

variable {ι : Type} [DecidableEq ι]

section Histories

variable {σ : Type} [ObjectStore σ]

/-- The contents that a request brings to the store: those written in the tree of the repository, if
the request is a commit and succeeds. -/
def brings (s : Sharers ι σ) (i : ι) (q : Request) : Set ByteArray :=
  {c | q = .change .commit ∧ (s.serve i q).1 = .ok .done ∧
    ∃ p, (s.repository i).tree.lookup p = some (.written c)}

/-- The contents that a run brings to the store: at some moment of the run a repository commits, the
commit succeeds, and the content is written in its tree. -/
def deposits (s : Sharers ι σ) (requests : List (ι × Request)) : Set ByteArray :=
  {c | ∃ before i after, requests = before ++ (i, .change .commit) :: after ∧
    ((s.run before).serve i (.change .commit)).1 = .ok .done ∧
    ∃ p, ((s.run before).repository i).tree.lookup p = some (.written c)}

theorem not_mem_deposits_nil (s : Sharers ι σ) (c : ByteArray) : c ∉ s.deposits [] := by
  intro h
  obtain ⟨before, i, after, hsplit, -⟩ := h
  exact absurd hsplit.symm (by simp)

/-- What a run brings is what its first request brings, and what the rest of it does. -/
theorem mem_deposits_cons_iff {s : Sharers ι σ} {i : ι} {q : Request}
    {rest : List (ι × Request)} {c : ByteArray} :
    c ∈ s.deposits ((i, q) :: rest) ↔ c ∈ s.brings i q ∨ c ∈ (s.serve i q).2.deposits rest := by
  constructor
  · intro h
    obtain ⟨before, j, after, hsplit, hdone, hwritten⟩ := h
    cases before with
    | nil =>
        obtain ⟨⟨rfl, rfl⟩, -⟩ := by simpa using hsplit
        exact .inl ⟨rfl, hdone, hwritten⟩
    | cons first before =>
        obtain ⟨rfl, hrest⟩ := List.cons_eq_cons.mp hsplit
        exact .inr ⟨before, j, after, hrest, hdone, hwritten⟩
  · intro h
    rcases h with ⟨rfl, hdone, hwritten⟩ | ⟨before, j, after, rfl, hdone, hwritten⟩
    · exact ⟨[], i, rest, rfl, hdone, hwritten⟩
    · exact ⟨(i, q) :: before, j, after, rfl, hdone, hwritten⟩

/-- A request that is not a commit leaves the store alone. -/
theorem store_serve_of_ne_commit (s : Sharers ι σ) (i : ι) {q : Request}
    (hq : q ≠ .change .commit) : (s.serve i q).2.store = s.store := by
  show ((⟨s.repository i, s.store⟩ : Host σ).serve q).2.store = s.store
  rcases Host.serve_cases (s.repository i) s.store q with
    heq | ⟨c, x, rfl, hx, heq⟩ | ⟨-, r', snapshot, heq, -⟩
  · rw [heq]
  · rw [heq]
    rcases Tree.change_cases hx with ⟨k, rfl, -⟩ | ⟨-, hstore, -⟩
    · exact absurd rfl hq
    · exact hstore
  · rw [heq]

/-- **One request.**  It puts what it brings. -/
theorem store_serve [ContentAddressed σ] (s : Sharers ι σ) (i : ι) (q : Request) :
    ∃ contents, (∀ c, c ∈ contents ↔ c ∈ s.brings i q) ∧
      (s.serve i q).2.store = putAll s.store contents := by
  by_cases hq : q = .change .commit
  · subst hq
    have hserve := Host.serve_commit (s.repository i) s.store
    cases hk : (s.repository i).tree.commit s.store with
    | error f =>
        rw [hk] at hserve
        refine ⟨[], ?_, congrArg (fun x => x.2.store) hserve⟩
        intro c
        refine iff_of_false List.not_mem_nil fun h => ?_
        have hfails : (.error f : Except Fault Answer) = .ok .done :=
          (congrArg Prod.fst hserve).symm.trans h.2.1
        exact absurd hfails nofun
    | ok k =>
        rw [hk] at hserve
        obtain ⟨-, hrecorded⟩ := Tree.commit_eq_ok_iff.mp hk
        have hstore : k.store = putAll s.store (s.repository i).tree.contents := by
          rw [← hrecorded, Tree.recorded_eq]
        refine ⟨_, ?_, (congrArg (fun x => x.2.store) hserve).trans hstore⟩
        intro c
        rw [Tree.mem_contents_iff]
        exact ⟨fun h => ⟨rfl, congrArg Prod.fst hserve, h⟩, fun h => h.2.2⟩
  · refine ⟨[], ?_, s.store_serve_of_ne_commit i hq⟩
    intro c
    exact iff_of_false List.not_mem_nil fun h => hq h.1

/-- **A whole run.**  The store is what it was, with all that the run brings put into it. -/
theorem store_run [ContentAddressed σ] (s : Sharers ι σ) (requests : List (ι × Request)) :
    ∃ contents, (∀ c, c ∈ contents ↔ c ∈ s.deposits requests) ∧
      (s.run requests).store = putAll s.store contents := by
  induction requests generalizing s with
  | nil =>
      refine ⟨[], ?_, rfl⟩
      intro c
      exact iff_of_false List.not_mem_nil (s.not_mem_deposits_nil c)
  | cons x rest ih =>
      obtain ⟨i, q⟩ := x
      obtain ⟨first, hfirst, hserve⟩ := s.store_serve i q
      obtain ⟨later, hlater, hrun⟩ := ih (s.serve i q).2
      refine ⟨first ++ later, ?_, ?_⟩
      · intro c
        rw [List.mem_append, hfirst, hlater, mem_deposits_cons_iff]
      · calc (s.run ((i, q) :: rest)).store
            = putAll (s.serve i q).2.store later := hrun
          _ = putAll (putAll s.store first) later := by rw [hserve]
          _ = putAll s.store (first ++ later) := List.foldl_append.symm

end Histories

/-- What is in the store at some moment stays as it is for the rest of the run. -/
theorem get_run_append {s : Sharers ι Store} {before : List (ι × Request)} {d : Digest}
    {c : ByteArray} (h : (s.run before).store.get d = .ok c) (later : List (ι × Request)) :
    (s.run (before ++ later)).store.get d = .ok c := by
  obtain ⟨more, -, hmore⟩ := (s.run before).store_run later
  have hlater : (s.run (before ++ later)).store = putAll (s.run before).store more := by
    rw [← hmore]
    exact congrArg Sharers.store List.foldl_append
  rw [Store.get_eq_ok_iff] at h
  rw [hlater, Store.get_eq_ok_iff]
  exact Store.get?_putAll_of_get? h more

end Sharers

/-- **The store holds what commits brought.**  Repositories, however many and whatever they are,
share a store in memory that begins without objects, and are asked for anything, in any order.  Then
the digests in the store are, in ascending order, those of the contents that commits brought, and
its size is their number.  Every object in it is a content that a commit brought, kept under its own
digest; it stays as it is for good; and no request other than a commit touches the store.

A part of a run is a run, so this is how things are after each request. -/
theorem store_holds_deposits {ι : Type} [DecidableEq ι] (repositories : ι → Repository)
    (requests : List (ι × Request)) :
    let s : Sharers ι Store := ⟨repositories, .empty⟩
    let store := (s.run requests).store
    let digests := Digest.ofContent '' s.deposits requests
    (∀ d, d ∈ store.digests ↔ d ∈ digests) ∧
      (store.digests.Pairwise fun d e => compare d e = .lt) ∧
      ObjectStore.size store = digests.ncard ∧
      (∀ d c, store.get d = .ok c → c ∈ s.deposits requests ∧ .ofContent c = d) ∧
      (∀ later d c, store.get d = .ok c → (s.run (requests ++ later)).store.get d = .ok c) ∧
      ∀ i q, q ≠ .change .commit → ((s.run requests).serve i q).2.store = store := by
  intro s store digests
  obtain ⟨contents, hcontents, hstore⟩ := s.store_run requests
  have hkept : store = putAll Store.empty contents := hstore
  have hmem : ∀ d, d ∈ store.digests ↔ d ∈ digests := by
    intro d
    rw [Store.mem_digests_iff, hkept, Store.contains_putAll, Set.mem_image]
    simp only [hcontents]
    exact or_iff_right (by simp [Store.contains, Store.empty, OrderedMap.contains])
  refine ⟨hmem, ?_, ?_, ?_, ?_, ?_⟩
  · exact store.objects.pairwise_keys
  · exact (ncard_eq_length store.objects.nodup_keys hmem).symm
  · intro d c hget
    rw [hkept, Store.get_eq_ok_iff] at hget
    rcases Store.eq_or_mem_of_get?_putAll hget with hempty | ⟨hput, hd⟩
    · exact absurd hempty.symm (Option.some_ne_none c)
    · exact ⟨(hcontents c).mp hput, hd⟩
  · intro later d c hget
    exact Sharers.get_run_append hget later
  · intro i q hq
    exact (s.run requests).store_serve_of_ne_commit i hq

/-- A content that is overwritten leaves no trace, one that two commit is kept once, and one that is
removed later stays. -/
example :
    let s : Sharers Bool Store := ⟨fun _ => .empty, .empty⟩
    let requests : List (Bool × Request) := [(true, .change (.write "x" ⟨#[97]⟩)),
      (true, .change (.write "./x" ⟨#[98]⟩)), (false, .change (.write "y" ⟨#[98]⟩)),
      (true, .change .commit), (false, .change (.rename "y" "z")), (false, .change .commit),
      (true, .change (.remove "x")), (true, .change .commit)]
    (s.run requests).store.digests = [.ofContent ⟨#[98]⟩] := by
  decide +kernel

end Worktree
