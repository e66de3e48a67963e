import Worktree.Proofs.Storing

/-!
# A store made by putting

A store in memory begins without objects, and contents are put into it, one after the other.  Then
it can be told from the list of these contents what the store holds: under each digest the first
content that has it.  A later content with the same digest is answered with the digest all the same,
and changes nothing.

As long as digests tell the contents apart, every content is the first with its digest, and the list
matters as a set only: neither the order of the contents nor how often each is put can be seen.

* `Store.put_eq_keep` says that a look before the insertion saves work only;
* `Store.get?_putAll_empty` and `Store.get_putAll_eq_ok_iff` say what is found under a digest;
* `Store.mem_digests_putAll_iff` says which digests there are;
* `Store.find?_of_injOn` is the case without collisions;
* `store_of_puts` puts it together.
-/

namespace Worktree

open ObjectStore (putAll)

namespace Store

variable {contents : List ByteArray} {d : Digest} {c : ByteArray}

/-! ## With and without a look first -/

/-- Binds the digest of a content to what it is bound to already, or else to the content. -/
def keep (s : Store) (content : ByteArray) : Store :=
  let d := Digest.ofContent content
  ⟨s.objects.insert d ((s.objects.get? d).getD content)⟩

/-- Looking first whether the digest is kept saves the insertion and changes nothing. -/
theorem put_eq_keep (s : Store) (content : ByteArray) :
    s.put content = (.ofContent content, s.keep content) := by
  refine Prod.ext (s.fst_put content) (ext_get? ?_)
  intro d
  rw [get?_put, keep, OrderedMap.get?_insert]
  by_cases hd : d = .ofContent content
  · rw [if_pos hd, if_pos hd, hd]
  · rw [if_neg hd, if_neg hd]

/-! ## What is found -/

/-- Under a digest there is the first content that has it. -/
theorem get?_putAll_empty (contents : List ByteArray) (d : Digest) :
    (putAll Store.empty contents).objects.get? d
      = contents.find? fun c => Digest.ofContent c = d := by
  rw [get?_putAll, show Store.empty.objects.get? d = none from rfl, Option.none_or]

/-- A content is given out when it is put at some moment and nothing with its digest was put
before. -/
theorem get_putAll_eq_ok_iff :
    (putAll Store.empty contents).get d = .ok c ↔
      ∃ before after, contents = before ++ c :: after ∧ .ofContent c = d ∧
        ∀ b ∈ before, .ofContent b ≠ d := by
  rw [get_eq_ok_iff, get?_putAll_empty, List.find?_eq_some_iff_append]
  constructor
  · intro h
    obtain ⟨hd, before, after, heq, hbefore⟩ := h
    exact ⟨before, after, heq, by simpa using hd, by simpa using hbefore⟩
  · intro h
    obtain ⟨before, after, heq, hd, hbefore⟩ := h
    exact ⟨by simpa using hd, before, after, heq, by simpa using hbefore⟩

/-- The digests of a store are those of the contents put. -/
theorem mem_digests_putAll_iff :
    d ∈ (putAll Store.empty contents).digests ↔ d ∈ Digest.ofContent '' {c | c ∈ contents} := by
  rw [mem_digests_iff, contains_putAll]
  exact or_iff_right (by simp [contains, Store.empty, OrderedMap.contains])

/-- The store gives out a content exactly when it answers for the digest. -/
theorem exists_get_iff {s : Store} : (∃ c, s.get d = .ok c) ↔ d ∈ s.digests := by
  rw [mem_digests_iff, contains_iff]
  exact exists_congr fun c => get_eq_ok_iff

/-- For any other digest it says that there is no object. -/
theorem get_of_not_mem_digests {s : Store} (h : d ∉ s.digests) :
    s.get d = .error (.objectNotFound d) := by
  have hnone : s.objects.get? d = none := OrderedMap.get?_eq_none_iff.mpr h
  rw [get, hnone]

/-- What a store made by putting gives out has the digest that it is kept under, and is given out for
good. -/
theorem get_putAll_of_get (h : (putAll Store.empty contents).get d = .ok c) :
    .ofContent c = d ∧ ∀ more, (putAll (putAll Store.empty contents) more).get d = .ok c := by
  have hput : (putAll Store.empty contents).IsPut := ⟨contents, rfl⟩
  rw [get_eq_ok_iff] at h
  refine ⟨hput.ofContent_eq h, ?_⟩
  intro more
  exact get_eq_ok_iff.mpr (get?_putAll_of_get? h more)

/-! ## Contents that digests tell apart -/

/-- Then every content is the first with its digest. -/
theorem find?_of_injOn (hinj : Set.InjOn Digest.ofContent {c | c ∈ contents})
    (h : c ∈ contents) :
    (contents.find? fun b => Digest.ofContent b = .ofContent c) = some c := by
  cases hfind : contents.find? fun b => Digest.ofContent b = .ofContent c with
  | none => exact absurd (List.find?_eq_none.mp hfind c h) (by simp)
  | some b =>
      have hsame : Digest.ofContent b = .ofContent c := by simpa using List.find?_some hfind
      rw [hinj (List.mem_of_find?_eq_some hfind) h hsame]

/-- Every content is given out under its digest. -/
theorem get_putAll_of_mem (hinj : Set.InjOn Digest.ofContent {c | c ∈ contents})
    (h : c ∈ contents) : (putAll Store.empty contents).get (.ofContent c) = .ok c := by
  rw [get_eq_ok_iff, get?_putAll_empty, find?_of_injOn hinj h]

/-- Lists with the same members make the same store. -/
theorem putAll_eq_of_mem_iff {others : List ByteArray}
    (hinj : Set.InjOn Digest.ofContent {c | c ∈ contents})
    (h : ∀ c, c ∈ others ↔ c ∈ contents) :
    putAll Store.empty others = putAll Store.empty contents := by
  have hinj' : Set.InjOn Digest.ofContent {c | c ∈ others} := hinj.mono fun c hc => (h c).mp hc
  refine ext_get? fun d => Option.ext fun c => ?_
  rw [← get_eq_ok_iff, ← get_eq_ok_iff]
  constructor
  · intro hget
    obtain ⟨rfl, -⟩ := get_putAll_of_get hget
    exact get_putAll_of_mem hinj ((h c).mp (mem_of_get_putAll_empty hget))
  · intro hget
    obtain ⟨rfl, -⟩ := get_putAll_of_get hget
    exact get_putAll_of_mem hinj' ((h c).mpr (mem_of_get_putAll_empty hget))

end Store

/-- **A store is made of what was put into it.** Contents are put, one after the other, into a store
in memory that begins without objects.  Whatever is put next is answered with its digest, and is kept
unless the digest is kept already, whether the store looks first or not.  The digests in the store
are in ascending order those of the contents, and its size is their number.  The store answers for
these digests, gives out a content for each, and for any other says that there is no such object.
What it gives out is the first content with the digest; it has the digest that it is kept under, and
stays whatever else is put.

When no two different contents have the same digest, every content is given out under the digest
that putting it was answered with, from then on, and the store depends on nothing but the set of the
contents.

A part of a list is a list, so this is how things are after each content. -/
theorem store_of_puts (contents : List ByteArray) :
    let s := putAll Store.empty contents
    let digests := Digest.ofContent '' {c | c ∈ contents}
    (∀ c, s.put c = (.ofContent c, s.keep c)) ∧
      (s.digests.Pairwise fun d e => compare d e = .lt) ∧
      (∀ d, d ∈ s.digests ↔ d ∈ digests) ∧
      ObjectStore.size s = digests.ncard ∧
      (∀ d, s.contains d = true ↔ d ∈ digests) ∧
      (∀ d, (∃ c, s.get d = .ok c) ↔ d ∈ digests) ∧
      (∀ d, d ∉ digests → s.get d = .error (.objectNotFound d)) ∧
      (∀ d c, s.get d = .ok c ↔ ∃ before after, contents = before ++ c :: after ∧
        .ofContent c = d ∧ ∀ b ∈ before, .ofContent b ≠ d) ∧
      (∀ d c, s.get d = .ok c → .ofContent c = d ∧ ∀ more, (putAll s more).get d = .ok c) ∧
      (Set.InjOn Digest.ofContent {c | c ∈ contents} →
        (∀ before c after, contents = before ++ c :: after →
          ((putAll Store.empty before).put c).2.get ((putAll Store.empty before).put c).1 = .ok c ∧
            s.get ((putAll Store.empty before).put c).1 = .ok c) ∧
        ∀ others, (∀ c, c ∈ others ↔ c ∈ contents) → putAll Store.empty others = s) := by
  intro s digests
  have hdigests : ∀ d, d ∈ s.digests ↔ d ∈ digests := fun d => Store.mem_digests_putAll_iff
  refine ⟨s.put_eq_keep, s.objects.pairwise_keys, hdigests, ?_, ?_, ?_, ?_, ?_, ?_, ?_⟩
  · exact (ncard_eq_length s.objects.nodup_keys hdigests).symm
  · intro d
    rw [← Store.mem_digests_iff, hdigests]
  · intro d
    rw [Store.exists_get_iff, hdigests]
  · intro d hd
    exact Store.get_of_not_mem_digests (mt (hdigests d).mp hd)
  · exact fun d c => Store.get_putAll_eq_ok_iff
  · exact fun d c => Store.get_putAll_of_get
  · intro hinj
    refine ⟨?_, fun others => Store.putAll_eq_of_mem_iff hinj⟩
    intro before c after heq
    subst heq
    rw [Store.fst_put]
    refine ⟨?_, Store.get_putAll_of_mem hinj (by simp)⟩
    -- The store just after `c` is the one made of the contents up to it.
    have hnow : ((putAll Store.empty before).put c).2 = putAll Store.empty (before ++ [c]) :=
      calc ((putAll Store.empty before).put c).2
          = putAll (putAll Store.empty before) [c] := rfl
        _ = putAll Store.empty (before ++ [c]) := List.foldl_append.symm
    have hsub : ∀ b ∈ before ++ [c], b ∈ before ++ c :: after := by grind
    rw [hnow]
    exact Store.get_putAll_of_mem (hinj.mono hsub) (by simp)

/-- Two contents, one of them put twice, in one order and in the other. -/
theorem store_of_puts_of_two_contents :
    let a : ByteArray := ⟨#[]⟩
    let b : ByteArray := ⟨#[98]⟩
    Set.InjOn Digest.ofContent {c | c ∈ [a, b, a]} ∧
      ((putAll Store.empty [a]).put b).2.get (.ofContent b) = .ok b ∧
      putAll Store.empty [b, b, a, b] = putAll Store.empty [a, b, a] := by
  intro a b
  have hinj : Set.InjOn Digest.ofContent {c | c ∈ [a, b, a]} := by
    refine Digest.injOn_of_eq_or_eq (a := a) (b := b) ?_ (by decide +kernel)
    intro c hc
    simpa [or_comm] using hc
  obtain ⟨-, -, -, -, -, -, -, -, -, hapart⟩ := store_of_puts [a, b, a]
  obtain ⟨hgets, hsame⟩ := hapart hinj
  have hget := (hgets [a] b [a] rfl).1
  rw [Store.fst_put] at hget
  refine ⟨hinj, hget, hsame _ fun c => ?_⟩
  simp only [List.mem_cons, List.not_mem_nil, or_false]
  grind

end Worktree
