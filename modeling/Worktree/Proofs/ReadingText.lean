import Worktree.Proofs.Decoding
import Worktree.Proofs.Growing

/-!
# Files as texts

A file is read as text in two steps: its content is got, from the tree or from the store, and then
decoded.  Each step fails in its own way, and no failure is covered up by an empty text.

* `Tree.readText_of_read_error` and `Tree.readText_of_read_ok` are the two steps;
* `Tree.readText_error_cases` says why a file that is there does not read as text;
* `Tree.readText_write` and `Tree.exists_commit_readText_write` say that a text that is written
  reads back, before and after a commit;
* `files_read_as_texts` puts it together with what decoding does.
-/

namespace Worktree

open ObjectStore (putAll)

namespace Tree

section Objects

variable {σ : Type} [ObjectStore σ] {store : σ} {t : Tree} {p : Path}

theorem readText_of_read_error {f : Fault} (h : t.read store p = .error f) :
    t.readText store p = .error f := by
  rw [readText, h]
  rfl

theorem readText_of_read_ok {content : ByteArray} (h : t.read store p = .ok content) :
    t.readText store p = (Text.decode content).mapError (Fault.invalidEncoding p) := by
  simp only [readText, h, bind, Except.bind]
  cases Text.decode content <;> rfl

/-- Reading a file that is there as text fails because its object is not given out or because its
content is no text. -/
theorem readText_error_cases {f : Fault} (hlive : t.isLive p = true)
    (h : t.readText store p = .error f) :
    (∃ d, f = .corrupt p d) ∨ ∃ m, f = .invalidEncoding p m := by
  have hread := readsEntry_read store t p
  cases hcontent : t.read store p with
  | error g =>
      obtain rfl : g = f := Except.error.inj ((readText_of_read_error hcontent).symm.trans h)
      rcases hread.no_other g hcontent with rfl | hcorrupt
      · rw [isLive_eq_any, hread.notFound_iff.mp hcontent] at hlive
        exact absurd hlive (by decide)
      · exact .inl hcorrupt
  | ok content =>
      rw [readText_of_read_ok hcontent] at h
      cases hdecode : Text.decode content with
      | error m =>
          rw [hdecode] at h
          exact .inr ⟨m, (Except.error.inj h).symm⟩
      | ok text =>
          rw [hdecode] at h
          exact absurd h nofun

theorem read_write (store : σ) (t : Tree) (p : Path) (content : ByteArray) :
    (t.write p content).read store p = .ok content := by
  rw [read, lookup_write, if_pos rfl]

/-- A text that is written reads back, whatever the store has lost. -/
theorem readText_write (store : σ) (t : Tree) (p : Path) (text : String) :
    (t.write p text.toByteArray).readText store p = .ok text := by
  rw [readText_of_read_ok (read_write store t p _), Text.decode_eq_ok_iff.mpr rfl]
  rfl

end Objects

/-- It reads back after a commit too, which a store that misses nothing allows. -/
theorem exists_commit_readText_write {store : Store} (hstore : store.IsPut) {t : Tree}
    (hfound : ∀ q d, ¬ t.Missing store q d) {p : Path} {text : String}
    (hinj : Set.InjOn Digest.ofContent (readable store (t.write p text.toByteArray))) :
    ∃ k, (t.write p text.toByteArray).commit store = .ok k ∧
      k.tree.readText k.store p = .ok text := by
  have hfound' : ∀ q d, ¬ (t.write p text.toByteArray).Missing store q d := by
    apply not_missing_iff.mpr
    intro q d hq
    rw [lookup_write] at hq
    split at hq
    · exact absurd hq nofun
    · exact not_missing_iff.mp hfound q d hq
  refine ⟨_, commit_eq_ok_iff.mpr ⟨hfound', rfl⟩, ?_⟩
  rw [recorded_eq]
  have hread := (read_ofSnapshot_digests hstore hfound' hinj p).trans (read_write store t p _)
  rw [readText_of_read_ok hread, Text.decode_eq_ok_iff.mpr rfl]
  rfl

end Tree

/-- **A file is read as text exactly.**  Over any store, a file whose content is got reads as a text
when the content is the UTF-8 form of this text, and only then.  If the content is no text, the
fault names the path, in its canonical spelling, and describes the content: the end of its longest
beginning that is text, and how many bytes to skip there.  If the content is not got, the fault is
the one that reading it gives.

A text that is written to a file reads back by any spelling of the path.  It does so after a commit
as well, over a store in memory that has all objects of the tree and in which digests tell contents
apart. -/
theorem files_read_as_texts {σ : Type} [ObjectStore σ] (store : σ) (t : Tree) (path : String) :
    (∀ f, t.read store (.ofString path) = .error f →
      t.readText store (.ofString path) = .error f) ∧
    (∀ content, t.read store (.ofString path) = .ok content →
      (∀ text : String, t.readText store (.ofString path) = .ok text ↔
        text.toByteArray = content) ∧
      ((∀ text : String, text.toByteArray ≠ content) →
        ∃ m : Text.Malformed, m.Describes content.data.toList ∧
          t.readText store (.ofString path) = .error (.invalidEncoding (.ofString path) m))) ∧
    (∀ (text spelling : String), Path.normalize spelling = Path.normalize path →
      (t.write (.ofString path) text.toByteArray).readText store (.ofString spelling)
        = .ok text) ∧
    ∀ (memory : Store) (text : String), memory.IsPut → (∀ q d, ¬ t.Missing memory q d) →
      Set.InjOn Digest.ofContent
        (Tree.readable memory (t.write (.ofString path) text.toByteArray)) →
      ∃ k, (t.write (.ofString path) text.toByteArray).commit memory = .ok k ∧
        ∀ spelling, Path.normalize spelling = Path.normalize path →
          k.tree.readText k.store (.ofString spelling) = .ok text := by
  refine ⟨fun f => Tree.readText_of_read_error, ?_, ?_, ?_⟩
  · intro content hread
    rw [Tree.readText_of_read_ok hread]
    constructor
    · intro text
      rw [← Text.decode_eq_ok_iff]
      cases Text.decode content <;> simp [Except.mapError]
    · intro hno
      have hill : ¬ Text.WellFormed content.data.toList := by
        intro hwell
        obtain ⟨text, htext⟩ := Text.wellFormed_data_iff.mp hwell
        exact hno text (Text.decode_eq_ok_iff.mp htext)
      have hdescribes := Text.describes_locate hill
      refine ⟨_, hdescribes, ?_⟩
      rw [Text.decode_eq_error_iff.mpr ⟨hill, hdescribes⟩]
      rfl
  · intro text spelling hspelling
    rw [Path.ofString_eq_iff.mpr hspelling]
    exact Tree.readText_write store t _ text
  · intro memory text hstore hfound hinj
    obtain ⟨k, hk, hread⟩ := Tree.exists_commit_readText_write hstore hfound hinj
    refine ⟨k, hk, ?_⟩
    intro spelling hspelling
    rw [Path.ofString_eq_iff.mpr hspelling]
    exact hread

/-- A tree with a committed file that is no text, to which a text is written beside it and
committed. -/
theorem files_read_as_texts_beside_bytes :
    let bytes : ByteArray := ⟨#[0x61, 0xed, 0xa0, 0x80]⟩
    let memory := putAll Store.empty [bytes]
    let t : Tree := ⟨.ofList [(.ofString "raw", .committed (.ofContent bytes))]⟩
    let text := "é€\n"
    t.read memory (.ofString "/raw") = .ok bytes ∧
      (∃ m : Text.Malformed, m.Describes bytes.data.toList ∧
        t.readText memory (.ofString "/raw") = .error (.invalidEncoding (.ofString "/raw") m)) ∧
      ∃ k, (t.write (.ofString "d/new") text.toByteArray).commit memory = .ok k ∧
        k.tree.readText k.store (.ofString "d//./new") = .ok text := by
  intro bytes memory t text
  have hentry : ∀ p e, t.lookup p = some e → e = .committed (.ofContent bytes) := by
    intro p e he
    have hmem := List.mem_map_of_mem (f := Prod.snd) (OrderedMap.mem_of_get?_ofList he)
    simpa using hmem
  have hread : t.read memory (.ofString "/raw") = .ok bytes := by decide +kernel
  have hno : ∀ text : String, text.toByteArray ≠ bytes := by
    have hinvalid : ¬ bytes.IsValidUTF8 := by decide +kernel
    intro text htext
    exact hinvalid (htext ▸ text.isValidUTF8)
  have hfound : ∀ q d, ¬ t.Missing memory q d := by
    apply Tree.not_missing_iff.mpr
    intro q d hq
    obtain rfl : d = .ofContent bytes := by simpa using hentry q _ hq
    exact (Store.contains_putAll Store.empty _ _).mpr (.inr ⟨_, List.mem_singleton_self _, rfl⟩)
  have hinj : Set.InjOn Digest.ofContent
      (Tree.readable memory (t.write (.ofString "d/new") text.toByteArray)) := by
    refine Digest.injOn_of_eq_or_eq (a := bytes) (b := text.toByteArray) ?_ (by decide +kernel)
    intro c hc
    rcases hc with ⟨d, hget⟩ | ⟨p, hp⟩
    · exact .inl (List.mem_singleton.mp (Store.mem_of_get_putAll_empty hget))
    · rw [Tree.lookup_write] at hp
      split at hp
      · exact .inr (by simpa using hp.symm)
      · exact absurd (hentry p _ hp) nofun
  obtain ⟨-, hdecodes, -, -⟩ := files_read_as_texts memory t "/raw"
  obtain ⟨-, -, -, hcommit⟩ := files_read_as_texts memory t "d/new"
  obtain ⟨k, hk, hback⟩ := hcommit memory text ⟨_, rfl⟩ hfound hinj
  exact ⟨hread, (hdecodes bytes hread).2 hno, k, hk, hback _ (by decide +kernel)⟩

end Worktree
