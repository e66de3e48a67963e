import Mathlib.Tactic.IntervalCases
import Worktree.OrderedMap.Lemmas
import Worktree.Proofs.Rendering
import Worktree.Snapshot.Json

/-!
# Digests and snapshots read back

What the library writes down of a digest and of a snapshot says all there is to say about it.

* `Digest.ofHex_hex` — the digits of a digest spell it;
* `Snapshot.ofJson_json` — the JSON text of a snapshot holds it.  The writer lists canonical paths
  in ascending order, so the reader, which takes the keys for any spellings and sorts them, changes
  nothing.
-/

namespace Worktree

/-! ## Digits -/

namespace Text

/-- The codes of characters, as bytes. -/
def codes (cs : List Char) : List UInt8 :=
  cs.map fun c => UInt8.ofNat c.toNat

/-- A text of ASCII characters has their codes for its bytes. -/
theorem bytes_ofList {cs : List Char} (h : ∀ c ∈ cs, c.toNat < 128) :
    bytes (String.ofList cs) = codes cs := by
  have hchar : ∀ c ∈ cs, String.utf8EncodeChar c = [UInt8.ofNat c.toNat] := by
    intro c hc
    have hlow : c.val.toNat ≤ 127 := Nat.le_of_lt_succ (h c hc)
    simp only [String.utf8EncodeChar, if_pos hlow]
    rfl
  rw [bytes_ofList_eq_flatMap, codes, List.map_eq_flatMap]
  exact List.flatMap_congr hchar

theorem toNat_digitChar_lt {k : Nat} (hk : k < 16) : (Nat.digitChar k).toNat < 128 := by
  interval_cases k <;> decide

theorem hexValue?_digitChar {k : Nat} (hk : k < 16) :
    hexValue? (UInt8.ofNat (Nat.digitChar k).toNat).toNat = some k := by
  interval_cases k <;> decide

end Text

namespace Digest

theorem readDigit_digitChar (index : Nat) {k : Nat} (hk : k < 16) :
    readDigit index (UInt8.ofNat (Nat.digitChar k).toNat) = .ok k := by
  rw [readDigit, Text.hexValue?_digitChar hk]

/-- The digits of bytes are read as these bytes, wherever they stand. -/
theorem readPairs_hexPair (index : Nat) (bytes : List UInt8) :
    readPairs index (Text.codes (bytes.flatMap Text.hexPair)) = .ok bytes := by
  induction bytes generalizing index with
  | nil => rfl
  | cons b rest ih =>
      have hb := b.toNat_lt
      have hhigh := readDigit_digitChar index (k := b.toNat / 16) (by omega)
      have hlow := readDigit_digitChar (index + 1) (k := b.toNat % 16) (by omega)
      have hvalue : UInt8.ofNat (16 * (b.toNat / 16) + b.toNat % 16) = b := by
        rw [Nat.div_add_mod, UInt8.ofNat_toNat]
      show (do
        let high ← readDigit index (UInt8.ofNat (Nat.digitChar (b.toNat / 16)).toNat)
        let low ← readDigit (index + 1) (UInt8.ofNat (Nat.digitChar (b.toNat % 16)).toNat)
        let later ← readPairs (index + 2) (Text.codes (rest.flatMap Text.hexPair))
        return UInt8.ofNat (16 * high + low) :: later) = _
      rw [hhigh, hlow, ih]
      exact congrArg (fun c => Except.ok (c :: rest)) hvalue

theorem length_flatMap_hexPair (bytes : List UInt8) :
    (bytes.flatMap Text.hexPair).length = 2 * bytes.length := by
  induction bytes with
  | nil => rfl
  | cons b rest ih =>
      rw [List.flatMap_cons, List.length_append, ih]
      simp [Text.hexPair]
      omega

/-- The bytes of the text of a digest. -/
theorem bytes_hex (d : Digest) :
    Text.bytes d.hex = Text.codes (d.bytes.flatMap Text.hexPair) := by
  apply Text.bytes_ofList
  intro c hc
  obtain ⟨b, -, hc⟩ := List.mem_flatMap.mp hc
  have hb := b.toNat_lt
  rcases List.mem_cons.mp hc with rfl | hc
  · exact Text.toNat_digitChar_lt (by omega)
  · rw [List.mem_singleton.mp hc]
    exact Text.toNat_digitChar_lt (by omega)

/-- **Digests read back.** -/
theorem ofHex_hex (d : Digest) : ofHex d.hex = .ok d := by
  have hlength : (Text.bytes d.hex).length = 64 := by
    rw [bytes_hex, Text.codes, List.length_map, length_flatMap_hexPair, d.length_bytes]
  have hread : readPairs 0 (Text.bytes d.hex) = .ok d.bytes := by
    rw [bytes_hex, readPairs_hexPair]
  unfold ofHex
  rw [dif_pos hlength]
  split
  · next bytes hbytes =>
    obtain rfl : bytes = d.bytes := Except.ok.inj (hbytes.symm.trans hread)
    rfl
  · next e he => exact absurd (he.symm.trans hread) nofun

theorem ofNode_toNode (d : Digest) : ofNode d.toNode = .ok d := by
  have htext : d.toNode.asText = .ok d.hex := rfl
  simp only [ofNode, htext, bind, Except.bind, ofHex_hex]
  rfl

end Digest

/-! ## Snapshots -/

theorem Json.Node.areMembersComplete_of_forall {members : List (Literal × Node)}
    (h : ∀ m ∈ members, m.2.isComplete = true) : areMembersComplete members = true := by
  induction members with
  | nil => rfl
  | cons m rest ih =>
      rw [areMembersComplete, h m List.mem_cons_self,
        ih fun n hn => h n (List.mem_cons_of_mem m hn)]
      rfl

namespace Snapshot

theorem isComplete_toNode (s : Snapshot) : s.toNode.isComplete = true := by
  have hmembers : ∀ m ∈ s.toList.map fun b => (Json.Literal.text b.1.text, b.2.toNode),
      m.2.isComplete = true := by
    intro m hm
    obtain ⟨b, -, rfl⟩ := List.mem_map.mp hm
    rfl
  rw [toNode, Json.Node.isComplete, Json.Node.areMembersComplete_of_forall hmembers]
  rfl

/-- The paths of a snapshot are spelled in ascending order, and each means itself. -/
theorem ofSpellings_toList (s : Snapshot) :
    ofSpellings (s.toList.map fun b => (b.1.text, b.2)) = s := by
  have hsorted : (s.toList.map fun b => (b.1.text, b.2)).Pairwise
      fun a b => Text.precedes a.1 b.1 = true := by
    refine List.pairwise_map.mpr (s.entries.ascending.imp ?_)
    intro a b hlt
    have htext : Text.compare a.1.text b.1.text = .lt := hlt
    rw [Text.precedes, htext]
    rfl
  have hmeant : (s.toList.map fun b => (b.1.text, b.2)).map
      (fun b => (Path.ofString b.1, b.2)) = s.toList := by
    rw [List.map_map]
    refine (List.map_congr_left fun b _ => ?_).trans (List.map_id _)
    show (Path.ofString b.1.text, b.2) = b
    rw [Path.ofString_text]
  rw [ofSpellings, List.mergeSort_of_pairwise hsorted, hmeant, ofList, toList,
    OrderedMap.ofList_toList]

theorem readMember_toNode (b : Path × Digest) :
    readMember (.text b.1.text, b.2.toNode) = .ok (b.1.text, b.2) := by
  show (do
    let d ← Digest.ofNode b.2.toNode
    return (b.1.text, d)) = _
  rw [Digest.ofNode_toNode]
  rfl

theorem ofNode_toNode (s : Snapshot) : ofNode s.toNode = .ok s := by
  have hmembers : (s.toList.map fun b => (Json.Literal.text b.1.text, b.2.toNode)).mapM readMember
      = .ok (s.toList.map fun b => (b.1.text, b.2)) := by
    rw [List.mapM_map]
    exact (congrArg (fun f => s.toList.mapM f) (funext readMember_toNode)).trans List.mapM_pure
  show (do
    let entries ← (s.toList.map fun b : Path × Digest =>
      (Json.Literal.text b.1.text, b.2.toNode)).mapM readMember
    Json.expectEnd true
    return ofSpellings entries) = _
  rw [hmembers]
  exact congrArg Except.ok s.ofSpellings_toList

/-- **Snapshots read back.** -/
theorem ofJson_json (s : Snapshot) : ofJson s.json = .ok s := by
  rw [ofJson, json, Json.Document.read_render ofNode s.isComplete_toNode, ofNode_toNode]

end Snapshot

end Worktree
