import Mathlib.Tactic.IntervalCases
import Worktree.Proofs.FirstMissing
import Worktree.Proofs.Readback

/-!
# The text of a digest

A digest is written as 64 lower-case digits, and a text of 64 digits of either case spells a digest.
The two directions fit together: what is written reads back as the digest, and what is read is
written back as the text in lower case.

A text that is no digest is refused for its length first, which is counted in bytes, and else for the
first byte that is no digit, wherever it stands in its pair.

* `Digest.readPairs_of_isHexDigit` and `Digest.readPairs_of_first` are the two ways in which the
  reading of digits ends, by induction over the pairs;
* `Digest.ofHex_eq_ok_iff` and `Digest.ofHex_eq_error_iff` carry them to texts;
* `Digest.decodeInto` is a decoder with checks of its own, and `Digest.decodeHex_eq` says that they
  find nothing here;
* `Digest.compare_hex` — the texts of digests are in the order of the digests;
* `hex_text_of_digests` puts it together.
-/

namespace Worktree

namespace Text

/-- The byte is the code of a hexadecimal digit of either case: of `0` to `9`, of `a` to `f`, or of
`A` to `F`. -/
def IsHexDigit (b : UInt8) : Prop :=
  (48 ≤ b.toNat ∧ b.toNat ≤ 57) ∨ (97 ≤ b.toNat ∧ b.toNat ≤ 102) ∨ (65 ≤ b.toNat ∧ b.toNat ≤ 70)

instance (b : UInt8) : Decidable (IsHexDigit b) :=
  inferInstanceAs (Decidable (_ ∨ _ ∨ _))

/-- The character that a byte is the code of. -/
def character (b : UInt8) : Char :=
  Char.ofNat b.toNat

/-- The value of a digit, written in lower case. -/
theorem hexValue?_of_isHexDigit {b : UInt8} (h : IsHexDigit b) :
    ∃ v < 16, hexValue? b.toNat = some v ∧ Nat.digitChar v = (character b).toLower := by
  unfold character
  generalize hn : b.toNat = n
  unfold IsHexDigit at h
  rw [hn] at h
  rcases h with ⟨hlow, hhigh⟩ | ⟨hlow, hhigh⟩ | ⟨hlow, hhigh⟩
  · exact ⟨n - 48, by omega, by interval_cases n <;> decide, by interval_cases n <;> decide⟩
  · exact ⟨n - 87, by omega, by interval_cases n <;> decide, by interval_cases n <;> decide⟩
  · exact ⟨n - 55, by omega, by interval_cases n <;> decide, by interval_cases n <;> decide⟩

theorem hexValue?_of_not_isHexDigit {b : UInt8} (h : ¬ IsHexDigit b) :
    hexValue? b.toNat = none := by
  unfold IsHexDigit at h
  rw [hexValue?, if_neg (by omega), if_neg (by omega), if_neg (by omega)]

theorem IsHexDigit.lt {b : UInt8} (h : IsHexDigit b) : b.toNat < 128 := by
  unfold IsHexDigit at h
  omega

/-- A text of ASCII bytes consists of the characters with these codes. -/
theorem eq_ofList_characters {t : String} (h : ∀ b ∈ bytes t, b.toNat < 128) :
    t = String.ofList ((bytes t).map character) := by
  have hcode : ∀ b ∈ bytes t, (character b).toNat = b.toNat := by
    intro b hb
    have hvalid : b.toNat.isValidChar := .inl (Nat.lt_trans (h b hb) (by decide))
    rw [character, Char.ofNat, dif_pos hvalid]
    rfl
  have hascii : ∀ c ∈ (bytes t).map character, c.toNat < 128 := by
    intro c hc
    obtain ⟨b, hb, rfl⟩ := List.mem_map.mp hc
    rw [hcode b hb]
    exact h b hb
  apply bytes_injective
  rw [bytes_ofList hascii, codes, List.map_map]
  conv => lhs; rw [← List.map_id (bytes t)]
  refine List.map_congr_left fun b hb => ?_
  rw [Function.comp_apply, hcode b hb, UInt8.ofNat_toNat, id]

/-- The characters of a text are lowered one by one. -/
theorem toLower_ofList (cs : List Char) :
    (String.ofList cs).toLower = String.ofList (cs.map Char.toLower) := by
  apply String.toList_injective
  show (String.map Char.toLower (String.ofList cs)).toList = _
  rw [String.toList_map, String.toList_ofList, String.toList_ofList]

end Text

namespace Digest

open Text (IsHexDigit character)

/-! ## Digits -/

theorem readDigit_of_isHexDigit (index : Nat) {b : UInt8} (h : IsHexDigit b) :
    ∃ v < 16, readDigit index b = .ok v ∧ Nat.digitChar v = (character b).toLower := by
  obtain ⟨v, hv, hvalue, hchar⟩ := Text.hexValue?_of_isHexDigit h
  exact ⟨v, hv, by rw [readDigit, hvalue], hchar⟩

theorem readDigit_of_not_isHexDigit (index : Nat) {b : UInt8} (h : ¬ IsHexDigit b) :
    readDigit index b = .error (.digit b index) := by
  rw [readDigit, Text.hexValue?_of_not_isHexDigit h]

/-- Two digits are the digits of the byte that they make. -/
theorem hexPair_ofNat {high low : Nat} (hhigh : high < 16) (hlow : low < 16) :
    Text.hexPair (UInt8.ofNat (16 * high + low)) = [Nat.digitChar high, Nat.digitChar low] := by
  have hnat : (UInt8.ofNat (16 * high + low)).toNat = 16 * high + low := by
    rw [UInt8.toNat_ofNat']
    omega
  rw [Text.hexPair, hnat, show (16 * high + low) / 16 = high by omega,
    show (16 * high + low) % 16 = low by omega]

/-- **Digits only.**  They are read, and what is read is written as the digits in lower case. -/
theorem readPairs_of_isHexDigit (index : Nat) {digits : List UInt8}
    (heven : digits.length % 2 = 0) (h : ∀ b ∈ digits, IsHexDigit b) :
    ∃ bytes, readPairs index digits = .ok bytes ∧
      bytes.flatMap Text.hexPair = digits.map fun b => (character b).toLower := by
  induction digits using List.twoStepInduction generalizing index with
  | nil => exact ⟨[], rfl, rfl⟩
  | singleton a => exact absurd heven (by simp)
  | cons_cons a b rest ih =>
      obtain ⟨high, hhigh, ha, hachar⟩ := readDigit_of_isHexDigit index (h a (by simp))
      obtain ⟨low, hlow, hb, hbchar⟩ := readDigit_of_isHexDigit (index + 1) (h b (by simp))
      have heven' : rest.length % 2 = 0 := by
        simp only [List.length_cons] at heven
        omega
      obtain ⟨later, hrest, hwritten⟩ :=
        ih (index + 2) heven' fun c hc => h c (by simp [hc])
      refine ⟨UInt8.ofNat (16 * high + low) :: later, ?_, ?_⟩
      · rw [readPairs, ha, hb, hrest]
        rfl
      · rw [List.flatMap_cons, hwritten, hexPair_ofNat hhigh hlow, hachar, hbchar]
        rfl

/-- **A byte that is no digit.**  The first one is what the reading stops at, in either half of its
pair. -/
theorem readPairs_of_first (index : Nat) {before after : List UInt8} {b : UInt8}
    (heven : (before ++ b :: after).length % 2 = 0) (hbefore : ∀ c ∈ before, IsHexDigit c)
    (hb : ¬ IsHexDigit b) :
    readPairs index (before ++ b :: after) = .error (.digit b (index + before.length)) := by
  induction before using List.twoStepInduction generalizing index with
  | nil =>
      cases after with
      | nil => exact absurd heven (by simp)
      | cons c rest =>
          rw [List.nil_append, readPairs, readDigit_of_not_isHexDigit index hb]
          rfl
  | singleton a =>
      obtain ⟨high, -, ha, -⟩ := readDigit_of_isHexDigit index (hbefore a (by simp))
      rw [List.singleton_append, readPairs, ha, readDigit_of_not_isHexDigit (index + 1) hb]
      rfl
  | cons_cons a c rest ih =>
      obtain ⟨high, -, ha, -⟩ := readDigit_of_isHexDigit index (hbefore a (by simp))
      obtain ⟨low, -, hc, -⟩ := readDigit_of_isHexDigit (index + 1) (hbefore c (by simp))
      have heven' : (rest ++ b :: after).length % 2 = 0 := by
        simp only [List.cons_append, List.length_cons] at heven
        omega
      have hrest := ih (index + 2) heven' fun x hx => hbefore x (by simp [hx])
      rw [List.cons_append, List.cons_append, readPairs, ha, hc, hrest]
      simp only [List.length_cons, Nat.add_assoc, Nat.add_comm 2]
      rfl

/-- Bytes are digits throughout, or there is a first one among them that is none. -/
theorem isHexDigit_or_exists_first (digits : List UInt8) :
    (∀ b ∈ digits, IsHexDigit b) ∨ ∃ before b after, digits = before ++ b :: after ∧
      (∀ c ∈ before, IsHexDigit c) ∧ ¬ IsHexDigit b := by
  cases hfind : digits.find? fun b => ¬ IsHexDigit b with
  | none => exact .inl (by simpa using hfind)
  | some b =>
      rw [List.find?_eq_some_iff_append] at hfind
      obtain ⟨hb, before, after, heq, hbefore⟩ := hfind
      exact .inr ⟨before, b, after, heq, by simpa using hbefore, by simpa using hb⟩

/-! ## Texts -/

theorem hex_injective {a b : Digest} (h : a.hex = b.hex) : a = b := by
  have hread : (.ok a : Except HexError Digest) = .ok b := by rw [← ofHex_hex, h, ofHex_hex]
  exact Except.ok.inj hread

variable {t : String}

theorem ofHex_of_length_ne (h : (Text.bytes t).length ≠ 64) :
    ofHex t = .error (.length (Text.bytes t).length) := by
  rw [ofHex, dif_neg h]

/-- With the right length the digits decide. -/
theorem ofHex_of_length_eq (h : (Text.bytes t).length = 64) :
    (ofHex t).map bytes = readPairs 0 (Text.bytes t) := by
  rw [ofHex, dif_pos h]
  split
  · next bytes hbytes => exact hbytes.symm
  · next e he => exact he.symm

/-- A text of 64 digits is the text of a digest, but for the case of the digits. -/
theorem exists_ofHex (hlength : (Text.bytes t).length = 64)
    (h : ∀ b ∈ Text.bytes t, IsHexDigit b) : ∃ d, ofHex t = .ok d ∧ d.hex = t.toLower := by
  obtain ⟨bytes, hread, hwritten⟩ := readPairs_of_isHexDigit 0 (by rw [hlength]) h
  have hmap := ofHex_of_length_eq hlength
  rw [hread, map_eq_ok_iff] at hmap
  obtain ⟨d, hd, rfl⟩ := hmap
  refine ⟨d, hd, ?_⟩
  have htext := Text.eq_ofList_characters fun b hb => (h b hb).lt
  calc d.hex
      = String.ofList ((Text.bytes t).map fun b => (character b).toLower) := by
        rw [hex, hwritten]
    _ = (String.ofList ((Text.bytes t).map character)).toLower := by
        rw [Text.toLower_ofList, List.map_map]
        rfl
    _ = t.toLower := by rw [← htext]

theorem ofHex_of_first {before after : List UInt8} {b : UInt8}
    (hlength : (Text.bytes t).length = 64) (heq : Text.bytes t = before ++ b :: after)
    (hbefore : ∀ c ∈ before, IsHexDigit c) (hb : ¬ IsHexDigit b) :
    ofHex t = .error (.digit b before.length) := by
  have hmap := ofHex_of_length_eq hlength
  have heven : (before ++ b :: after).length % 2 = 0 := by rw [← heq, hlength]
  rw [heq, readPairs_of_first 0 heven hbefore hb, map_eq_error_iff, Nat.zero_add] at hmap
  exact hmap

/-- **What is read.**  A text spells a digest exactly when it has 64 bytes, all of them digits, and
then it is the digest's text but for the case of the digits. -/
theorem ofHex_eq_ok_iff {d : Digest} :
    ofHex t = .ok d ↔ (Text.bytes t).length = 64 ∧ (∀ b ∈ Text.bytes t, IsHexDigit b) ∧
      d.hex = t.toLower := by
  constructor
  · intro h
    by_cases hlength : (Text.bytes t).length = 64
    · rcases isHexDigit_or_exists_first (Text.bytes t) with hall | ⟨before, b, after, heq, hfirst⟩
      · obtain ⟨d', hd', hhex⟩ := exists_ofHex hlength hall
        rw [h] at hd'
        obtain rfl := Except.ok.inj hd'
        exact ⟨hlength, hall, hhex⟩
      · rw [ofHex_of_first hlength heq hfirst.1 hfirst.2] at h
        exact absurd h nofun
    · rw [ofHex_of_length_ne hlength] at h
      exact absurd h nofun
  · rintro ⟨hlength, hall, hhex⟩
    obtain ⟨d', hd', hhex'⟩ := exists_ofHex hlength hall
    rw [hd', hex_injective (hhex'.trans hhex.symm)]

/-- **Why a text is refused.**  For its length in bytes, or else for the first byte that is no
digit. -/
theorem ofHex_eq_error_iff {e : HexError} :
    ofHex t = .error e ↔
      ((Text.bytes t).length ≠ 64 ∧ e = .length (Text.bytes t).length) ∨
      ((Text.bytes t).length = 64 ∧ ∃ before b after, Text.bytes t = before ++ b :: after ∧
        (∀ c ∈ before, IsHexDigit c) ∧ ¬ IsHexDigit b ∧ e = .digit b before.length) := by
  constructor
  · intro h
    by_cases hlength : (Text.bytes t).length = 64
    · refine .inr ⟨hlength, ?_⟩
      rcases isHexDigit_or_exists_first (Text.bytes t) with hall | ⟨before, b, after, heq, hfirst⟩
      · obtain ⟨d, hd, -⟩ := exists_ofHex hlength hall
        rw [h] at hd
        exact absurd hd nofun
      · rw [ofHex_of_first hlength heq hfirst.1 hfirst.2] at h
        exact ⟨before, b, after, heq, hfirst.1, hfirst.2, (Except.error.inj h).symm⟩
    · rw [ofHex_of_length_ne hlength] at h
      exact .inl ⟨hlength, (Except.error.inj h).symm⟩
  · rintro (⟨hlength, rfl⟩ | ⟨hlength, before, b, after, heq, hbefore, hb, rfl⟩)
    · exact ofHex_of_length_ne hlength
    · exact ofHex_of_first hlength heq hbefore hb

/-! ## A decoder with checks of its own -/

/-- Why digits are not decoded. -/
inductive DecodeError where
  /-- There is an odd number of digits. -/
  | oddLength
  /-- There are digits for another number of bytes. -/
  | wrongLength
  /-- The digits themselves are refused. -/
  | refused (e : HexError)
  deriving DecidableEq

/-- Decodes digits into a given number of bytes; how many digits there are is looked at before the
digits. -/
def decodeInto (width : Nat) (digits : List UInt8) : Except DecodeError (List UInt8) :=
  if digits.length % 2 = 1 then .error .oddLength
  else if digits.length / 2 ≠ width then .error .wrongLength
  else (readPairs 0 digits).mapError .refused

/-- The bytes of the digest that a text spells, by way of the decoder. -/
def decodeHex (t : String) : Except DecodeError (List UInt8) :=
  if (Text.bytes t).length ≠ 2 * 32 then .error (.refused (.length (Text.bytes t).length))
  else decodeInto 32 (Text.bytes t)

/-- The checks of the decoder never find anything, for the length of the text was looked at
before. -/
theorem decodeHex_eq (t : String) :
    decodeHex t = ((ofHex t).map bytes).mapError .refused := by
  unfold decodeHex
  by_cases hlength : (Text.bytes t).length = 64
  · rw [if_neg (by omega), decodeInto, if_neg (by omega), if_neg (by omega),
      ofHex_of_length_eq hlength]
  · rw [if_pos (by omega), ofHex_of_length_ne hlength]
    rfl

/-! ## Order -/

/-- Digits are in the order of their values. -/
theorem compare_code_digitChar {x y : Nat} (hx : x < 16) (hy : y < 16) :
    compare (UInt8.ofNat (Nat.digitChar x).toNat) (UInt8.ofNat (Nat.digitChar y).toNat)
      = compare x y := by
  have hall : ∀ x < 16, ∀ y < 16,
      compare (UInt8.ofNat (Nat.digitChar x).toNat) (UInt8.ofNat (Nat.digitChar y).toNat)
        = compare x y := by
    decide
  exact hall x hx y hy

/-- Bytes are in the order of their halves, the high one first. -/
theorem compare_halves (a b : UInt8) :
    (compare (a.toNat / 16) (b.toNat / 16)).then (compare (a.toNat % 16) (b.toNat % 16))
      = compare a b := by
  have hnat : compare a b = compare a.toNat b.toNat := by
    simp only [compare, compareOfLessAndEq, UInt8.lt_iff_toNat_lt, ← UInt8.toNat_inj]
  rw [hnat]
  rcases Nat.lt_trichotomy a.toNat b.toNat with hlt | heq | hgt
  · rw [Nat.compare_eq_lt.mpr hlt]
    by_cases hhigh : a.toNat / 16 = b.toNat / 16
    · rw [Nat.compare_eq_eq.mpr hhigh, Nat.compare_eq_lt.mpr (by omega), Ordering.then]
    · rw [Nat.compare_eq_lt.mpr (by omega)]
      rfl
  · rw [heq, Nat.compare_eq_eq.mpr rfl, Nat.compare_eq_eq.mpr rfl, Nat.compare_eq_eq.mpr rfl,
      Ordering.then]
  · rw [Nat.compare_eq_gt.mpr hgt]
    by_cases hhigh : a.toNat / 16 = b.toNat / 16
    · rw [Nat.compare_eq_eq.mpr hhigh, Nat.compare_eq_gt.mpr (by omega), Ordering.then]
    · rw [Nat.compare_eq_gt.mpr (by omega)]
      rfl

/-- Byte strings are in the order of their digits. -/
theorem compareBytes_codes (a b : List UInt8) :
    compareBytes (Text.codes (a.flatMap Text.hexPair)) (Text.codes (b.flatMap Text.hexPair))
      = compareBytes a b := by
  induction a generalizing b with
  | nil => cases b <;> rfl
  | cons x xs ih =>
      cases b with
      | nil => rfl
      | cons y ys =>
          have hx := x.toNat_lt
          have hy := y.toNat_lt
          have hcodes : ∀ (z : UInt8) (zs : List UInt8),
              Text.codes ((z :: zs).flatMap Text.hexPair)
                = UInt8.ofNat (Nat.digitChar (z.toNat / 16)).toNat
                  :: UInt8.ofNat (Nat.digitChar (z.toNat % 16)).toNat
                  :: Text.codes (zs.flatMap Text.hexPair) := fun z zs => rfl
          have hrest : List.compareLex compare (Text.codes (xs.flatMap Text.hexPair))
              (Text.codes (ys.flatMap Text.hexPair)) = List.compareLex compare xs ys := ih ys
          rw [hcodes, hcodes]
          unfold compareBytes
          rw [List.compareLex_cons_cons, List.compareLex_cons_cons, List.compareLex_cons_cons,
            compare_code_digitChar (by omega) (by omega),
            compare_code_digitChar (by omega) (by omega), hrest, ← Ordering.then_assoc,
            compare_halves]

/-- **The texts of digests are in the order of the digests.** -/
theorem compare_hex (a b : Digest) : Text.compare a.hex b.hex = compare a b := by
  rw [Text.compare, bytes_hex, bytes_hex, compareBytes_codes]
  rfl

/-! ## What is written -/

/-- The digits that digests are written with. -/
def lowerDigits : List Char :=
  "0123456789abcdef".toList

theorem digitChar_mem_lowerDigits {k : Nat} (hk : k < 16) : Nat.digitChar k ∈ lowerDigits := by
  interval_cases k <;> decide

theorem mem_lowerDigits_of_mem_hex {d : Digest} {c : Char} (hc : c ∈ d.hex.toList) :
    c ∈ lowerDigits := by
  rw [hex, String.toList_ofList] at hc
  obtain ⟨b, -, hc⟩ := List.mem_flatMap.mp hc
  have hb := b.toNat_lt
  rcases List.mem_cons.mp hc with rfl | hc
  · exact digitChar_mem_lowerDigits (by omega)
  · rw [List.mem_singleton.mp hc]
    exact digitChar_mem_lowerDigits (by omega)

theorem length_hex (d : Digest) : d.hex.length = 64 := by
  rw [hex, String.length_ofList, length_flatMap_hexPair, d.length_bytes]

theorem toList_short (d : Digest) : d.short.toList = d.hex.toList.take 12 := by
  rw [short, hex, String.toList_ofList, String.toList_ofList]

end Digest

open Digest (ofHex) in
/-- **The text of a digest.**  It is 64 lower-case digits, of which the short form is the first
twelve, and it reads back.  A text spells a digest exactly when it has 64 bytes and all of them are
digits of either case; then it is the digest's text but for the case.  Any other text is refused: if
it has another number of bytes than 64, for that number; else for the first byte that is no digit,
with its index.  The decoder of the digits has no complaint of its own.  The texts of digests compare
as the digests do, so that the digests in a store are listed in the order of their texts. -/
theorem hex_text_of_digests :
    (∀ d : Digest, d.hex.length = 64 ∧ (∀ c ∈ d.hex.toList, c ∈ Digest.lowerDigits) ∧
      d.short.toList = d.hex.toList.take 12 ∧ d.short.length = 12 ∧ ofHex d.hex = .ok d) ∧
    (∀ t, (∃ d, ofHex t = .ok d) ↔
      (Text.bytes t).length = 64 ∧ ∀ b ∈ Text.bytes t, Text.IsHexDigit b) ∧
    (∀ t d, ofHex t = .ok d → d.hex = t.toLower) ∧
    (∀ t e, ofHex t = .error e ↔
      ((Text.bytes t).length ≠ 64 ∧ e = .length (Text.bytes t).length) ∨
      ((Text.bytes t).length = 64 ∧ ∃ before b after, Text.bytes t = before ++ b :: after ∧
        (∀ c ∈ before, Text.IsHexDigit c) ∧ ¬ Text.IsHexDigit b ∧ e = .digit b before.length)) ∧
    (∀ t, Digest.decodeHex t = ((ofHex t).map Digest.bytes).mapError .refused) ∧
    (∀ a b : Digest, Text.compare a.hex b.hex = compare a b) ∧
    ∀ s : Store, (s.digests.map Digest.hex).Pairwise fun t u => Text.compare t u = .lt := by
  refine ⟨?_, ?_, ?_, fun t e => Digest.ofHex_eq_error_iff, Digest.decodeHex_eq,
    Digest.compare_hex, ?_⟩
  · intro d
    have hshort : d.short.length = 12 := by
      rw [← String.length_toList, d.toList_short, List.length_take, String.length_toList,
        d.length_hex]
      rfl
    exact ⟨d.length_hex, fun c => Digest.mem_lowerDigits_of_mem_hex, d.toList_short, hshort,
      d.ofHex_hex⟩
  · intro t
    constructor
    · intro h
      obtain ⟨d, hd⟩ := h
      obtain ⟨hlength, hall, -⟩ := Digest.ofHex_eq_ok_iff.mp hd
      exact ⟨hlength, hall⟩
    · intro h
      obtain ⟨d, hd, -⟩ := Digest.exists_ofHex h.1 h.2
      exact ⟨d, hd⟩
  · intro t d hd
    exact (Digest.ofHex_eq_ok_iff.mp hd).2.2
  · intro s
    refine List.pairwise_map.mpr (s.objects.pairwise_keys.imp fun {d e} hlt => ?_)
    rw [Digest.compare_hex]
    exact hlt

/-- Letters of two bytes count twice, and the first of the two bytes is the one that is refused. -/
example :
    let zeros := String.ofList (List.replicate 60 '0')
    Digest.ofHex (zeros ++ "éAbc") = .error (.length 65) ∧
      Digest.ofHex (zeros ++ "Aéz") = .error (.digit 0xc3 61) ∧
      (Digest.ofHex (zeros ++ "AbcD")).map Digest.hex = .ok (zeros ++ "abcd") := by
  decide +kernel

end Worktree
