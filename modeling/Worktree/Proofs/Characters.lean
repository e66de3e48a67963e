import Mathlib.Data.List.Forall2
import Mathlib.Order.Bounds.Basic
import Mathlib.Tactic.SplitIfs
import Worktree.Text.Order
import Worktree.Text.Utf8

/-!
# The bytes of characters

A reader of UTF-8 goes by a table: the lead byte of a character tells in which ranges the bytes after
it lie.  The encoder of characters computes the bytes from the value.  This file proves the two
equal, in the form that reading needs: what the reader finds at the beginning of some bytes is a
character exactly when the encoding of a character stands there, and it is the beginning of one
exactly when the bytes are the beginning of an encoding.

* `row_of_tailRanges` puts the table in rows by the number of bytes;
* `exists_encode` and `fits_encode` — the rows are the encodings of characters;
* `begins_cons_iff` — the beginnings of rows are the beginnings of encodings;
* `scanTail_of_fits`, `scanTail_of_short` and `scanTail_of_stop` are the three ways in which a tail
  is followed, and `fits_cases` says that there is no other;
* `scan_cases` carries them to what stands at the beginning of some bytes.
-/

namespace Worktree.Text

/-- The UTF-8 form of a character. -/
abbrev encode (c : Char) : List UInt8 :=
  String.utf8EncodeChar c

/-- The bytes begin the encoding of a character, or are all of it. -/
def Begins (l : List UInt8) : Prop :=
  ∃ x : Char, l <+: encode x

/-- The bytes begin the encoding of a character, and some of it is left. -/
def Incomplete (l : List UInt8) : Prop :=
  ∃ x : Char, l <+: encode x ∧ l ≠ encode x

/-- How long the beginnings of some bytes are with which the encoding of a character begins. -/
def beginnings (l : List UInt8) : Set Nat :=
  {k | 0 < k ∧ k ≤ l.length ∧ Begins (l.take k)}

/-- The bytes lie in the ranges, one in each. -/
def Fits (ranges : List ByteRange) (tail : List UInt8) : Prop :=
  List.Forall₂ (fun r b => r.contains b = true) ranges tail

theorem ByteRange.contains_iff {r : ByteRange} {b : UInt8} :
    r.contains b = true ↔ r.low.toNat ≤ b.toNat ∧ b.toNat ≤ r.high.toNat := by
  rw [contains, Bool.and_eq_true, decide_eq_true_iff, decide_eq_true_iff, UInt8.le_iff_toNat_le,
    UInt8.le_iff_toNat_le]

theorem continuation_contains_iff {b : UInt8} :
    continuation.contains b = true ↔ 128 ≤ b.toNat ∧ b.toNat ≤ 191 :=
  ByteRange.contains_iff

/-! ## The table by the number of bytes -/

/-- The second of three bytes.  After `E0` small values, which have shorter encodings, are left out,
and after `ED` the surrogates, which are no characters. -/
def secondOfThree (lead : UInt8) : ByteRange :=
  ⟨if lead.toNat = 224 then 160 else 128, if lead.toNat = 237 then 159 else 191⟩

/-- The second of four bytes.  After `F0` small values are left out, and after `F4` values that no
character has. -/
def secondOfFour (lead : UInt8) : ByteRange :=
  ⟨if lead.toNat = 240 then 144 else 128, if lead.toNat = 244 then 143 else 191⟩

/-- The rows of the table, by the number of bytes. -/
inductive Row (lead : UInt8) : List ByteRange → Prop where
  | one (h : lead.toNat ≤ 127) : Row lead []
  | two (h : 194 ≤ lead.toNat ∧ lead.toNat ≤ 223) : Row lead [continuation]
  | three (h : 224 ≤ lead.toNat ∧ lead.toNat ≤ 239) :
    Row lead [secondOfThree lead, continuation]
  | four (h : 240 ≤ lead.toNat ∧ lead.toNat ≤ 244) :
    Row lead [secondOfFour lead, continuation, continuation]

variable {lead : UInt8} {ranges : List ByteRange}

theorem secondOfThree_contains_iff {b : UInt8} :
    (secondOfThree lead).contains b = true ↔
      (if lead.toNat = 224 then 160 else 128) ≤ b.toNat ∧
        b.toNat ≤ if lead.toNat = 237 then 159 else 191 := by
  rw [ByteRange.contains_iff, secondOfThree, apply_ite UInt8.toNat, apply_ite UInt8.toNat]
  rfl

theorem secondOfFour_contains_iff {b : UInt8} :
    (secondOfFour lead).contains b = true ↔
      (if lead.toNat = 240 then 144 else 128) ≤ b.toNat ∧
        b.toNat ≤ if lead.toNat = 244 then 143 else 191 := by
  rw [ByteRange.contains_iff, secondOfFour, apply_ite UInt8.toNat, apply_ite UInt8.toNat]
  rfl

/-- The table with numbers for bytes. -/
theorem tailRanges_eq (lead : UInt8) :
    tailRanges lead =
      if lead.toNat ≤ 127 then some []
      else if lead.toNat ≤ 193 then none
      else if lead.toNat ≤ 223 then some [continuation]
      else if lead.toNat = 224 then some [⟨160, 191⟩, continuation]
      else if lead.toNat = 237 then some [⟨128, 159⟩, continuation]
      else if lead.toNat ≤ 239 then some [continuation, continuation]
      else if lead.toNat = 240 then some [⟨144, 191⟩, continuation, continuation]
      else if lead.toNat ≤ 243 then some [continuation, continuation, continuation]
      else if lead.toNat = 244 then some [⟨128, 143⟩, continuation, continuation]
      else none := by
  simp only [tailRanges, UInt8.le_iff_toNat_le, ← UInt8.toNat_inj, UInt8.reduceToNat]

theorem tailRanges_of_row (h : Row lead ranges) : tailRanges lead = some ranges := by
  rw [tailRanges_eq]
  cases h with
  | one h => rw [if_pos h]
  | two h => rw [if_neg (by omega), if_neg (by omega), if_pos h.2]
  | three h =>
      rw [if_neg (by omega), if_neg (by omega), if_neg (by omega), secondOfThree]
      by_cases hsmall : lead.toNat = 224
      · rw [if_pos hsmall, if_pos hsmall, if_neg (by omega)]
      rw [if_neg hsmall, if_neg hsmall]
      by_cases hsurrogate : lead.toNat = 237
      · rw [if_pos hsurrogate, if_pos hsurrogate]
      · rw [if_neg hsurrogate, if_neg hsurrogate, if_pos h.2]
        rfl
  | four h =>
      rw [if_neg (by omega), if_neg (by omega), if_neg (by omega), if_neg (by omega),
        if_neg (by omega), if_neg (by omega), secondOfFour]
      by_cases hsmall : lead.toNat = 240
      · rw [if_pos hsmall, if_pos hsmall, if_neg (by omega)]
      rw [if_neg hsmall, if_neg hsmall]
      by_cases hlarge : lead.toNat = 244
      · rw [if_neg (by omega), if_pos hlarge, if_pos hlarge]
      · rw [if_pos (by omega), if_neg hlarge]
        rfl

/-- **The table has these rows and no others.** -/
theorem row_of_tailRanges (h : tailRanges lead = some ranges) : Row lead ranges := by
  have hrow : ∀ {r}, Row lead r → Row lead ranges := by
    intro r hr
    rw [tailRanges_of_row hr] at h
    exact Option.some.inj h ▸ hr
  by_cases hone : lead.toNat ≤ 127
  · exact hrow (.one hone)
  by_cases hnone : lead.toNat ≤ 193
  · rw [tailRanges_eq, if_neg hone, if_pos hnone] at h
    exact absurd h nofun
  by_cases htwo : lead.toNat ≤ 223
  · exact hrow (.two (by omega))
  by_cases hthree : lead.toNat ≤ 239
  · exact hrow (.three (by omega))
  by_cases hfour : lead.toNat ≤ 244
  · exact hrow (.four (by omega))
  · rw [tailRanges_eq, if_neg hone, if_neg hnone, if_neg htwo, if_neg (by omega),
      if_neg (by omega), if_neg hthree, if_neg (by omega), if_neg (by omega),
      if_neg (by omega)] at h
    exact absurd h nofun

/-! ## The encoder -/

/-- The encoding of the character with a value. -/
theorem encode_ofNat {v : Nat} (hv : v.isValidChar) :
    encode (Char.ofNat v) =
      if v ≤ 127 then [.ofNat v]
      else if v ≤ 2047 then [.ofNat (v / 64 % 32 + 192), .ofNat (v % 64 + 128)]
      else if v ≤ 65535 then
        [.ofNat (v / 4096 % 16 + 224), .ofNat (v / 64 % 64 + 128), .ofNat (v % 64 + 128)]
      else
        [.ofNat (v / 262144 % 8 + 240), .ofNat (v / 4096 % 64 + 128), .ofNat (v / 64 % 64 + 128),
          .ofNat (v % 64 + 128)] := by
  have hval : (Char.ofNat v).val.toNat = v := by
    rw [Char.ofNat, dif_pos hv]
    rfl
  simp only [encode, String.utf8EncodeChar, hval]

theorem ofNat_eq (b : UInt8) {n : Nat} (h : n = b.toNat) : UInt8.ofNat n = b := by
  rw [h, UInt8.ofNat_toNat]

section Rows

variable {a b c d : UInt8}

theorem exists_encode_one (ha : a.toNat ≤ 127) : ∃ x, encode x = [a] := by
  refine ⟨Char.ofNat a.toNat, ?_⟩
  rw [encode_ofNat (.inl (by omega)), if_pos ha, UInt8.ofNat_toNat]

theorem exists_encode_two (ha : 194 ≤ a.toNat ∧ a.toNat ≤ 223)
    (hb : 128 ≤ b.toNat ∧ b.toNat ≤ 191) : ∃ x, encode x = [a, b] := by
  refine ⟨Char.ofNat (64 * (a.toNat - 192) + (b.toNat - 128)), ?_⟩
  rw [encode_ofNat (.inl (by omega)), if_neg (by omega), if_pos (by omega),
    ofNat_eq a (by omega), ofNat_eq b (by omega)]

theorem exists_encode_three (ha : 224 ≤ a.toNat ∧ a.toNat ≤ 239)
    (hb : (secondOfThree a).contains b = true) (hc : 128 ≤ c.toNat ∧ c.toNat ≤ 191) :
    ∃ x, encode x = [a, b, c] := by
  rw [secondOfThree_contains_iff] at hb
  have hb' : 128 ≤ b.toNat ∧ b.toNat ≤ 191 := by split_ifs at hb <;> omega
  obtain ⟨v, hv⟩ : ∃ v, v = 4096 * (a.toNat - 224) + 64 * (b.toNat - 128) + (c.toNat - 128) :=
    ⟨_, rfl⟩
  have hlong : 2047 < v := by split_ifs at hb <;> omega
  have hvalid : v.isValidChar := by
    unfold Nat.isValidChar
    split_ifs at hb <;> omega
  refine ⟨Char.ofNat v, ?_⟩
  rw [encode_ofNat hvalid, if_neg (by omega), if_neg (by omega), if_pos (by omega),
    ofNat_eq a (by omega), ofNat_eq b (by omega), ofNat_eq c (by omega)]

theorem exists_encode_four (ha : 240 ≤ a.toNat ∧ a.toNat ≤ 244)
    (hb : (secondOfFour a).contains b = true) (hc : 128 ≤ c.toNat ∧ c.toNat ≤ 191)
    (hd : 128 ≤ d.toNat ∧ d.toNat ≤ 191) : ∃ x, encode x = [a, b, c, d] := by
  rw [secondOfFour_contains_iff] at hb
  have hb' : 128 ≤ b.toNat ∧ b.toNat ≤ 191 := by split_ifs at hb <;> omega
  obtain ⟨v, hv⟩ : ∃ v, v = 262144 * (a.toNat - 240) + 4096 * (b.toNat - 128)
      + 64 * (c.toNat - 128) + (d.toNat - 128) := ⟨_, rfl⟩
  have hlong : 65535 < v := by split_ifs at hb <;> omega
  have hsmall : v < 1114112 := by split_ifs at hb <;> omega
  refine ⟨Char.ofNat v, ?_⟩
  rw [encode_ofNat (.inr ⟨by omega, hsmall⟩), if_neg (by omega), if_neg (by omega),
    if_neg (by omega), ofNat_eq a (by omega), ofNat_eq b (by omega), ofNat_eq c (by omega),
    ofNat_eq d (by omega)]

end Rows

/-- **What fits a row is an encoding.** -/
theorem exists_encode {tail : List UInt8} (h : tailRanges lead = some ranges)
    (hfits : Fits ranges tail) : ∃ x, encode x = lead :: tail := by
  cases row_of_tailRanges h with
  | one ha =>
      cases hfits
      exact exists_encode_one ha
  | two ha =>
      obtain ⟨b, _, hb, ⟨⟩, rfl⟩ := List.forall₂_cons_left_iff.mp hfits
      exact exists_encode_two ha (continuation_contains_iff.mp hb)
  | three ha =>
      obtain ⟨b, _, hb, hrest, rfl⟩ := List.forall₂_cons_left_iff.mp hfits
      obtain ⟨c, _, hc, ⟨⟩, rfl⟩ := List.forall₂_cons_left_iff.mp hrest
      exact exists_encode_three ha hb (continuation_contains_iff.mp hc)
  | four ha =>
      obtain ⟨b, _, hb, hrest, rfl⟩ := List.forall₂_cons_left_iff.mp hfits
      obtain ⟨c, _, hc, hlast, rfl⟩ := List.forall₂_cons_left_iff.mp hrest
      obtain ⟨d, _, hd, ⟨⟩, rfl⟩ := List.forall₂_cons_left_iff.mp hlast
      exact exists_encode_four ha hb (continuation_contains_iff.mp hc)
        (continuation_contains_iff.mp hd)

/-- **Encodings fit the rows.** -/
theorem fits_encode (x : Char) :
    ∃ lead ranges tail, encode x = lead :: tail ∧ tailRanges lead = some ranges ∧
      Fits ranges tail := by
  have hvalid : x.val.toNat.isValidChar := x.valid
  have hcontinues : ∀ n, continuation.contains (.ofNat (n % 64 + 128)) = true := by
    intro n
    rw [continuation_contains_iff, UInt8.toNat_ofNat']
    omega
  unfold encode String.utf8EncodeChar
  generalize x.val.toNat = v at hvalid
  unfold Nat.isValidChar at hvalid
  by_cases hone : v ≤ 127
  · rw [if_pos hone]
    have hlead : (UInt8.ofNat v).toNat = v := by rw [UInt8.toNat_ofNat']; omega
    exact ⟨_, _, _, rfl, tailRanges_of_row (.one (by omega)), .nil⟩
  rw [if_neg hone]
  by_cases htwo : v ≤ 2047
  · rw [if_pos htwo]
    have hlead : (UInt8.ofNat (v / 64 % 32 + 192)).toNat = v / 64 + 192 := by
      rw [UInt8.toNat_ofNat']; omega
    exact ⟨_, _, _, rfl, tailRanges_of_row (.two (by omega)), .cons (hcontinues v) .nil⟩
  rw [if_neg htwo]
  by_cases hthree : v ≤ 65535
  · rw [if_pos hthree]
    have hlead : (UInt8.ofNat (v / 4096 % 16 + 224)).toNat = v / 4096 + 224 := by
      rw [UInt8.toNat_ofNat']; omega
    have hsecond : (UInt8.ofNat (v / 64 % 64 + 128)).toNat = v / 64 % 64 + 128 := by
      rw [UInt8.toNat_ofNat']; omega
    refine ⟨_, _, _, rfl, tailRanges_of_row (.three (by omega)),
      .cons ?_ (.cons (hcontinues v) .nil)⟩
    rw [secondOfThree_contains_iff, hlead, hsecond]
    split_ifs <;> omega
  · rw [if_neg hthree]
    have hlead : (UInt8.ofNat (v / 262144 % 8 + 240)).toNat = v / 262144 + 240 := by
      rw [UInt8.toNat_ofNat']; omega
    have hsecond : (UInt8.ofNat (v / 4096 % 64 + 128)).toNat = v / 4096 % 64 + 128 := by
      rw [UInt8.toNat_ofNat']; omega
    refine ⟨_, _, _, rfl, tailRanges_of_row (.four (by omega)),
      .cons ?_ (.cons (hcontinues (v / 64)) (.cons (hcontinues v) .nil))⟩
    rw [secondOfFour_contains_iff, hlead, hsecond]
    split_ifs <;> omega

/-! ## Beginnings -/

/-- Every range of the table has a byte in it. -/
theorem contains_low (h : tailRanges lead = some ranges) :
    ∀ r ∈ ranges, r.contains r.low = true := by
  have hcontinuation : continuation.contains continuation.low = true := by decide
  have hthree : (secondOfThree lead).contains (secondOfThree lead).low = true := by
    rw [ByteRange.contains_iff, secondOfThree]
    split_ifs <;> first | decide | omega
  have hfour : (secondOfFour lead).contains (secondOfFour lead).low = true := by
    rw [ByteRange.contains_iff, secondOfFour]
    split_ifs <;> first | decide | omega
  cases row_of_tailRanges h <;> simp [hcontinuation, hthree, hfour]

/-- Ranges are filled with their least bytes. -/
theorem fits_low {left : List ByteRange} (h : ∀ r ∈ left, r.contains r.low = true) :
    Fits left (left.map ByteRange.low) := by
  induction left with
  | nil => exact .nil
  | cons r rest ih =>
      exact .cons (h r List.mem_cons_self) (ih fun s hs => h s (List.mem_cons_of_mem r hs))

/-- **The beginnings of encodings are the beginnings of rows.** -/
theorem begins_cons_iff {tail : List UInt8} :
    Begins (lead :: tail) ↔
      ∃ done left, tailRanges lead = some (done ++ left) ∧ Fits done tail := by
  constructor
  · rintro ⟨x, more, heq⟩
    obtain ⟨lead', ranges, tail', hx, hranges, hfits⟩ := fits_encode x
    rw [hx, List.cons_append, List.cons_eq_cons] at heq
    obtain ⟨rfl, rfl⟩ := heq
    refine ⟨ranges.take tail.length, ranges.drop tail.length, ?_, ?_⟩
    · rw [List.take_append_drop, hranges]
    · exact List.forall₂_take_append ranges tail more hfits
  · rintro ⟨done, left, hranges, hfits⟩
    have hleft : Fits left (left.map ByteRange.low) :=
      fits_low fun r hr => contains_low hranges r (List.mem_append_right done hr)
    obtain ⟨x, hx⟩ := exists_encode hranges (List.rel_append hfits hleft)
    exact ⟨x, left.map ByteRange.low, hx.symm⟩

/-! ## Following a tail -/

section Following

variable {tail rest : List UInt8}

theorem scanTail_of_fits (seen : Nat) (h : Fits ranges tail) (rest : List UInt8) :
    scanTail seen ranges (tail ++ rest) = .whole (seen + tail.length) := by
  induction h generalizing seen with
  | nil => cases rest <;> rfl
  | cons hb _ ih =>
      rw [List.cons_append, scanTail, if_pos hb, ih, List.length_cons, Nat.add_assoc,
        Nat.add_comm 1]

theorem scanTail_of_short (seen : Nat) {done left : List ByteRange} (h : Fits done tail)
    (hleft : left ≠ []) : scanTail seen (done ++ left) tail = .broken none := by
  induction h generalizing seen with
  | nil =>
      cases left with
      | nil => exact absurd rfl hleft
      | cons r others => rfl
  | cons hb _ ih => rw [List.cons_append, scanTail, if_pos hb, ih]

theorem scanTail_of_stop (seen : Nat) {done left : List ByteRange} {r : ByteRange} {b : UInt8}
    (h : Fits done tail) (hb : r.contains b = false) (rest : List UInt8) :
    scanTail seen (done ++ r :: left) (tail ++ b :: rest)
      = .broken (some (seen + tail.length)) := by
  induction h generalizing seen with
  | nil => rw [List.nil_append, List.nil_append, scanTail, if_neg (by simp [hb])]; rfl
  | cons hfirst _ ih =>
      rw [List.cons_append, List.cons_append, scanTail, if_pos hfirst, ih, List.length_cons,
        Nat.add_assoc, Nat.add_comm 1]

/-- **The ways to follow a tail.**  The bytes fill all ranges, or they end too early, or one of them
is out of its range. -/
theorem fits_cases (ranges : List ByteRange) (l : List UInt8) :
    (∃ tail rest, l = tail ++ rest ∧ Fits ranges tail) ∨
    (∃ done left, ranges = done ++ left ∧ left ≠ [] ∧ Fits done l) ∨
    (∃ done r left tail b rest, ranges = done ++ r :: left ∧ l = tail ++ b :: rest ∧
      Fits done tail ∧ r.contains b = false) := by
  induction ranges generalizing l with
  | nil => exact .inl ⟨[], l, rfl, .nil⟩
  | cons r others ih =>
      cases l with
      | nil => exact .inr (.inl ⟨[], r :: others, rfl, by simp, .nil⟩)
      | cons b more =>
          cases hb : r.contains b with
          | false => exact .inr (.inr ⟨[], r, others, [], b, more, rfl, rfl, .nil, hb⟩)
          | true =>
              rcases ih more with ⟨tail, rest, rfl, hfits⟩ | ⟨done, left, rfl, hne, hfits⟩ |
                ⟨done, s, left, tail, c, rest, rfl, rfl, hfits, hc⟩
              · exact .inl ⟨b :: tail, rest, rfl, .cons hb hfits⟩
              · exact .inr (.inl ⟨r :: done, left, rfl, hne, .cons hb hfits⟩)
              · exact .inr (.inr ⟨r :: done, s, left, b :: tail, c, rest, rfl, rfl,
                  .cons hb hfits, hc⟩)

end Following

/-! ## Characters -/

variable {rest : List UInt8}

/-- **A character is found.** -/
theorem scan_of_encode {x : Char} {more : List UInt8} (h : lead :: rest = encode x ++ more) :
    scan lead rest = .whole (encode x).length := by
  obtain ⟨lead', ranges, tail, hx, hranges, hfits⟩ := fits_encode x
  rw [hx, List.cons_append, List.cons_eq_cons] at h
  obtain ⟨rfl, rfl⟩ := h
  rw [scan, hranges, hx, List.length_cons, Nat.add_comm]
  exact scanTail_of_fits 1 hfits more

/-- At the beginning of a character no byte is out of its range. -/
theorem not_begins_of_scan {k : Nat} (h : scan lead rest = .broken (some k)) :
    ¬ Begins (lead :: rest) := by
  intro hbegins
  obtain ⟨done, left, hranges, hfits⟩ := begins_cons_iff.mp hbegins
  rw [scan, hranges] at h
  cases left with
  | nil =>
      have hwhole := scanTail_of_fits 1 hfits []
      rw [List.append_nil] at h hwhole
      rw [show scanTail 1 done rest = .broken (some k) from h] at hwhole
      exact absurd hwhole nofun
  | cons r others =>
      have hshort := scanTail_of_short 1 hfits (List.cons_ne_nil r others)
      rw [show scanTail 1 (done ++ r :: others) rest = .broken (some k) from h] at hshort
      exact absurd hshort nofun

/-- A lead byte that is in no row. -/
theorem scan_of_no_row (h : tailRanges lead = none) (rest : List UInt8) :
    scan lead rest = .broken (some 1) ∧ beginnings (lead :: rest) = ∅ := by
  have hscan : ∀ l, scan lead l = .broken (some 1) := by
    intro l
    rw [scan, h]
  refine ⟨hscan rest, Set.eq_empty_iff_forall_notMem.mpr ?_⟩
  rintro k ⟨hpos, -, hbegins⟩
  obtain ⟨n, rfl⟩ := Nat.exists_eq_succ_of_ne_zero hpos.ne'
  exact not_begins_of_scan (hscan _) hbegins

/-- A byte that is out of its range.  What stands before it is the longest beginning of a
character. -/
theorem scan_of_stop {done left : List ByteRange} {r : ByteRange} {tail : List UInt8} {b : UInt8}
    (h : tailRanges lead = some (done ++ r :: left)) (hfits : Fits done tail)
    (hb : r.contains b = false) (more : List UInt8) :
    scan lead (tail ++ b :: more) = .broken (some (1 + tail.length)) ∧
      IsGreatest (beginnings (lead :: (tail ++ b :: more))) (1 + tail.length) := by
  have hscan : ∀ more, scan lead (tail ++ b :: more) = .broken (some (1 + tail.length)) := by
    intro more
    rw [scan, h]
    exact scanTail_of_stop 1 hfits hb more
  refine ⟨hscan more, ⟨by omega, by simp; omega, ?_⟩, ?_⟩
  · rw [Nat.add_comm, List.take_succ_cons, List.take_left]
    exact begins_cons_iff.mpr ⟨done, r :: left, h, hfits⟩
  · rintro k ⟨hpos, -, hbegins⟩
    by_contra hlong
    -- A longer beginning would take in the byte that is out of its range.
    obtain ⟨n, rfl⟩ : ∃ n, k = tail.length + (n + 1) + 1 := ⟨k - tail.length - 2, by omega⟩
    rw [List.take_succ_cons, List.take_length_add_append, List.take_succ_cons] at hbegins
    exact not_begins_of_scan (hscan _) hbegins

/-- **What stands at the beginning of some bytes.**  It is a character; or the beginning of one, at
the end of the bytes; or neither, and then the number of bytes to skip is that of the longest
beginning of a character, or one if there is none. -/
theorem scan_cases (lead : UInt8) (rest : List UInt8) :
    (∃ x, encode x <+: lead :: rest) ∨
    (Incomplete (lead :: rest) ∧ scan lead rest = .broken none) ∨
    (∃ k, scan lead rest = .broken (some k) ∧
      (IsGreatest (beginnings (lead :: rest)) k ∨ (beginnings (lead :: rest) = ∅ ∧ k = 1))) := by
  cases hranges : tailRanges lead with
  | none =>
      obtain ⟨hscan, hnone⟩ := scan_of_no_row hranges rest
      exact .inr (.inr ⟨1, hscan, .inr ⟨hnone, rfl⟩⟩)
  | some ranges =>
      rcases fits_cases ranges rest with ⟨tail, more, rfl, hfits⟩ | ⟨done, left, rfl, hne, hfits⟩ |
        ⟨done, r, left, tail, b, more, rfl, rfl, hfits, hb⟩
      · obtain ⟨x, hx⟩ := exists_encode hranges hfits
        exact .inl ⟨x, more, by rw [hx]; rfl⟩
      · have hscan : scan lead rest = .broken none := by
          rw [scan, hranges]
          exact scanTail_of_short 1 hfits hne
        obtain ⟨x, hx⟩ := begins_cons_iff.mpr ⟨done, left, hranges, hfits⟩
        refine .inr (.inl ⟨⟨x, hx, ?_⟩, hscan⟩)
        intro heq
        have hwhole := scan_of_encode (heq.trans (List.append_nil _).symm)
        rw [hscan] at hwhole
        exact absurd hwhole nofun
      · obtain ⟨hscan, hgreatest⟩ := scan_of_stop hranges hfits hb more
        exact .inr (.inr ⟨_, hscan, .inl hgreatest⟩)

end Worktree.Text
