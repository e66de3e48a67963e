import Worktree.Proofs.Characters

/-!
# Reading a content as text

A content reads as a text exactly when it is the UTF-8 form of that text, byte for byte.  Otherwise
the reader says where the content stops being text, and `Malformed.Describes` says what that means
without the reader: the place is the end of the longest beginning that is the form of a text, and
how many bytes to skip there depends on how a character could begin with the bytes that follow.

* `exists_split` cuts a content into characters and a rest that begins with none;
* `locate_flatMap` is the walk of the reader over the characters, `describes_locate` the fault that
  it finds at the rest;
* `length_le_of_prefix` says that no other way to cut leads further;
* `decode_eq_ok_iff` and `decode_eq_error_iff` put it together for contents.
-/

namespace Worktree.Text

/-- The bytes are the UTF-8 form of a text. -/
def WellFormed (l : List UInt8) : Prop :=
  ∃ t : String, bytes t = l

/-- What a fault says of some bytes.  The place is the end of the longest beginning that is
well-formed.  At this place the bytes may end inside a character; if they do not, the fault tells
the length of their longest beginning with which a character begins, or one if there is none. -/
structure Malformed.Describes (m : Malformed) (l : List UInt8) : Prop where
  longest : IsGreatest {n | n ≤ l.length ∧ WellFormed (l.take n)} m.validUpTo
  incomplete_iff : m.errorLength = none ↔ Incomplete (l.drop m.validUpTo)
  skip : ∀ k, m.errorLength = some k →
    IsGreatest (beginnings (l.drop m.validUpTo)) k ∨ (beginnings (l.drop m.validUpTo) = ∅ ∧ k = 1)

/-- Bytes are described by one fault only. -/
theorem Malformed.Describes.unique {m n : Malformed} {l : List UInt8} (hm : m.Describes l)
    (hn : n.Describes l) : m = n := by
  have hplace : m.validUpTo = n.validUpTo := hm.longest.unique hn.longest
  have hlength : m.errorLength = n.errorLength := by
    have hnone : m.errorLength = none ↔ n.errorLength = none := by
      rw [hm.incomplete_iff, hn.incomplete_iff, hplace]
    cases hj : m.errorLength with
    | none => exact (hnone.mp hj).symm
    | some j =>
        cases hk : n.errorLength with
        | none =>
            rw [hnone.mpr hk] at hj
            exact absurd hj nofun
        | some k =>
            have hskip := hm.skip j hj
            rw [hplace] at hskip
            rcases hskip with hj' | ⟨hempty, rfl⟩ <;> rcases hn.skip k hk with hk' | ⟨hempty', rfl⟩
            · rw [hj'.unique hk']
            · exact absurd (hempty' ▸ hj'.1) (Set.notMem_empty j)
            · exact absurd (hempty ▸ hk'.1) (Set.notMem_empty k)
            · rfl
  cases m
  cases n
  rw [Malformed.mk.injEq]
  exact ⟨hplace, hlength⟩

/-! ## Texts as characters -/

theorem wellFormed_iff {l : List UInt8} :
    WellFormed l ↔ ∃ cs : List Char, l = cs.flatMap encode := by
  constructor
  · rintro ⟨t, rfl⟩
    refine ⟨t.toList, ?_⟩
    rw [← bytes_ofList_eq_flatMap, String.ofList_toList]
  · rintro ⟨cs, rfl⟩
    exact ⟨String.ofList cs, bytes_ofList_eq_flatMap cs⟩

/-- Bytes are cut into characters and a rest at the beginning of which there is none. -/
theorem exists_split (l : List UInt8) :
    ∃ (cs : List Char) (rest : List UInt8), l = cs.flatMap encode ++ rest ∧
      ∀ x, ¬ encode x <+: rest := by
  induction hn : l.length using Nat.strong_induction_on generalizing l with
  | _ n ih =>
      by_cases hchar : ∃ x, encode x <+: l
      · obtain ⟨x, more, rfl⟩ := hchar
        have hpos : 0 < (encode x).length := by
          obtain ⟨lead, _, tail, hx, -⟩ := fits_encode x
          rw [hx]
          exact Nat.succ_pos _
        rw [List.length_append] at hn
        obtain ⟨cs, rest, rfl, hrest⟩ := ih more.length (by omega) more rfl
        exact ⟨x :: cs, rest, by simp, hrest⟩
      · exact ⟨[], l, rfl, not_exists.mp hchar⟩

/-- Two characters at the beginning of the same bytes have the same encoding. -/
theorem encode_eq_of_prefix {x y : Char} {l : List UInt8} (hx : encode x <+: l)
    (hy : encode y <+: l) : encode x = encode y := by
  obtain ⟨more, rfl⟩ := hx
  obtain ⟨more', heq⟩ := hy
  obtain ⟨lead, _, tail, hlead, -⟩ := fits_encode x
  have hsame : (encode x).length = (encode y).length := by
    have hx : lead :: (tail ++ more) = encode x ++ more := by rw [hlead, List.cons_append]
    have hscan := scan_of_encode hx
    rw [scan_of_encode (hx.trans heq.symm)] at hscan
    exact (Scan.whole.inj hscan).symm
  exact (List.append_inj heq.symm hsame).1

/-- **No way to cut leads further.** -/
theorem length_le_of_prefix {cs cs' : List Char} {rest : List UInt8}
    (hrest : ∀ x, ¬ encode x <+: rest)
    (h : cs'.flatMap encode <+: cs.flatMap encode ++ rest) :
    (cs'.flatMap encode).length ≤ (cs.flatMap encode).length := by
  induction cs generalizing cs' with
  | nil =>
      cases cs' with
      | nil => exact Nat.le_refl _
      | cons y others =>
          rw [List.flatMap_nil, List.nil_append, List.flatMap_cons] at h
          exact absurd ((List.prefix_append _ _).trans h) (hrest y)
  | cons x more ih =>
      cases cs' with
      | nil => exact Nat.zero_le _
      | cons y others =>
          rw [List.flatMap_cons, List.flatMap_cons, List.append_assoc] at h
          have hsame : encode y = encode x :=
            encode_eq_of_prefix ((List.prefix_append _ _).trans h) (List.prefix_append _ _)
          rw [hsame, List.prefix_append_right_inj] at h
          rw [List.flatMap_cons, List.flatMap_cons, List.length_append, List.length_append, hsame]
          exact Nat.add_le_add_left (ih h) _

/-! ## The place of a fault -/

/-- Bytes that belong to the character before are passed over. -/
theorem locate_owed (index : Nat) (tail more : List UInt8) :
    locate tail.length index (tail ++ more) = locate 0 (index + tail.length) more := by
  induction tail generalizing index with
  | nil => rfl
  | cons b rest ih =>
      rw [List.cons_append, List.length_cons, locate, ih, Nat.add_assoc, Nat.add_comm 1]

/-- A character is passed over. -/
theorem locate_encode (x : Char) (index : Nat) (more : List UInt8) :
    locate 0 index (encode x ++ more) = locate 0 (index + (encode x).length) more := by
  obtain ⟨lead, _, tail, hx, -⟩ := fits_encode x
  have hsplit : lead :: (tail ++ more) = encode x ++ more := by rw [hx, List.cons_append]
  have hscan := scan_of_encode hsplit
  rw [hx, List.length_cons] at hscan
  rw [hx, List.cons_append, locate, hscan, List.length_cons]
  show locate tail.length (index + 1) (tail ++ more) = _
  rw [locate_owed, Nat.add_assoc, Nat.add_comm 1]

/-- **All characters are passed over.** -/
theorem locate_flatMap (cs : List Char) (index : Nat) (rest : List UInt8) :
    locate 0 index (cs.flatMap encode ++ rest)
      = locate 0 (index + (cs.flatMap encode).length) rest := by
  induction cs generalizing index with
  | nil => rfl
  | cons x more ih =>
      rw [List.flatMap_cons, List.append_assoc, locate_encode, ih, List.length_append,
        Nat.add_assoc]

theorem locate_of_broken {lead : UInt8} {rest : List UInt8} {skip : Option Nat}
    (h : scan lead rest = .broken skip) (index : Nat) :
    locate 0 index (lead :: rest) = ⟨index, skip⟩ := by
  rw [locate, h]

/-- **The fault that is found describes the bytes.** -/
theorem describes_locate {l : List UInt8} (h : ¬ WellFormed l) : (locate 0 0 l).Describes l := by
  obtain ⟨cs, rest, rfl, hrest⟩ := exists_split l
  have hlongest : IsGreatest {n | n ≤ (cs.flatMap encode ++ rest).length ∧
      WellFormed ((cs.flatMap encode ++ rest).take n)} (cs.flatMap encode).length := by
    refine ⟨⟨by simp, ?_⟩, ?_⟩
    · rw [List.take_left]
      exact wellFormed_iff.mpr ⟨cs, rfl⟩
    · rintro n ⟨hn, hwell⟩
      obtain ⟨cs', hcs'⟩ := wellFormed_iff.mp hwell
      have hlength := congrArg List.length hcs'
      rw [List.length_take, Nat.min_eq_left hn] at hlength
      rw [hlength]
      exact length_le_of_prefix hrest (hcs' ▸ List.take_prefix n _)
  rw [locate_flatMap, Nat.zero_add]
  cases rest with
  | nil => exact absurd (wellFormed_iff.mpr ⟨cs, List.append_nil _⟩) h
  | cons lead rest =>
      rcases scan_cases lead rest with ⟨x, hx⟩ | ⟨hincomplete, hscan⟩ | ⟨k, hscan, hskip⟩
      · exact absurd hx (hrest x)
      · rw [locate_of_broken hscan]
        refine ⟨hlongest, ?_, nofun⟩
        rw [List.drop_left]
        exact iff_of_true rfl hincomplete
      · rw [locate_of_broken hscan]
        refine ⟨hlongest, ?_, ?_⟩
        · rw [List.drop_left]
          refine iff_of_false nofun fun hincomplete => ?_
          obtain ⟨x, hx, -⟩ := hincomplete
          exact not_begins_of_scan hscan ⟨x, hx⟩
        · intro j hj
          obtain rfl := Option.some.inj hj
          rw [List.drop_left]
          exact hskip

/-! ## Contents -/

/-- **A content reads as the text whose form it is, and as no other.** -/
theorem decode_eq_ok_iff {content : ByteArray} {t : String} :
    decode content = .ok t ↔ t.toByteArray = content := by
  unfold decode String.fromUTF8?
  by_cases hvalid : content.IsValidUTF8
  · rw [dif_pos hvalid]
    constructor
    · intro h
      rw [← Except.ok.inj h]
      rfl
    · intro h
      exact congrArg Except.ok (String.toByteArray_inj.mp h.symm)
  · rw [dif_neg hvalid]
    refine iff_of_false nofun ?_
    rintro rfl
    exact hvalid t.isValidUTF8

theorem wellFormed_data_iff {content : ByteArray} :
    WellFormed content.data.toList ↔ ∃ t, decode content = .ok t := by
  refine exists_congr fun t => ?_
  rw [decode_eq_ok_iff, bytes, Array.toList_inj]
  exact ⟨ByteArray.ext, congrArg ByteArray.data⟩

/-- **Any other content is no text, and the fault describes it.** -/
theorem decode_eq_error_iff {content : ByteArray} {m : Malformed} :
    decode content = .error m ↔
      ¬ WellFormed content.data.toList ∧ m.Describes content.data.toList := by
  have hfault : ¬ WellFormed content.data.toList →
      decode content = .error (locate 0 0 content.data.toList) := by
    intro hill
    unfold decode
    cases hread : String.fromUTF8? content with
    | none => rfl
    | some t => exact absurd (wellFormed_data_iff.mpr ⟨t, by rw [decode, hread]⟩) hill
  constructor
  · intro h
    have hill : ¬ WellFormed content.data.toList := by
      intro hwell
      obtain ⟨t, ht⟩ := wellFormed_data_iff.mp hwell
      rw [h] at ht
      exact absurd ht nofun
    rw [hfault hill] at h
    exact ⟨hill, Except.error.inj h ▸ describes_locate hill⟩
  · rintro ⟨hill, hdescribes⟩
    rw [hfault hill, hdescribes.unique (describes_locate hill)]

/-- A lead byte that no character has, an overlong form, a surrogate, a character that is broken off
after two bytes, and one that the bytes end in. -/
example :
    [[0x61, 0xff], [0xe0, 0x80, 0x80], [0xed, 0xa0, 0x80], [0xc3, 0xa9, 0xf0, 0x9f, 0x41],
        [0x61, 0xf0, 0x9f, 0x92]].map (locate 0 0)
      = [⟨1, some 1⟩, ⟨0, some 1⟩, ⟨0, some 1⟩, ⟨2, some 2⟩, ⟨1, none⟩] := by
  decide

end Worktree.Text
