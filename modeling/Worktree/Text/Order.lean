/-!
# The order of texts

Everything the library lists, it lists in the order of bytes: paths by their UTF-8 form, digests
by the bytes they are made of.  This file fixes that order once.

* `compareBytes` compares two byte strings at the first place where they differ; a proper
  beginning comes before what continues it.
* `Text.compare` compares two texts through their UTF-8 bytes.

Both are linear orders in which only equal values compare equal.
-/

namespace Worktree

/-- Compares two byte strings at the first place where they differ; a proper beginning of a byte
string comes before it. -/
def compareBytes (a b : List UInt8) : Ordering :=
  List.compareLex compare a b

instance : Std.TransCmp compareBytes :=
  inferInstanceAs (Std.TransCmp (List.compareLex compare))

instance : Std.LawfulEqCmp compareBytes :=
  inferInstanceAs (Std.LawfulEqCmp (List.compareLex compare))

namespace Text

/-- The UTF-8 bytes of a text. -/
def bytes (t : String) : List UInt8 :=
  t.toByteArray.data.toList

/-- The bytes of a text are those of its characters. -/
theorem bytes_ofList_eq_flatMap (cs : List Char) :
    bytes (String.ofList cs) = cs.flatMap String.utf8EncodeChar := by
  rw [bytes, String.toByteArray_ofList, List.utf8Encode, List.toList_data_toByteArray]

/-- Texts with the same bytes are the same text. -/
theorem bytes_injective {a b : String} (h : bytes a = bytes b) : a = b :=
  String.toByteArray_inj.mp (ByteArray.ext (Array.toList_inj.mp h))

/-- Compares two texts by their UTF-8 bytes. -/
def compare (a b : String) : Ordering :=
  compareBytes (bytes a) (bytes b)

instance : Std.TransCmp compare where
  eq_swap {a b} := @Std.OrientedCmp.eq_swap _ compareBytes _ (bytes a) (bytes b)
  isLE_trans {a b c} := @Std.TransCmp.isLE_trans _ compareBytes _ (bytes a) (bytes b) (bytes c)

instance : Std.LawfulEqCmp compare where
  compare_self {a} := @Std.ReflCmp.compare_self _ compareBytes _ (bytes a)
  eq_of_compare {a b} h :=
    bytes_injective (@Std.LawfulEqCmp.eq_of_compare _ compareBytes _ (bytes a) (bytes b) h)

/-- A text comes no later than another. -/
def precedes (a b : String) : Bool :=
  (compare a b).isLE

/-- The order of texts is transitive. -/
theorem precedes_trans (a b c : String) (hab : precedes a b = true) (hbc : precedes b c = true) :
    precedes a c = true :=
  Std.TransCmp.isLE_trans hab hbc

/-- Any two texts are in order one way round or the other. -/
theorem precedes_total (a b : String) : (precedes a b || precedes b a) = true := by
  unfold precedes
  rw [@Std.OrientedCmp.eq_swap _ compare _ b a]
  cases compare a b <;> rfl

end Text

end Worktree
