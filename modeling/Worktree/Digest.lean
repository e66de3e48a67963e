import Worktree.Sha256
import Worktree.Text.Hex
import Worktree.Text.Order

/-!
# Digests

A digest names content: it is the SHA-256 value of the content's bytes.  Digests are ordered by
their bytes and shown as 64 hexadecimal digits, or as the first twelve of them.
-/

namespace Worktree

/-- The 32 bytes that name some content. -/
structure Digest where
  bytes : List UInt8
  length_bytes : bytes.length = 32
  deriving DecidableEq

namespace Digest

/-- The digest of a content. -/
def ofContent (content : ByteArray) : Digest :=
  ⟨Sha256.hash content.data.toList, Sha256.length_hash _⟩

instance : Inhabited Digest := ⟨ofContent .empty⟩

theorem bytes_injective {a b : Digest} (h : a.bytes = b.bytes) : a = b := by
  cases a
  cases b
  cases h
  rfl

/-- Digests are ordered by their bytes. -/
instance : Ord Digest := ⟨fun a b => compareBytes a.bytes b.bytes⟩

instance : Std.TransOrd Digest where
  eq_swap {a b} := @Std.OrientedCmp.eq_swap _ compareBytes _ a.bytes b.bytes
  isLE_trans {a b c} := @Std.TransCmp.isLE_trans _ compareBytes _ a.bytes b.bytes c.bytes

instance : Std.LawfulEqOrd Digest where
  compare_self {a} := @Std.ReflCmp.compare_self _ compareBytes _ a.bytes
  eq_of_compare {a b} h :=
    bytes_injective (@Std.LawfulEqCmp.eq_of_compare _ compareBytes _ a.bytes b.bytes h)

/-- The digest as 64 lower-case hexadecimal digits. -/
def hex (d : Digest) : String :=
  String.ofList (d.bytes.flatMap Text.hexPair)

/-- The first twelve hexadecimal digits. -/
def short (d : Digest) : String :=
  String.ofList ((d.bytes.flatMap Text.hexPair).take 12)

instance : ToString Digest := ⟨hex⟩

end Digest

end Worktree
