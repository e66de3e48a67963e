import Worktree.Digest
import Worktree.Text.Quoted

/-!
# Reading digests

A digest is read from 64 hexadecimal digits of either case.  The length is looked at first and is
counted in bytes; then the first byte that is no digit decides.

* `Digest.ofHex` reads a text.
* `HexError` says why a text is no digest.
-/

namespace Worktree

/-- Why a text is no digest. -/
inductive HexError where
  /-- The text has another number of bytes than 64. -/
  | length (actual : Nat)
  /-- The byte at this index is the first that is no hexadecimal digit. -/
  | digit (byte : UInt8) (index : Nat)
  deriving DecidableEq

namespace HexError

/-- The wording of the error.  A byte is shown as the Latin-1 character that it stands for. -/
def message : HexError → String
  | length actual =>
    "invalid hash length: expected 64 hex characters, got " ++ toString actual
  | digit byte index =>
    "invalid hex in hash: Invalid character "
      ++ Text.quote '\x27' (String.ofList [Char.ofNat byte.toNat])
      ++ " at position " ++ toString index

end HexError

namespace Digest

/-- The value of the digit at an index. -/
def readDigit (index : Nat) (b : UInt8) : Except HexError Nat :=
  match Text.hexValue? b.toNat with
  | some v => .ok v
  | none => .error (.digit b index)

/-- Reads pairs of digits as bytes; `index` is where the first pair stands. -/
def readPairs (index : Nat) : List UInt8 → Except HexError (List UInt8)
  | a :: b :: rest => do
    let high ← readDigit index a
    let low ← readDigit (index + 1) b
    let later ← readPairs (index + 2) rest
    return UInt8.ofNat (16 * high + low) :: later
  | _ => .ok []

/-- Two digits make one byte. -/
theorem length_of_readPairs {index : Nat} {digits bytes : List UInt8}
    (h : readPairs index digits = .ok bytes) : bytes.length = digits.length / 2 := by
  fun_induction readPairs index digits generalizing bytes with
  | case1 index a b rest ih =>
    cases ha : readDigit index a with
    | error e => simp [ha, bind, Except.bind] at h
    | ok high =>
        cases hb : readDigit (index + 1) b with
        | error e => simp [ha, hb, bind, Except.bind] at h
        | ok low =>
            cases hr : readPairs (index + 2) rest with
            | error e => simp [ha, hb, hr, bind, Except.bind] at h
            | ok later =>
                simp only [ha, hb, hr, bind, Except.bind, pure, Except.pure, Except.ok.injEq] at h
                subst h
                simp only [List.length_cons, ih hr]
                omega
  | case2 digits _ hshort =>
    obtain rfl : [] = bytes := Except.ok.inj h
    match digits, hshort with
    | [], _ => rfl
    | [_], _ => simp
    | a :: b :: rest, hshort => exact absurd rfl (hshort a b rest)

/-- The digest that a text spells. -/
def ofHex (t : String) : Except HexError Digest :=
  if hlen : (Text.bytes t).length = 64 then
    match h : readPairs 0 (Text.bytes t) with
    | .ok bytes => .ok ⟨bytes, by rw [length_of_readPairs h, hlen]⟩
    | .error e => .error e
  else .error (.length (Text.bytes t).length)

end Digest

end Worktree
