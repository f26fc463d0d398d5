import SharkSocket.Lib.Text

/-!
# Lines of a header block

A block of headers is cut into lines at CR LF (`splitLines`), and a value that may not
hold every byte is percent-encoded.  `percentDecode` is the reader of such a value: `%`
and two hexadecimal digits are a byte, everything else stands for itself.

* `splitLines_append`: a line without CR is found again in front of anything;
* `percentDecode_escape`: an escaped byte is read back in front of anything;
* `percentDecode_cons_of_ne`: a byte that is not `%` stands for itself.
-/

namespace SharkSocket.Lib

/-- `strings.Split` at CR LF: an empty text has one empty line. -/
def splitLines : List UInt8 → List (List UInt8)
  | [] => [[]]
  | 0x0d :: 0x0a :: rest => [] :: splitLines rest
  | b :: rest =>
    match splitLines rest with
    | [] => [[b]]
    | line :: lines => (b :: line) :: lines

theorem splitLines_cons_of_ne {b : UInt8} (h : b ≠ 0x0d) (rest : List UInt8) :
    splitLines (b :: rest) = match splitLines rest with
      | [] => [[b]]
      | line :: lines => (b :: line) :: lines := by
  rw [splitLines]
  rintro rest' rfl
  exact absurd rfl h

theorem splitLines_append : ∀ {line : List UInt8}, 0x0d ∉ line → ∀ rest : List UInt8,
    splitLines (line ++ 0x0d :: 0x0a :: rest) = line :: splitLines rest := by
  intro line
  induction line with
  | nil =>
    intro _ rest
    rw [List.nil_append, splitLines]
  | cons b line ih =>
    intro h rest
    rw [List.mem_cons, not_or] at h
    rw [List.cons_append, splitLines_cons_of_ne (Ne.symm h.1), ih h.2]

/-- The value of a hexadecimal digit in either case. -/
def hexValue (b : UInt8) : Option Nat :=
  if 0x30 ≤ b ∧ b ≤ 0x39 then some (b.toNat - 48)
  else if 0x41 ≤ b ∧ b ≤ 0x46 then some (b.toNat - 55)
  else if 0x61 ≤ b ∧ b ≤ 0x66 then some (b.toNat - 87)
  else none

/-- A `%` without two digits behind it stands for itself. -/
def percentDecode : List UInt8 → List UInt8
  | [] => []
  | 0x25 :: high :: low :: rest =>
    match hexValue high, hexValue low with
    | some m, some n => UInt8.ofNat (16 * m + n) :: percentDecode rest
    | _, _ => 0x25 :: percentDecode (high :: low :: rest)
  | b :: rest => b :: percentDecode rest

theorem percentDecode_cons_of_ne {b : UInt8} (h : b ≠ 0x25) (rest : List UInt8) :
    percentDecode (b :: rest) = b :: percentDecode rest := by
  rw [percentDecode]
  rintro high low rest' rfl
  exact absurd rfl h

theorem percentDecode_escape {high low b : UInt8} {m n : Nat} (hhigh : hexValue high = some m)
    (hlow : hexValue low = some n) (hb : b.toNat = 16 * m + n) (rest : List UInt8) :
    percentDecode (0x25 :: high :: low :: rest) = b :: percentDecode rest := by
  rw [percentDecode, hhigh, hlow]
  dsimp only
  rw [← hb, UInt8.ofNat_toNat]

end SharkSocket.Lib
