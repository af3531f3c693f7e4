import FlatExports.Text.Utf8

/-!
Bytes written with sixty-four letters, six bits each.

Four letters make three bytes, and a last group of two or three letters is
filled up with `=`.  Characters that are no letters are passed over, and
nothing is read behind a complete padding.
-/

namespace FlatExports.Text

def sextet? (c : Char) : Option Nat :=
  if 'A' ≤ c ∧ c ≤ 'Z' then some (c.toNat - 'A'.toNat)
  else if 'a' ≤ c ∧ c ≤ 'z' then some (c.toNat - 'a'.toNat + 26)
  else if '0' ≤ c ∧ c ≤ '9' then some (c.toNat - '0'.toNat + 52)
  else if c = '+' then some 62
  else if c = '/' then some 63
  else none

def bytesOfSextets : List Nat → Bytes × Nat
  | a :: b :: c :: d :: rest =>
      let (bytes, left) := bytesOfSextets rest
      let n := ((a * 64 + b) * 64 + c) * 64 + d
      (UInt8.ofNat (n / 65536) :: UInt8.ofNat (n / 256 % 256) :: UInt8.ofNat (n % 256) :: bytes,
        left)
  | [a, b, c] =>
      let n := (a * 64 + b) * 64 + c
      ([UInt8.ofNat (n / 1024), UInt8.ofNat (n / 4 % 256)], 3)
  | [a, b] => ([UInt8.ofNat ((a * 64 + b) / 16)], 2)
  | [_] => ([], 1)
  | [] => ([], 0)

/-- The sextets before the padding, and whether the padding is complete. -/
def sextets : Nat → Nat → List Char → List Nat × Bool
  | _, _, [] => ([], false)
  | place, pads, c :: rest =>
      if c = '=' then
        if 2 ≤ place ∧ 4 ≤ place + pads + 1 then ([], true)
        else sextets place (if 2 ≤ place then pads + 1 else pads) rest
      else match sextet? c with
        | none => sextets place pads rest
        | some n =>
            let (others, padded) := sextets ((place + 1) % 4) 0 rest
            (n :: others, padded)

def base64? (text : List Char) : Option Bytes :=
  let (numbers, padded) := sextets 0 0 text
  let (bytes, left) := bytesOfSextets numbers
  if left = 0 ∨ padded then some bytes else none

end FlatExports.Text
