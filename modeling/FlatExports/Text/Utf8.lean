/-!
UTF-8 as lists of bytes.

`encode` writes characters as bytes and `decode?` reads them back; `decode?`
refuses stray continuation bytes, overlong forms, surrogates and values past
the last code point.  Both recurse on plain lists, so they can be evaluated
inside proofs.
-/

namespace FlatExports.Text

abbrev Bytes := List UInt8

def encode (text : List Char) : Bytes :=
  text.flatMap String.utf8EncodeChar

/-- The six payload bits of a continuation byte. -/
def continuation? (byte : UInt8) : Option Nat :=
  if 0x80 ≤ byte.toNat ∧ byte.toNat < 0xC0 then some (byte.toNat - 0x80) else none

/-- The character with a code of at least `least`, the smallest its length may hold. -/
def scalar? (least code : Nat) : Option Char :=
  if h : code.isValidChar then
    if least ≤ code then some (Char.ofNatAux code h) else none
  else none

def decode? : Bytes → Option (List Char)
  | [] => some []
  | b :: r =>
      if b.toNat < 0x80 then do
        let c ← scalar? 0 b.toNat
        let text ← decode? r
        some (c :: text)
      else match r with
        | [] => none
        | b₁ :: r₁ => do
            let x₁ ← continuation? b₁
            if 0xC0 ≤ b.toNat ∧ b.toNat < 0xE0 then do
              let c ← scalar? 0x80 ((b.toNat - 0xC0) * 64 + x₁)
              let text ← decode? r₁
              some (c :: text)
            else match r₁ with
              | [] => none
              | b₂ :: r₂ => do
                  let x₂ ← continuation? b₂
                  if 0xE0 ≤ b.toNat ∧ b.toNat < 0xF0 then do
                    let c ← scalar? 0x800 ((b.toNat - 0xE0) * 4096 + x₁ * 64 + x₂)
                    let text ← decode? r₂
                    some (c :: text)
                  else match r₂ with
                    | [] => none
                    | b₃ :: r₃ => do
                        let x₃ ← continuation? b₃
                        if 0xF0 ≤ b.toNat ∧ b.toNat < 0xF8 then do
                          let c ← scalar? 0x10000
                            ((b.toNat - 0xF0) * 262144 + x₁ * 4096 + x₂ * 64 + x₃)
                          let text ← decode? r₃
                          some (c :: text)
                        else none

def bytesOf (text : String) : Bytes := encode text.toList

def text? (bytes : Bytes) : Option String := (decode? bytes).map String.ofList

def isAscii (bytes : Bytes) : Bool := bytes.all fun byte => byte.toNat < 0x80

end FlatExports.Text
