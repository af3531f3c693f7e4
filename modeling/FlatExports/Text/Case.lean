/-!
Letter case of message texts.

Capital letters are given block by block: in some blocks the small letter stands
a fixed distance behind its capital letter, in others right behind it.
-/

namespace FlatExports.Text

/-- Consecutive capital letters and how far behind each one its small letter stands. -/
structure CapitalRange where
  first : Nat
  last : Nat
  /-- One if every letter is a capital, and two if capital and small letters take turns. -/
  step : Nat
  distance : Nat

/-- The capital letters of Latin, Greek, Cyrillic and Armenian. -/
def capitalRanges : List CapitalRange :=
  [⟨0x41, 0x5A, 1, 32⟩, ⟨0xC0, 0xD6, 1, 32⟩, ⟨0xD8, 0xDE, 1, 32⟩, ⟨0x100, 0x12E, 2, 1⟩,
   ⟨0x132, 0x136, 2, 1⟩, ⟨0x139, 0x147, 2, 1⟩, ⟨0x14A, 0x176, 2, 1⟩, ⟨0x179, 0x17D, 2, 1⟩,
   ⟨0x1CD, 0x1DB, 2, 1⟩, ⟨0x1DE, 0x1EE, 2, 1⟩, ⟨0x1F8, 0x21E, 2, 1⟩, ⟨0x222, 0x232, 2, 1⟩,
   ⟨0x386, 0x386, 1, 38⟩, ⟨0x388, 0x38A, 1, 37⟩, ⟨0x38C, 0x38C, 1, 64⟩,
   ⟨0x38E, 0x38F, 1, 63⟩, ⟨0x391, 0x3A1, 1, 32⟩, ⟨0x3A3, 0x3AB, 1, 32⟩,
   ⟨0x400, 0x40F, 1, 80⟩, ⟨0x410, 0x42F, 1, 32⟩, ⟨0x460, 0x480, 2, 1⟩,
   ⟨0x48A, 0x4BE, 2, 1⟩, ⟨0x4C1, 0x4CD, 2, 1⟩, ⟨0x4D0, 0x52E, 2, 1⟩, ⟨0x531, 0x556, 1, 48⟩,
   ⟨0x1E00, 0x1E94, 2, 1⟩, ⟨0x1EA0, 0x1EFE, 2, 1⟩, ⟨0xFF21, 0xFF3A, 1, 32⟩,
   ⟨0x10400, 0x10427, 1, 40⟩]

namespace CapitalRange

def holdsCapital (range : CapitalRange) (code : Nat) : Bool :=
  range.first ≤ code && code ≤ range.last && (code - range.first) % range.step = 0

def holdsSmall (range : CapitalRange) (code : Nat) : Bool :=
  range.distance ≤ code && range.holdsCapital (code - range.distance)

end CapitalRange

def smallChar (c : Char) : Char :=
  match capitalRanges.find? (·.holdsCapital c.toNat) with
  | some range => Char.ofNat (c.toNat + range.distance)
  | none => if c = 'Ÿ' then 'ÿ' else if c = 'ẞ' then 'ß' else c

/-- What a character becomes at the head of a capitalised text. -/
def capitalChars (c : Char) : List Char :=
  match capitalRanges.find? (·.holdsSmall c.toNat) with
  | some range => [Char.ofNat (c.toNat - range.distance)]
  | none =>
      match c with
      | 'ß' => ['S', 's']
      | 'ÿ' => ['Ÿ']
      | 'ı' => ['I']
      | 'ſ' => ['S']
      | 'µ' => ['Μ']
      | 'ς' => ['Σ']
      | c => [c]

def capitalized (text : String) : String :=
  match text.toList with
  | [] => ""
  | c :: rest => String.ofList (capitalChars c ++ rest.map smallChar)

def lowered (text : String) : String := String.ofList (text.toList.map smallChar)

end FlatExports.Text
