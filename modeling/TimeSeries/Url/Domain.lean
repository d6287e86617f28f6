import TimeSeries.Text.Split
import TimeSeries.Text.Utf8
import TimeSeries.Url.Punycode

/-!
# Domains

The name of a host is brought into one form: letters are small, characters that are variants of
others are replaced by them, and a label with characters outside ASCII is written in its ASCII form.
Characters that would be read as something else in an address are refused.

Small letters and variants are known for Latin, Greek, Cyrillic and Armenian letters and for the
full-width forms of ASCII.
-/

namespace TimeSeries.Url.Domain

/-- The character must not stand in a domain. -/
def isForbidden (c : Char) : Bool :=
  decide (c.toNat ≤ 0x20) || decide (c.toNat = 0x7F) ||
    ['%', '#', '/', ':', '<', '>', '?', '@', '[', '\\', ']', '^', '|'].contains c

/-- The code point is in one of the ranges. -/
def inRanges (ranges : List (Nat × Nat)) (n : Nat) : Bool :=
  ranges.any fun r => decide (r.1 ≤ n) && decide (n ≤ r.2)

/-- Ranges in which a capital with an even code point stands in front of its small letter. -/
def evenPairs : List (Nat × Nat) :=
  [(0x100, 0x12F), (0x132, 0x137), (0x14A, 0x177), (0x1DE, 0x1EF), (0x1F8, 0x21F), (0x222, 0x233),
    (0x370, 0x373), (0x3D8, 0x3EF), (0x460, 0x481), (0x48A, 0x4BF), (0x4D0, 0x52F),
    (0x1E00, 0x1E95), (0x1EA0, 0x1EFF)]

/-- Ranges in which a capital with an odd code point stands in front of its small letter. -/
def oddPairs : List (Nat × Nat) := [(0x139, 0x148), (0x179, 0x17E), (0x1CD, 0x1DC), (0x4C1, 0x4CE)]

/-- Ranges of capitals with the distance to their small letters. -/
def shifted : List ((Nat × Nat) × Nat) :=
  [((0x41, 0x5A), 32), ((0xC0, 0xD6), 32), ((0xD8, 0xDE), 32), ((0x386, 0x386), 38),
    ((0x388, 0x38A), 37), ((0x38C, 0x38C), 64), ((0x38E, 0x38F), 63), ((0x391, 0x3A1), 32),
    ((0x3A3, 0x3AB), 32), ((0x400, 0x40F), 80), ((0x410, 0x42F), 32), ((0x4C0, 0x4C0), 15),
    ((0x531, 0x556), 48), ((0x24B6, 0x24CF), 26)]

def variants : List (Nat × List Nat) :=
  [(0xAA, [0x61]), (0xB2, [0x32]), (0xB3, [0x33]), (0xB5, [0x3BC]), (0xB9, [0x31]), (0xBA, [0x6F]),
    (0x130, [0x69, 0x307]), (0x132, [0x69, 0x6A]), (0x133, [0x69, 0x6A]), (0x178, [0xFF]),
    (0x17F, [0x73]), (0x1E9E, [0x73, 0x73]), (0x2102, [0x63]), (0x210A, [0x67]), (0x2115, [0x6E]),
    (0x2116, [0x6E, 0x6F]), (0x2122, [0x74, 0x6D]), (0x212A, [0x6B]), (0x212B, [0xE5]),
    (0x3002, [0x2E]), (0xFB00, [0x66, 0x66]), (0xFB01, [0x66, 0x69]), (0xFB02, [0x66, 0x6C]),
    (0xFF61, [0x2E])]

def ignored : List (Nat × Nat) :=
  [(0xAD, 0xAD), (0x34F, 0x34F), (0x200B, 0x200B), (0x2060, 0x2060), (0x2064, 0x2064),
    (0xFE00, 0xFE0F), (0xFEFF, 0xFEFF)]

/-- Ranges of characters outside ASCII that must not stand in a domain. -/
def refused : List (Nat × Nat) :=
  [(0x80, 0xA0), (0x2000, 0x200A), (0x200E, 0x200F), (0x2024, 0x2026), (0x2028, 0x202F),
    (0x205F, 0x205F), (0x2061, 0x2063), (0x2065, 0x206F), (0x3000, 0x3000), (0xE000, 0xF8FF),
    (0xFFF0, 0xFFFF), (0xE0000, 0x10FFFF)]

/-- Ranges of marks that cannot begin a label. -/
def marks : List (Nat × Nat) :=
  [(0x300, 0x36F), (0x483, 0x489), (0x591, 0x5BD), (0x610, 0x61A), (0x64B, 0x65F), (0x20D0, 0x20F0),
    (0x3099, 0x309A), (0xFE20, 0xFE2F)]

/-- What a character is replaced by; nothing is said about characters that are refused. -/
def mapChar (c : Char) : List Char :=
  let n := if 0xFF01 ≤ c.toNat ∧ c.toNat ≤ 0xFF5E then c.toNat - 0xFEE0 else c.toNat
  if inRanges ignored n then []
  else
    match variants.find? fun v => v.1 = n with
    | some v => v.2.map Char.ofNat
    | none =>
      match shifted.find? fun s => s.1.1 ≤ n ∧ n ≤ s.1.2 with
      | some s => [Char.ofNat (n + s.2)]
      | none =>
        if (n % 2 = 0 ∧ inRanges evenPairs n) ∨ (n % 2 = 1 ∧ inRanges oddPairs n) then
          [Char.ofNat (n + 1)]
        else [Char.ofNat n]

def marker : List Char := ['x', 'n', '-', '-']

/-- A label whose characters are replaced already, in ASCII. An ASCII form has to stand for
something that needs one. -/
def labelText? (label : List Char) : Option (List Char) :=
  if label.take 4 = marker then
    match Punycode.decode (label.drop 4) with
    | some l => if l.all Punycode.isAscii then none else some label
    | none => none
  else if label.all Punycode.isAscii then some label
  else if (label.head?.map fun c => inRanges marks c.toNat).getD false then none
  else some (marker ++ Punycode.encode label)

/-- The domain that some bytes name, in ASCII. -/
def ofBytes? (bytes : List UInt8) : Option (List Char) :=
  match Text.utf8Text? bytes with
  | .error _ => none
  | .ok s =>
    if s.toList.any fun c => inRanges refused c.toNat then none
    else
      let mapped := s.toList.flatMap mapChar
      if mapped.any isForbidden then none
      else
        ((Text.splitAll (· == '.') mapped).mapM labelText?).map fun l => List.intercalate ['.'] l

end TimeSeries.Url.Domain
