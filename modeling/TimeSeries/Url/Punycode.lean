/-!
# Punycode

A label of a domain with characters outside ASCII is written in ASCII: first its ASCII characters,
then, behind a hyphen, the others in the order of their code points, each as the distance from the
one before. A distance is a number whose digits have weights that adapt to the distances seen so
far.
-/

namespace TimeSeries.Url.Punycode

def digitChar (d : Nat) : Char := if d < 26 then Char.ofNat (97 + d) else Char.ofNat (22 + d)

def digitValue? (c : Char) : Option Nat :=
  if 'a' ≤ c ∧ c ≤ 'z' then some (c.toNat - 97)
  else if '0' ≤ c ∧ c ≤ '9' then some (c.toNat - 22) else none

/-- The least value of a digit at position `k` that does not end a number. -/
def threshold (k bias : Nat) : Nat :=
  if k ≤ bias then 1 else if bias + 26 ≤ k then 26 else k - bias

theorem threshold_pos (k bias : Nat) : 1 ≤ threshold k bias := by
  unfold threshold; split <;> (try split) <;> omega

/-- The part of the adaptation that scales a distance down. -/
def scaleDown (delta k : Nat) : Nat × Nat :=
  if 455 < delta then scaleDown (delta / 35) (k + 36) else (delta, k)
termination_by delta
decreasing_by exact Nat.div_lt_self (by omega) (by omega)

/-- The bias behind a distance, when `count` characters have been placed. -/
def adapt (delta count : Nat) (isFirst : Bool) : Nat :=
  let delta := if isFirst then delta / 700 else delta / 2
  let r := scaleDown (delta + delta / count) 0
  r.2 + 36 * r.1 / (r.1 + 38)

/-- The digits of a distance, the least one first. -/
def distanceDigits (bias k q : Nat) : List Char :=
  let t := threshold k bias
  if q < t then [digitChar q]
  else digitChar (t + (q - t) % (36 - t)) :: distanceDigits bias (k + 36) ((q - t) / (36 - t))
termination_by q
decreasing_by
  have := threshold_pos k bias
  exact Nat.lt_of_le_of_lt (Nat.div_le_self _ _) (by omega)

/-- What an encoder knows: the digits so far, the distance since the last character, the bias and
the number of characters placed. -/
structure Progress where
  digits : List Char
  delta : Nat
  bias : Nat
  placed : Nat

/-- One character of the label, while the characters with code point `m` are placed. -/
def Progress.pass (basic m : Nat) (s : Progress) (c : Char) : Progress :=
  if c.toNat < m then { s with delta := s.delta + 1 }
  else if c.toNat = m then
    { digits := s.digits ++ distanceDigits s.bias 36 s.delta
      delta := 0
      bias := adapt s.delta (s.placed + 1) (s.placed == basic)
      placed := s.placed + 1 }
  else s

/-- The code points that are still to be placed, in increasing order, when those below `n` are. -/
def encodeFrom (label : List Char) (basic : Nat) : List Nat → (n : Nat) → Progress → Progress
  | [], _, s => s
  | m :: more, n, s =>
    let s := { s with delta := s.delta + (m - n) * (s.placed + 1) }
    let s := label.foldl (Progress.pass basic m) s
    encodeFrom label basic more (m + 1) { s with delta := s.delta + 1 }

/-- A number put into a list of increasing numbers, unless it is there. -/
def insertSorted (x : Nat) : List Nat → List Nat
  | [] => [x]
  | y :: l => if x < y then x :: y :: l else if x = y then y :: l else y :: insertSorted x l

def isAscii (c : Char) : Bool := decide (c.toNat < 0x80)

def encode (label : List Char) : List Char :=
  let basic := label.filter isAscii
  let points := ((label.filter fun c => !isAscii c).map Char.toNat).foldr insertSorted []
  let s := encodeFrom label basic.length points 128 ⟨[], 0, 72, basic.length⟩
  basic ++ (if basic.isEmpty then [] else ['-']) ++ s.digits

/-- The distance at the front of some digits, added to `i`, and the digits behind it. -/
def readDistance (bias : Nat) : List Char → (k w i : Nat) → Option (Nat × List Char)
  | [], _, _, _ => none
  | c :: rest, k, w, i =>
    match digitValue? c with
    | none => none
    | some d =>
      let t := threshold k bias
      if d < t then some (i + d * w, rest)
      else readDistance bias rest (k + 36) (w * (36 - t)) (i + d * w)

theorem length_lt_of_readDistance {bias : Nat} {l rest : List Char} {k w i n : Nat}
    (h : readDistance bias l k w i = some (n, rest)) : rest.length < l.length := by
  induction l generalizing k w i with
  | nil => simp [readDistance] at h
  | cons c l ih =>
    rw [readDistance] at h
    split at h
    · exact absurd h (by simp)
    · dsimp only at h
      split at h
      · obtain ⟨-, rfl⟩ : _ ∧ l = rest := by simpa using h
        simp
      · have := ih h
        simp only [List.length_cons]
        omega

/-- The label that goes on with some digits, when the characters so far are placed and the last code
point was `n`. -/
def decodeFrom (bias n i : Nat) (label : List Char) : List Char → Option (List Char)
  | [] => some label
  | c :: rest =>
    match h : readDistance bias (c :: rest) 36 1 i with
    | none => none
    | some (j, left) =>
      have : left.length < (c :: rest).length := length_lt_of_readDistance h
      let count := label.length + 1
      let m := n + j / count
      if m < 0xD800 ∨ (0xDFFF < m ∧ m < 0x110000) then
        decodeFrom (adapt (j - i) count (i == 0)) m (j % count + 1)
          (label.insertIdx (j % count) (Char.ofNat m)) left
      else none
termination_by l => l.length
decreasing_by exact this

/-- The label that an ASCII form stands for. -/
def decode (l : List Char) : Option (List Char) :=
  let digits := (l.reverse.takeWhile (· != '-')).reverse
  let basic := l.take (l.length - digits.length - 1)
  decodeFrom 72 128 0 basic digits

end TimeSeries.Url.Punycode
