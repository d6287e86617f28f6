/-!
# White space

The white space characters are those with the Unicode property `White_Space`. `trim` removes them
from both ends of a text and leaves the rest as it is. `isAsciiBlank` is the ASCII part of the
property for single bytes, without the vertical tab.
-/

namespace TimeSeries.Text

/-- The ranges of code points with the property `White_Space`, in increasing order. -/
def blankRanges : List (Nat × Nat) :=
  [(0x9, 0xD), (0x20, 0x20), (0x85, 0x85), (0xA0, 0xA0), (0x1680, 0x1680), (0x2000, 0x200A),
    (0x2028, 0x2029), (0x202F, 0x202F), (0x205F, 0x205F), (0x3000, 0x3000)]

def isBlank (c : Char) : Bool :=
  blankRanges.any fun r => decide (r.1 ≤ c.toNat) && decide (c.toNat ≤ r.2)

/-- The byte is a tab, a line feed, a form feed, a carriage return or a space. -/
def isAsciiBlank (b : UInt8) : Bool :=
  b == 0x9 || b == 0xA || b == 0xC || b == 0xD || b == 0x20

/-- A list without the elements at its two ends for which `p` holds. -/
def trimEnds {α : Type} (p : α → Bool) (l : List α) : List α :=
  ((l.dropWhile p).reverse.dropWhile p).reverse

/-- A text without white space at its ends. -/
def trim (s : String) : String := String.ofList (trimEnds isBlank s.toList)

@[simp] theorem toList_trim (s : String) : (trim s).toList = trimEnds isBlank s.toList :=
  String.toList_ofList

@[simp] theorem trimEnds_nil {α : Type} (p : α → Bool) : trimEnds p [] = [] := rfl

/-- Nothing is removed when neither end satisfies `p`. -/
theorem trimEnds_eq_self {α : Type} {p : α → Bool} {l : List α}
    (hhead : ∀ a ∈ l.head?, p a = false) (hlast : ∀ a ∈ l.getLast?, p a = false) :
    trimEnds p l = l := by
  have drop : ∀ m : List α, (∀ a ∈ m.head?, p a = false) → m.dropWhile p = m := by
    intro m hm
    cases m with
    | nil => rfl
    | cons a m => simp [hm a rfl]
  rw [trimEnds, drop l hhead, drop l.reverse, List.reverse_reverse]
  simpa [List.head?_reverse] using hlast

end TimeSeries.Text
