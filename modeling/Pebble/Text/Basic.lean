/-!
Texts as lists of characters, so that every position and every length counts code points, with
the digits of a number and the part of a text between two indices.
-/

namespace Pebble

/-- A text is the list of its characters. These are the code points of Unicode without the halves of
surrogate pairs, which are no characters by themselves. -/
abbrev Text := List Char

namespace Text

def ofNat (n : Nat) : Text := Nat.toDigits 10 n

def ofInt : Int → Text
  | .ofNat n => ofNat n
  | .negSucc n => '-' :: ofNat (n + 1)

/-- The hexadecimal digits of `n`, in lower case, with zeros in front up to `width` digits. -/
def hex (width n : Nat) : Text := (Nat.toDigits 16 n).leftpad width '0'

/-- The place that an index names in a text of the given length. A negative index counts from the
end, and an index beyond either end names that end. -/
def place (length : Nat) (index : Int) : Nat :=
  if index < 0 then (index + length).toNat else min index.toNat length

def slice (text : Text) (start stop : Int) : Text :=
  (text.drop (place text.length start)).take
    (place text.length stop - place text.length start)

/-- Between indices inside the text a slice is what lies between them. -/
theorem slice_natCast (text : Text) {start stop : Nat} (h : stop ≤ text.length) :
    slice text start stop = (text.drop start).take (stop - start) := by
  have hstop : ¬ (stop : Int) < 0 := by omega
  have hstart : ¬ (start : Int) < 0 := by omega
  simp only [slice, place, hstop, hstart, if_false, Int.toNat_natCast, Nat.min_eq_left h]
  rcases Nat.le_total start text.length with hs | hs
  · rw [Nat.min_eq_left hs]
  · rw [Nat.min_eq_right hs, Nat.sub_eq_zero_of_le h, Nat.sub_eq_zero_of_le (Nat.le_trans h hs)]
    simp

end Text

end Pebble
