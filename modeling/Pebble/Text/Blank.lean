import Pebble.Text.Basic

/-!
Blanks: the characters that may stand around a numeral.
-/

namespace Pebble.Text

/-- The first and the last code point of each run of blanks: the white space and the separators of
Unicode, and the separators among the control characters. -/
def blanks : List (Nat × Nat) :=
  [(0x9, 0xD), (0x1C, 0x20), (0x85, 0x85), (0xA0, 0xA0), (0x1680, 0x1680), (0x2000, 0x200A),
   (0x2028, 0x2029), (0x202F, 0x202F), (0x205F, 0x205F), (0x3000, 0x3000)]

def isBlank (c : Char) : Bool :=
  blanks.any fun run => run.1 ≤ c.toNat && c.toNat ≤ run.2

/-- Whether a character is one of the four separators among the control characters. -/
def isControlSeparator (c : Char) : Bool := 0x1C ≤ c.toNat && c.toNat ≤ 0x1F

/-- A text without the characters of some class at its start and at its end. -/
def strip (drop : Char → Bool) (text : Text) : Text :=
  ((text.dropWhile drop).reverse.dropWhile drop).reverse

theorem isBlank_of_isWhitespace {c : Char} (h : c.isWhitespace) : isBlank c := by
  simp only [Char.isWhitespace, Bool.or_eq_true, decide_eq_true_eq] at h
  rcases h with ((rfl | rfl) | rfl) | rfl <;> decide

end Pebble.Text
