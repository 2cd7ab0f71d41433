import Mathlib.Algebra.Ring.Parity
import Mathlib.Data.List.DropRight
import Pebble.Text.Escape

/-!
Cuts through escapes: a text may be decoded in two parts wherever the cut is not between a backslash
and its letter. Whether it is there is told by the backslashes in front of the cut: they pair up
from the first of their run on, so that only an odd run leaves one over.
-/

namespace Pebble.Escape

/-- The character that stands for a letter behind a backslash: a letter of no escape stands for
itself. -/
def meaning (letter : Char) : Char := (denoted? letter).getD letter

/-- How many backslashes there are at the end of a text, one next to the other. -/
def slashes (text : Text) : Nat := (text.rtakeWhile (· = '\\')).length

/-- A text that leaves no escape open: behind each backslash in it that begins an escape there is
the letter. -/
inductive Closed : Text → Prop
  | nil : Closed []
  | plain {c : Char} {rest : Text} (hc : c ≠ '\\') (hrest : Closed rest) : Closed (c :: rest)
  | escape {letter : Char} {rest : Text} (hrest : Closed rest) : Closed ('\\' :: letter :: rest)

variable {x y : Text} {c : Char}

/-! ### Decoding in parts -/

lemma decode_plain (hc : c ≠ '\\') (rest : Text) : decode (c :: rest) = c :: decode rest := by
  rw [decode]
  rintro letter others rfl
  exact absurd rfl hc

lemma decode_escape (letter : Char) (rest : Text) :
    decode ('\\' :: letter :: rest) = meaning letter :: decode rest := rfl

/-- Behind a text that leaves no escape open, decoding begins afresh. -/
lemma Closed.decode_append (h : Closed x) (y : Text) : decode (x ++ y) = decode x ++ decode y := by
  induction h with
  | nil => rfl
  | plain hc _ ih => rw [List.cons_append, decode_plain hc, decode_plain hc, ih, List.cons_append]
  | escape _ ih =>
    rw [List.cons_append, List.cons_append, decode_escape, decode_escape, ih, List.cons_append]

/-! ### Backslashes at the end -/

lemma Closed.append (hx : Closed x) (hy : Closed y) : Closed (x ++ y) := by
  induction hx with
  | nil => exact hy
  | plain hc _ ih => exact .plain hc ih
  | escape _ ih => exact .escape ih

lemma slashes_concat_slash (x : Text) : slashes (x ++ ['\\']) = slashes x + 1 := by
  rw [slashes, List.rtakeWhile_concat_pos _ _ _ (by decide), List.length_append,
    List.length_singleton, slashes]

lemma slashes_concat_plain (hc : c ≠ '\\') (x : Text) : slashes (x ++ [c]) = 0 := by
  rw [slashes, List.rtakeWhile_concat_neg _ _ _ (by simpa using hc), List.length_nil]

/-- An even run of backslashes leaves no escape open, and an odd run leaves its last one over. -/
lemma closed_cases (x : Text) : (Even (slashes x) → Closed x) ∧
    (Odd (slashes x) → ∃ x₀, x = x₀ ++ ['\\'] ∧ Closed x₀) := by
  -- On the end of the text, where the run is.
  induction x using List.reverseRecOn with
  | nil => exact ⟨fun _ => .nil, fun h => absurd h (by decide)⟩
  | append_singleton x c ih =>
    obtain ⟨heven, hodd⟩ := ih
    by_cases hc : c = '\\'
    · subst hc
      rw [slashes_concat_slash, Nat.even_add_one, Nat.odd_add_one, Nat.not_even_iff_odd,
        Nat.not_odd_iff_even]
      refine ⟨fun h => ?_, fun h => ⟨x, rfl, heven h⟩⟩
      obtain ⟨x₀, rfl, hx₀⟩ := hodd h
      rw [List.append_assoc]
      exact hx₀.append (.escape .nil)
    · rw [slashes_concat_plain hc]
      refine ⟨fun _ => ?_, fun h => absurd h (by decide)⟩
      -- the character is the letter of an escape just if the run before it is odd
      rcases Nat.even_or_odd (slashes x) with h | h
      · exact (heven h).append (.plain hc .nil)
      · obtain ⟨x₀, rfl, hx₀⟩ := hodd h
        rw [List.append_assoc]
        exact hx₀.append (.escape .nil)

/-- **Decoding splits wherever no escape straddles the cut.** Behind an even run of backslashes the
two parts are decoded each by itself. Behind an odd run, the last backslash and the first character
behind the cut are decoded together, and what is before and behind them each by itself; if nothing
is behind the cut, the backslash stays. -/
theorem decode_split (x y : Text) :
    (Even (slashes x) → decode (x ++ y) = decode x ++ decode y) ∧
      (Odd (slashes x) → ∃ x₀, x = x₀ ++ ['\\'] ∧
        (∀ c y₀, y = c :: y₀ → decode (x ++ y) = decode x₀ ++ meaning c :: decode y₀) ∧
        (y = [] → decode (x ++ y) = decode x₀ ++ ['\\'])) := by
  obtain ⟨heven, hodd⟩ := closed_cases x
  refine ⟨fun h => (heven h).decode_append y, fun h => ?_⟩
  obtain ⟨x₀, rfl, hx₀⟩ := hodd h
  refine ⟨x₀, rfl, ?_, ?_⟩
  · rintro c y₀ rfl
    rw [List.append_assoc, hx₀.decode_append, List.singleton_append, decode_escape]
  · rintro rfl
    rw [List.append_nil, hx₀.decode_append]
    rfl

/-- Behind three backslashes, an `n` belongs to the last of them. -/
example : decode ("\\\\\\".toList ++ "n".toList) = "\\\n".toList ∧
    decode "\\\\\\".toList ++ decode "n".toList = "\\\\n".toList := by decide

end Pebble.Escape
