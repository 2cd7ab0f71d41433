import Pebble.Number.Decimal
import Pebble.Proofs.Token.Rules

/-!
Digits and the numbers that they denote. A number has one numeral without zeros in front, so that
the digits of a numeral are those of its number.
-/

namespace Pebble

namespace Text

variable {n : Nat}

lemma ofNat_ne_nil : ofNat n ≠ [] := Nat.toDigits_ne_nil

lemma isDigit_of_mem_ofNat {c : Char} (h : c ∈ ofNat n) : c.isDigit :=
  Nat.isDigit_of_mem_toDigits (by omega) (by omega) h

/-- Only the numeral of zero begins with a zero. -/
lemma head_ofNat (h : 0 < n) : ∀ c ∈ (ofNat n).head?, c ≠ '0' := by
  induction n using Nat.strong_induction_on with
  | _ n ih =>
    by_cases hn : n < 10
    · rw [ofNat, Nat.toDigits_of_lt_base hn]
      simpa using h.ne'
    · have hlt : n / 10 < n := by omega
      have hrec := ih (n / 10) hlt (by omega)
      rw [ofNat, Nat.toDigits_of_base_le (by omega) (by omega)]
      rwa [List.head?_append_of_ne_nil _ Nat.toDigits_ne_nil]

lemma ofNat_mem_whole (n : Nat) : ofNat n ∈ Lexeme.whole := by
  refine Lexeme.mem_whole.mpr ?_
  rcases Nat.eq_zero_or_pos n with rfl | hn
  · exact .inl (Nat.toDigits_zero 10)
  · refine .inr ⟨Lexeme.mem_digits.mpr ⟨ofNat_ne_nil, fun c hc => ?_⟩, head_ofNat hn⟩
    exact Lexeme.isDigit_iff.mp (isDigit_of_mem_ofNat hc)

lemma ofInt_eq (n : Int) : ofInt n = Decimal.sign (decide (n < 0)) ++ ofNat n.natAbs := by
  cases n with
  | ofNat n => simp [ofInt, Decimal.sign]
  | negSucc n => simp [ofInt, Decimal.sign, Int.negSucc_lt_zero]

lemma toNat_of_isDigit {c : Char} (h : c.isDigit) :
    '0'.toNat ≤ c.toNat ∧ c.toNat < '0'.toNat + 10 := by
  have hrange : 48 ≤ c.toNat ∧ c.toNat ≤ 57 := by
    simpa [Char.isDigit, UInt32.le_iff_toNat_le] using h
  exact ⟨hrange.1, Nat.lt_succ_of_le hrange.2⟩

lemma ofNat_digit {c : Char} (h : c.isDigit) : ofNat (c.toNat - '0'.toNat) = [c] := by
  have hrange := toNat_of_isDigit h
  have hplain := plainDigit_of_isDigit h
  simp only [plainDigit, digit?, if_pos h] at hplain
  rw [ofNat, Nat.toDigits_of_lt_base (by omega), hplain]

/-- Digits after a numeral that is not zero go on with it. -/
lemma ofNat_append {digits : Text} (hn : 0 < n) (h : ∀ c ∈ digits, c.isDigit) :
    ofNat n ++ digits = ofNat (Nat.ofDigitChars 10 digits n) := by
  induction digits generalizing n with
  | nil => simp
  | cons c digits ih =>
    obtain ⟨hc, hdigits⟩ := List.forall_mem_cons.mp h
    have hrange := toNat_of_isDigit hc
    have hlt : c.toNat - '0'.toNat < 10 := by omega
    calc ofNat n ++ c :: digits
        = (ofNat n ++ ofNat (c.toNat - '0'.toNat)) ++ digits := by
          rw [ofNat_digit hc, List.append_assoc, List.singleton_append]
      _ = ofNat (10 * n + (c.toNat - '0'.toNat)) ++ digits := by
          rw [ofNat, ofNat, Nat.toDigits_append_toDigits (by omega) hn hlt, ofNat]
      _ = ofNat (Nat.ofDigitChars 10 (c :: digits) n) := by
          rw [ih (by omega) hdigits, Nat.ofDigitChars_cons]

end Text

namespace Numeral

variable {digits : Text}

lemma value_ofNat (n : Nat) : value (Text.ofNat n) = n := Nat.ofDigitChars_ten_toDigits

lemma signed_natAbs (n : Int) : signed (decide (n < 0)) n.natAbs = n := by
  by_cases h : n < 0
  · rw [signed, if_pos (decide_eq_true h)]
    omega
  · rw [signed, if_neg (by simpa using h)]
    omega

lemma value_lt_pow (h : ∀ c ∈ digits, c.isDigit) : value digits < 10 ^ digits.length := by
  rw [value]
  -- On the digits: the first one counts at most nine of the power that the others stay below.
  induction digits with
  | nil => simp
  | cons c digits ih =>
    obtain ⟨hc, hdigits⟩ := List.forall_mem_cons.mp h
    have hrange := Text.toNat_of_isDigit hc
    have hdigit : c.toNat - '0'.toNat ≤ 9 := by omega
    have hrest := ih hdigits
    calc Nat.ofDigitChars 10 (c :: digits) 0
        = 10 ^ digits.length * (c.toNat - '0'.toNat) + Nat.ofDigitChars 10 digits 0 := by
          rw [Nat.ofDigitChars_cons, Nat.ofDigitChars_eq_ofDigitChars_zero]
          simp
      _ < 10 ^ digits.length * 9 + 10 ^ digits.length := by
          have := Nat.mul_le_mul_left (10 ^ digits.length) hdigit
          omega
      _ = 10 ^ (c :: digits).length := by
          rw [List.length_cons, Nat.pow_succ]
          omega

/-- The numeral of what digits denote is no longer than they are. -/
lemma length_ofNat_value (hne : digits ≠ []) (h : ∀ c ∈ digits, c.isDigit) :
    (Text.ofNat (value digits)).length ≤ digits.length :=
  (Nat.length_toDigits_le_iff (by omega) (List.length_pos_iff.mpr hne)).mpr (value_lt_pow h)

/-- Digits in front of others stand for so many more powers of ten. -/
lemma value_append (digits rest : Text) :
    value (digits ++ rest) = 10 ^ rest.length * value digits + value rest := by
  simp only [value]
  rw [Nat.ofDigitChars_append, Nat.ofDigitChars_eq_ofDigitChars_zero]

lemma value_zeros_append (count : Nat) (digits : Text) :
    value (List.replicate count '0' ++ digits) = value digits := by
  simp only [value]
  rw [Nat.ofDigitChars_append, Nat.ofDigitChars_replicate_zero, Nat.mul_zero]

/-- Digits that begin with no zero are the numeral of what they denote. -/
lemma ofNat_value_cons {c : Char} (h : ∀ d ∈ c :: digits, d.isDigit) (hzero : c ≠ '0') :
    Text.ofNat (value (c :: digits)) = c :: digits := by
  obtain ⟨hc, hdigits⟩ := List.forall_mem_cons.mp h
  have hrange := Text.toNat_of_isDigit hc
  have hne : c.toNat ≠ '0'.toNat := fun heq => hzero (Char.toNat_inj.mp heq)
  have hpos : 0 < c.toNat - '0'.toNat := by omega
  calc Text.ofNat (value (c :: digits))
      = Text.ofNat (Nat.ofDigitChars 10 digits (c.toNat - '0'.toNat)) := by
        rw [value, Nat.ofDigitChars_cons, Nat.mul_zero, Nat.zero_add]
    _ = Text.ofNat (c.toNat - '0'.toNat) ++ digits := (Text.ofNat_append hpos hdigits).symm
    _ = c :: digits := by rw [Text.ofNat_digit hc, List.singleton_append]

/-- An integer part is the numeral of what it denotes. -/
lemma ofNat_value (h : digits ∈ Lexeme.whole) : Text.ofNat (value digits) = digits := by
  rcases Lexeme.mem_whole.mp h with rfl | ⟨hdigits, hzero⟩
  · exact Nat.toDigits_zero 10
  · obtain ⟨hne, hall⟩ := Lexeme.mem_digits.mp hdigits
    obtain ⟨c, digits, rfl⟩ := List.exists_cons_of_ne_nil hne
    exact ofNat_value_cons (fun d hd => Lexeme.isDigit_iff.mpr (hall d hd)) (hzero c rfl)

end Numeral

end Pebble
