import Pebble.Proofs.Token.Layout
import Pebble.Tree.Content

/-!
Exactness: numbers keep their digits. An integer is written with the digits that it was read from,
and a decimal, whether it is written in plain notation or with an exponent, says the sign, the
digits and the places that it was written with.
-/

namespace Pebble

/-! ### Integers -/

namespace Numeral

variable {negative : Bool} {digits : Text}

lemma value_eq_zero_iff (h : digits ∈ Lexeme.whole) : value digits = 0 ↔ digits = ['0'] := by
  constructor
  · intro hzero
    rw [← ofNat_value h, hzero]
    exact Nat.toDigits_zero 10
  · rintro rfl
    rfl

/-- **Integers are written as they were read**, but zero loses its sign. -/
lemma ofInt_signed (h : digits ∈ Lexeme.whole) :
    Text.ofInt (signed negative (value digits)) =
      if Decimal.sign negative ++ digits = "-0".toList then "0".toList
      else Decimal.sign negative ++ digits := by
  have hdigits := ofNat_value h
  cases negative with
  | false =>
    have hplain : Decimal.sign false ++ digits = digits := rfl
    have hne : digits ≠ "-0".toList := by
      rintro rfl
      have hdigit := Lexeme.isDigit_iff.mpr (Lexeme.digit_of_whole h '-' (by decide))
      exact absurd hdigit (by decide)
    rw [hplain, if_neg hne]
    exact hdigits
  | true =>
    have hminus : Decimal.sign true ++ digits = '-' :: digits := rfl
    -- a minus sign is lost only before a zero
    by_cases hzero : value digits = 0
    · obtain rfl := (value_eq_zero_iff h).mp hzero
      rfl
    · have hne : '-' :: digits ≠ "-0".toList := fun heq =>
        hzero ((value_eq_zero_iff h).mpr (List.cons.inj heq).2)
      have hneg : signed true (value digits) < 0 := by
        rw [signed, if_pos rfl]
        omega
      have habs : (signed true (value digits)).natAbs = value digits := by simp [signed]
      rw [Text.ofInt_eq, decide_eq_true hneg, habs, hdigits, hminus, if_neg hne]

end Numeral

/-! ### Decimals -/

namespace Decimal

variable {negative : Bool} {coefficient : Nat} {exponent point : Int} {digits whole fraction : Text}

/-- The places of a fraction are its digits. -/
lemma places_value (hne : fraction ≠ []) (h : ∀ c ∈ fraction, c.isDigit) :
    places fraction.length (Numeral.value fraction) = fraction := by
  induction fraction with
  | nil => exact absurd rfl hne
  | cons c rest ih =>
    obtain ⟨-, hrest⟩ := List.forall_mem_cons.mp h
    -- a zero in front is filled in again, behind anything else there is nothing to fill
    by_cases hc : c = '0'
    · subst hc
      rcases eq_or_ne rest [] with rfl | hrestNe
      · rfl
      · have hvalue : Numeral.value ('0' :: rest) = Numeral.value rest :=
          Numeral.value_zeros_append 1 rest
        have hlength := Numeral.length_ofNat_value hrestNe hrest
        have hrec := ih hrestNe hrest
        rw [places, List.leftpad] at hrec ⊢
        rw [hvalue, List.length_cons, Nat.succ_sub hlength, List.replicate_succ, List.cons_append,
          hrec]
    · rw [places, Numeral.ofNat_value_cons h hc, List.leftpad, Nat.sub_self]
      rfl

/-- A plain decimal is what its sign, its coefficient and its places are written as. -/
lemma written_value (hw : whole ∈ Lexeme.whole) (hne : fraction ≠ [])
    (hf : ∀ c ∈ fraction, c.isDigit) :
    written negative (Numeral.value (whole ++ fraction)) fraction.length =
      sign negative ++ (whole ++ '.' :: fraction) := by
  have hlt := Numeral.value_lt_pow hf
  have hdiv : Numeral.value (whole ++ fraction) / 10 ^ fraction.length = Numeral.value whole := by
    rw [Numeral.value_append, Nat.mul_add_div (by omega), Nat.div_eq_of_lt hlt, Nat.add_zero]
  have hmod : Numeral.value (whole ++ fraction) % 10 ^ fraction.length =
      Numeral.value fraction := by
    rw [Numeral.value_append, Nat.mul_add_mod, Nat.mod_eq_of_lt hlt]
  rw [written, hdiv, hmod, Numeral.ofNat_value hw, places_value hne hf]

/-- Digits with a point that does not lie behind them all are digits, perhaps with zeros in front,
around the point. -/
lemma exists_pointed (hne : digits ≠ []) (hpoint : point ≤ digits.length) :
    ∃ whole middle fraction, pointed digits point = whole ++ middle ∧ whole ≠ [] ∧
      Pointed middle fraction ∧ (fraction.length : Int) = digits.length - point ∧
      ∃ count, whole ++ fraction = List.replicate count '0' ++ digits := by
  unfold pointed
  split
  · -- the point stands before all digits
    next hzero =>
    refine ⟨['0'], _, _, rfl, List.cons_ne_nil _ _, .present, ?_, (-point).toNat + 1, ?_⟩
    · rw [List.length_append, List.length_replicate]
      omega
    · rw [List.replicate_succ]
      rfl
  split
  · -- it stands behind all of them, and there is none
    next hend =>
    have hcount : (point - digits.length).toNat = 0 := by omega
    refine ⟨digits, [], [], ?_, hne, .absent, ?_, 0, ?_⟩
    · rw [hcount]
      rfl
    · rw [List.length_nil]
      omega
    · rw [List.append_nil]
      rfl
  · -- it stands between two of them
    next hzero hend =>
    refine ⟨digits.take point.toNat, _, _, rfl, ?_, .present, ?_, 0, ?_⟩
    · rw [← List.length_pos_iff, List.length_take]
      have := List.length_pos_iff.mpr hne
      omega
    · rw [List.length_drop]
      omega
    · exact List.take_append_drop _ _

/-- **What is written of a decimal says it**: its sign, its coefficient and its exponent. -/
lemma said?_toText (negative : Bool) (coefficient : Nat) (exponent : Int) :
    said? (finite negative coefficient exponent).toText =
      some (finite negative coefficient exponent) := by
  have hne := @Text.ofNat_ne_nil coefficient
  have hlength := List.length_pos_iff.mpr hne
  rw [toText, finiteText]
  -- plain or scientific, the point does not lie behind all digits, and that is all that counts
  generalize hpoint : (if exponent ≤ 0 ∧ -6 < exponent + ((Text.ofNat coefficient).length : Int)
    then exponent + ((Text.ofNat coefficient).length : Int) else 1) = point
  have hle : point ≤ (Text.ofNat coefficient).length := by
    rw [← hpoint]
    split <;> omega
  obtain ⟨whole, middle, fraction, htext, hwhole, hmiddle, hplaces, count, hdigits⟩ :=
    exists_pointed hne hle
  have hall : ∀ c ∈ whole ++ fraction, c.isDigit := by
    rw [hdigits]
    refine List.forall_mem_append.mpr ⟨fun c hc => ?_, fun c hc => Text.isDigit_of_mem_ofNat hc⟩
    rw [(List.mem_replicate.mp hc).2]
    decide
  obtain ⟨hw, hf⟩ := List.forall_mem_append.mp hall
  have hvalue : Numeral.value (whole ++ fraction) = coefficient := by
    rw [hdigits, Numeral.value_zeros_append, Numeral.value_ofNat]
  rw [htext, List.append_assoc, said?_pointed hwhole hw hf hmiddle, hvalue, hplaces]
  congr 2
  omega

/-- Seven places are too many for plain notation, and the zero behind the one stays. -/
example : said? "0.00000010".toList = some (finite false 10 (-8)) ∧
    (finite false 10 (-8)).toText = "1.0E-7".toList ∧
    said? "1.0E-7".toList = some (finite false 10 (-8)) := by decide

/-- A decimal in range is read back from what is written of it. -/
lemma read_toText (h : (finite negative coefficient exponent).inRange) :
    read (finite negative coefficient exponent).toText =
      .ok (finite negative coefficient exponent) := by
  rw [read_eq, said?_toText]
  exact if_pos h

/-! ### Literals of decimals -/

structure Parts where
  negative : Bool
  whole : Text
  fraction : Text
  whole_mem : whole ∈ Lexeme.whole
  fraction_ne_nil : fraction ≠ []
  isDigit_fraction : ∀ c ∈ fraction, c.isDigit

namespace Parts

def literal (parts : Parts) : Text :=
  sign parts.negative ++ (parts.whole ++ '.' :: parts.fraction)

def decimal (parts : Parts) : Decimal :=
  finite parts.negative (Numeral.value (parts.whole ++ parts.fraction)) (-parts.fraction.length)

variable {parts other : Parts}

lemma whole_ne_nil : parts.whole ≠ [] := Lexeme.whole_ne_nil parts.whole_mem

lemma isDigit_whole : ∀ c ∈ parts.whole, c.isDigit := Lexeme.isDigit_of_whole parts.whole_mem

lemma said?_literal : said? parts.literal = some parts.decimal :=
  said?_plain parts.whole_ne_nil parts.isDigit_whole parts.isDigit_fraction

lemma read_literal :
    read parts.literal = if parts.decimal.inRange then .ok parts.decimal else .error .outOfRange :=
  read_plain parts.whole_ne_nil parts.isDigit_whole parts.isDigit_fraction

/-- Only a very long literal has a decimal out of range. -/
lemma inRange_of_length_le (h : parts.literal.length ≤ 10 ^ 18) : parts.decimal.inRange := by
  by_contra hrange
  have hlong := lt_length_of_not_inRange parts.whole_ne_nil parts.isDigit_whole
    parts.isDigit_fraction (Bool.eq_false_iff.mpr hrange)
  rw [literal, List.length_append] at h
  omega

/-- A literal has just the sign, the digits and the places of its decimal. -/
lemma decimal_eq_iff : parts.decimal = other.decimal ↔ parts.literal = other.literal := by
  constructor
  · intro h
    obtain ⟨hsign, hvalue, hplaces⟩ := finite.inj h
    have hcount : parts.fraction.length = other.fraction.length := by omega
    have hwritten := @written_value parts.negative _ _ parts.whole_mem parts.fraction_ne_nil
      parts.isDigit_fraction
    have hwritten' := @written_value other.negative _ _ other.whole_mem other.fraction_ne_nil
      other.isDigit_fraction
    rw [literal, literal, ← hwritten, ← hwritten', hsign, hvalue, hcount]
  · intro h
    have hsaid := @said?_literal parts
    rw [h, said?_literal] at hsaid
    exact (Option.some.inj hsaid).symm

/-- What is written of their decimals tells literals apart. -/
lemma toText_eq_iff :
    parts.decimal.toText = other.decimal.toText ↔ parts.literal = other.literal := by
  rw [← decimal_eq_iff]
  constructor
  · intro h
    have hsaid := said?_toText other.negative (Numeral.value (other.whole ++ other.fraction))
      (-other.fraction.length)
    rw [← decimal, ← h, decimal, said?_toText] at hsaid
    exact Option.some.inj hsaid
  · intro h
    rw [h]

end Parts

end Decimal

namespace Token

variable {t : Token}

lemma exists_parts (h : t.literal ∈ Lexeme.language t.kind) (hk : t.kind = .decimal) :
    ∃ parts : Decimal.Parts, t.literal = parts.literal := by
  obtain ⟨negative, whole, fraction, hl, hwhole, hne, hf⟩ := Lexeme.mem_decimal.mp (hk ▸ h)
  exact ⟨⟨negative, whole, fraction, hwhole, hne, hf⟩, hl⟩

lemma primary_decimal {parts : Decimal.Parts} (hk : t.kind = .decimal)
    (hl : t.literal = parts.literal) (inner : Rule Expr) (rest : List Token) :
    Rule.primary inner (t :: rest) =
      if parts.decimal.inRange then .ok (.literal (.decimal parts.decimal)) rest
      else .error (.numeral .outOfRange) rest := by
  have hread := @Decimal.Parts.read_literal parts
  rw [← hl] at hread
  rw [Rule.primary_cons, reading?, terminal_of_decimal hk]
  by_cases hrange : parts.decimal.inRange
  · rw [if_pos hrange] at hread ⊢
    simp only [hread]
    rfl
  · rw [if_neg hrange] at hread ⊢
    simp only [hread]
    rfl

end Token

/-- **Numbers keep their digits.** An integer token of a text is read as the number that its digits
denote, unless they are too many, and that number is written as the token, but for the sign of zero.
A decimal token is read with its sign, its digits and its places, unless it is so long that they are
out of range, and what JSON holds of it says just these again. So JSON tells different decimal
tokens apart. -/
theorem numerals_exact :
    (∀ text tokens, lex text = .ok tokens → ∀ t ∈ tokens, t.kind = .integer →
      ∃ negative digits, t.literal = Decimal.sign negative ++ digits ∧ digits ∈ Lexeme.whole ∧
        let n := Numeral.signed negative (Numeral.value digits)
        (digits.length ≤ Numeral.maxDigits → ∀ inner rest,
          Rule.primary inner (t :: rest) = .ok (.literal (.integer n)) rest) ∧
        Text.ofInt n = if t.literal = "-0".toList then "0".toList else t.literal) ∧
    (∀ text tokens, lex text = .ok tokens → ∀ t ∈ tokens, t.kind = .decimal →
      ∃ parts : Decimal.Parts, t.literal = parts.literal ∧
        Decimal.said? t.literal = some parts.decimal ∧
        (∀ inner rest, Rule.primary inner (t :: rest) =
          if parts.decimal.inRange then .ok (.literal (.decimal parts.decimal)) rest
          else .error (.numeral .outOfRange) rest) ∧
        (t.literal.length ≤ 10 ^ 18 → parts.decimal.inRange) ∧
        ∃ written, (Value.decimal parts.decimal).record.toJson = .text written ∧
          Decimal.said? written = some parts.decimal ∧
          (parts.decimal.inRange → Decimal.read written = .ok parts.decimal)) ∧
    ∀ text tokens text' tokens', lex text = .ok tokens → lex text' = .ok tokens' →
      ∀ t ∈ tokens, ∀ t' ∈ tokens', t.kind = .decimal → t'.kind = .decimal →
      ∀ d d', Decimal.said? t.literal = some d → Decimal.said? t'.literal = some d' →
        ((Value.decimal d).record.toJson = (Value.decimal d').record.toJson ↔
          t.literal = t'.literal) := by
  refine ⟨fun text tokens hlex t ht hk => ?_, fun text tokens hlex t ht hk => ?_, ?_⟩
  · obtain ⟨negative, digits, hl, hdigits⟩ :=
      Lexeme.mem_integer.mp (hk ▸ mem_language_of_lex hlex t ht)
    refine ⟨negative, digits, hl, hdigits, fun hlength inner rest => ?_, ?_⟩
    · have hdenotes := Token.Denotes.integer hk hl (Lexeme.whole_ne_nil hdigits)
        (Lexeme.isDigit_of_whole hdigits) hlength
      rw [Rule.primary_cons, hdenotes.reading?_eq]
    · rw [hl]
      exact Numeral.ofInt_signed hdigits
  · obtain ⟨parts, hl⟩ := Token.exists_parts (mem_language_of_lex hlex t ht) hk
    refine ⟨parts, hl, ?_, Token.primary_decimal hk hl, ?_, ?_⟩
    · rw [hl, Decimal.Parts.said?_literal]
    · rw [hl]
      exact Decimal.Parts.inRange_of_length_le
    · exact ⟨_, rfl, Decimal.said?_toText _ _ _, Decimal.read_toText⟩
  · -- each literal says the decimal of its parts, and the text of that tells the parts
    intro text tokens text' tokens' hlex hlex' t ht t' ht' hk hk' d d' hd hd'
    obtain ⟨parts, hl⟩ := Token.exists_parts (mem_language_of_lex hlex t ht) hk
    obtain ⟨other, hl'⟩ := Token.exists_parts (mem_language_of_lex hlex' t' ht') hk'
    rw [hl, Decimal.Parts.said?_literal] at hd
    rw [hl', Decimal.Parts.said?_literal] at hd'
    obtain rfl := Option.some.inj hd
    obtain rfl := Option.some.inj hd'
    rw [hl, hl', ← Decimal.Parts.toText_eq_iff]
    simp only [Value.record, Record.toJson, Json.text.injEq]

end Pebble
