import Pebble.Proofs.Number.Digits

/-!
Reading numerals: what is made of digits, a sign, a point and an exponent is read as it says, if an
integer is not too long and a decimal is in range. A decimal out of range has very many digits.
-/

namespace Pebble

namespace Text

def Numeric (c : Char) : Prop := c.isDigit ∨ c ∈ ['-', '.', '+', 'E']

lemma numeric_of_isDigit {c : Char} (h : c.isDigit) : Numeric c := .inl h

/-- The characters of plain numerals stand for themselves: they are no blanks, and their digits are
those of ASCII. -/
lemma plain_of_numeric {c : Char} (h : Numeric c) :
    isBlank c = false ∧ c ≠ '_' ∧ plainDigit c = c := by
  rcases h with h | h
  · -- a digit by its number, so that ten cases are left to be looked at
    obtain ⟨n, rfl, hn⟩ : ∃ n, c = Char.ofNat ('0'.toNat + n) ∧ n < 10 := by
      have hrange := toNat_of_isDigit h
      refine ⟨c.toNat - '0'.toNat, ?_, by omega⟩
      rw [Nat.add_sub_cancel' hrange.1, Char.ofNat_toNat]
    refine ⟨?_, ?_, plainDigit_of_isDigit h⟩
    · have blank : ∀ n < 10, isBlank (Char.ofNat ('0'.toNat + n)) = false := by decide
      exact blank n hn
    · rintro heq
      rw [heq] at h
      exact absurd h (by decide)
  · have hmark : c = '-' ∨ c = '.' ∨ c = '+' ∨ c = 'E' := by simpa using h
    rcases hmark with rfl | rfl | rfl | rfl <;> decide

lemma map_plainDigit {text : Text} (h : ∀ c ∈ text, Numeric c) : text.map plainDigit = text := by
  rw [List.map_congr_left (fun c hc => (plain_of_numeric (h c hc)).2.2), List.map_id']

end Text

namespace Numeral

variable {negative : Bool} {digits : Text}

lemma splitSign_sign (negative : Bool) (hne : digits ≠ []) (h : ∀ c ∈ digits, c.isDigit)
    (rest : Text) :
    splitSign (Decimal.sign negative ++ (digits ++ rest)) = (negative, digits ++ rest) := by
  cases negative with
  | true => rfl
  | false =>
    obtain ⟨c, cs, rfl⟩ := List.exists_cons_of_ne_nil hne
    have hc := h c (by simp)
    have hminus : c ≠ '-' := by rintro rfl; exact absurd hc (by decide)
    have hplus : c ≠ '+' := by rintro rfl; exact absurd hc (by decide)
    simp [Decimal.sign, splitSign, hminus, hplus]

lemma numeric_sign_append (negative : Bool) {body : Text} (h : ∀ c ∈ body, Text.Numeric c) :
    ∀ c ∈ Decimal.sign negative ++ body, Text.Numeric c := by
  refine List.forall_mem_append.mpr ⟨?_, h⟩
  cases negative <;> simp [Decimal.sign, Text.Numeric]

/-- A plain integer is read as the number that its digits denote, unless they are too many. -/
lemma readInteger_digits (hne : digits ≠ []) (h : ∀ c ∈ digits, c.isDigit) :
    readInteger (Decimal.sign negative ++ digits) =
      if maxDigits < digits.length then .error (.tooLong digits.length)
      else .ok (signed negative (value digits)) := by
  have hplain := numeric_sign_append negative fun c hc => Text.numeric_of_isDigit (h c hc)
  have hpad : (Decimal.sign negative ++ digits).dropWhile isPadding =
      Decimal.sign negative ++ digits := by
    refine List.dropWhile_eq_self_iff.2 fun hl => ?_
    simp [isPadding, (Text.plain_of_numeric (hplain _ (List.getElem_mem hl))).1]
  have hpart : ∀ c ∈ digits, isPart c := fun c hc => by simp [isPart, h c hc]
  have hsplit := splitSign_sign negative hne h []
  rw [List.append_nil] at hsplit
  have hdigits := digits?_of_all hne (List.all_eq_true.2 h)
  simp only [readInteger, hpad, Text.map_plainDigit hplain, hsplit,
    List.takeWhile_eq_self_iff.2 hpart, List.dropWhile_eq_nil_iff.2 hpart, hdigits,
    List.all_nil, if_true]

/-- A plain integer that is not too long is read as the number that its digits denote. -/
lemma readInteger_plain (hne : digits ≠ []) (h : ∀ c ∈ digits, c.isDigit)
    (hlen : digits.length ≤ maxDigits) :
    readInteger (Decimal.sign negative ++ digits) = .ok (signed negative (value digits)) := by
  rw [readInteger_digits hne h, if_neg (Nat.not_lt.2 hlen)]

end Numeral

namespace Decimal

/-- The decimal that a text says, in range or not. -/
def said? (text : Text) : Option Decimal :=
  let (negative, body) := Numeral.splitSign (plain text)
  readFinite? negative body <|> readName? negative (body.map Char.toLower)

lemma read_eq (text : Text) :
    read text =
      match said? text with
      | none => .error .notDecimal
      | some d => if d.inRange then .ok d else .error .outOfRange := rfl

variable {negative : Bool} {whole fraction point : Text} {exponent : Int}

lemma plain_eq {text : Text} (h : ∀ c ∈ text, Text.Numeric c) : plain text = text := by
  have hstrip : Text.strip Text.isBlank text = text := by
    have hd : ∀ t : Text, (∀ c ∈ t, c ∈ text) → t.dropWhile Text.isBlank = t := fun t ht =>
      List.dropWhile_eq_self_iff.2 fun hl => by
        simp [(Text.plain_of_numeric (h _ (ht _ (List.getElem_mem hl)))).1]
    rw [Text.strip, hd text (fun _ => id), hd _ (fun c hc => List.mem_reverse.1 hc),
      List.reverse_reverse]
  have hfilter : text.filter (· ≠ '_') = text :=
    List.filter_eq_self.2 fun c hc => by simpa using (Text.plain_of_numeric (h c hc)).2.1
  rw [plain, hstrip, hfilter, Text.map_plainDigit h]

/-! ### Exponents -/

lemma exponentPart_cases (exponent : Int) :
    exponentPart exponent = [] ∨ ∃ rest, exponentPart exponent = 'E' :: rest := by
  unfold exponentPart
  split
  · exact .inl rfl
  · exact .inr ⟨_, rfl⟩

lemma not_digit_head_exponentPart (exponent : Int) :
    ∀ c ∈ (exponentPart exponent).head?, ¬ Lexeme.Digit c := by
  rcases exponentPart_cases exponent with h | ⟨rest, h⟩ <;> rw [h]
  · exact nofun
  · rintro c ⟨⟩
    exact fun h => absurd (Lexeme.isDigit_iff.mpr h) (by decide)

lemma numeric_exponentPart : ∀ c ∈ exponentPart exponent, Text.Numeric c := by
  have hnat : ∀ n, ∀ c ∈ Text.ofNat n, Text.Numeric c := fun n c hc =>
    Text.numeric_of_isDigit (Text.isDigit_of_mem_ofNat hc)
  have hint : ∀ c ∈ Text.ofInt exponent, Text.Numeric c := by
    rw [Text.ofInt_eq]
    exact Numeral.numeric_sign_append _ (hnat _)
  unfold exponentPart
  split
  · exact nofun
  · split <;> simp only [List.forall_mem_cons]
    · exact ⟨.inr (by decide), .inr (by decide), hint⟩
    · exact ⟨.inr (by decide), hint⟩

lemma readExponent?_exponentPart : readExponent? (exponentPart exponent) = some exponent := by
  have hdigits : (Text.ofNat exponent.natAbs).all Char.isDigit :=
    List.all_eq_true.mpr fun c hc => Text.isDigit_of_mem_ofNat hc
  have hvalue := Numeral.value_ofNat exponent.natAbs
  have hsigned := Numeral.signed_natAbs exponent
  unfold exponentPart
  split
  · next hzero => rw [hzero, readExponent?]
  split
  · next hpos =>
    have hsign : Text.ofInt exponent = Text.ofNat exponent.natAbs := by
      rw [Text.ofInt_eq, sign, if_neg (by simpa using hpos), List.nil_append]
    rw [decide_eq_false (by omega)] at hsigned
    simp [readExponent?, Numeral.splitSign, hsign, Text.ofNat_ne_nil, hdigits, hvalue, hsigned,
      guard]
  · next hneg =>
    have hsign : Text.ofInt exponent = '-' :: Text.ofNat exponent.natAbs := by
      rw [Text.ofInt_eq, sign, if_pos (by simpa using hneg), List.singleton_append]
    rw [decide_eq_true (by omega)] at hsigned
    simp [readExponent?, Numeral.splitSign, hsign, Text.ofNat_ne_nil, hdigits, hvalue, hsigned,
      guard]

/-! ### Finite decimals -/

/-- What stands between the whole part and the exponent: nothing, or a point and the fraction. -/
inductive Pointed : Text → Text → Prop
  | absent : Pointed [] []
  | present {fraction : Text} : Pointed ('.' :: fraction) fraction

lemma span_digits {digits rest : Text} (hd : ∀ c ∈ digits, c.isDigit)
    (hr : ∀ c ∈ rest.head?, ¬ Lexeme.Digit c) :
    (digits ++ rest).takeWhile Char.isDigit = digits ∧
      (digits ++ rest).dropWhile Char.isDigit = rest :=
  Lexeme.digits_iff.mpr ⟨rfl, fun c hc => Lexeme.isDigit_iff.mp (hd c hc), hr⟩

/-- The parts into which a finite decimal is taken apart, with a point or without one. -/
lemma readFinite?_parts (hw : ∀ c ∈ whole, c.isDigit) (hf : ∀ c ∈ fraction, c.isDigit)
    (hpoint : Pointed point fraction) :
    readFinite? negative (whole ++ (point ++ exponentPart exponent)) = (do
      guard (whole ++ fraction ≠ [])
      let exponent ← readExponent? (exponentPart exponent)
      return finite negative (Numeral.value (whole ++ fraction)) (exponent - fraction.length)) := by
  have hletter := not_digit_head_exponentPart exponent
  cases hpoint with
  | absent =>
    obtain ⟨htake, hdrop⟩ := span_digits hw hletter
    rw [List.nil_append, readFinite?, htake, hdrop]
    -- the exponent does not begin with a point either
    rcases exponentPart_cases exponent with hexp | ⟨rest, hexp⟩
    · rw [hexp]
    · rw [hexp]
      rfl
  | present =>
    have hdot : ∀ c ∈ ('.' :: fraction ++ exponentPart exponent).head?, ¬ Lexeme.Digit c := by
      rintro c ⟨⟩
      exact fun h => absurd (Lexeme.isDigit_iff.mpr h) (by decide)
    obtain ⟨htake, hdrop⟩ := span_digits hw hdot
    obtain ⟨htake', hdrop'⟩ := span_digits hf hletter
    have hread : readFinite? negative (whole ++ ('.' :: fraction ++ exponentPart exponent)) = (do
        let digits := (fraction ++ exponentPart exponent).takeWhile Char.isDigit
        guard (whole ++ digits ≠ [])
        let exponent ← readExponent?
          ((fraction ++ exponentPart exponent).dropWhile Char.isDigit)
        return finite negative (Numeral.value (whole ++ digits)) (exponent - digits.length)) := by
      rw [readFinite?, htake, hdrop]
      rfl
    rw [hread, htake', hdrop']

/-- A finite decimal says its digits and its exponent, which each digit behind the point lowers. -/
lemma readFinite?_pointed (hne : whole ≠ []) (hw : ∀ c ∈ whole, c.isDigit)
    (hf : ∀ c ∈ fraction, c.isDigit) (hpoint : Pointed point fraction) :
    readFinite? negative (whole ++ (point ++ exponentPart exponent)) =
      some (finite negative (Numeral.value (whole ++ fraction)) (exponent - fraction.length)) := by
  have hdigits : (guard (whole ++ fraction ≠ []) : Option Unit) = some () :=
    if_pos (List.append_ne_nil_of_left_ne_nil hne fraction)
  rw [readFinite?_parts hw hf hpoint, hdigits, readExponent?_exponentPart]
  rfl

/-- A plain finite decimal says its sign, its digits and its exponent. -/
lemma said?_pointed (hne : whole ≠ []) (hw : ∀ c ∈ whole, c.isDigit)
    (hf : ∀ c ∈ fraction, c.isDigit) (hpoint : Pointed point fraction) :
    said? (sign negative ++ (whole ++ (point ++ exponentPart exponent))) =
      some (finite negative (Numeral.value (whole ++ fraction)) (exponent - fraction.length)) := by
  have hmiddle : ∀ c ∈ point, Text.Numeric c := by
    cases hpoint with
    | absent => exact nofun
    | present =>
      exact List.forall_mem_cons.mpr ⟨.inr (by decide), fun c hc => .inl (hf c hc)⟩
  have hplain : ∀ c ∈ sign negative ++ (whole ++ (point ++ exponentPart exponent)),
      Text.Numeric c := by
    refine Numeral.numeric_sign_append negative ?_
    simp only [List.forall_mem_append]
    exact ⟨fun c hc => .inl (hw c hc), hmiddle, numeric_exponentPart⟩
  rw [said?, plain_eq hplain, Numeral.splitSign_sign negative hne hw]
  dsimp only
  rw [readFinite?_pointed hne hw hf hpoint]
  rfl

lemma said?_plain (hne : whole ≠ []) (hw : ∀ c ∈ whole, c.isDigit)
    (hf : ∀ c ∈ fraction, c.isDigit) :
    said? (sign negative ++ (whole ++ '.' :: fraction)) =
      some (finite negative (Numeral.value (whole ++ fraction)) (-fraction.length)) := by
  have h := @said?_pointed negative _ _ _ 0 hne hw hf .present
  rwa [exponentPart, if_pos rfl, List.append_nil, Int.zero_sub] at h

lemma read_plain (hwhole : whole ≠ []) (hw : ∀ c ∈ whole, c.isDigit)
    (hf : ∀ c ∈ fraction, c.isDigit) :
    read (sign negative ++ (whole ++ '.' :: fraction)) =
      if (finite negative (Numeral.value (whole ++ fraction)) (-fraction.length)).inRange then
        .ok (finite negative (Numeral.value (whole ++ fraction)) (-fraction.length))
      else .error .outOfRange := by
  rw [read_eq, said?_plain hwhole hw hf]

/-- A decimal that is out of range is written with very many digits. -/
lemma lt_length_of_not_inRange (hne : whole ≠ []) (hw : ∀ c ∈ whole, c.isDigit)
    (hf : ∀ c ∈ fraction, c.isDigit)
    (h : (finite negative (Numeral.value (whole ++ fraction)) (-fraction.length)).inRange = false) :
    10 ^ 18 < (whole ++ '.' :: fraction).length := by
  have hlength : (Text.ofNat (Numeral.value (whole ++ fraction))).length ≤
      (whole ++ fraction).length :=
    Numeral.length_ofNat_value (List.append_ne_nil_of_left_ne_nil hne fraction)
      (List.forall_mem_append.mpr ⟨hw, hf⟩)
  rw [List.length_append] at hlength ⊢
  rw [List.length_cons]
  -- the exponent is too small, or the first digit stands too high
  rcases Bool.and_eq_false_iff.mp h with h | h
  · have hexponent := of_decide_eq_false h
    rw [minExponent] at hexponent
    omega
  · have hleading := of_decide_eq_false h
    rw [maxLeading] at hleading
    omega

end Decimal

end Pebble
