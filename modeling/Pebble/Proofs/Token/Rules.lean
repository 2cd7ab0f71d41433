import Mathlib.Data.List.TakeWhile
import Pebble.Proofs.Token.Lexeme

/-!
What each rule of the scan reads: a text of the language of its kind, as long as the rule says,
and nothing less than what the characters after it allow.
-/

namespace Pebble.Lexeme

open scoped Computability

variable {kind : TokenKind} {read length : Nat} {text next : Text}

/-- A text splits in one way into characters of a class and a rest that starts with none. -/
lemma span_iff {p : Char → Bool} {taken rest : Text} :
    text.takeWhile p = taken ∧ text.dropWhile p = rest ↔
      taken ++ rest = text ∧ (∀ c ∈ taken, p c) ∧ ∀ c ∈ rest.head?, ¬ p c := by
  constructor
  · rintro ⟨rfl, rfl⟩
    refine ⟨List.takeWhile_append_dropWhile, fun c hc => List.mem_takeWhile_imp hc, fun c hc => ?_⟩
    have hstop := List.head?_dropWhile_not p text
    rw [Option.mem_def.mp hc] at hstop
    simpa using hstop
  · rintro ⟨rfl, htaken, hrest⟩
    -- the rest does not start with a character of the class, so that taking stops there
    rw [List.takeWhile_append_of_pos htaken, List.dropWhile_append_of_pos htaken]
    cases rest with
    | nil => simp
    | cons c rest =>
      have hc : ¬ p c := hrest c rfl
      simp [hc]

lemma startsWithDigit_iff : Scan.startsWithDigit text = true ↔ ∃ c ∈ text.head?, Digit c := by
  simp [Scan.startsWithDigit, Option.any_eq_true, isDigit_iff]

/-! ### Identifiers -/

theorem identifier_cuts {c : Char} (hc : NameStart c) :
    Scan.identifier next = .token kind length ↔
      kind = .identifier ∧ Cuts (c :: next) .identifier length := by
  constructor
  · intro h
    obtain ⟨rfl, rfl⟩ := Scan.Outcome.token.inj h
    obtain ⟨hnext, hparts, hrest⟩ := span_iff (p := Scan.isNamePart).mp ⟨rfl, rfl⟩
    refine ⟨rfl, c :: next.takeWhile Scan.isNamePart, _, congrArg (c :: ·) hnext, ?_, ?_, ?_⟩
    · rw [List.length_cons, Nat.add_comm]
    · exact mem_one_mul.mpr ⟨c, _, hc, mem_one_kstar.mpr fun d hd =>
        isNamePart_iff.mp (hparts d hd), rfl⟩
    · exact fun d hd hpart => hrest d hd (isNamePart_iff.mpr hpart)
  · rintro ⟨rfl, literal, rest, htext, rfl, hmem, hfollow⟩
    obtain ⟨d, parts, -, hparts, rfl⟩ := mem_one_mul.mp hmem
    obtain ⟨rfl, rfl⟩ : d = c ∧ parts ++ rest = next := by simpa using htext
    have hspan := (span_iff (p := Scan.isNamePart)).mpr ⟨rfl,
      fun d hd => isNamePart_iff.mpr (mem_one_kstar.mp hparts d hd),
      fun d hd hpart => hfollow d hd (isNamePart_iff.mp hpart)⟩
    rw [Scan.identifier, hspan.1, List.length_cons, Nat.add_comm]

/-! ### Numbers -/

lemma mem_digits : text ∈ one Digit * (one Digit)∗ ↔ text ≠ [] ∧ ∀ c ∈ text, Digit c := by
  cases text <;> simp

/-- Digits that are cut off from the rest are what a scan of digits takes. -/
lemma digits_iff {digits rest : Text} :
    text.takeWhile Char.isDigit = digits ∧ text.dropWhile Char.isDigit = rest ↔
      digits ++ rest = text ∧ (∀ c ∈ digits, Digit c) ∧ ∀ c ∈ rest.head?, ¬ Digit c := by
  simp only [span_iff, isDigit_iff]

lemma digits_ne_nil (h : Scan.startsWithDigit text) : text.takeWhile Char.isDigit ≠ [] := by
  obtain ⟨c, hc, hdigit⟩ := startsWithDigit_iff.mp h
  obtain ⟨rest, rfl⟩ := List.head?_eq_some_iff.mp hc
  simp [isDigit_iff.mpr hdigit]

lemma startsWithDigit_append {digits rest : Text} (h : digits ∈ one Digit * (one Digit)∗) :
    Scan.startsWithDigit (digits ++ rest) := by
  obtain ⟨c, digits, hc, -, rfl⟩ := mem_one_mul.mp h
  exact startsWithDigit_iff.mpr ⟨c, rfl, hc⟩

lemma fraction_iff : Scan.fraction read text = .token kind length ↔
    (kind = .integer ∧ length = read ∧ ∀ c ∈ text.head?, c ≠ '.') ∨
      kind = .decimal ∧ ∃ digits rest, '.' :: (digits ++ rest) = text ∧
        digits ∈ one Digit * (one Digit)∗ ∧ (∀ c ∈ rest.head?, ¬ Digit c) ∧
        length = read + 1 + digits.length := by
  constructor
  · intro h
    unfold Scan.fraction at h
    split at h
    next after =>
      split at h
      next hdigit =>
        obtain ⟨rfl, rfl⟩ := Scan.Outcome.token.inj h
        obtain ⟨hafter, hdigits, hrest⟩ := digits_iff.mp ⟨rfl, rfl⟩
        exact .inr ⟨rfl, _, _, congrArg ('.' :: ·) hafter,
          mem_digits.mpr ⟨digits_ne_nil hdigit, hdigits⟩, hrest, rfl⟩
      next => cases h
    next hpoint =>
      obtain ⟨rfl, rfl⟩ := Scan.Outcome.token.inj h
      refine .inl ⟨rfl, rfl, ?_⟩
      rintro c hc rfl
      obtain ⟨after, rfl⟩ := List.head?_eq_some_iff.mp hc
      exact hpoint after rfl
  · rintro (⟨rfl, rfl, hpoint⟩ | ⟨rfl, digits, rest, rfl, hdigits, hrest, rfl⟩)
    · unfold Scan.fraction
      split
      next => exact absurd rfl (hpoint '.' rfl)
      next => rfl
    · -- the split into the fraction's digits and the rest is the one that the scan makes
      have hspan := digits_iff.mpr ⟨rfl, (mem_digits.mp hdigits).2, hrest⟩
      simp [Scan.fraction, startsWithDigit_append hdigits, hspan.1]

lemma nonzero_iff {c : Char} : '1' ≤ c ∧ c ≤ '9' ↔ Digit c ∧ c ≠ '0' := by
  have hzero : c = '0' ↔ c.toNat = 48 := Char.toNat_inj.symm
  have hval : c.val.toNat = c.toNat := rfl
  simp only [Digit, Char.le_def, UInt32.le_iff_toNat_le, ne_eq, hzero, hval]
  change 49 ≤ c.toNat ∧ c.toNat ≤ 57 ↔ (48 ≤ c.toNat ∧ c.toNat ≤ 57) ∧ ¬ c.toNat = 48
  omega

lemma mem_whole : text ∈ whole ↔
    text = ['0'] ∨ text ∈ one Digit * (one Digit)∗ ∧ ∀ c ∈ text.head?, c ≠ '0' := by
  rw [whole, Language.mem_add]
  cases text with
  | nil => simp
  | cons c text => simp [nonzero_iff]; tauto

/-- An integer part is read up to the first character that is no digit. -/
lemma unsigned_append {digits rest : Text} (hwhole : digits ∈ whole)
    (hrest : ∀ c ∈ rest.head?, ¬ Digit c) :
    Scan.unsigned read (digits ++ rest) = Scan.fraction (read + digits.length) rest := by
  rcases mem_whole.mp hwhole with rfl | ⟨hdigits, hzero⟩
  · have hdigit : ¬ Scan.startsWithDigit rest := by
      intro hdigit
      obtain ⟨c, hc, hd⟩ := startsWithDigit_iff.mp hdigit
      exact hrest c hc hd
    simp [Scan.unsigned, hdigit]
  · have hspan := digits_iff.mpr ⟨rfl, (mem_digits.mp hdigits).2, hrest⟩
    unfold Scan.unsigned
    split
    -- an integer part that starts with a zero is the zero alone
    next after htext =>
      cases digits with
      | nil => simp at hdigits
      | cons c digits =>
        obtain ⟨rfl, -⟩ := List.cons.inj htext
        exact absurd rfl (hzero '0' rfl)
    next => rw [if_pos (startsWithDigit_append hdigits), hspan.1, hspan.2]

lemma unsigned_iff : Scan.unsigned read text = .token kind length ↔
    ∃ digits rest, digits ++ rest = text ∧ digits ∈ whole ∧ (∀ c ∈ rest.head?, ¬ Digit c) ∧
      Scan.fraction (read + digits.length) rest = .token kind length := by
  constructor
  · intro h
    unfold Scan.unsigned at h
    split at h
    next rest =>
      split at h
      next => cases h
      next hdigit =>
        rw [startsWithDigit_iff] at hdigit
        exact ⟨['0'], rest, rfl, mem_whole.mpr (.inl rfl), fun c hc hd => hdigit ⟨c, hc, hd⟩, h⟩
    next hzero =>
      split at h
      next hdigit =>
        obtain ⟨htext, hdigits, hrest⟩ := digits_iff.mp ⟨rfl, rfl⟩
        have hmem := mem_digits.mpr ⟨digits_ne_nil hdigit, hdigits⟩
        refine ⟨_, _, htext, mem_whole.mpr (.inr ⟨hmem, ?_⟩), hrest, h⟩
        rintro c hc rfl
        obtain ⟨digits, hdigits⟩ := List.head?_eq_some_iff.mp hc
        rw [hdigits] at htext
        exact hzero _ htext.symm
      next => cases h
  · rintro ⟨digits, rest, rfl, hwhole, hrest, h⟩
    rw [unsigned_append hwhole hrest, h]

lemma number_iff : Scan.number text = .token kind length ↔
    ∃ minus rest, minus ++ rest = text ∧ minus ∈ sign ∧
      Scan.unsigned minus.length rest = .token kind length := by
  constructor
  · intro h
    unfold Scan.number at h
    split at h
    next rest => exact ⟨['-'], rest, rfl, mem_sign.mpr (.inr rfl), h⟩
    next => exact ⟨[], text, rfl, mem_sign.mpr (.inl rfl), h⟩
  · rintro ⟨minus, rest, rfl, hminus, h⟩
    rcases mem_sign.mp hminus with rfl | rfl
    · unfold Scan.number
      split
      next after hrest =>
        obtain rfl : rest = '-' :: after := hrest
        simp [Scan.unsigned, Scan.startsWithDigit] at h
      next => exact h
    · exact h

/-- A number is an integer or a decimal, whichever is cut off at the beginning of the text. -/
theorem number_cuts : Scan.number text = .token kind length ↔
    (kind = .integer ∨ kind = .decimal) ∧ Cuts text kind length := by
  rw [number_iff]
  constructor
  · rintro ⟨minus, unsigned, rfl, hminus, h⟩
    obtain ⟨digits, rest, rfl, hdigits, hstop, h⟩ := unsigned_iff.mp h
    rcases fraction_iff.mp h with
      ⟨rfl, rfl, hpoint⟩ | ⟨rfl, decimals, rest, rfl, hdecimals, hrest, rfl⟩
    · refine ⟨.inl rfl, minus ++ digits, rest, by simp, by simp, ?_, ?_⟩
      · exact Language.append_mem_mul hminus hdigits
      · exact fun c hc => ⟨hstop c hc, hpoint c hc⟩
    · -- with a point behind the integer part: the literal ends where the fraction's digits do
      refine ⟨.inr rfl, minus ++ (digits ++ '.' :: decimals), rest, by simp, ?_, ?_, hrest⟩
      · simp only [List.length_append, List.length_cons]
        omega
      · have hpoint := mem_one_mul (p := (· = '.')).mpr ⟨'.', decimals, rfl, hdecimals, rfl⟩
        exact Language.append_mem_mul hminus (Language.append_mem_mul hdigits hpoint)
  · rintro ⟨rfl | rfl, literal, rest, rfl, rfl, hmem, hfollow⟩
    · obtain ⟨minus, hminus, digits, hdigits, rfl⟩ := Language.mem_mul.mp hmem
      refine ⟨minus, digits ++ rest, by simp, hminus, unsigned_iff.mpr ?_⟩
      refine ⟨digits, rest, rfl, hdigits, fun c hc => (hfollow c hc).1, fraction_iff.mpr (.inl ?_)⟩
      exact ⟨rfl, by simp, fun c hc => (hfollow c hc).2⟩
    · obtain ⟨minus, hminus, unsigned, hunsigned, rfl⟩ := Language.mem_mul.mp hmem
      obtain ⟨digits, hdigits, fraction, hfraction, rfl⟩ := Language.mem_mul.mp hunsigned
      obtain ⟨point, decimals, rfl, hdecimals, rfl⟩ := mem_one_mul.mp hfraction
      refine ⟨minus, digits ++ '.' :: (decimals ++ rest), by simp, hminus, unsigned_iff.mpr ?_⟩
      refine ⟨digits, _, rfl, hdigits, ?_, fraction_iff.mpr (.inr ?_)⟩
      · -- the point is no digit, so the integer part ends there
        rintro c hc
        obtain rfl : '.' = c := by simpa using hc
        simp [Digit]
      · refine ⟨rfl, decimals, rest, rfl, hdecimals, hfollow, ?_⟩
        simp only [List.length_append, List.length_cons]
        omega

/-! ### Literals in quotes -/

lemma closeCharacter_iff : Scan.closeCharacter read text = .token kind length ↔
    kind = .character ∧ length = read + 1 ∧ ∃ rest, '\'' :: rest = text := by
  unfold Scan.closeCharacter
  split
  next => simp
  next rest => simp [eq_comm]
  next c rest hquote =>
    have hne : '\'' ≠ c := fun hc => hquote hc.symm
    simp [hne]

lemma character_iff : Scan.character next = .token kind length ↔
    kind = .character ∧ ∃ body rest, body ++ '\'' :: rest = next ∧ body ∈ unit '\'' ∧
      length = body.length + 2 := by
  constructor
  · intro h
    unfold Scan.character at h
    split at h
    next => cases h
    next => cases h
    next => cases h
    next letter after =>
      split at h
      next hletter =>
        obtain ⟨rfl, rfl, rest, rfl⟩ := closeCharacter_iff.mp h
        exact ⟨rfl, ['\\', letter], rest, rfl,
          mem_unit.mpr (.inr ⟨letter, isLetter_iff.mp hletter, rfl⟩), rfl⟩
      next => cases h
    next c after hquote hend hslash =>
      obtain ⟨rfl, rfl, rest, rfl⟩ := closeCharacter_iff.mp h
      refine ⟨rfl, [c], rest, rfl, mem_unit.mpr (.inl ⟨c, ⟨hquote, ?_⟩, rfl⟩), rfl⟩
      exact fun hc => hslash _ _ hc rfl
  · rintro ⟨rfl, body, rest, rfl, hbody, rfl⟩
    rcases mem_unit.mp hbody with ⟨c, ⟨hquote, hslash⟩, rfl⟩ | ⟨letter, hletter, rfl⟩
    · rw [List.singleton_append, Scan.character]
      · rfl
      · exact hquote
      · exact fun hc => absurd hc hslash
      · exact fun _ _ hc => absurd hc hslash
    · simp [Scan.character, Scan.closeCharacter, isLetter_iff.mpr hletter]

lemma append_mem_kstar {l : Language Char} {first rest : Text} (hfirst : first ∈ l)
    (hrest : rest ∈ l∗) : first ++ rest ∈ l∗ := by
  obtain ⟨units, rfl, hunits⟩ := Language.mem_kstar.mp hrest
  exact Language.join_mem_kstar (L := first :: units) (List.forall_mem_cons.mpr ⟨hfirst, hunits⟩)

lemma string_unit {body rest : Text} (h : body ∈ unit '"') :
    Scan.string read (body ++ rest) = Scan.string (read + body.length) rest := by
  rcases mem_unit.mp h with ⟨c, ⟨hquote, hslash⟩, rfl⟩ | ⟨letter, hletter, rfl⟩
  · rw [List.singleton_append, Scan.string]
    · rfl
    · exact hquote
    · exact fun hc => absurd hc hslash
    · exact fun _ _ hc => absurd hc hslash
  · simp [Scan.string, isLetter_iff.mpr hletter]

lemma string_append {body rest : Text} (h : body ∈ (unit '"')∗) :
    Scan.string read (body ++ rest) = Scan.string (read + body.length) rest := by
  obtain ⟨units, rfl, hunits⟩ := Language.mem_kstar.mp h
  clear h
  induction units generalizing read with
  | nil => rfl
  | cons body units ih =>
    obtain ⟨hbody, hunits⟩ := List.forall_mem_cons.mp hunits
    rw [List.flatten_cons, List.append_assoc, string_unit hbody, ih hunits, List.length_append,
      Nat.add_assoc]

lemma string_iff : Scan.string read text = .token kind length ↔
    kind = .string ∧ ∃ body rest, body ++ '"' :: rest = text ∧ body ∈ (unit '"')∗ ∧
      length = read + body.length + 1 := by
  constructor
  · intro h
    -- the cases are those of the scan; two of them pass over a unit, and two see a fault
    fun_induction Scan.string read text with
    | case1 read => cases h
    | case2 read rest =>
      obtain ⟨rfl, rfl⟩ := Scan.Outcome.token.inj h
      exact ⟨rfl, [], rest, rfl, Language.nil_mem_kstar _, rfl⟩
    | case3 read => cases h
    | case4 read letter rest hletter ih =>
      obtain ⟨rfl, body, rest, rfl, hbody, rfl⟩ := ih h
      have hunit : ['\\', letter] ∈ unit '"' :=
        mem_unit.mpr (.inr ⟨letter, isLetter_iff.mp hletter, rfl⟩)
      refine ⟨rfl, '\\' :: letter :: body, rest, rfl, ?_, ?_⟩
      · exact append_mem_kstar hunit hbody
      · simp only [List.length_cons]
        omega
    | case5 => cases h
    | case6 read c rest hquote hend hslash ih =>
      have hplain : c ≠ '\\' := fun hc =>
        match rest with
        | [] => hend hc rfl
        | _ :: _ => hslash _ _ hc rfl
      obtain ⟨rfl, body, rest, rfl, hbody, rfl⟩ := ih h
      have hunit := mem_unit.mpr (.inl ⟨c, ⟨hquote, hplain⟩, rfl⟩)
      refine ⟨rfl, c :: body, rest, rfl, ?_, ?_⟩
      · exact append_mem_kstar hunit hbody
      · simp only [List.length_cons]
        omega
  · rintro ⟨rfl, body, rest, rfl, hbody, rfl⟩
    rw [string_append hbody]
    rfl

/-- A literal in quotes is cut off as soon as it is closed. -/
lemma quoted_iff {quote : Char} {l : Language Char} :
    (∃ literal rest, literal ++ rest = quote :: next ∧ literal.length = length ∧
      literal ∈ one (· = quote) * (l * one (· = quote)) ∧ True) ↔
      ∃ body rest, body ++ quote :: rest = next ∧ body ∈ l ∧ length = body.length + 2 := by
  constructor
  · rintro ⟨literal, rest, htext, rfl, hmem, -⟩
    obtain ⟨opening, closed, rfl, hclosed, rfl⟩ := mem_one_mul.mp hmem
    obtain ⟨body, hbody, closing, ⟨c, rfl, rfl⟩, rfl⟩ := Language.mem_mul.mp hclosed
    refine ⟨body, rest, ?_, hbody, by simp⟩
    simpa using htext
  · rintro ⟨body, rest, rfl, hbody, rfl⟩
    refine ⟨quote :: (body ++ [quote]), rest, by simp, by simp, ?_, trivial⟩
    have hclosed := Language.append_mem_mul hbody (mem_one (p := (· = quote)).mpr ⟨quote, rfl, rfl⟩)
    exact mem_one_mul.mpr ⟨quote, _, rfl, hclosed, rfl⟩

theorem character_cuts : Scan.character next = .token kind length ↔
    kind = .character ∧ Cuts ('\'' :: next) .character length := by
  rw [character_iff, ← quoted_iff]
  rfl

theorem string_cuts : Scan.string 1 next = .token kind length ↔
    kind = .string ∧ Cuts ('"' :: next) .string length := by
  simp only [string_iff, Nat.add_comm 1, Nat.add_assoc, ← quoted_iff]
  rfl

/-! ### Operators -/

lemma length_of_mem_pairs {pair : Text} (h : pair ∈ Scan.pairs) : pair.length = 2 := by
  have hpairs : ∀ pair ∈ Scan.pairs, pair.length = 2 := by decide
  exact hpairs pair h

lemma operator_iff : Scan.operator text = .token kind length ↔
    kind = .operator ∧ ∃ literal rest, literal ++ rest = text ∧ literal.length = length ∧
      literal ∈ language .operator ∧ ∀ c ∈ rest.head?, literal ++ [c] ∉ Scan.pairs := by
  constructor
  · intro h
    unfold Scan.operator at h
    split at h
    next hpair =>
      obtain ⟨rfl, rfl⟩ := Scan.Outcome.token.inj h
      have hmem : text.take 2 ∈ Scan.pairs := by simpa using hpair
      have hlength := length_of_mem_pairs hmem
      -- no operator has three characters
      refine ⟨rfl, _, _, List.take_append_drop 2 text, hlength, .inl hmem, fun c _ hlonger => ?_⟩
      have := length_of_mem_pairs hlonger
      simp [hlength] at this
    next hpair =>
      split at h
      next hsingle =>
        obtain ⟨rfl, rfl⟩ := Scan.Outcome.token.inj h
        obtain ⟨c, hc, hmem⟩ : ∃ c, text.head? = some c ∧ c ∈ Scan.singles := by
          simpa [Option.any_eq_true] using hsingle
        obtain ⟨rest, rfl⟩ := List.head?_eq_some_iff.mp hc
        refine ⟨rfl, [c], rest, rfl, rfl, .inr ⟨c, hmem, rfl⟩, fun d hd hlonger => ?_⟩
        obtain ⟨rest, rfl⟩ := List.head?_eq_some_iff.mp hd
        exact hpair (by simpa using hlonger)
      next => cases h
  · rintro ⟨rfl, literal, rest, rfl, rfl, hmem, hfollow⟩
    rcases mem_operator.mp hmem with hpair | ⟨c, hc, rfl⟩
    · have hlength := length_of_mem_pairs hpair
      have htake : (literal ++ rest).take 2 = literal := by
        rw [← hlength, List.take_left]
      simp [Scan.operator, htake, hpair, hlength]
    · -- a single one must not be the first half of a pair
      have hpair : ([c] ++ rest).take 2 ∉ Scan.pairs := by
        cases rest with
        | nil => exact fun h => absurd (length_of_mem_pairs h) (by simp)
        | cons d rest => simpa using hfollow d rfl
      simp [Scan.operator] at hpair ⊢
      simp [hpair, hc]

/-- An operator at the beginning of a text is cut off, unless it is the sign of a number. -/
theorem operator_cuts (hsign : ¬ ∃ next, text = '-' :: next ∧ Scan.startsWithDigit next) :
    Scan.operator text = .token kind length ↔ kind = .operator ∧ Cuts text .operator length := by
  rw [operator_iff]
  refine and_congr_right fun _ => ?_
  constructor
  · rintro ⟨literal, rest, rfl, rfl, hmem, hlonger⟩
    refine ⟨literal, rest, rfl, rfl, hmem, fun c hc => ⟨hlonger c hc, ?_⟩⟩
    rintro ⟨rfl, hdigit⟩
    exact hsign ⟨rest, rfl, startsWithDigit_iff.mpr ⟨c, hc, hdigit⟩⟩
  · rintro ⟨literal, rest, rfl, rfl, hmem, hfollow⟩
    exact ⟨literal, rest, rfl, rfl, hmem, fun c hc => (hfollow c hc).1⟩

/-! ### Choosing the rule -/

lemma not_nameStart_of_digit {c : Char} (h : Digit c) : ¬ NameStart c := by
  simp only [Digit, NameStart, Char.le_def, UInt32.le_iff_toNat_le] at h ⊢
  rintro (hupper | hlower | rfl)
  · have : 65 ≤ c.val.toNat := hupper.1
    have : c.val.toNat ≤ 57 := h.2
    omega
  · have : 97 ≤ c.val.toNat := hlower.1
    have : c.val.toNat ≤ 57 := h.2
    omega
  · exact absurd h.2 (by decide)

lemma token_number {c : Char} (h : Digit c ∨ c = '-' ∧ Scan.startsWithDigit next) :
    Scan.token (c :: next) = Scan.number (c :: next) := by
  rcases h with hdigit | ⟨rfl, hdigit⟩
  · have hname : ¬ Scan.isNameStart c := fun h =>
      not_nameStart_of_digit hdigit (isNameStart_iff.mp h)
    simp [Scan.token, hname, isDigit_iff.mpr hdigit]
  · simp [Scan.token, Scan.isNameStart, hdigit]

/-- The rule for numbers is chosen wherever it finds one. -/
lemma token_of_number (h : Scan.number text = .token kind length) :
    Scan.token text = .token kind length := by
  obtain ⟨minus, unsigned, rfl, hminus, hunsigned⟩ := number_iff.mp h
  obtain ⟨digits, rest, rfl, hdigits, -⟩ := unsigned_iff.mp hunsigned
  have hstart : Scan.startsWithDigit (digits ++ rest) := by
    rcases mem_whole.mp hdigits with rfl | ⟨hdigits, -⟩
    · rfl
    · exact startsWithDigit_append hdigits
  rcases mem_sign.mp hminus with rfl | rfl
  · obtain ⟨c, hc, hdigit⟩ := startsWithDigit_iff.mp hstart
    obtain ⟨next, hnext⟩ := List.head?_eq_some_iff.mp hc
    rw [List.nil_append, hnext] at h ⊢
    rw [token_number (.inl hdigit), h]
  · rw [List.singleton_append] at h ⊢
    rw [token_number (.inr ⟨rfl, hstart⟩), h]

/-- The characters an operator starts with start nothing else, but for the minus sign. -/
lemma token_operator {c : Char} (hc : Scan.isOperatorStart c)
    (hsign : ¬ (c = '-' ∧ Scan.startsWithDigit next)) :
    Scan.token (c :: next) = Scan.operator (c :: next) := by
  have hstarts : ('&' :: '|' :: Scan.singles).all fun c =>
      !Scan.isNameStart c && !c.isDigit && c != '\'' && c != '"' := by decide
  have hmem : c ∈ '&' :: '|' :: Scan.singles := by
    simp only [Scan.isOperatorStart, Bool.or_eq_true, List.contains_iff_mem,
      decide_eq_true_eq] at hc
    simp only [List.mem_cons]
    tauto
  obtain ⟨⟨⟨hname, hdigit⟩, hquote⟩, hdouble⟩ := by
    simpa using List.all_eq_true.mp hstarts c hmem
  simp [Scan.token, hname, hdigit, hquote, hdouble, hc, hsign]

lemma start_of_operator {literal : Text} (h : literal ∈ language .operator) :
    ∃ c rest, literal = c :: rest ∧ Scan.isOperatorStart c ∧ (c = '-' → rest = []) := by
  rcases mem_operator.mp h with hpair | ⟨c, hc, rfl⟩
  · have hpairs : Scan.pairs.all fun pair =>
        pair.head?.all fun c => Scan.isOperatorStart c && c != '-' := by decide
    have hlength := length_of_mem_pairs hpair
    cases literal with
    | nil => cases hlength
    | cons c rest =>
      obtain ⟨hstart, hminus⟩ : Scan.isOperatorStart c ∧ c ≠ '-' := by
        simpa using List.all_eq_true.mp hpairs _ hpair
      exact ⟨c, rest, rfl, hstart, fun hc => absurd hc hminus⟩
  · exact ⟨c, [], rfl, by simp [Scan.isOperatorStart, hc], fun _ => rfl⟩

lemma whole_ne_nil (h : text ∈ whole) : text ≠ [] := by
  rcases mem_whole.mp h with rfl | ⟨hdigits, -⟩
  · exact List.cons_ne_nil _ _
  · exact (mem_digits.mp hdigits).1

lemma digit_of_whole (h : text ∈ whole) : ∀ c ∈ text, Digit c := by
  intro c hc
  rcases mem_whole.mp h with rfl | ⟨hdigits, -⟩
  · obtain rfl : c = '0' := by simpa using hc
    simp [Digit]
  · exact (mem_digits.mp hdigits).2 c hc

lemma ne_nil_of_mem {literal : Text} (h : literal ∈ language kind) : literal ≠ [] := by
  cases kind with
  | identifier =>
    obtain ⟨c, parts, -, -, rfl⟩ := mem_one_mul.mp h
    exact List.cons_ne_nil _ _
  | integer =>
    obtain ⟨minus, -, digits, hdigits, rfl⟩ := Language.mem_mul.mp h
    exact List.append_ne_nil_of_right_ne_nil _ (whole_ne_nil hdigits)
  | decimal =>
    obtain ⟨minus, -, unsigned, hunsigned, rfl⟩ := Language.mem_mul.mp h
    obtain ⟨digits, hdigits, fraction, -, rfl⟩ := Language.mem_mul.mp hunsigned
    exact List.append_ne_nil_of_right_ne_nil _
      (List.append_ne_nil_of_left_ne_nil (whole_ne_nil hdigits) _)
  | character =>
    obtain ⟨c, closed, -, -, rfl⟩ := mem_one_mul.mp h
    exact List.cons_ne_nil _ _
  | string =>
    obtain ⟨c, closed, -, -, rfl⟩ := mem_one_mul.mp h
    exact List.cons_ne_nil _ _
  | operator =>
    obtain ⟨c, others, rfl, -⟩ := start_of_operator h
    exact List.cons_ne_nil _ _

/-- **Soundness** of one token: what the scan finds is cut off. -/
theorem cuts_of_token (h : Scan.token text = .token kind length) : Cuts text kind length := by
  unfold Scan.token at h
  split at h
  next => cases h
  next c next =>
    split_ifs at h with hname hnumber hquote hdouble hstart
    · obtain ⟨rfl, hcuts⟩ := (identifier_cuts (isNameStart_iff.mp hname)).mp h
      exact hcuts
    · exact (number_cuts.mp h).2
    · subst hquote
      obtain ⟨rfl, hcuts⟩ := character_cuts.mp h
      exact hcuts
    · subst hdouble
      obtain ⟨rfl, hcuts⟩ := string_cuts.mp h
      exact hcuts
    · -- a minus sign with a digit behind it went to the rule for numbers
      have hsign : ¬ ∃ rest, c :: next = '-' :: rest ∧ Scan.startsWithDigit rest := by
        rintro ⟨rest, htext, hdigit⟩
        obtain ⟨rfl, rfl⟩ := List.cons.inj htext
        simp [hdigit] at hnumber
      obtain ⟨rfl, hcuts⟩ := (operator_cuts hsign).mp h
      exact hcuts

/-- **Completeness** of one token: what is cut off is found. -/
theorem token_of_cuts (hcuts : Cuts text kind length) :
    Scan.token text = .token kind length := by
  obtain ⟨literal, rest, rfl, -, hmem, hfollow⟩ := id hcuts
  cases kind with
  | identifier =>
    obtain ⟨c, parts, hc, -, rfl⟩ := mem_one_mul.mp hmem
    rw [List.cons_append, Scan.token, if_pos (isNameStart_iff.mpr hc)]
    exact (identifier_cuts hc).mpr ⟨rfl, hcuts⟩
  | integer => exact token_of_number (number_cuts.mpr ⟨.inl rfl, hcuts⟩)
  | decimal => exact token_of_number (number_cuts.mpr ⟨.inr rfl, hcuts⟩)
  | character =>
    obtain ⟨c, closed, rfl, -, rfl⟩ := mem_one_mul.mp hmem
    exact character_cuts.mpr ⟨rfl, hcuts⟩
  | string =>
    obtain ⟨c, closed, rfl, -, rfl⟩ := mem_one_mul.mp hmem
    exact string_cuts.mpr ⟨rfl, hcuts⟩
  | operator =>
    obtain ⟨c, others, rfl, hstart, hminus⟩ := start_of_operator hmem
    -- what follows a minus sign is no digit, or the literal would not be cut off here
    have hsign : ¬ (c = '-' ∧ Scan.startsWithDigit (others ++ rest)) := by
      rintro ⟨rfl, hdigit⟩
      obtain rfl := hminus rfl
      obtain ⟨d, hd, hdigit⟩ := startsWithDigit_iff.mp hdigit
      exact (hfollow d hd).2 ⟨rfl, hdigit⟩
    rw [List.cons_append, token_operator hstart hsign]
    refine (operator_cuts ?_).mpr ⟨rfl, hcuts⟩
    rintro ⟨next, htext, hdigit⟩
    obtain ⟨rfl, rfl⟩ := List.cons.inj htext
    exact hsign ⟨rfl, hdigit⟩

end Pebble.Lexeme
