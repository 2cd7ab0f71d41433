import Pebble.Proofs.Token.Tiling

/-!
Malformed texts: where a text can be split into tokens no further, the characters from there on
decide what is wrong with it, and where. The tokens before do not depend on them.
-/

namespace Pebble

namespace Lexeme

open scoped Computability

/-- What is wrong with a text at its beginning, and how many characters after the beginning that is
found. Only an unknown escape is found later than at the beginning, at its backslash. -/
def Malformed (text : Text) : FaultKind → Nat → Prop
  | .unrecognizedCharacter, place => place = 0 ∧ ∃ c rest, text = c :: rest ∧
      ∀ kind, ∀ literal ∈ language kind, literal.head? ≠ some c
  | .malformedNumber, place => place = 0 ∧
      ((∃ minus ∈ sign, ∃ d rest, Digit d ∧ text = minus ++ '0' :: d :: rest) ∨
        ∃ minus ∈ sign, ∃ digits ∈ whole, ∃ rest, (∀ c ∈ rest.head?, ¬ Digit c) ∧
          text = minus ++ (digits ++ '.' :: rest))
  | .unterminatedCharacter, place => place = 0 ∧
      (text = ['\''] ∨ (∃ content ∈ unit '\'', text = '\'' :: content) ∨ text = ['\'', '\\'])
  | .invalidCharacterLiteral, place => place = 0 ∧
      ((∃ rest, text = '\'' :: '\'' :: rest) ∨
        ∃ content ∈ unit '\'', ∃ c rest, c ≠ '\'' ∧ text = '\'' :: (content ++ c :: rest))
  | .unterminatedString, place => place = 0 ∧
      ∃ units ∈ (unit '"')∗, text = '"' :: units ∨ text = '"' :: (units ++ ['\\'])
  | .invalidEscape, place => ∃ before letter rest, letter ∉ ['n', 't', 'r', '\\', '"', '\''] ∧
      (before = ['\''] ∨ before ∈ one (· = '"') * (unit '"')∗) ∧ before.length = place ∧
      text = before ++ '\\' :: letter :: rest
  | .unknownOperator, place => place = 0 ∧
      ∃ c ∈ ['&', '|'], ∃ rest, text = c :: rest ∧ rest.head? ≠ some c

/-! ### Faults of the rules -/

/-- A rule finds a fault of a kind, so many characters after the beginning of its token. -/
def Faults (out : Scan.Outcome) (kind : FaultKind) (place : Nat) : Prop :=
  ∃ cause read, out = .fault cause place read ∧ cause.kind = kind

variable {kind kind' : FaultKind} {place place' read length : Nat} {text next : Text}

@[simp] lemma not_faults_token {k : TokenKind} : ¬ Faults (.token k length) kind place := by
  rintro ⟨cause, read, h, -⟩
  cases h

@[simp] lemma faults_fault {cause : Fault} :
    Faults (.fault cause place' read) kind place ↔ cause.kind = kind ∧ place' = place := by
  constructor
  · rintro ⟨cause, read, h, hkind⟩
    cases h
    exact ⟨hkind, rfl⟩
  · rintro ⟨hkind, rfl⟩
    exact ⟨cause, read, rfl, hkind⟩

lemma Faults.unique {out : Scan.Outcome} (h : Faults out kind place)
    (h' : Faults out kind' place') : kind' = kind ∧ place' = place := by
  obtain ⟨cause, read, rfl, rfl⟩ := h
  obtain ⟨hkind, hplace⟩ := faults_fault.mp h'
  exact ⟨hkind.symm, hplace.symm⟩

/-! ### Numbers -/

lemma faults_fraction : Faults (Scan.fraction read text) kind place ↔
    kind = .malformedNumber ∧ place = 0 ∧
      ∃ rest, (∀ c ∈ rest.head?, ¬ Digit c) ∧ text = '.' :: rest := by
  unfold Scan.fraction
  split
  next rest =>
    split
    next hdigit =>
      obtain ⟨c, hc, hd⟩ := startsWithDigit_iff.mp hdigit
      have hnot : ¬ ∀ c ∈ rest.head?, ¬ Digit c := fun h => h c hc hd
      simp only [not_faults_token, List.cons.injEq, true_and, false_iff]
      rintro ⟨-, -, rest', hrest, rfl⟩
      exact hnot hrest
    next hdigit =>
      have hrest : ∀ c ∈ rest.head?, ¬ Digit c := fun c hc hd =>
        hdigit (startsWithDigit_iff.mpr ⟨c, hc, hd⟩)
      rw [faults_fault]
      constructor
      · rintro ⟨rfl, rfl⟩
        exact ⟨rfl, rfl, rest, hrest, rfl⟩
      · rintro ⟨rfl, rfl, -⟩
        exact ⟨rfl, rfl⟩
  next hpoint =>
    simp only [not_faults_token, false_iff]
    rintro ⟨-, -, rest, -, rfl⟩
    exact hpoint rest rfl

lemma digit_of_mem_whole {digits : Text} (h : digits ∈ whole) : ∀ c ∈ digits, Digit c := by
  rcases mem_whole.mp h with rfl | ⟨hdigits, -⟩
  · simp [Digit]
  · exact (mem_digits.mp hdigits).2

/-- The digits at the front of a text are an integer part, if no zero stands before another one. -/
lemma exists_whole (hstart : Scan.startsWithDigit text)
    (hzero : ¬ ∃ d rest, Digit d ∧ text = '0' :: d :: rest) :
    ∃ digits rest, digits ∈ whole ∧ (∀ c ∈ rest.head?, ¬ Digit c) ∧ text = digits ++ rest := by
  have hspan : text.takeWhile Char.isDigit ++ text.dropWhile Char.isDigit = text ∧ _ :=
    digits_iff.mp ⟨rfl, rfl⟩
  obtain ⟨htext, hdigits, hstop⟩ := hspan
  have hmem := mem_digits.mpr ⟨digits_ne_nil hstart, hdigits⟩
  refine ⟨_, _, ?_, hstop, htext.symm⟩
  by_cases hhead : (text.takeWhile Char.isDigit).head? = some '0'
  · -- a zero in front is all there is
    obtain ⟨more, hmore⟩ := List.head?_eq_some_iff.mp hhead
    rw [hmore] at htext hdigits ⊢
    cases more with
    | nil => exact mem_whole.mpr (.inl rfl)
    | cons d more => exact absurd ⟨d, _, hdigits d (by simp), htext.symm⟩ hzero
  · exact mem_whole.mpr (.inr ⟨hmem, fun c hc heq => hhead (heq ▸ hc)⟩)

/-- An unsigned number that starts with a digit is malformed if it has a zero in front or a point
without digits behind it. -/
lemma faults_unsigned (hstart : Scan.startsWithDigit text) :
    Faults (Scan.unsigned read text) kind place ↔ kind = .malformedNumber ∧ place = 0 ∧
      ((∃ d rest, Digit d ∧ text = '0' :: d :: rest) ∨
        ∃ digits ∈ whole, ∃ rest, (∀ c ∈ rest.head?, ¬ Digit c) ∧
          text = digits ++ '.' :: rest) := by
  by_cases hzero : ∃ d rest, Digit d ∧ text = '0' :: d :: rest
  · obtain ⟨d, rest, hd, rfl⟩ := hzero
    have hfault : Scan.unsigned read ('0' :: d :: rest) = .fault .leadingZero 0 (read + 1) := by
      simp [Scan.unsigned, Scan.startsWithDigit, isDigit_iff.mpr hd]
    rw [hfault, faults_fault]
    constructor
    · rintro ⟨rfl, rfl⟩
      exact ⟨rfl, rfl, .inl ⟨d, rest, hd, rfl⟩⟩
    · rintro ⟨rfl, rfl, -⟩
      exact ⟨rfl, rfl⟩
  · -- what follows the integer part decides
    obtain ⟨digits, rest, hwhole, hrest, rfl⟩ := exists_whole hstart hzero
    rw [unsigned_append hwhole hrest, faults_fraction]
    refine and_congr_right fun _ => and_congr_right fun _ => ⟨?_, ?_⟩
    · rintro ⟨after, hafter, rfl⟩
      exact .inr ⟨digits, hwhole, after, hafter, rfl⟩
    · rintro (h | ⟨digits', hwhole', after, hafter, heq⟩)
      · exact absurd h hzero
      · -- both splits end with the first character that is no digit
        have hpoint : ∀ c ∈ ('.' :: after).head?, ¬ Digit c := by simp [Digit]
        have hsplit := (digits_iff.mpr ⟨rfl, digit_of_mem_whole hwhole, hrest⟩).2
        have hsplit' := (digits_iff.mpr ⟨rfl, digit_of_mem_whole hwhole', hpoint⟩).2
        exact ⟨after, hafter, by rw [← hsplit, heq, hsplit']⟩

lemma startsWithDigit_whole {digits rest : Text} (h : digits ∈ whole) :
    Scan.startsWithDigit (digits ++ rest) := by
  rcases mem_whole.mp h with rfl | ⟨hdigits, -⟩
  · rfl
  · exact startsWithDigit_append hdigits

/-- A text that starts like a number is a malformed one if it is no number. -/
lemma faults_number {minus rest : Text} (hminus : minus ∈ sign)
    (hstart : Scan.startsWithDigit rest) :
    Faults (Scan.number (minus ++ rest)) kind place ↔
      kind = .malformedNumber ∧ Malformed (minus ++ rest) .malformedNumber place := by
  have hnumber : Scan.number (minus ++ rest) = Scan.unsigned minus.length rest := by
    rcases mem_sign.mp hminus with rfl | rfl
    · unfold Scan.number
      split
      next after htext =>
        rw [List.nil_append] at htext
        subst htext
        cases hstart
      next => rfl
    · rfl
  -- the sign is where the digits do not begin
  have hunique : ∀ {minus' rest' : Text}, minus' ∈ sign → Scan.startsWithDigit rest' →
      minus ++ rest = minus' ++ rest' → rest = rest' := by
    intro minus' rest' hminus' hstart' heq
    rcases mem_sign.mp hminus with rfl | rfl <;> rcases mem_sign.mp hminus' with rfl | rfl
    · exact heq
    · rw [List.nil_append] at heq
      subst heq
      cases hstart
    · rw [List.nil_append] at heq
      subst heq
      cases hstart'
    · exact List.append_cancel_left heq
  rw [hnumber, faults_unsigned hstart, Malformed]
  refine and_congr_right fun _ => and_congr_right fun _ => or_congr ⟨?_, ?_⟩ ⟨?_, ?_⟩
  · rintro ⟨d, more, hd, rfl⟩
    exact ⟨minus, hminus, d, more, hd, rfl⟩
  · rintro ⟨minus', hminus', d, more, hd, heq⟩
    exact ⟨d, more, hd, hunique hminus' rfl heq⟩
  · rintro ⟨digits, hwhole, after, hafter, rfl⟩
    exact ⟨minus, hminus, digits, hwhole, after, hafter, rfl⟩
  · rintro ⟨minus', hminus', digits, hwhole, after, hafter, heq⟩
    exact ⟨digits, hwhole, after, hafter, hunique hminus' (startsWithDigit_whole hwhole) heq⟩

/-! ### Literals in quotes -/

lemma faults_closeCharacter : Faults (Scan.closeCharacter read text) kind place ↔ place = 0 ∧
    (kind = .unterminatedCharacter ∧ text = [] ∨
      kind = .invalidCharacterLiteral ∧ ∃ c rest, c ≠ '\'' ∧ text = c :: rest) := by
  unfold Scan.closeCharacter
  split
  next => simp [Fault.kind, eq_comm, and_comm]
  next rest => simp
  next c rest hquote =>
    have hne : c ≠ '\'' := fun hc => hquote hc
    simp [Fault.kind, eq_comm (a := kind), eq_comm (a := place), and_comm, hne]

lemma not_isLetter {c : Char} (h : c ∉ ['n', 't', 'r', '\\', '"', '\'']) :
    Escape.isLetter c = false :=
  Bool.eq_false_iff.mpr fun hc => h (isLetter_iff.mp hc)

/-- After the quote of a character literal one unit is passed over. -/
lemma character_unit {content : Text} (h : content ∈ unit '\'') (rest : Text) :
    Scan.character (content ++ rest) = Scan.closeCharacter (content.length + 1) rest := by
  rcases mem_unit.mp h with ⟨c, ⟨hquote, hslash⟩, rfl⟩ | ⟨letter, hletter, rfl⟩
  · rw [List.singleton_append, Scan.character]
    · rfl
    · exact hquote
    · exact fun hc => absurd hc hslash
    · exact fun _ _ hc => absurd hc hslash
  · simp [Scan.character, isLetter_iff.mpr hletter]

/-- A text starts with a unit, unless it ends too early or starts with the quote or with an unknown
escape. -/
lemma unit_cases (quote : Char) (text : Text) : text = [] ∨ (∃ rest, text = quote :: rest) ∨
    text = ['\\'] ∨
    (∃ letter rest, letter ∉ ['n', 't', 'r', '\\', '"', '\''] ∧ text = '\\' :: letter :: rest) ∨
    ∃ content ∈ unit quote, ∃ rest, text = content ++ rest := by
  rcases text with _ | ⟨c, rest⟩
  · exact .inl rfl
  by_cases hquote : c = quote
  · exact .inr (.inl ⟨rest, by rw [hquote]⟩)
  by_cases hslash : c = '\\'
  · subst hslash
    rcases rest with _ | ⟨letter, rest⟩
    · exact .inr (.inr (.inl rfl))
    by_cases hletter : letter ∈ ['n', 't', 'r', '\\', '"', '\'']
    · have hunit : ['\\', letter] ∈ unit quote := mem_unit.mpr (.inr ⟨letter, hletter, rfl⟩)
      exact .inr (.inr (.inr (.inr ⟨_, hunit, rest, rfl⟩)))
    · exact .inr (.inr (.inr (.inl ⟨letter, rest, hletter, rfl⟩)))
  · have hunit : [c] ∈ unit quote := mem_unit.mpr (.inl ⟨c, ⟨hquote, hslash⟩, rfl⟩)
    exact .inr (.inr (.inr (.inr ⟨_, hunit, rest, rfl⟩)))

/-- A character literal needs one unit and a quote. -/
lemma malformed_of_character (h : Faults (Scan.character next) kind place) :
    Malformed ('\'' :: next) kind place := by
  rcases unit_cases '\'' next with rfl | ⟨rest, rfl⟩ | rfl | ⟨letter, rest, hletter, rfl⟩ |
    ⟨content, hcontent, rest, rfl⟩
  · obtain ⟨rfl, rfl⟩ := faults_fault.mp h
    exact ⟨rfl, .inl rfl⟩
  · obtain ⟨rfl, rfl⟩ := faults_fault.mp h
    exact ⟨rfl, .inl ⟨rest, rfl⟩⟩
  · obtain ⟨rfl, rfl⟩ := faults_fault.mp h
    exact ⟨rfl, .inr (.inr rfl)⟩
  · rw [Scan.character, not_isLetter hletter, if_neg (by simp), faults_fault] at h
    obtain ⟨rfl, rfl⟩ := h
    exact ⟨['\''], letter, rest, hletter, .inl rfl, rfl, rfl⟩
  · rw [character_unit hcontent rest] at h
    obtain ⟨rfl, ⟨rfl, rfl⟩ | ⟨rfl, c, after, hc, rfl⟩⟩ := faults_closeCharacter.mp h
    · rw [List.append_nil]
      exact ⟨rfl, .inr (.inl ⟨content, hcontent, rfl⟩)⟩
    · exact ⟨rfl, .inr ⟨content, hcontent, c, after, hc, rfl⟩⟩

/-- What is wrong with a string, `read` characters after its beginning: behind its units there is
no quote, or a backslash and a letter that are no escape. -/
def Broken (read : Nat) (text : Text) (kind : FaultKind) (place : Nat) : Prop :=
  (kind = .unterminatedString ∧ place = 0 ∧
    ∃ units ∈ (unit '"')∗, text = units ∨ text = units ++ ['\\']) ∨
  (kind = .invalidEscape ∧ ∃ units ∈ (unit '"')∗, ∃ letter rest,
    letter ∉ ['n', 't', 'r', '\\', '"', '\''] ∧ read + units.length = place ∧
      text = units ++ '\\' :: letter :: rest)

lemma Broken.behind {content : Text} (hunit : content ∈ unit '"')
    (h : Broken (read + content.length) text kind place) :
    Broken read (content ++ text) kind place := by
  rcases h with ⟨hkind, hplace, units, hunits, htext⟩ |
    ⟨hkind, units, hunits, letter, rest, hletter, hplace, rfl⟩
  · refine .inl ⟨hkind, hplace, content ++ units, append_mem_kstar hunit hunits, ?_⟩
    rw [List.append_assoc]
    exact htext.imp (congrArg _) (congrArg _)
  · refine .inr ⟨hkind, content ++ units, append_mem_kstar hunit hunits, letter, rest, hletter,
      ?_, (List.append_assoc ..).symm⟩
    rw [List.length_append, ← Nat.add_assoc, hplace]

lemma broken_of_faults (h : Faults (Scan.string read text) kind place) :
    Broken read text kind place := by
  obtain ⟨cause, length, h, rfl⟩ := h
  -- one case for each way in which a string goes on
  fun_induction Scan.string read text with
  | case1 read =>
    obtain ⟨rfl, rfl, -⟩ := Scan.Outcome.fault.inj h
    exact .inl ⟨rfl, rfl, [], Language.nil_mem_kstar _, .inl rfl⟩
  | case2 read rest => cases h
  | case3 read =>
    obtain ⟨rfl, rfl, -⟩ := Scan.Outcome.fault.inj h
    exact .inl ⟨rfl, rfl, [], Language.nil_mem_kstar _, .inr rfl⟩
  | case4 read letter rest hletter ih =>
    exact Broken.behind (mem_unit.mpr (.inr ⟨letter, isLetter_iff.mp hletter, rfl⟩)) (ih h)
  | case5 read letter rest hnot =>
    obtain ⟨rfl, rfl, -⟩ := Scan.Outcome.fault.inj h
    exact .inr ⟨rfl, [], Language.nil_mem_kstar _, letter, rest,
      fun hl => hnot (isLetter_iff.mpr hl), rfl, rfl⟩
  | case6 read c rest hquote hend hslash ih =>
    have hplain : c ≠ '\\' := by
      intro hc
      rcases rest with _ | ⟨letter, after⟩
      · exact hend hc rfl
      · exact hslash letter after hc rfl
    exact Broken.behind (mem_unit.mpr (.inl ⟨c, ⟨hquote, hplain⟩, rfl⟩)) (ih h)

/-- The units of a string are passed over; what is not closed by a quote after them is wrong. -/
lemma faults_string : Faults (Scan.string read text) kind place ↔ Broken read text kind place := by
  refine ⟨broken_of_faults, ?_⟩
  rintro (⟨rfl, rfl, units, hunits, rfl | rfl⟩ | ⟨rfl, units, hunits, l, rest, hl, rfl, rfl⟩)
  · have hscan := @string_append read _ [] hunits
    rw [List.append_nil] at hscan
    rw [hscan, Scan.string, faults_fault]
    exact ⟨rfl, rfl⟩
  · rw [string_append hunits, Scan.string, faults_fault]
    exact ⟨rfl, rfl⟩
  · rw [string_append hunits, Scan.string, not_isLetter hl, if_neg (by simp), faults_fault]
    exact ⟨rfl, rfl⟩

/-! ### Operators -/

/-- A character that starts a pair only is no operator by itself, but twice it is one. -/
lemma pair_start {c : Char} (h : c ∈ ['&', '|']) :
    c ∉ Scan.singles ∧ [c, c] ∈ Scan.pairs ∧ Scan.isOperatorStart c ∧ c ≠ '-' := by
  have hc : c = '&' ∨ c = '|' := by simpa using h
  rcases hc with rfl | rfl <;> decide

/-- A character that starts pairs only is the first half of a pair just if it stands twice. -/
lemma take_mem_pairs_iff {c : Char} (h : c ∈ ['&', '|']) :
    (c :: next).take 2 ∈ Scan.pairs ↔ next.head? = some c := by
  constructor
  · intro hmem
    have hpairs : ∀ pair ∈ Scan.pairs, pair.head? ∈ [some '&', some '|'] →
        pair.head? = pair.getLast? := by decide
    rcases next with _ | ⟨d, rest⟩
    · exact absurd (length_of_mem_pairs hmem) (by simp)
    · have hsame := hpairs _ hmem (by simpa using h)
      simpa [eq_comm] using hsame
  · intro hhead
    obtain ⟨rest, rfl⟩ := List.head?_eq_some_iff.mp hhead
    exact (pair_start h).2.1

/-- Only the characters that start nothing but a pair can be no operator. -/
lemma faults_operator {c : Char} (hc : Scan.isOperatorStart c) :
    Faults (Scan.operator (c :: next)) kind place ↔ kind = .unknownOperator ∧ place = 0 ∧
      c ∈ ['&', '|'] ∧ next.head? ≠ some c := by
  have hstart : c ∈ Scan.singles ∨ c ∈ ['&', '|'] := by
    simpa [Scan.isOperatorStart, or_assoc] using hc
  unfold Scan.operator
  split
  next htake =>
    have htake : (c :: next).take 2 ∈ Scan.pairs := by simpa using htake
    rw [iff_false_left not_faults_token]
    rintro ⟨-, -, hmem, hhead⟩
    exact hhead ((take_mem_pairs_iff hmem).mp htake)
  next htake =>
    have htake : (c :: next).take 2 ∉ Scan.pairs := by simpa using htake
    split
    next hsingle =>
      have hsingle : c ∈ Scan.singles := by simpa using hsingle
      rw [iff_false_left not_faults_token]
      rintro ⟨-, -, hmem, -⟩
      exact (pair_start hmem).1 hsingle
    next hsingle =>
      have hsingle : c ∉ Scan.singles := by simpa using hsingle
      have hmem : c ∈ ['&', '|'] := hstart.resolve_left hsingle
      have hhead : next.head? ≠ some c := fun h => htake ((take_mem_pairs_iff hmem).mpr h)
      rw [faults_fault]
      constructor
      · rintro ⟨rfl, rfl⟩
        exact ⟨rfl, rfl, hmem, hhead⟩
      · rintro ⟨rfl, rfl, -⟩
        exact ⟨rfl, rfl⟩

/-! ### One token -/

lemma digit_or_minus {minus digits rest : Text} {c : Char} (hminus : minus ∈ sign)
    (hdigits : digits ∈ whole) (hc : (minus ++ (digits ++ rest)).head? = some c) :
    c.isDigit ∨ Scan.isOperatorStart c := by
  rcases mem_sign.mp hminus with rfl | rfl
  · obtain ⟨d, more, rfl⟩ := List.exists_cons_of_ne_nil (whole_ne_nil hdigits)
    obtain rfl : d = c := by simpa using hc
    exact .inl (isDigit_iff.mpr (digit_of_whole hdigits d List.mem_cons_self))
  · obtain rfl : '-' = c := by simpa using hc
    exact .inr (by decide)

lemma start_of_mem_language {c : Char} {k : TokenKind} {literal : Text}
    (h : literal ∈ language k) (hhead : literal.head? = some c) :
    Scan.isNameStart c ∨ c.isDigit ∨ c = '\'' ∨ c = '"' ∨ Scan.isOperatorStart c := by
  cases k with
  | identifier =>
    obtain ⟨d, parts, hd, -, rfl⟩ := mem_one_mul.mp h
    obtain rfl : d = c := by simpa using hhead
    exact .inl (isNameStart_iff.mpr hd)
  | integer =>
    obtain ⟨minus, hminus, digits, hdigits, rfl⟩ := Language.mem_mul.mp h
    rw [← List.append_nil digits] at hhead
    have := digit_or_minus hminus hdigits hhead
    tauto
  | decimal =>
    obtain ⟨minus, hminus, unsigned, hunsigned, rfl⟩ := Language.mem_mul.mp h
    obtain ⟨digits, hdigits, fraction, -, rfl⟩ := Language.mem_mul.mp hunsigned
    have := digit_or_minus hminus hdigits hhead
    tauto
  | character =>
    obtain ⟨d, closed, rfl, -, rfl⟩ := mem_one_mul.mp h
    exact .inr (.inr (.inl (by simpa [eq_comm] using hhead)))
  | string =>
    obtain ⟨d, closed, rfl, -, rfl⟩ := mem_one_mul.mp h
    exact .inr (.inr (.inr (.inl (by simpa [eq_comm] using hhead))))
  | operator =>
    obtain ⟨d, others, rfl, hstart, -⟩ := start_of_operator h
    obtain rfl : d = c := by simpa using hhead
    exact .inr (.inr (.inr (.inr hstart)))

/-- The characters by which the scan chooses a rule are those that literals start with. -/
lemma starts_iff {c : Char} : (∃ kind, ∃ literal ∈ language kind, literal.head? = some c) ↔
    Scan.isNameStart c ∨ c.isDigit ∨ c = '\'' ∨ c = '"' ∨ Scan.isOperatorStart c := by
  constructor
  · rintro ⟨kind, literal, hliteral, hhead⟩
    exact start_of_mem_language hliteral hhead
  -- a short literal for each of the characters
  · rintro (hname | hdigit | rfl | rfl | hstart)
    · exact ⟨.identifier, [c], mem_one_mul.mpr ⟨c, [], isNameStart_iff.mp hname, by simp, rfl⟩, rfl⟩
    · have hwhole : [c] ∈ whole := by
        by_cases hzero : c = '0'
        · exact mem_whole.mpr (.inl (by rw [hzero]))
        · refine mem_whole.mpr (.inr ⟨mem_digits.mpr ⟨by simp, ?_⟩, by simpa using hzero⟩)
          simpa using isDigit_iff.mp hdigit
      have hinteger := Language.append_mem_mul (mem_sign.mpr (.inl rfl)) hwhole
      exact ⟨.integer, [c], hinteger, rfl⟩
    · have hunit : ['x'] ∈ unit '\'' := mem_unit.mpr (.inl ⟨'x', by decide, rfl⟩)
      have hclosed := Language.append_mem_mul hunit (mem_one (p := (· = '\'')).mpr ⟨'\'', rfl, rfl⟩)
      exact ⟨.character, ['\'', 'x', '\''], mem_one_mul.mpr ⟨'\'', _, rfl, hclosed, rfl⟩, rfl⟩
    · have hclosed := Language.append_mem_mul (Language.nil_mem_kstar (unit '"'))
        (mem_one (p := (· = '"')).mpr ⟨'"', rfl, rfl⟩)
      exact ⟨.string, ['"', '"'], mem_one_mul.mpr ⟨'"', _, rfl, hclosed, rfl⟩, rfl⟩
    · have hstart : c ∈ Scan.singles ∨ c ∈ ['&', '|'] := by
        simpa [Scan.isOperatorStart, or_assoc] using hstart
      rcases hstart with hsingle | hpair
      · exact ⟨.operator, [c], mem_operator.mpr (.inr ⟨c, hsingle, rfl⟩), rfl⟩
      · exact ⟨.operator, [c, c], mem_operator.mpr (.inl (pair_start hpair).2.1), rfl⟩

lemma token_character : Scan.token ('\'' :: next) = Scan.character next := by
  simp [Scan.token, Scan.isNameStart]

lemma token_string : Scan.token ('"' :: next) = Scan.string 1 next := by
  simp [Scan.token, Scan.isNameStart]

/-- A text starts like a number with a digit, or with a minus sign and a digit behind it. -/
lemma exists_signed {c : Char} (h : c.isDigit || (c = '-' && Scan.startsWithDigit next)) :
    ∃ minus ∈ sign, ∃ rest, minus ++ rest = c :: next ∧ Scan.startsWithDigit rest := by
  rcases Bool.or_eq_true_iff.mp h with hdigit | hminus
  · exact ⟨[], mem_sign.mpr (.inl rfl), c :: next, rfl,
      startsWithDigit_iff.mpr ⟨c, rfl, isDigit_iff.mp hdigit⟩⟩
  · obtain ⟨hminus, hdigit⟩ := Bool.and_eq_true_iff.mp hminus
    obtain rfl : c = '-' := by simpa using hminus
    exact ⟨['-'], mem_sign.mpr (.inr rfl), next, rfl, hdigit⟩

/-- **Soundness** of one fault: what the scan complains about is malformed. -/
theorem malformed_of_faults {c : Char} (h : Faults (Scan.token (c :: next)) kind place) :
    Malformed (c :: next) kind place := by
  simp only [Scan.token] at h
  -- the rules in the order in which the scan tries them
  split_ifs at h with hname hnumber hquote hdouble hstart
  · exact absurd h not_faults_token
  · obtain ⟨minus, hminus, rest, htext, hdigit⟩ := exists_signed hnumber
    rw [← htext] at h ⊢
    obtain ⟨rfl, hmalformed⟩ := (faults_number hminus hdigit).mp h
    exact hmalformed
  · subst hquote
    exact malformed_of_character h
  · subst hdouble
    rcases faults_string.mp h with ⟨rfl, rfl, units, hunits, hnext⟩ |
      ⟨rfl, units, hunits, letter, rest, hletter, rfl, rfl⟩
    · refine ⟨rfl, units, hunits, hnext.imp (congrArg _) (congrArg _)⟩
    · refine ⟨'"' :: units, letter, rest, hletter, .inr ?_, ?_, rfl⟩
      · exact mem_one_mul.mpr ⟨'"', units, rfl, hunits, rfl⟩
      · rw [List.length_cons, Nat.add_comm]
  · obtain ⟨rfl, rfl, hmem, hhead⟩ := (faults_operator hstart).mp h
    exact ⟨rfl, c, hmem, next, rfl, hhead⟩
  · -- no rule fits, so that no literal starts with the character
    obtain ⟨rfl, rfl⟩ := faults_fault.mp h
    refine ⟨rfl, c, next, rfl, fun kind literal hliteral hhead => ?_⟩
    have hdigit : ¬ c.isDigit := fun h => hnumber (by simp [h])
    have := start_of_mem_language hliteral hhead
    tauto

/-- A text that starts like a number is read as one. -/
lemma token_signed {minus rest : Text} (hminus : minus ∈ sign)
    (hdigit : Scan.startsWithDigit rest) :
    Scan.token (minus ++ rest) = Scan.number (minus ++ rest) := by
  rcases mem_sign.mp hminus with rfl | rfl
  · obtain ⟨c, hc, hd⟩ := startsWithDigit_iff.mp hdigit
    obtain ⟨more, rfl⟩ := List.head?_eq_some_iff.mp hc
    exact token_number (.inl hd)
  · exact token_number (.inr ⟨rfl, hdigit⟩)

lemma token_unrecognized {c : Char} (rest : Text)
    (h : ∀ kind, ∀ literal ∈ language kind, literal.head? ≠ some c) :
    Faults (Scan.token (c :: rest)) .unrecognizedCharacter 0 := by
  have hstart : ¬ (Scan.isNameStart c ∨ c.isDigit ∨ c = '\'' ∨ c = '"' ∨
      Scan.isOperatorStart c) := by
    intro hstart
    obtain ⟨kind, literal, hliteral, hhead⟩ := starts_iff.mpr hstart
    exact h kind literal hliteral hhead
  simp only [not_or, Bool.not_eq_true] at hstart
  obtain ⟨hname, hdigit, hquote, hdouble, hoperator⟩ := hstart
  have hminus : c ≠ '-' := by
    rintro rfl
    exact absurd hoperator (by decide)
  simp [Scan.token, hname, hdigit, hminus, hquote, hdouble, hoperator, Fault.kind]

lemma token_malformedNumber (h : Malformed text .malformedNumber place) :
    Faults (Scan.token text) .malformedNumber place := by
  have hsplit : ∃ minus ∈ sign, ∃ rest, minus ++ rest = text ∧ Scan.startsWithDigit rest := by
    rcases h.2 with ⟨minus, hminus, d, rest, -, rfl⟩ |
      ⟨minus, hminus, digits, hdigits, rest, -, rfl⟩
    · exact ⟨minus, hminus, _, rfl, rfl⟩
    · exact ⟨minus, hminus, _, rfl, startsWithDigit_whole hdigits⟩
  obtain ⟨minus, hminus, rest, rfl, hdigit⟩ := hsplit
  rw [token_signed hminus hdigit]
  exact (faults_number hminus hdigit).mpr ⟨rfl, h⟩

/-- **Completeness** of one fault: what is malformed is complained about. -/
theorem faults_of_malformed (h : Malformed text kind place) :
    Faults (Scan.token text) kind place := by
  cases kind with
  | unrecognizedCharacter =>
    obtain ⟨rfl, c, rest, rfl, hnone⟩ := h
    exact token_unrecognized rest hnone
  | malformedNumber => exact token_malformedNumber h
  | unterminatedCharacter =>
    obtain ⟨rfl, rfl | ⟨content, hcontent, rfl⟩ | rfl⟩ := h
    · exact ⟨_, _, rfl, rfl⟩
    · have hscan := character_unit hcontent []
      rw [List.append_nil] at hscan
      rw [token_character, hscan]
      exact ⟨_, _, rfl, rfl⟩
    · exact ⟨_, _, rfl, rfl⟩
  | invalidCharacterLiteral =>
    obtain ⟨rfl, ⟨rest, rfl⟩ | ⟨content, hcontent, c, rest, hc, rfl⟩⟩ := h
    · exact ⟨_, _, rfl, rfl⟩
    · rw [token_character, character_unit hcontent]
      exact faults_closeCharacter.mpr ⟨rfl, .inr ⟨rfl, c, rest, hc, rfl⟩⟩
  | unterminatedString =>
    obtain ⟨rfl, units, hunits, rfl | rfl⟩ := h
    · rw [token_string]
      exact faults_string.mpr (.inl ⟨rfl, rfl, units, hunits, .inl rfl⟩)
    · rw [token_string]
      exact faults_string.mpr (.inl ⟨rfl, rfl, units, hunits, .inr rfl⟩)
  | invalidEscape =>
    obtain ⟨before, letter, rest, hletter, rfl | hbefore, rfl, rfl⟩ := h
    · rw [List.singleton_append, token_character, Scan.character, not_isLetter hletter,
        if_neg (by simp), faults_fault]
      exact ⟨rfl, rfl⟩
    · obtain ⟨c, units, rfl, hunits, rfl⟩ := mem_one_mul.mp hbefore
      rw [List.cons_append, token_string]
      refine faults_string.mpr (.inr ⟨rfl, units, hunits, letter, rest, hletter, ?_, rfl⟩)
      rw [List.length_cons, Nat.add_comm]
  | unknownOperator =>
    obtain ⟨rfl, c, hc, rest, rfl, hhead⟩ := h
    have hstart : Scan.isOperatorStart c ∧ c ≠ '-' := (pair_start hc).2.2
    rw [token_operator hstart.1 fun h => hstart.2 h.1]
    exact (faults_operator hstart.1).mpr ⟨rfl, rfl, hc, hhead⟩

/-! ### Texts that are cut -/

lemma follow_none (kind : TokenKind) (literal : Text) : Follow kind literal none := by
  cases kind <;> simp [Follow]

/-- A literal is cut off as well where the text ends sooner after it. -/
lemma Cuts.of_append {k : TokenKind} {before after : Text}
    (h : Cuts (before ++ after) k length) (hle : length ≤ before.length) :
    Cuts before k length := by
  obtain ⟨literal, rest, htext, rfl, hmem, hfollow⟩ := h
  have hsplit : ∃ more, before = literal ++ more ∧ rest = more ++ after := by
    rcases List.append_eq_append_iff.mp htext with h | ⟨more, rfl, rfl⟩
    · exact h
    · have hnil : more = [] := by
        rw [List.length_append] at hle
        exact List.length_eq_zero_iff.mp (by omega)
      exact ⟨[], by simp [hnil], by simp [hnil]⟩
  obtain ⟨more, rfl, rfl⟩ := hsplit
  refine ⟨literal, more, rfl, rfl, hmem, ?_⟩
  cases more with
  | nil => exact follow_none k literal
  | cons c more => exact hfollow

end Lexeme

variable {text : Text} {report : Report}

/-- A scan that is ended by a report has gone up to a place where no token can be read, and would
have found the same tokens if the text ended there. -/
lemma scan_report (offset : Int) (h : (scan offset text).report = some report) :
    ∃ before c after, text = before ++ c :: after ∧ ¬ Scan.isBlank c ∧
      scan offset before = ⟨(scan offset text).tokens, before.length, none⟩ ∧
      ∃ cause place read, Scan.token (c :: after) = .fault cause place read ∧
        report = cause.report (offset + before.length + place) := by
  -- on the length: a blank and a token both leave less of the text
  induction hn : text.length using Nat.strong_induction_on generalizing offset text with
  | _ n ih =>
    rcases text with _ | ⟨d, next⟩
    · rw [scan] at h
      cases h
    by_cases hblank : Scan.isBlank d
    · -- a blank belongs to what is before the place
      rw [scan_blank offset hblank] at h ⊢
      obtain ⟨before, c, after, rfl, hc, hscan, cause, place, read, hfault, rfl⟩ :=
        ih next.length (by simp [← hn]) (offset + 1) h rfl
      refine ⟨d :: before, c, after, rfl, hc, ?_, cause, place, read, hfault, ?_⟩
      · rw [scan_blank offset hblank, hscan]
        rfl
      · rw [List.length_cons, Int.natCast_add, Int.natCast_one]
        congr 1
        omega
    cases htoken : Scan.token (d :: next) with
    | fault cause place read =>
      rw [scan_fault offset hblank htoken] at h ⊢
      refine ⟨[], d, next, rfl, hblank, ?_, cause, place, read, htoken, ?_⟩
      · rw [scan]
        rfl
      · simpa [eq_comm] using h
    | token kind length =>
      obtain ⟨literal, rest, htext, rfl, hmem, hfollow⟩ := Lexeme.cuts_of_token htoken
      have hpos := token_length_pos htoken
      rw [← htext] at htoken h ⊢
      rw [scan_literal offset htoken] at h ⊢
      obtain ⟨before, c, after, rfl, hc, hscan, cause, place, read, hfault, rfl⟩ :=
        ih rest.length (by simp [← hn, ← htext, hpos]) _ h rfl
      -- the token is cut off in the same way where the text ends sooner
      have hcut : Scan.token (literal ++ before) = .token kind literal.length := by
        have hcuts : Lexeme.Cuts ((literal ++ before) ++ c :: after) kind literal.length :=
          ⟨literal, before ++ c :: after, by simp, rfl, hmem, hfollow⟩
        exact Lexeme.token_of_cuts (hcuts.of_append (by simp))
      refine ⟨literal ++ before, c, after, by simp, hc, ?_, cause, place, read, hfault, ?_⟩
      · rw [scan_literal offset hcut, hscan, List.length_append, Nat.add_comm]
      · rw [List.length_append, Int.natCast_add, Int.add_assoc offset]

/-- **What a report says**: where a text cannot be split further, the text before would be split
into the tokens found so far, and the characters from there on decide the kind of the report and
its offset. -/
theorem report_iff_malformed (h : lex text = .error report) :
    ∃ p c, text[p]? = some c ∧ c ∉ [' ', '\t', '\r', '\n'] ∧
      lex (text.take p) = .ok (scan 0 text).tokens ∧
      (∃ kind, report.kind = .fault kind) ∧
      ∀ (kind : FaultKind) (place : Nat), report.kind = .fault kind ∧ report.offset = p + place ↔
        Lexeme.Malformed (text.drop p) kind place := by
  have hreport : (scan 0 text).report = some report := by
    unfold lex at h
    split at h
    next report' hreport' =>
      cases h
      exact hreport'
    next => cases h
  -- the text before the fault can be split, and the fault depends on the text from there on only
  obtain ⟨before, c, after, rfl, hc, hscan, cause, at', read, htoken, rfl⟩ := scan_report 0 hreport
  have hfaults : Lexeme.Faults (Scan.token (c :: after)) cause.kind at' :=
    ⟨cause, read, htoken, rfl⟩
  refine ⟨before.length, c, by simp, fun hmem => hc (isBlank_iff.mpr hmem), ?_,
    ⟨cause.kind, rfl⟩, fun kind place => ?_⟩
  · rw [List.take_left, lex_eq_ok, hscan]
    exact ⟨rfl, rfl⟩
  · rw [List.drop_left]
    constructor
    · rintro ⟨hkind, hoffset⟩
      obtain rfl : cause.kind = kind := by simpa [Fault.report] using hkind
      obtain rfl : at' = place := by
        simp only [Fault.report] at hoffset
        omega
      exact Lexeme.malformed_of_faults hfaults
    · intro hmalformed
      obtain ⟨rfl, rfl⟩ := hfaults.unique (Lexeme.faults_of_malformed hmalformed)
      simp [Fault.report]

/-- A string with an unknown escape after a name: the name is found, and from the string on the
text is malformed at the backslash, which is where the report is made. -/
theorem report_iff_malformed_escape :
    let text : Text := ['a', ' ', '"', 'b', '\\', 'q']
    lex text = .error ⟨.fault .invalidEscape, 4, some "unknown escape sequence \\q".toList⟩ ∧
      ∃ p : Nat, lex (text.take p) = .ok [⟨.identifier, ['a'], 0⟩] ∧
        ∀ place : Nat,
          (4 : Int) = p + place ↔ Lexeme.Malformed (text.drop p) .invalidEscape place := by
  intro text
  have h : lex text =
      .error ⟨.fault .invalidEscape, 4, some "unknown escape sequence \\q".toList⟩ := by
    decide +kernel
  have htokens : (scan 0 text).tokens = [⟨.identifier, ['a'], 0⟩] := by
    decide +kernel
  obtain ⟨p, -, -, -, hlex, -, hmalformed⟩ := report_iff_malformed h
  refine ⟨h, p, htokens ▸ hlex, fun place => ?_⟩
  rw [← hmalformed]
  simp

end Pebble
