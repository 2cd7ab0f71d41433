import Pebble.Proofs.Token.Spacing
import Pebble.Proofs.Tree.Proper
import Pebble.Proofs.Tree.Symbol

/-!
Layout: a text for any symbols. Each symbol has a literal that says it, and with a blank after each
literal the text is split into just these.
-/

namespace Pebble

open scoped Computability

/-! ### Literals of values -/

namespace Escape

/-- A text with a backslash before each double quote and each backslash. -/
def encode : Text → Text
  | [] => []
  | c :: text => if c = '"' ∨ c = '\\' then '\\' :: c :: encode text else c :: encode text

lemma decode_encode (text : Text) : decode (encode text) = text := by
  induction text with
  | nil => simp [encode, decode]
  | cons c text ih =>
    by_cases hc : c = '"' ∨ c = '\\'
    · rw [encode, if_pos hc, decode, ih]
      rcases hc with rfl | rfl <;> rfl
    · rw [encode, if_neg hc, decode, ih]
      rintro letter rest rfl
      exact absurd (.inr rfl) hc

lemma encode_mem (text : Text) : encode text ∈ (Lexeme.unit '"')∗ := by
  induction text with
  | nil => exact Language.nil_mem_kstar _
  | cons c text ih =>
    by_cases hc : c = '"' ∨ c = '\\'
    · rw [encode, if_pos hc]
      have hunit : ['\\', c] ∈ Lexeme.unit '"' := by
        refine Lexeme.mem_unit.mpr (.inr ⟨c, ?_, rfl⟩)
        rcases hc with rfl | rfl <;> decide
      exact Lexeme.append_mem_kstar hunit ih
    · rw [encode, if_neg hc]
      have hunit : [c] ∈ Lexeme.unit '"' :=
        Lexeme.mem_unit.mpr (.inl ⟨c, not_or.mp hc, rfl⟩)
      exact Lexeme.append_mem_kstar hunit ih

end Escape

namespace Lexeme

lemma sign_mem (negative : Bool) : Decimal.sign negative ∈ sign := by
  cases negative <;> simp [Decimal.sign, mem_sign]

lemma exists_sign {text : Text} (h : text ∈ sign) : ∃ negative, text = Decimal.sign negative := by
  rcases mem_sign.mp h with rfl | rfl
  · exact ⟨false, rfl⟩
  · exact ⟨true, rfl⟩

lemma isDigit_of_whole {digits : Text} (h : digits ∈ whole) : ∀ c ∈ digits, c.isDigit :=
  fun c hc => isDigit_iff.mpr (digit_of_whole h c hc)

lemma mem_integer {text : Text} : text ∈ language .integer ↔
    ∃ negative digits, text = Decimal.sign negative ++ digits ∧ digits ∈ whole := by
  constructor
  · intro h
    obtain ⟨minus, hminus, digits, hdigits, hl⟩ := Language.mem_mul.mp h
    obtain ⟨negative, rfl⟩ := exists_sign hminus
    exact ⟨negative, digits, hl.symm, hdigits⟩
  · rintro ⟨negative, digits, rfl, hdigits⟩
    exact Language.append_mem_mul (sign_mem negative) hdigits

lemma mem_decimal {text : Text} : text ∈ language .decimal ↔
    ∃ negative digits fraction, text = Decimal.sign negative ++ (digits ++ '.' :: fraction) ∧
      digits ∈ whole ∧ fraction ≠ [] ∧ ∀ c ∈ fraction, c.isDigit := by
  constructor
  · intro h
    obtain ⟨minus, hminus, body, hbody, hl⟩ := Language.mem_mul.mp h
    obtain ⟨digits, hdigits, point, hpoint, rfl⟩ := Language.mem_mul.mp hbody
    obtain ⟨negative, rfl⟩ := exists_sign hminus
    obtain ⟨_, fraction, rfl, hfraction, rfl⟩ := mem_one_mul.mp hpoint
    obtain ⟨hne, hall⟩ := mem_digits.mp hfraction
    exact ⟨negative, digits, fraction, hl.symm, hdigits, hne,
      fun c hc => isDigit_iff.mpr (hall c hc)⟩
  · rintro ⟨negative, digits, fraction, rfl, hdigits, hne, hall⟩
    have hfraction := mem_digits.mpr ⟨hne, fun c hc => isDigit_iff.mp (hall c hc)⟩
    refine Language.append_mem_mul (sign_mem negative) (Language.append_mem_mul hdigits ?_)
    exact mem_one_mul.mpr ⟨'.', fraction, rfl, hfraction, rfl⟩

end Lexeme

namespace Decimal

def places (count n : Nat) : Text := (Text.ofNat n).leftpad count '0'

/-- A decimal with a coefficient and so many digits after the point. -/
def written (negative : Bool) (coefficient count : Nat) : Text :=
  sign negative ++ (Text.ofNat (coefficient / 10 ^ count) ++
    '.' :: places count (coefficient % 10 ^ count))

variable {negative : Bool} {coefficient count n : Nat}

/-- What is left of a number after so many places fills them. -/
lemma length_places (hpos : 0 < count) : (places count (n % 10 ^ count)).length = count := by
  have hlt : n % 10 ^ count < 10 ^ count := Nat.mod_lt _ (Nat.pow_pos (by omega))
  have hlength : (Text.ofNat (n % 10 ^ count)).length ≤ count :=
    (Nat.length_toDigits_le_iff (by omega) hpos).mpr hlt
  rw [places, List.length_leftpad, Nat.max_eq_left hlength]

lemma places_ne_nil (hpos : 0 < count) : places count (n % 10 ^ count) ≠ [] := by
  rw [← List.length_pos_iff, length_places hpos]
  exact hpos

lemma isDigit_of_mem_places {c : Char} (h : c ∈ places count n) : c.isDigit := by
  rcases List.mem_append.mp h with hzero | hdigit
  · obtain rfl := (List.mem_replicate.mp hzero).2
    decide
  · exact Text.isDigit_of_mem_ofNat hdigit

/-- The digits on both sides of the point make up the coefficient. -/
lemma value_written (hpos : 0 < count) :
    Numeral.value (Text.ofNat (coefficient / 10 ^ count) ++
      places count (coefficient % 10 ^ count)) = coefficient := by
  have hfraction : Numeral.value (places count (coefficient % 10 ^ count)) =
      coefficient % 10 ^ count := by
    rw [places, List.leftpad, Numeral.value_zeros_append, Numeral.value_ofNat]
  rw [Numeral.value_append, length_places hpos, hfraction, Numeral.value_ofNat, Nat.div_add_mod]

end Decimal

/-! ### Literals of symbols -/

def Token.lexeme (t : Token) : TokenKind × Text := (t.kind, t.literal)

def Value.lexeme : Value → TokenKind × Text
  | .nil => (.identifier, Keyword.NIL.spelling)
  | .bool true => (.identifier, Keyword.TRUE.spelling)
  | .bool false => (.identifier, Keyword.FALSE.spelling)
  | .integer n => (.integer, Text.ofInt n)
  | .decimal (.finite negative coefficient exponent) =>
    (.decimal, Decimal.written negative coefficient (-exponent).toNat)
  | .decimal d => (.decimal, d.toText)
  | .text t => (.string, '"' :: (Escape.encode t ++ ['"']))

namespace Symbol

def lexeme : Symbol → TokenKind × Text
  | .word w => (.identifier, w.spelling)
  | .name text => (.identifier, text)
  | .operator literal => (.operator, literal)
  | .value v => v.lexeme

lemma lexeme_ofValue (v : Value) : (ofValue v).lexeme = v.lexeme := by
  rcases v with _ | b | _ | _ | _
  · rfl
  · cases b <;> rfl
  all_goals rfl

def Proper : Symbol → Prop
  | .word _ => True
  | .name text => IsName text
  | .operator literal => literal ∈ Lexeme.language .operator
  | .value v => v.Proper

end Symbol

lemma Keyword.ofText?_spelling (w : Keyword) : ofText? w.spelling = some w := by
  cases w <;> decide

lemma Keyword.spelling_mem (w : Keyword) : w.spelling ∈ Lexeme.language .identifier := by
  have hspelling : ∃ c rest, w.spelling = c :: rest ∧ Scan.isNameStart c ∧
      rest.all Scan.isNamePart := by
    cases w <;> exact ⟨_, _, rfl, by decide, by decide⟩
  obtain ⟨c, rest, heq, hc, hrest⟩ := hspelling
  rw [heq]
  refine Lexeme.mem_one_mul.mpr ⟨c, rest, Lexeme.isNameStart_iff.mp hc, ?_, rfl⟩
  refine Lexeme.mem_one_kstar.mpr fun d hd => Lexeme.isNamePart_iff.mp ?_
  exact List.all_eq_true.mp hrest d hd

lemma Value.Proper.lexeme_mem {v : Value} (h : v.Proper) :
    v.lexeme.2 ∈ Lexeme.language v.lexeme.1 := by
  rcases v with _ | b | n | d | t
  · exact Keyword.spelling_mem .NIL
  · cases b
    · exact Keyword.spelling_mem .FALSE
    · exact Keyword.spelling_mem .TRUE
  · exact Lexeme.mem_integer.mpr ⟨_, _, Text.ofInt_eq n, Text.ofNat_mem_whole _⟩
  · rcases d with ⟨negative, coefficient, exponent⟩ | _ | _
    · have hpos : 0 < (-exponent).toNat := by
        have := h.1
        omega
      exact Lexeme.mem_decimal.mpr ⟨_, _, _, rfl, Text.ofNat_mem_whole _,
        Decimal.places_ne_nil hpos, fun c hc => Decimal.isDigit_of_mem_places hc⟩
    · exact False.elim h
    · exact False.elim h
  · refine Lexeme.mem_one_mul.mpr ⟨'"', _, rfl, ?_, rfl⟩
    have hclose : ['"'] ∈ Lexeme.one (· = '"') := ⟨'"', rfl, rfl⟩
    exact Language.append_mem_mul (Escape.encode_mem t) hclose

/-- The digits that are written of a decimal, on both sides of the point, are those of its
coefficient. -/
lemma Decimal.denotes_written {negative : Bool} {coefficient : Nat} {exponent offset : Int}
    (hneg : exponent ≤ -1) (hrange : (Decimal.finite negative coefficient exponent).inRange) :
    Token.Denotes ⟨.decimal, Decimal.written negative coefficient (-exponent).toNat, offset⟩
      (.decimal (.finite negative coefficient exponent)) := by
  have hpos : 0 < (-exponent).toNat := by omega
  have hlength := @Decimal.length_places _ coefficient hpos
  have hvalue := @Decimal.value_written coefficient _ hpos
  have hexponent : -((-exponent).toNat : Int) = exponent := by omega
  have hdenotes := @Token.Denotes.decimal
    ⟨.decimal, Decimal.written negative coefficient (-exponent).toNat, offset⟩ negative
    (Text.ofNat (coefficient / 10 ^ (-exponent).toNat))
    (Decimal.places (-exponent).toNat (coefficient % 10 ^ (-exponent).toNat)) rfl rfl
    Text.ofNat_ne_nil (Decimal.places_ne_nil hpos)
    (fun c hc => Text.isDigit_of_mem_ofNat hc) (fun c hc => Decimal.isDigit_of_mem_places hc)
  rw [hvalue, hlength, hexponent] at hdenotes
  exact hdenotes hrange

lemma Value.Proper.denotes {v : Value} (h : v.Proper) {t : Token} (ht : t.lexeme = v.lexeme) :
    t.Denotes v := by
  obtain ⟨kind, literal, offset⟩ := t
  obtain ⟨rfl, rfl⟩ := Prod.mk.inj ht
  have hword : ∀ w : Keyword, (⟨.identifier, w.spelling, offset⟩ : Token).terminal = .word w := by
    intro w
    simp only [Token.terminal, Keyword.ofText?_spelling]
  rcases v with _ | b | n | d | t
  · exact .nil (hword .NIL)
  · cases b
    · exact .false (hword .FALSE)
    · exact .true (hword .TRUE)
  · have hdenotes := @Token.Denotes.integer ⟨.integer, Text.ofInt n, offset⟩ (decide (n < 0))
      (Text.ofNat n.natAbs) rfl (Text.ofInt_eq n) Text.ofNat_ne_nil
      (fun c hc => Text.isDigit_of_mem_ofNat hc) h
    rwa [Numeral.value_ofNat, Numeral.signed_natAbs] at hdenotes
  · rcases d with ⟨negative, coefficient, exponent⟩ | _ | _
    · exact Decimal.denotes_written h.1 h.2
    · exact False.elim h
    · exact False.elim h
  · have hdenotes := @Token.Denotes.text ⟨.string, '"' :: (Escape.encode t ++ ['"']), offset⟩
      (.inr rfl)
    rwa [List.tail_cons, List.dropLast_concat, Escape.decode_encode] at hdenotes

lemma Symbol.Proper.lexeme_mem {s : Symbol} (h : s.Proper) :
    s.lexeme.2 ∈ Lexeme.language s.lexeme.1 := by
  cases s with
  | word w => exact w.spelling_mem
  | name name => exact h.1
  | operator literal => exact h
  | value v => exact Value.Proper.lexeme_mem h

/-! ### The text of symbols -/

/-- The literals of symbols, each with a blank after it. -/
def layout (symbols : List Symbol) : Text := symbols.flatMap fun s => s.lexeme.2 ++ [' ']

def Symbol.piece (s : Symbol) : Piece := ⟨s.lexeme.1, s.lexeme.2, [' ']⟩

lemma layout_eq_spaced (symbols : List Symbol) :
    layout symbols = spaced (symbols.map Symbol.piece) := by
  simp [layout, spaced, Symbol.piece, List.flatMap_map]

lemma map_lexeme_placed (offset : Int) (symbols : List Symbol) :
    (placed offset (symbols.map Symbol.piece)).map Token.lexeme = symbols.map Symbol.lexeme := by
  induction symbols generalizing offset with
  | nil => rfl
  | cons s symbols ih =>
    rw [List.map_cons, placed, List.map_cons, List.map_cons, ih]
    rfl

/-- The text of symbols is split into the tokens that say them. -/
lemma exists_lex_layout {symbols : List Symbol} (h : ∀ s ∈ symbols, s.Proper) :
    ∃ tokens, lex (layout symbols) = .ok tokens ∧
      tokens.map Token.lexeme = symbols.map Symbol.lexeme := by
  -- each literal has a blank after it
  have hapart : Apart (symbols.map Symbol.piece) := by
    constructor <;> intro piece hpiece
    · obtain ⟨s, -, rfl⟩ := List.mem_map.mp hpiece
      exact List.forall_mem_singleton.mpr (by decide)
    · obtain ⟨s, -, rfl⟩ := List.mem_map.mp (List.dropLast_subset _ hpiece)
      exact List.cons_ne_nil _ _
  have hmem : ∀ piece ∈ symbols.map Symbol.piece,
      piece.literal ∈ Lexeme.language piece.kind := by
    intro piece hpiece
    obtain ⟨s, hs, rfl⟩ := List.mem_map.mp hpiece
    exact (h s hs).lexeme_mem
  have hlex := lex_spaced (List.forall_mem_nil _) hapart hmem
  rw [List.nil_append, ← layout_eq_spaced] at hlex
  exact ⟨_, hlex, map_lexeme_placed _ symbols⟩

/-! ### What is split off -/

lemma mem_language_of_lex {text : Text} {tokens : List Token} (h : lex text = .ok tokens) :
    ∀ t ∈ tokens, t.literal ∈ Lexeme.language t.kind := by
  obtain ⟨hreport, htokens⟩ := lex_eq_ok.mp h
  have htiles : Tiles text 0 tokens := scan_tiles.mp ⟨hreport, htokens⟩
  exact fun t ht => (htiles.stands t ht).mem

lemma Token.wellFormed_of_mem {t : Token} (h : t.literal ∈ Lexeme.language t.kind) :
    t.WellFormed where
  integer hk := by
    obtain ⟨negative, digits, hl, hdigits⟩ := Lexeme.mem_integer.mp (hk ▸ h)
    exact ⟨negative, digits, hl, Lexeme.whole_ne_nil hdigits, Lexeme.isDigit_of_whole hdigits⟩
  decimal hk := by
    obtain ⟨negative, whole, fraction, hl, hwhole, hne, hf⟩ := Lexeme.mem_decimal.mp (hk ▸ h)
    exact ⟨negative, whole, fraction, hl, Lexeme.whole_ne_nil hwhole, hne,
      Lexeme.isDigit_of_whole hwhole, hf⟩

end Pebble
