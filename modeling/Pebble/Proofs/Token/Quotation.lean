import Pebble.Proofs.Token.Layout
import Pebble.Proofs.Token.Locality

/-!
Quotations: what stands between the quotes of a character or a string, unit by unit. The scan and
the decoding of escapes split it at the same places.
-/

namespace Pebble

open scoped Computability

/-! ### Escapes -/

namespace Escape

def table : List (Char × Char) :=
  [('n', '\n'), ('t', '\t'), ('r', '\r'), ('\\', '\\'), ('"', '"'), ('\'', '\'')]

lemma denoted?_eq_some_iff {letter c : Char} :
    denoted? letter = some c ↔ (letter, c) ∈ table := by
  unfold denoted?
  split <;> simp_all [table, eq_comm]

/-- Decodes a text in which every backslash begins an escape; any other text has no decoding. -/
def decodeExact? : Text → Option Text
  | [] => some []
  | ['\\'] => none
  | '\\' :: letter :: rest =>
    match denoted? letter with
    | none => none
    | some c => (decodeExact? rest).map (c :: ·)
  | c :: rest => (decodeExact? rest).map (c :: ·)

lemma decode_of_decodeExact? {text decoded : Text} (h : decodeExact? text = some decoded) :
    decode text = decoded := by
  fun_induction decodeExact? text generalizing decoded with
  | case1 =>
    cases h
    rw [decode]
  | case2 => cases h
  | case3 letter rest hnone => cases h
  | case4 letter rest c hc ih =>
    obtain ⟨others, hothers, rfl⟩ := Option.map_eq_some_iff.mp h
    rw [decode, hc, ih hothers]
    rfl
  | case5 c rest hend hslash ih =>
    obtain ⟨others, hothers, rfl⟩ := Option.map_eq_some_iff.mp h
    rw [decode, ih hothers]
    rintro letter others rfl rfl
    exact hslash letter others rfl rfl

end Escape

/-! ### Units -/

namespace Lexeme

inductive Unit (quote : Char) where
  | raw (c : Char) (plain : c ≠ quote ∧ c ≠ '\\')
  | escape (letter char : Char) (denoted : (letter, char) ∈ Escape.table)

namespace Unit

variable {quote : Char}

def text : Unit quote → Text
  | raw c _ => [c]
  | escape letter _ _ => ['\\', letter]

def value : Unit quote → Char
  | raw c _ => c
  | escape _ char _ => char

def texts (units : List (Unit quote)) : Text := units.flatMap text

@[simp] lemma texts_nil : texts ([] : List (Unit quote)) = [] := rfl

@[simp] lemma texts_cons (u : Unit quote) (units : List (Unit quote)) :
    texts (u :: units) = u.text ++ texts units := rfl

/-- The units of a literal are read off its text, each as the character that it stands for. -/
lemma decodeExact?_texts (units : List (Unit quote)) :
    Escape.decodeExact? (texts units) = some (units.map value) := by
  induction units with
  | nil => rfl
  | cons u units ih =>
    cases u with
    | raw c plain =>
      rw [texts_cons, text, List.singleton_append, Escape.decodeExact?, ih]
      · rfl
      · exact fun hc => absurd hc plain.2
      · exact fun _ _ hc => absurd hc plain.2
    | escape letter char denoted =>
      rw [texts_cons, text, List.cons_append, List.singleton_append, Escape.decodeExact?,
        Escape.denoted?_eq_some_iff.mpr denoted, ih]
      rfl

lemma decode_texts (units : List (Unit quote)) :
    Escape.decode (texts units) = units.map value :=
  Escape.decode_of_decodeExact? (decodeExact?_texts units)

lemma head_eq {u v : Unit quote} {rest rest' : Text} (h : u.text ++ rest = v.text ++ rest') :
    u = v ∧ rest = rest' := by
  cases u with
  | raw c plain =>
    cases v with
    | raw d _ =>
      obtain ⟨rfl, hrest⟩ := List.cons.inj h
      exact ⟨rfl, hrest⟩
    | escape letter char _ => exact absurd (List.cons.inj h).1 plain.2
  | escape letter char denoted =>
    cases v with
    | raw d plain => exact absurd (List.cons.inj h).1.symm plain.2
    | escape letter' char' denoted' =>
      obtain ⟨rfl, hrest⟩ := List.cons.inj (List.cons.inj h).2
      -- the letter decides which character is denoted
      have hchar := (Escape.denoted?_eq_some_iff.mpr denoted).symm.trans
        (Escape.denoted?_eq_some_iff.mpr denoted')
      obtain rfl := Option.some.inj hchar
      exact ⟨rfl, hrest⟩

/-- A text is split into units in one way at most. -/
lemma texts_injective {units units' : List (Unit quote)} (h : texts units = texts units') :
    units = units' := by
  have hne : ∀ (u : Unit quote) (rest : Text), u.text ++ rest ≠ [] := by
    intro u rest
    cases u <;> exact List.cons_ne_nil _ _
  induction units generalizing units' with
  | nil =>
    cases units' with
    | nil => rfl
    | cons v units' => exact absurd h.symm (hne v _)
  | cons u units ih =>
    cases units' with
    | nil => exact absurd h (hne u _)
    | cons v units' =>
      obtain ⟨rfl, hrest⟩ := head_eq h
      rw [ih hrest]

end Unit

variable {quote : Char} {body : Text}

/-- The units are the texts of the language of units. -/
lemma mem_unit_iff : body ∈ unit quote ↔ ∃ u : Unit quote, u.text = body := by
  -- the letters of escapes are those that have a meaning
  have hletter : ∀ letter : Char, letter ∈ ['n', 't', 'r', '\\', '"', '\''] ↔
      ∃ c, (letter, c) ∈ Escape.table := by
    intro letter
    rw [← isLetter_iff, Escape.isLetter, Option.isSome_iff_exists]
    simp only [Escape.denoted?_eq_some_iff]
  rw [mem_unit]
  constructor
  · rintro (⟨c, plain, rfl⟩ | ⟨letter, hmem, rfl⟩)
    · exact ⟨.raw c plain, rfl⟩
    · obtain ⟨c, denoted⟩ := (hletter letter).mp hmem
      exact ⟨.escape letter c denoted, rfl⟩
  · rintro ⟨⟨c, plain⟩ | ⟨letter, c, denoted⟩, rfl⟩
    · exact .inl ⟨c, plain, rfl⟩
    · exact .inr ⟨letter, (hletter letter).mpr ⟨c, denoted⟩, rfl⟩

lemma mem_units_iff :
    body ∈ (unit quote)∗ ↔ ∃ units : List (Unit quote), Unit.texts units = body := by
  constructor
  · intro h
    obtain ⟨bodies, rfl, hbodies⟩ := Language.mem_kstar.mp h
    clear h
    induction bodies with
    | nil => exact ⟨[], rfl⟩
    | cons first bodies ih =>
      obtain ⟨hfirst, hothers⟩ := List.forall_mem_cons.mp hbodies
      obtain ⟨u, rfl⟩ := mem_unit_iff.mp hfirst
      obtain ⟨units, hunits⟩ := ih hothers
      exact ⟨u :: units, congrArg (u.text ++ ·) hunits⟩
  · rintro ⟨units, rfl⟩
    induction units with
    | nil => exact Language.nil_mem_kstar _
    | cons u units ih => exact append_mem_kstar (mem_unit_iff.mpr ⟨u, rfl⟩) ih

/-! ### Quotations -/

def quotation (units : List (Unit quote)) : Text := quote :: (Unit.texts units ++ [quote])

lemma body_quotation (units : List (Unit quote)) :
    (quotation units).tail.dropLast = Unit.texts units := by
  rw [quotation, List.tail_cons, List.dropLast_concat]

lemma quotation_injective {units units' : List (Unit quote)}
    (h : quotation units = quotation units') : units = units' :=
  Unit.texts_injective (List.append_cancel_right (List.cons.inj h).2)

/-- The literals of a kind are the quotations of some sequences of units. -/
structure Quotes (kind : TokenKind) (quote : Char) (Fits : List (Unit quote) → Prop) : Prop where
  kind_eq : kind = .character ∨ kind = .string
  quote_eq : quote = '\'' ∨ quote = '"'
  mem_iff : ∀ literal, literal ∈ language kind ↔
    ∃ units : List (Unit quote), Fits units ∧ literal = quotation units

lemma mem_quoted_iff {l : Language Char} {literal : Text} :
    literal ∈ one (· = quote) * (l * one (· = quote)) ↔
      ∃ body ∈ l, literal = quote :: (body ++ [quote]) := by
  rw [mem_one_mul]
  constructor
  · rintro ⟨_, closed, rfl, hclosed, rfl⟩
    obtain ⟨body, hbody, _, ⟨_, rfl, rfl⟩, rfl⟩ := Language.mem_mul.mp hclosed
    exact ⟨body, hbody, rfl⟩
  · rintro ⟨body, hbody, rfl⟩
    exact ⟨quote, _, rfl, Language.append_mem_mul hbody ⟨quote, rfl, rfl⟩, rfl⟩

lemma quotes_string : Quotes .string '"' fun _ => True where
  kind_eq := .inr rfl
  quote_eq := .inr rfl
  mem_iff literal := by
    rw [language, mem_quoted_iff]
    simp only [mem_units_iff, quotation, true_and]
    constructor
    · rintro ⟨_, ⟨units, rfl⟩, hliteral⟩
      exact ⟨units, hliteral⟩
    · rintro ⟨units, hliteral⟩
      exact ⟨_, ⟨units, rfl⟩, hliteral⟩

lemma quotes_character : Quotes .character '\'' fun units => units.length = 1 where
  kind_eq := .inl rfl
  quote_eq := .inl rfl
  mem_iff literal := by
    rw [language, mem_quoted_iff]
    simp only [mem_unit_iff, quotation, List.length_eq_one_iff]
    constructor
    · rintro ⟨_, ⟨u, rfl⟩, hliteral⟩
      exact ⟨[u], ⟨u, rfl⟩, by simpa using hliteral⟩
    · rintro ⟨_, ⟨u, rfl⟩, hliteral⟩
      exact ⟨_, ⟨u, rfl⟩, by simpa using hliteral⟩

/-- A quote leaves every literal before it as it is. -/
lemma follow_quote (h : quote = '\'' ∨ quote = '"') (kind : TokenKind) (literal : Text) :
    Follow kind literal (some quote) := by
  have hpart : ¬ NamePart quote := by
    rw [← isNamePart_iff]
    rcases h with rfl | rfl <;> decide
  have hpoint : quote ≠ '.' := by rcases h with rfl | rfl <;> decide
  have hpairs : ∀ pair ∈ Scan.pairs, quote ∉ pair := by
    rcases h with rfl | rfl <;> decide
  exact follow_of_strange hpart hpoint hpairs kind literal

section

variable {kind : TokenKind} {Fits : List (Unit quote) → Prop}

/-- A quotation is a literal as soon as it is closed. -/
lemma Quotes.token_eq (h : Quotes kind quote Fits) {units : List (Unit quote)} (hfits : Fits units)
    (after : Text) :
    Scan.token (quotation units ++ after) = .token kind (quotation units).length := by
  have hmem := (h.mem_iff _).mpr ⟨units, hfits, rfl⟩
  refine token_of_cuts ⟨_, after, rfl, rfl, hmem, ?_⟩
  rcases h.kind_eq with rfl | rfl <;> trivial

lemma Quotes.lex_quotation (h : Quotes kind quote Fits) (units : List (Unit quote))
    (hfits : Fits units) : lex (quotation units) = .ok [⟨kind, quotation units, 0⟩] := by
  have hscan := scan_literal 0 (h.token_eq hfits [])
  rw [List.append_nil, scan] at hscan
  exact lex_eq_ok.mpr (by rw [hscan]; exact ⟨rfl, rfl⟩)

/-- A quotation is found between a text before it and a text after it, which are split as they are
alone. -/
lemma Quotes.lex_between (h : Quotes kind quote Fits) {units : List (Unit quote)}
    (hfits : Fits units) {before after : Text} {tokens found : List Token}
    (hbefore : lex before = .ok tokens) (hafter : lex after = .ok found) :
    lex (before ++ quotation units ++ after) =
      .ok (tokens ++ ⟨kind, quotation units, before.length⟩ ::
        found.map (Token.shift (before.length + (quotation units).length))) := by
  have hclosed : ∀ t ∈ [(⟨kind, quotation units, 0⟩ : Token)],
      Follow t.kind t.literal after.head? := by
    simp only [List.forall_mem_singleton]
    rcases h.kind_eq with rfl | rfl <;> trivial
  have hrest := (lex_append (h.lex_quotation units hfits) hclosed).1 found hafter
  -- the opening quote bounds the tokens before, the closing one the quotation itself
  have hopened : ∀ t ∈ tokens, Follow t.kind t.literal (quotation units ++ after).head? :=
    fun t _ => follow_quote h.quote_eq t.kind t.literal
  have hshift : Token.shift before.length ⟨kind, quotation units, 0⟩ =
      ⟨kind, quotation units, before.length⟩ := by rw [Token.shift, Int.zero_add]
  rw [List.append_assoc, (lex_append hbefore hopened).1 _ hrest]
  simp [hshift, Function.comp_def]

/-- The rule for one token finds a quotation wherever the scanner stands before one. -/
lemma Quotes.run_token (h : Quotes kind quote Fits) {units : List (Unit quote)}
    (hfits : Fits units) (before after : Text) :
    Scanner.run ⟨before ++ quotation units ++ after, before.length⟩ .token =
      (.ok ⟨kind, quotation units, before.length⟩,
        ⟨before ++ quotation units ++ after, before.length + (quotation units).length⟩) := by
  -- the cursor stands at the opening quote
  have hview : Cursor.view ⟨before ++ quotation units ++ after, before.length⟩ =
      quotation units ++ after := by
    rw [Cursor.view, Cursor.viewAt_natCast, List.append_assoc, List.drop_left]
  have hslice : Text.slice (before ++ quotation units ++ after) before.length
      (before.length + (quotation units).length : Nat) = quotation units := by
    rw [Text.slice_natCast _ (by simp), Nat.add_sub_cancel_left, List.append_assoc,
      List.drop_left, List.take_left]
  rw [Int.natCast_add] at hslice
  rw [Scanner.run, Scanner.Rule.apply, hview, h.token_eq hfits]
  simp only [Scanner.emit, Cursor.advance, hslice]

/-- A token with a quotation is read as what its units stand for. -/
lemma Quotes.primary_eq (h : Quotes kind quote Fits) {t : Token} {units : List (Unit quote)}
    (hkind : t.kind = kind) (hliteral : t.literal = quotation units) (inner : Rule Expr)
    (rest : List Token) :
    Rule.primary inner (t :: rest) = .ok (.literal (.text (units.map Unit.value))) rest := by
  have hdenotes : t.Denotes (.text (Escape.decode t.literal.tail.dropLast)) :=
    .text (hkind ▸ h.kind_eq)
  rw [hliteral, body_quotation, Unit.decode_texts] at hdenotes
  rw [Rule.primary_cons, hdenotes.reading?_eq]

/-- A token of a text has a quotation of units that fit. -/
lemma Quotes.exists_units (h : Quotes kind quote Fits) {text : Text} {tokens : List Token}
    (hlex : lex text = .ok tokens) {t : Token} (ht : t ∈ tokens) (hkind : t.kind = kind) :
    ∃ units, Fits units ∧ t.literal = quotation units := by
  have hmem := mem_language_of_lex hlex t ht
  rw [hkind] at hmem
  exact (h.mem_iff _).mp hmem

end

/-- The literals of a kind are read unit by unit, by the scan and by the decoding of escapes
alike. -/
structure ReadByUnits (kind : TokenKind) (quote : Char) (Fits : List (Unit quote) → Prop) :
    Prop where
  /-- Units that fit, between quotes, are one token wherever a token may start. -/
  token : ∀ units, Fits units → ∀ before after : Text,
    Scanner.run ⟨before ++ quotation units ++ after, before.length⟩ .token =
      (.ok ⟨kind, quotation units, before.length⟩,
        ⟨before ++ quotation units ++ after, before.length + (quotation units).length⟩)
  /-- They are so behind any text that can be split, and before any other. -/
  lex : ∀ units, Fits units → ∀ before after tokens found,
    lex before = .ok tokens → lex after = .ok found →
      lex (before ++ quotation units ++ after) =
        .ok (tokens ++ ⟨kind, quotation units, before.length⟩ ::
          found.map (Token.shift (before.length + (quotation units).length)))
  /-- What is between the quotes is decoded unit by unit, and so is the value of the literal. -/
  value : ∀ (t : Token) (units : List (Unit quote)), t.kind = kind → t.literal = quotation units →
    Escape.decode t.literal.tail.dropLast = units.map Unit.value ∧
      ∀ inner rest, Rule.primary inner (t :: rest) =
        .ok (.literal (.text (units.map Unit.value))) rest
  /-- Each token of the kind in a text holds units that fit and can be split in no other way, so
  that every backslash in it begins an escape. -/
  units : ∀ text tokens, Pebble.lex text = .ok tokens → ∀ t ∈ tokens, t.kind = kind →
    (∃ units, Fits units ∧ t.literal = quotation units ∧
      ∀ units' : List (Unit quote), t.literal = quotation units' → units' = units) ∧
    Escape.decodeExact? t.literal.tail.dropLast = some (Escape.decode t.literal.tail.dropLast)

lemma Quotes.readByUnits {kind : TokenKind} {Fits : List (Unit quote) → Prop}
    (h : Quotes kind quote Fits) : ReadByUnits kind quote Fits where
  token _ hfits before after := h.run_token hfits before after
  lex _ hfits _ _ _ _ hbefore hafter := h.lex_between hfits hbefore hafter
  value t units hkind hliteral := by
    refine ⟨?_, h.primary_eq hkind hliteral⟩
    rw [hliteral, body_quotation, Unit.decode_texts]
  units text tokens hlex t ht hkind := by
    obtain ⟨units, hfits, hliteral⟩ := h.exists_units hlex ht hkind
    refine ⟨⟨units, hfits, hliteral, fun units' hunits' => ?_⟩, ?_⟩
    · exact quotation_injective (hunits'.symm.trans hliteral)
    · rw [hliteral, body_quotation, Unit.decodeExact?_texts, Unit.decode_texts]

end Lexeme

open Lexeme in
/-- **Strings and characters are read unit by unit**, a string with any units and a character with
one, so that its value is one character. Every text is the value of a string. -/
theorem read_by_units :
    ReadByUnits .string '"' (fun _ => True) ∧
      ReadByUnits .character '\'' (fun units => units.length = 1) ∧
      (∀ text tokens, lex text = .ok tokens → ∀ t ∈ tokens, t.kind = .character →
        ∃ c, ∀ inner rest, Rule.primary inner (t :: rest) = .ok (.literal (.text [c])) rest) ∧
      ∀ text : Text,
        let token : Token := ⟨.string, '"' :: (Escape.encode text ++ ['"']), 0⟩
        lex token.literal = .ok [token] ∧
          ∀ inner rest, Rule.primary inner (token :: rest) = .ok (.literal (.text text)) rest := by
  refine ⟨quotes_string.readByUnits, quotes_character.readByUnits, ?_, ?_⟩
  · -- a character literal has one unit
    intro text tokens hlex t ht hkind
    obtain ⟨units, hlength, hliteral⟩ := quotes_character.exists_units hlex ht hkind
    obtain ⟨u, rfl⟩ := List.length_eq_one_iff.mp hlength
    exact ⟨u.value, quotes_character.primary_eq hkind hliteral⟩
  · -- every text is the value of the units that it is escaped to
    intro text token
    obtain ⟨units, hunits⟩ := mem_units_iff.mp (Escape.encode_mem text)
    have hliteral : token.literal = quotation units := by
      rw [quotation, hunits]
    have hvalue : units.map Unit.value = text := by
      rw [← Unit.decode_texts, hunits, Escape.decode_encode]
    refine ⟨?_, ?_⟩
    · have hlex := quotes_string.lex_quotation units trivial
      rwa [← hliteral] at hlex
    · rw [← hvalue]
      exact quotes_string.primary_eq rfl hliteral

end Pebble
