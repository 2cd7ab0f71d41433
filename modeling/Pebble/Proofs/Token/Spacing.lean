import Pebble.Proofs.Token.Malformed
import Pebble.Token.Keyword

/-!
Spacing: literals written one after the other, with blanks between them, are found again, whatever
the blanks are. A keyword is found as well if letters of it change their case.
-/

namespace Pebble

structure Piece where
  kind : TokenKind
  literal : Text
  gap : Text
  deriving DecidableEq, Repr

def spaced (pieces : List Piece) : Text := pieces.flatMap fun piece => piece.literal ++ piece.gap

/-- The tokens that some pieces are, from an offset on. -/
def placed (offset : Int) : List Piece → List Token
  | [] => []
  | piece :: pieces =>
    ⟨piece.kind, piece.literal, offset⟩ ::
      placed (offset + piece.literal.length + piece.gap.length) pieces

/-- Nothing but blanks is written after the literals, and something after each but the last. -/
structure Apart (pieces : List Piece) : Prop where
  blank : ∀ piece ∈ pieces, ∀ c ∈ piece.gap, Scan.isBlank c
  gap_ne_nil : ∀ piece ∈ pieces.dropLast, piece.gap ≠ []

/-! ### Blanks -/

/-- A literal is left as it is by a character with which no literal goes on. -/
lemma Lexeme.follow_of_strange {c : Char} (hpart : ¬ NamePart c) (hpoint : c ≠ '.')
    (hpairs : ∀ pair ∈ Scan.pairs, c ∉ pair) (kind : TokenKind) (literal : Text) :
    Follow kind literal (some c) := by
  have hdigit : ¬ Digit c := fun hdigit => hpart (.inr hdigit)
  have hpair : literal ++ [c] ∉ Scan.pairs := fun hpair => hpairs _ hpair (by simp)
  cases kind <;> simp [Follow, hdigit, hpart, hpoint, hpair]

lemma Lexeme.follow_of_blank (kind : TokenKind) (literal : Text) {c : Char}
    (h : Scan.isBlank c) : Follow kind literal (some c) := by
  have hc : c = ' ' ∨ c = '\t' ∨ c = '\r' ∨ c = '\n' := by
    simpa [Scan.isBlank, or_assoc] using h
  have hpart : ¬ NamePart c := by
    rw [← isNamePart_iff]
    rcases hc with rfl | rfl | rfl | rfl <;> decide
  have hpoint : c ≠ '.' := by rcases hc with rfl | rfl | rfl | rfl <;> decide
  have hpairs : ∀ pair ∈ Scan.pairs, c ∉ pair := by
    rcases hc with rfl | rfl | rfl | rfl <;> decide
  exact follow_of_strange hpart hpoint hpairs kind literal

lemma scan_blanks (offset : Int) {gap : Text} (h : ∀ c ∈ gap, Scan.isBlank c) (next : Text) :
    (scan offset (gap ++ next)).tokens = (scan (offset + gap.length) next).tokens ∧
      (scan offset (gap ++ next)).report = (scan (offset + gap.length) next).report := by
  induction gap generalizing offset with
  | nil => simp
  | cons c gap ih =>
    obtain ⟨hc, hgap⟩ := List.forall_mem_cons.mp h
    obtain ⟨htokens, hreport⟩ := ih (offset + 1) hgap
    have hoffset : offset + 1 + gap.length = offset + (c :: gap).length := by
      rw [List.length_cons, Int.natCast_add, Int.natCast_one]
      omega
    rw [List.cons_append, scan_blank _ hc, ← hoffset]
    exact ⟨htokens, hreport⟩

/-! ### Pieces -/

lemma spaced_cons (piece : Piece) (pieces : List Piece) :
    spaced (piece :: pieces) = piece.literal ++ (piece.gap ++ spaced pieces) := by
  simp [spaced]

lemma Apart.tail {piece : Piece} {pieces : List Piece} (h : Apart (piece :: pieces)) :
    Apart pieces where
  blank p hp := h.blank p (List.mem_cons_of_mem _ hp)
  gap_ne_nil p hp := by
    refine h.gap_ne_nil p ?_
    cases pieces with
    | nil => cases hp
    | cons q pieces => exact List.mem_cons_of_mem _ hp

lemma Apart.follow {piece : Piece} {pieces : List Piece} (h : Apart (piece :: pieces)) :
    Lexeme.Follow piece.kind piece.literal (piece.gap ++ spaced pieces).head? := by
  cases hgap : piece.gap with
  | nil =>
    obtain rfl : pieces = [] := by
      by_contra hne
      obtain ⟨q, others, rfl⟩ := List.exists_cons_of_ne_nil hne
      exact h.gap_ne_nil piece (by simp) hgap
    exact Lexeme.follow_none _ _
  | cons c gap =>
    have hc := h.blank piece List.mem_cons_self c (by simp [hgap])
    exact Lexeme.follow_of_blank _ _ hc

/-- **Pieces are found again** where they are written. -/
lemma scan_spaced {pieces : List Piece} (h : Apart pieces)
    (hmem : ∀ piece ∈ pieces, piece.literal ∈ Lexeme.language piece.kind) (offset : Int) :
    (scan offset (spaced pieces)).report = none ∧
      (scan offset (spaced pieces)).tokens = placed offset pieces := by
  induction pieces generalizing offset with
  | nil =>
    rw [spaced, List.flatMap_nil, scan]
    exact ⟨rfl, rfl⟩
  | cons piece pieces ih =>
    obtain ⟨hpiece, hpieces⟩ := List.forall_mem_cons.mp hmem
    -- the literal is cut off, then its blanks are skipped, and the others are found behind them
    have hcuts : Lexeme.Cuts (piece.literal ++ (piece.gap ++ spaced pieces)) piece.kind
        piece.literal.length := ⟨_, _, rfl, rfl, hpiece, h.follow⟩
    obtain ⟨htokens, hreport⟩ := scan_blanks (offset + piece.literal.length)
      (h.blank piece List.mem_cons_self) (spaced pieces)
    obtain ⟨hreport', htokens'⟩ := ih h.tail hpieces
      (offset + piece.literal.length + piece.gap.length)
    rw [spaced_cons, scan_literal offset (Lexeme.token_of_cuts hcuts)]
    refine ⟨hreport.trans hreport', ?_⟩
    rw [htokens, htokens', placed]

/-- Text is split in the same way behind blanks, so many characters further on. -/
lemma lex_spaced {lead : Text} {pieces : List Piece} (hlead : ∀ c ∈ lead, Scan.isBlank c)
    (h : Apart pieces) (hmem : ∀ piece ∈ pieces, piece.literal ∈ Lexeme.language piece.kind) :
    lex (lead ++ spaced pieces) = .ok (placed lead.length pieces) := by
  obtain ⟨htokens, hreport⟩ := scan_blanks 0 hlead (spaced pieces)
  rw [Int.zero_add] at htokens hreport
  obtain ⟨hreport', htokens'⟩ := scan_spaced h hmem lead.length
  exact lex_eq_ok.mpr ⟨hreport.trans hreport', htokens.trans htokens'⟩

/-! ### Letters of either case -/

namespace Text

lemma toNat_toLower (c : Char) :
    c.toLower.toNat = if 65 ≤ c.toNat ∧ c.toNat ≤ 90 then c.toNat + 32 else c.toNat := by
  have hcapital : (c.val ≥ 'A'.val ∧ c.val ≤ 'Z'.val) ↔ 65 ≤ c.toNat ∧ c.toNat ≤ 90 := by
    simp [UInt32.le_iff_toNat_le]
  unfold Char.toLower
  split
  · next h =>
    have hnat := hcapital.mp h
    rw [if_pos hnat, ← Char.toNat_val, UInt32.toNat_add, Char.toNat_val]
    exact Nat.mod_eq_of_lt (by simp; omega)
  · next h => rw [if_neg fun h' => h (hcapital.mpr h')]

lemma toNat_toUpper (c : Char) :
    c.toUpper.toNat = if 97 ≤ c.toNat ∧ c.toNat ≤ 122 then c.toNat - 32 else c.toNat := by
  have hsmall : ('a'.val ≤ c.val ∧ c.val ≤ 'z'.val) ↔ 97 ≤ c.toNat ∧ c.toNat ≤ 122 := by
    simp [UInt32.le_iff_toNat_le]
  unfold Char.toUpper
  split
  · next h =>
    have hnat := hsmall.mp h
    have hshift : ('A'.val - 'a'.val).toNat = 2 ^ 32 - 32 := by decide
    rw [if_pos hnat, ← Char.toNat_val, UInt32.toNat_add, Char.toNat_val, hshift]
    omega
  · next h => rw [if_neg fun h' => h (hsmall.mpr h')]

lemma toUpper_toLower (c : Char) : c.toLower.toUpper = c.toUpper := by
  rw [← Char.toNat_inj, toNat_toUpper, toNat_toUpper, toNat_toLower]
  split_ifs <;> omega

end Text

namespace Lexeme

variable {c : Char}

lemma nameStart_iff_toNat : NameStart c ↔
    (65 ≤ c.toNat ∧ c.toNat ≤ 90) ∨ (97 ≤ c.toNat ∧ c.toNat ≤ 122) ∨ c.toNat = 95 := by
  have hunderscore : c = '_' ↔ c.toNat = 95 := ⟨fun h => h ▸ rfl, fun h => Char.toNat_inj.mp h⟩
  simp only [NameStart, Char.le_def, UInt32.le_iff_toNat_le, hunderscore]
  rfl

lemma digit_iff_toNat : Digit c ↔ 48 ≤ c.toNat ∧ c.toNat ≤ 57 := by
  simp only [Digit, Char.le_def, UInt32.le_iff_toNat_le]
  rfl

lemma nameStart_toLower : NameStart c.toLower ↔ NameStart c := by
  rw [nameStart_iff_toNat, nameStart_iff_toNat, Text.toNat_toLower]
  split_ifs <;> omega

lemma namePart_toLower : NamePart c.toLower ↔ NamePart c := by
  rw [NamePart, NamePart, nameStart_toLower, digit_iff_toNat, digit_iff_toNat, Text.toNat_toLower]
  split_ifs
  · rw [nameStart_iff_toNat]
    omega
  · rfl

/-- In names the capitals are those of ASCII. -/
lemma capital_of_namePart (h : NamePart c) : Keyword.capital c = c.toUpper := by
  have hle : c.toNat ≤ 122 := by
    rw [NamePart, nameStart_iff_toNat, digit_iff_toNat] at h
    omega
  have hi : c ≠ 'ı' := by
    rintro rfl
    exact absurd hle (by decide)
  have hs : c ≠ 'ſ' := by
    rintro rfl
    exact absurd hle (by decide)
  rw [Keyword.capital, if_neg hi, if_neg hs]

section

variable {literal literal' : Text}

lemma identifier_of_toLower (h : literal'.map Char.toLower = literal.map Char.toLower)
    (hmem : literal ∈ language .identifier) : literal' ∈ language .identifier := by
  obtain ⟨c, rest, hc, hrest, rfl⟩ := mem_one_mul.mp hmem
  obtain ⟨d, rest', rfl, hd, hmap⟩ := List.map_eq_cons_iff.mp h
  refine mem_one_mul.mpr ⟨d, rest', ?_, mem_one_kstar.mpr fun e he => ?_, rfl⟩
  · rw [← nameStart_toLower, hd, nameStart_toLower]
    exact hc
  · have hlower : e.toLower ∈ rest.map Char.toLower := hmap ▸ List.mem_map_of_mem he
    obtain ⟨f, hf, hfe⟩ := List.mem_map.mp hlower
    rw [← namePart_toLower, ← hfe, namePart_toLower]
    exact mem_one_kstar.mp hrest f hf

lemma namePart_of_identifier (h : literal ∈ language .identifier) :
    ∀ c ∈ literal, NamePart c := by
  obtain ⟨c, rest, hc, hrest, rfl⟩ := mem_one_mul.mp h
  exact List.forall_mem_cons.mpr ⟨.inl hc, mem_one_kstar.mp hrest⟩

lemma ofText?_of_toLower (h : literal'.map Char.toLower = literal.map Char.toLower)
    (hmem : literal ∈ language .identifier) :
    Keyword.ofText? literal' = Keyword.ofText? literal := by
  have hupper : ∀ l : Text, l ∈ language .identifier →
      l.map Keyword.capital = (l.map Char.toLower).map Char.toUpper := by
    intro l hl
    rw [List.map_map]
    refine List.map_congr_left fun c hc => ?_
    rw [capital_of_namePart (namePart_of_identifier hl c hc)]
    exact (Text.toUpper_toLower c).symm
  rw [Keyword.ofText?, Keyword.ofText?, hupper literal hmem,
    hupper literal' (identifier_of_toLower h hmem), h]

end

end Lexeme

/-- A piece that is written for a token: it has the literal of the token, or letters in the other
case if that is a keyword. -/
structure Token.Respelled (t : Token) (piece : Piece) : Prop where
  kind : piece.kind = t.kind
  literal : piece.literal = t.literal ∨
    (t.isKeyword ∧ piece.literal.map Char.toLower = t.literal.map Char.toLower)

namespace Token.Respelled

variable {t : Token} {piece : Piece}

/-- Only a keyword changes, and it is the same keyword in other letters. -/
lemma cases (h : t.Respelled piece) (hmem : t.literal ∈ Lexeme.language t.kind) :
    piece.literal = t.literal ∨
      (t.kind = .identifier ∧ piece.literal ∈ Lexeme.language .identifier ∧
        (Keyword.ofText? t.literal).isSome ∧
        Keyword.ofText? piece.literal = Keyword.ofText? t.literal) := by
  refine h.literal.imp_right fun ⟨hkeyword, hlower⟩ => ?_
  rw [isKeyword, keyword?] at hkeyword
  split at hkeyword
  · next hkind =>
    rw [hkind] at hmem
    exact ⟨hkind, Lexeme.identifier_of_toLower hlower hmem, hkeyword,
      Lexeme.ofText?_of_toLower hlower hmem⟩
  · cases hkeyword

lemma literal_mem (h : t.Respelled piece) (hmem : t.literal ∈ Lexeme.language t.kind) :
    piece.literal ∈ Lexeme.language piece.kind := by
  rw [h.kind]
  rcases h.cases hmem with hsame | ⟨hkind, hidentifier, -⟩
  · rwa [hsame]
  · rwa [hkind]

end Token.Respelled

end Pebble
