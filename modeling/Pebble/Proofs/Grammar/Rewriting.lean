import Pebble.Proofs.Grammar.Likeness
import Pebble.Proofs.Grammar.Place
import Pebble.Proofs.Token.Layout
import Pebble.Proofs.Token.Spacing

/-!
Rewriting a source: neither the blanks between its tokens nor the case of its keywords matter. Only
offsets in reports follow the tokens to where they are written.
-/

namespace Pebble

namespace Token

variable {t : Token} {piece : Piece}

lemma alike_of_eq {t' : Token} (hkind : t'.kind = t.kind) (hliteral : t'.literal = t.literal) :
    t.Alike .same t' := by
  obtain ⟨kind, literal, offset⟩ := t
  obtain ⟨kind', literal', offset'⟩ := t'
  obtain rfl : kind' = kind := hkind
  obtain rfl : literal' = literal := hliteral
  exact ⟨.inl rfl, fun _ => rfl, rfl⟩

lemma Respelled.alike (h : t.Respelled piece) (hmem : t.literal ∈ Lexeme.language t.kind)
    (offset : Int) : t.Alike .same ⟨piece.kind, piece.literal, offset⟩ := by
  rcases h.cases hmem with hsame | ⟨hkind, -, hkeyword, hsame⟩
  · exact alike_of_eq h.kind hsame
  obtain ⟨word, hword⟩ := Option.isSome_iff_exists.mp hkeyword
  have hterminal : t.terminal = .word word := by simp [terminal, hkind, hword]
  have hterminal' : (⟨piece.kind, piece.literal, offset⟩ : Token).terminal = .word word := by
    simp [terminal, h.kind, hkind, hsame, hword]
  refine ⟨.inl (hterminal.trans hterminal'.symm), fun hname => ?_, ?_⟩
  · cases hterminal.symm.trans hname
  · rw [reading?, reading?, hterminal, hterminal']

end Token

lemma tokensAlike_placed {tokens : List Token} {pieces : List Piece}
    (h : List.Forall₂ Token.Respelled tokens pieces)
    (hmem : ∀ t ∈ tokens, t.literal ∈ Lexeme.language t.kind) (offset : Int) :
    TokensAlike .same tokens (placed offset pieces) := by
  induction h generalizing offset with
  | nil => exact .nil
  | cons hpiece _ ih =>
    obtain ⟨ht, hts⟩ := List.forall_mem_cons.mp hmem
    exact .cons (hpiece.alike ht offset) (ih hts _)

lemma literal_mem_of_respelled {tokens : List Token} {pieces : List Piece}
    (h : List.Forall₂ Token.Respelled tokens pieces)
    (hmem : ∀ t ∈ tokens, t.literal ∈ Lexeme.language t.kind) :
    ∀ piece ∈ pieces, piece.literal ∈ Lexeme.language piece.kind := by
  induction h with
  | nil => exact nofun
  | cons hpiece _ ih =>
    obtain ⟨ht, hts⟩ := List.forall_mem_cons.mp hmem
    exact List.forall_mem_cons.mpr ⟨hpiece.literal_mem ht, ih hts⟩

namespace Complaint.Alike

variable {cause cause' : Complaint}

lemma place_eq (h : cause.Alike cause') (taken : Nat) : cause.place taken = cause'.place taken := by
  cases h <;> rfl

end Complaint.Alike

/-- Two runs on the tokens of two texts come to the same place among them, with the same source,
with reports of one kind at the same place, which is that of the run or the one before, or with the
same fault of a numeral. -/
def SameRun (tokens tokens' : List Token) (run run' : Except Failure Source × Session) : Prop :=
  run.2.cursor.position = run'.2.cursor.position ∧
    match run.1, run'.1 with
    | .ok s, .ok s' => s = s'
    | .error (.report report), .error (.report report') =>
      report.kind = report'.kind ∧ (∃ kind, report.kind = .complaint kind) ∧
        ∃ place : Nat, (run.2.cursor.position = place ∨ run.2.cursor.position = place + 1) ∧
          report.offset = offsetAt tokens place ∧ report'.offset = offsetAt tokens' place
    | .error (.numeral fault), .error (.numeral fault') => fault = fault'
    | _, _ => False

lemma sameRun {tokens tokens' : List Token} (h : TokensAlike .same tokens tokens')
    (side : Associativity) :
    SameRun tokens tokens' ((Session.start side tokens).run (Rule.source side maxNesting))
      ((Session.start side tokens').run (Rule.source side maxNesting)) := by
  have hlike : Rule.Alike (Comparison.upTo .same side).toTokenComparison
      (fun s s' => s.relabel .same = s'.relabel .same) (Rule.source side maxNesting tokens)
      (Rule.source side maxNesting tokens') :=
    Rule.agree_source (.upTo .same side) maxNesting tokens tokens' h
  rw [Session.run_start_eq, Session.run_start_eq]
  generalize Rule.source side maxNesting tokens = out at hlike ⊢
  generalize Rule.source side maxNesting tokens' = out' at hlike ⊢
  have htaken : ∀ {rest rest' : List Token}, TokensAlike .same rest rest' →
      tokens.length - rest.length = tokens'.length - rest'.length := fun hrest => by
    rw [h.length_eq, hrest.length_eq]
  cases hlike with
  | ok hs hrest => exact ⟨congrArg Nat.cast (htaken hrest), by simpa using hs⟩
  | @complaint cause cause' rest rest' hcause hrest =>
    refine ⟨congrArg Nat.cast (htaken hrest), congrArg ReportKind.complaint hcause.kind_eq,
      ⟨_, rfl⟩, cause.place (tokens.length - rest.length), ?_, rfl, ?_⟩
    · have hplace := cause.place_cases (tokens.length - rest.length)
      simp only [Session.taking]
      omega
    · rw [htaken hrest, hcause.place_eq]
      rfl
  | numeral hrest => exact ⟨congrArg Nat.cast (htaken hrest), rfl⟩

/-- **Layout and the case of keywords do not matter**: the tokens of a text, written again with
any blanks between them and the keywords in any case, are found again where they are written, and
are read as the same source or rejected in the same way at the same place among them. -/
theorem sameRun_respelled {text lead : Text} {tokens : List Token} {pieces : List Piece}
    (hlex : lex text = .ok tokens) (hlead : ∀ c ∈ lead, Scan.isBlank c) (hapart : Apart pieces)
    (hpieces : List.Forall₂ Token.Respelled tokens pieces) :
    lex (lead ++ spaced pieces) = .ok (placed lead.length pieces) ∧
      ∀ side, SameRun tokens (placed lead.length pieces)
        ((Session.start side tokens).run (Rule.source side maxNesting))
        ((Session.start side (placed lead.length pieces)).run (Rule.source side maxNesting)) := by
  have hmem := mem_language_of_lex hlex
  exact ⟨lex_spaced hlead hapart (literal_mem_of_respelled hpieces hmem),
    sameRun (tokensAlike_placed hpieces hmem lead.length)⟩

/-- A field over two lines with a small keyword. -/
theorem sameRun_respelled_field :
    let tokens : List Token :=
      [⟨.identifier, ['L', 'E', 'T'], 0⟩, ⟨.identifier, ['a'], 4⟩, ⟨.operator, ['='], 5⟩,
        ⟨.integer, ['-', '1'], 6⟩, ⟨.operator, [';'], 8⟩]
    let pieces : List Piece :=
      [⟨.identifier, ['l', 'e', 'T'], ['\t']⟩, ⟨.identifier, ['a'], ['\r', '\n']⟩,
        ⟨.operator, ['='], [' ']⟩, ⟨.integer, ['-', '1'], [' ']⟩, ⟨.operator, [';'], []⟩]
    lex "LET a=-1;".toList = .ok tokens ∧ lex (' ' :: spaced pieces) = .ok (placed 1 pieces) ∧
      SameRun tokens (placed 1 pieces)
        ((Session.start .left tokens).run (Rule.source .left maxNesting))
        ((Session.start .left (placed 1 pieces)).run (Rule.source .left maxNesting)) := by
  intro tokens pieces
  have hlex : lex "LET a=-1;".toList = .ok tokens := by decide +kernel
  have hapart : Apart pieces := ⟨by simp [pieces, Scan.isBlank], by simp [pieces]⟩
  have hword : Token.Respelled ⟨.identifier, ['L', 'E', 'T'], 0⟩
      ⟨.identifier, ['l', 'e', 'T'], ['\t']⟩ := ⟨rfl, .inr ⟨by decide, by decide⟩⟩
  have hpieces : List.Forall₂ Token.Respelled tokens pieces :=
    .cons hword <| .cons ⟨rfl, .inl rfl⟩ <| .cons ⟨rfl, .inl rfl⟩ <| .cons ⟨rfl, .inl rfl⟩ <|
      .cons ⟨rfl, .inl rfl⟩ .nil
  have hlead : ∀ c ∈ [' '], Scan.isBlank c := by simp [Scan.isBlank]
  obtain ⟨hfound, hsame⟩ := sameRun_respelled hlex hlead hapart hpieces
  exact ⟨hlex, hfound, hsame .left⟩

end Pebble
