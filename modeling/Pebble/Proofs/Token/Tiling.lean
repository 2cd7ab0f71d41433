import Pebble.Proofs.Token.Rules

/-!
The scan finds the tokens that tile a text: they stand in it one after the other, nothing but
blanks lies between them, and each is a literal of its kind that is cut off from what follows it.
-/

namespace Pebble

/-- A token stands in a text where its offset says, and is cut off there. -/
structure Token.Stands (text : Text) (token : Token) : Prop where
  nonempty : token.literal ≠ []
  slice : Text.slice text token.offset token.stop = token.literal
  mem : token.literal ∈ Lexeme.language token.kind
  follow : Lexeme.Follow token.kind token.literal text[token.stop.toNat]?

def Token.Covers (token : Token) (place : Nat) : Prop :=
  token.offset ≤ place ∧ place < token.stop

/-- Tokens tile a text from the place `start` on. -/
structure Tiles (text : Text) (start : Nat) (tokens : List Token) : Prop where
  stands : ∀ token ∈ tokens, token.Stands text
  start_le : ∀ token ∈ tokens, start ≤ token.offset
  ordered : tokens.Pairwise fun a b => a.stop ≤ b.offset
  blank : ∀ place (h : place < text.length), start ≤ place →
    (∀ token ∈ tokens, ¬ token.Covers place) → text[place] ∈ [' ', '\t', '\r', '\n']

variable {text : Text} {start length : Nat} {kind : TokenKind} {literal : Text}
  {tokens others : List Token}

/-! ### A single token -/

lemma place_natCast (n : Nat) : Text.place length n = min n length := by
  simp [Text.place, Int.not_ofNat_neg]

/-- The slice for a literal is the literal just if the text goes on with it. -/
lemma slice_eq_iff (hne : literal ≠ []) :
    Text.slice text start (start + literal.length) = literal ↔
      (text.drop start).take literal.length = literal := by
  have hpos : 0 < literal.length := List.length_pos_iff.mpr hne
  rw [← Int.natCast_add]
  by_cases hstop : start + literal.length ≤ text.length
  · rw [Text.slice_natCast text hstop, Nat.add_sub_cancel_left]
  · -- past the end both sides are too short to be the literal
    constructor
    · intro h
      have hlength := congrArg List.length h
      simp only [Text.slice, place_natCast, List.length_take, List.length_drop] at hlength
      omega
    · intro h
      have hlength := congrArg List.length h
      simp only [List.length_take, List.length_drop] at hlength
      omega

lemma stands_iff : Token.Stands text ⟨kind, literal, start⟩ ↔
    Scan.token (text.drop start) = .token kind literal.length ∧
      (text.drop start).take literal.length = literal := by
  -- the character behind the literal, by its index and as the head of what is left
  have hnext : text[(start + literal.length : Int).toNat]? =
      ((text.drop start).drop literal.length).head? := by
    rw [List.drop_drop, List.head?_drop]
    rfl
  constructor
  · rintro ⟨hne, hslice, hmem, hfollow⟩
    have htake : (text.drop start).take literal.length = literal := (slice_eq_iff hne).mp hslice
    have happend := List.take_append_drop literal.length (text.drop start)
    rw [htake] at happend
    exact ⟨Lexeme.token_of_cuts ⟨literal, _, happend, rfl, hmem, hnext ▸ hfollow⟩, htake⟩
  · rintro ⟨htoken, htake⟩
    obtain ⟨literal', rest, happend, hlength, hmem, hfollow⟩ := Lexeme.cuts_of_token htoken
    obtain rfl : literal' = literal := by
      rw [← htake, ← happend, ← hlength, List.take_left]
    have hrest : (text.drop start).drop literal'.length = rest := by
      rw [← happend, List.drop_left]
    have hne := Lexeme.ne_nil_of_mem hmem
    refine ⟨hne, (slice_eq_iff hne).mpr htake, hmem, ?_⟩
    rw [Token.stop, hnext, hrest]
    exact hfollow

lemma isBlank_iff {c : Char} : Scan.isBlank c = true ↔ c ∈ [' ', '\t', '\r', '\n'] := by
  simp [Scan.isBlank, or_assoc]

lemma token_blank {c : Char} {next : Text} (h : Scan.isBlank c) :
    Scan.token (c :: next) ≠ .token kind length := by
  have hblanks : c = ' ' ∨ c = '\t' ∨ c = '\r' ∨ c = '\n' := by
    simpa using isBlank_iff.mp h
  rcases hblanks with rfl | rfl | rfl | rfl <;> exact Scan.Outcome.noConfusion

/-! ### Tiling step by step -/

lemma Token.Stands.lt_stop {token : Token} (h : token.Stands text) :
    token.offset < token.stop := by
  have hpos := List.length_pos_iff.mpr h.nonempty
  unfold Token.stop
  omega

/-- A token that stands in a text is the one the scan finds there. -/
lemma Token.Stands.token_eq {token : Token} (h : token.Stands text)
    (hstart : token.offset = start) :
    Scan.token (text.drop start) = .token token.kind token.literal.length ∧
      token = ⟨token.kind, (text.drop start).take token.literal.length, start⟩ := by
  obtain ⟨kind, literal, offset⟩ := token
  obtain rfl : offset = start := hstart
  obtain ⟨htoken, htake⟩ := stands_iff.mp h
  exact ⟨htoken, by rw [htake]⟩

lemma Token.Stands.start_lt {token : Token} (h : token.Stands text)
    (hstart : token.offset = start) : start < text.length := by
  have hne := h.nonempty
  rw [(h.token_eq hstart).2] at hne
  by_contra hlength
  rw [List.drop_eq_nil_of_le (by omega)] at hne
  simp at hne

lemma Token.Stands.stop_le {token : Token} (h : token.Stands text)
    (hstart : token.offset = start) : token.stop ≤ text.length := by
  have hlt := h.start_lt hstart
  have hlength := congrArg (fun t : Token => t.literal.length) (h.token_eq hstart).2
  dsimp only at hlength
  rw [List.length_take, List.length_drop] at hlength
  rw [Token.stop, hstart]
  omega

/-- Where a text goes on with no blank, the first of the tokens begins. -/
lemma Tiles.head_offset (h : Tiles text start tokens) (hstart : start < text.length)
    (hblank : ¬ Scan.isBlank text[start]) :
    ∃ first others, tokens = first :: others ∧ first.offset = start := by
  obtain ⟨token, hmem, hcovers⟩ : ∃ token ∈ tokens, token.Covers start := by
    by_contra hnone
    push Not at hnone
    exact hblank (isBlank_iff.mpr (h.blank start hstart le_rfl hnone))
  cases tokens with
  | nil => cases hmem
  | cons first others =>
    refine ⟨first, others, rfl, le_antisymm ?_ (h.start_le first (by simp))⟩
    rcases List.mem_cons.mp hmem with rfl | hothers
    · exact hcovers.1
    · -- the token that covers the place cannot come after the first one
      have hordered := (List.pairwise_cons.mp h.ordered).1 token hothers
      have hfirst := (h.stands first (by simp)).lt_stop
      have := hcovers.1
      omega

lemma tiles_end (h : text.length ≤ start) : Tiles text start tokens ↔ tokens = [] := by
  constructor
  · intro htiles
    rw [List.eq_nil_iff_forall_not_mem]
    intro token hmem
    have hle := htiles.start_le token hmem
    obtain ⟨place, hplace⟩ : ∃ place : Nat, token.offset = place :=
      ⟨token.offset.toNat, by omega⟩
    have := (htiles.stands token hmem).start_lt hplace
    omega
  · rintro rfl
    exact ⟨by simp, by simp, .nil, fun place hplace hle => by omega⟩

lemma tiles_blank (hstart : start < text.length) (hblank : Scan.isBlank text[start]) :
    Tiles text start tokens ↔ Tiles text (start + 1) tokens := by
  constructor
  · intro h
    refine ⟨h.stands, fun token hmem => ?_, h.ordered, fun place hplace hle => ?_⟩
    · -- no token begins at a blank
      have hle := h.start_le token hmem
      have hne : token.offset ≠ start := by
        intro heq
        have htoken := ((h.stands token hmem).token_eq heq).1
        rw [List.drop_eq_getElem_cons hstart] at htoken
        exact token_blank hblank htoken
      omega
    · exact h.blank place hplace (by omega)
  · intro h
    refine ⟨h.stands, fun token hmem => ?_, h.ordered, fun place hplace hle hnone => ?_⟩
    · have := h.start_le token hmem
      omega
    · rcases Nat.eq_or_lt_of_le hle with rfl | hlt
      · exact isBlank_iff.mp hblank
      · exact h.blank place hplace hlt hnone

lemma Tiles.tail {first : Token} (h : Tiles text start (first :: others))
    (hstop : first.stop = (start + length : Nat)) : Tiles text (start + length) others := by
  obtain ⟨hfirst, hordered⟩ := List.pairwise_cons.mp h.ordered
  refine ⟨fun token hmem => h.stands token (.tail _ hmem), fun token hmem => ?_, hordered,
    fun place hplace hle hnone => ?_⟩
  · exact hstop ▸ hfirst token hmem
  · refine h.blank place hplace (by omega) (List.forall_mem_cons.mpr ⟨?_, hnone⟩)
    intro hcovers
    have := hcovers.2
    omega

lemma Tiles.cons {first : Token} (h : Tiles text (start + length) others)
    (hstands : first.Stands text) (hstart : first.offset = start)
    (hstop : first.stop = (start + length : Nat)) : Tiles text start (first :: others) := by
  refine ⟨List.forall_mem_cons.mpr ⟨hstands, h.stands⟩,
    List.forall_mem_cons.mpr ⟨hstart.ge, fun token hmem => ?_⟩,
    List.pairwise_cons.mpr ⟨fun token hmem => hstop ▸ h.start_le token hmem, h.ordered⟩,
    fun place hplace hle hnone => ?_⟩
  · have := h.start_le token hmem
    omega
  · obtain ⟨hfirst, hothers⟩ := List.forall_mem_cons.mp hnone
    refine h.blank place hplace ?_ hothers
    by_contra hlt
    exact hfirst ⟨by omega, by omega⟩

lemma token_length_pos (htoken : Scan.token text = .token kind length) : 0 < length := by
  obtain ⟨literal, rest, rfl, rfl, hmem, -⟩ := Lexeme.cuts_of_token htoken
  exact List.length_pos_iff.mpr (Lexeme.ne_nil_of_mem hmem)

lemma tiles_token (htoken : Scan.token (text.drop start) = .token kind length) :
    Tiles text start tokens ↔ ∃ others,
      tokens = ⟨kind, (text.drop start).take length, start⟩ :: others ∧
        Tiles text (start + length) others := by
  -- the token that is found shows that there is a character, and no blank
  have hstart : start < text.length := by
    by_contra hend
    rw [List.drop_eq_nil_of_le (by omega)] at htoken
    cases htoken
  have hblank : ¬ Scan.isBlank text[start] := by
    intro hblank
    rw [List.drop_eq_getElem_cons hstart] at htoken
    exact token_blank hblank htoken
  have hlength : ((text.drop start).take length).length = length := by
    obtain ⟨literal, rest, happend, rfl, -⟩ := Lexeme.cuts_of_token htoken
    rw [← happend, List.take_left]
  constructor
  · intro h
    obtain ⟨first, others, rfl, hoffset⟩ := h.head_offset hstart hblank
    obtain ⟨hfirst, heq⟩ := (h.stands first (by simp)).token_eq hoffset
    obtain ⟨hkind, hliteral⟩ : kind = first.kind ∧ length = first.literal.length := by
      simpa using htoken.symm.trans hfirst
    rw [← hkind, ← hliteral] at heq
    refine ⟨others, congrArg (· :: others) heq, h.tail ?_⟩
    rw [Token.stop, hoffset, ← hliteral, Int.natCast_add]
  · rintro ⟨others, rfl, h⟩
    refine h.cons (stands_iff.mpr ?_) rfl ?_
    · rw [hlength]
      exact ⟨htoken, rfl⟩
    · rw [Token.stop, hlength, Int.natCast_add]

/-! ### The whole text -/

lemma scan_blank (offset : Int) {c : Char} {next : Text} (h : Scan.isBlank c) :
    scan offset (c :: next) =
      { scan (offset + 1) next with read := (scan (offset + 1) next).read + 1 } := by
  rw [scan, if_pos h]

lemma scan_fault (offset : Int) {c : Char} {next : Text} {cause : Fault} {place read : Nat}
    (h : ¬ Scan.isBlank c) (hfault : Scan.token (c :: next) = .fault cause place read) :
    scan offset (c :: next) = ⟨[], read, some (cause.report (offset + place))⟩ := by
  rw [scan, if_neg h, hfault]

lemma scan_token (offset : Int) {c : Char} {next : Text} (h : ¬ Scan.isBlank c)
    (htoken : Scan.token (c :: next) = .token kind length) :
    scan offset (c :: next) =
      { scan (offset + length) (next.drop (length - 1)) with
        tokens := ⟨kind, (c :: next).take length, offset⟩ ::
          (scan (offset + length) (next.drop (length - 1))).tokens
        read := (scan (offset + length) (next.drop (length - 1))).read + length } := by
  rw [scan, if_neg h, htoken]

lemma scan_literal (offset : Int) {others : Text}
    (htoken : Scan.token (literal ++ others) = .token kind literal.length) :
    scan offset (literal ++ others) =
      ⟨⟨kind, literal, offset⟩ :: (scan (offset + literal.length) others).tokens,
        (scan (offset + literal.length) others).read + literal.length,
        (scan (offset + literal.length) others).report⟩ := by
  obtain ⟨c, tail, rfl⟩ := List.exists_cons_of_length_pos (token_length_pos htoken)
  have hblank : ¬ Scan.isBlank c := fun h => token_blank h htoken
  rw [List.cons_append] at htoken ⊢
  rw [scan_token offset hblank htoken]
  simp

/-- A scan that meets no fault finds the tokens that tile the rest of the text. -/
lemma scan_tiles : (scan start (text.drop start)).report = none ∧
    (scan start (text.drop start)).tokens = tokens ↔ Tiles text start tokens := by
  -- On the characters that are left: at the end nothing may be covered, a blank is never covered,
  -- and where a token is found the first one of the tiling is that token.
  induction hleft : text.length - start using Nat.strong_induction_on
    generalizing start tokens with
  | _ left ih =>
    by_cases hend : text.length ≤ start
    · rw [tiles_end hend, List.drop_eq_nil_of_le hend, scan]
      simp [eq_comm]
    have hstart : start < text.length := by omega
    have hdrop := List.drop_eq_getElem_cons hstart
    by_cases hblank : Scan.isBlank text[start]
    · rw [tiles_blank hstart hblank, ← ih _ (by omega) rfl, hdrop, scan_blank _ hblank,
        Int.natCast_add, Int.natCast_one]
    cases htoken : Scan.token (text.drop start) with
    | fault cause place read =>
      have hfault := scan_fault start hblank (hdrop ▸ htoken)
      rw [hdrop, hfault]
      -- no token of a tiling could begin here
      refine iff_of_false (by simp) fun h => ?_
      obtain ⟨first, others, rfl, hoffset⟩ := h.head_offset hstart hblank
      have hfirst := ((h.stands first (by simp)).token_eq hoffset).1
      rw [htoken] at hfirst
      cases hfirst
    | token kind length =>
      have hpos := token_length_pos htoken
      have hscan := scan_token start hblank (hdrop ▸ htoken)
      -- the scan goes on behind the first character, the tiling behind the token
      have hnext : (text.drop (start + 1)).drop (length - 1) = text.drop (start + length) := by
        rw [List.drop_drop]
        congr 1
        omega
      rw [← hdrop, hnext, ← Int.natCast_add] at hscan
      rw [tiles_token htoken, hscan]
      simp only [← ih _ (show text.length - (start + length) < left by omega) rfl]
      constructor
      · rintro ⟨hreport, rfl⟩
        exact ⟨_, rfl, hreport, rfl⟩
      · rintro ⟨others, rfl, hreport, rfl⟩
        exact ⟨hreport, rfl⟩

lemma lex_eq_ok : lex text = .ok tokens ↔
    (scan 0 text).report = none ∧ (scan 0 text).tokens = tokens := by
  unfold lex
  split
  next report hreport => simp [hreport]
  next hreport => simp [hreport]

lemma lex_eq_error {report : Report} :
    lex text = .error report ↔ (scan 0 text).report = some report := by
  unfold lex
  split
  next report' hreport => simp [hreport]
  next hreport => simp [hreport]

/-- The tokens of a text lie between its ends. -/
lemma Tiles.bounds (h : Tiles text 0 tokens) :
    ∀ t ∈ tokens, 0 ≤ t.offset ∧ t.offset < t.stop ∧ t.stop ≤ text.length := by
  intro t ht
  have hstands := h.stands t ht
  obtain ⟨start, hstart⟩ := Int.eq_ofNat_of_zero_le (h.start_le t ht)
  exact ⟨h.start_le t ht, hstands.lt_stop, hstands.stop_le hstart⟩

theorem Tiles.unique {tokens' : List Token} (h : Tiles text start tokens)
    (h' : Tiles text start tokens') : tokens = tokens' :=
  (scan_tiles.mpr h).2.symm.trans (scan_tiles.mpr h').2

/-- **Soundness and completeness**: the tokens of a text are those that tile it. -/
theorem lex_eq_ok_iff_tiles (text : Text) (tokens : List Token) :
    lex text = .ok tokens ↔ Tiles text 0 tokens :=
  lex_eq_ok.trans (@scan_tiles text 0 tokens)

end Pebble
