import Pebble.Proofs.Token.Locality
import Pebble.Text.Newline

/-!
Line ends: a text whose line ends are all made line feeds is split into the same tokens, as long as
no token has a carriage return in it. Each token comes nearer by one character for every carriage
return before it that a line feed follows.
-/

namespace Pebble

namespace Text

variable {text rest : Text} {c : Char}

/-- How many carriage returns have a line feed right after them. -/
def pairedReturns (text : Text) : Nat := (text.zip text.tail).count ('\r', '\n')

lemma pairedReturns_cons (c : Char) (text : Text) :
    pairedReturns (c :: text) =
      (if c = '\r' ∧ text.head? = some '\n' then 1 else 0) + pairedReturns text := by
  cases text with
  | nil => simp [pairedReturns]
  | cons d text =>
    rw [pairedReturns, List.tail_cons, List.zip_cons_cons, List.count_cons, Nat.add_comm]
    simp [pairedReturns]

/-- A text without carriage returns adds none to what follows it. -/
lemma pairedReturns_append {literal : Text} (h : '\r' ∉ literal) (text : Text) :
    pairedReturns (literal ++ text) = pairedReturns text := by
  induction literal with
  | nil => rfl
  | cons c literal ih =>
    have hc : c ≠ '\r' := (List.ne_of_not_mem_cons h).symm
    rw [List.cons_append, pairedReturns_cons, if_neg fun hpair => hc hpair.1, Nat.zero_add,
      ih (List.not_mem_of_not_mem_cons h)]

lemma unifyNewlines_pair (rest : Text) :
    unifyNewlines ('\r' :: '\n' :: rest) = '\n' :: unifyNewlines rest := by
  rw [unifyNewlines]

lemma unifyNewlines_return (h : rest.head? ≠ some '\n') :
    unifyNewlines ('\r' :: rest) = '\n' :: unifyNewlines rest := by
  rw [unifyNewlines]
  rintro others rfl
  exact h rfl

lemma unifyNewlines_cons (h : c ≠ '\r') (rest : Text) :
    unifyNewlines (c :: rest) = c :: unifyNewlines rest := by
  rw [unifyNewlines]
  · rintro others rfl
    exact absurd rfl h
  · exact h

lemma unifyNewlines_append {literal : Text} (h : '\r' ∉ literal) (rest : Text) :
    unifyNewlines (literal ++ rest) = literal ++ unifyNewlines rest := by
  induction literal with
  | nil => rfl
  | cons c literal ih =>
    have hc : c ≠ '\r' := (List.ne_of_not_mem_cons h).symm
    rw [List.cons_append, unifyNewlines_cons hc, ih (List.not_mem_of_not_mem_cons h),
      List.cons_append]

/-- What a text begins with stays, but for a carriage return, of which a line feed is made. -/
lemma head?_unifyNewlines (text : Text) :
    (unifyNewlines text).head? = text.head?.map fun c => if c = '\r' then '\n' else c := by
  rcases text with _ | ⟨c, text⟩
  · rw [unifyNewlines]
    rfl
  by_cases hc : c = '\r'
  · subst hc
    rcases text with _ | ⟨d, text⟩
    · rfl
    by_cases hd : d = '\n'
    · subst hd
      rw [unifyNewlines_pair]
      rfl
    · rw [unifyNewlines_return (by simpa using hd)]
      rfl
  · rw [unifyNewlines_cons hc]
    simp [hc]

end Text

namespace Token

/-- A token where it is once all line ends before it are line feeds. -/
def unified (text : Text) (t : Token) : Token :=
  { t with offset := t.offset - Text.pairedReturns (text.take t.offset.toNat) }

end Token

/-- A literal that is left as it is by what follows it is so with all line ends made line feeds. -/
lemma Lexeme.Follow.unify {kind : TokenKind} {literal rest : Text}
    (h : Follow kind literal rest.head?) :
    Follow kind literal (Text.unifyNewlines rest).head? := by
  rw [Text.head?_unifyNewlines]
  rcases rest with _ | ⟨c, rest⟩
  · exact h
  by_cases hc : c = '\r'
  · rw [List.head?_cons, Option.map_some, if_pos hc]
    exact follow_of_blank kind literal (by decide)
  · rw [List.head?_cons, Option.map_some, if_neg hc]
    exact h

section

variable {text lead next : Text} {pairs : Nat} {tokens : List Token}

/-- The tokens behind some characters come nearer by the pairs among these, and by those that are
before them in what follows. -/
lemma unified_shift (h : ∀ n, Text.pairedReturns (lead ++ next.take n) =
      pairs + Text.pairedReturns (next.take n)) {t : Token} (ht : 0 ≤ t.offset) :
    (t.shift lead.length).unified (lead ++ next) =
      (t.unified next).shift (lead.length - pairs) := by
  obtain ⟨kind, literal, offset⟩ := t
  obtain ⟨n, rfl⟩ := Int.eq_ofNat_of_zero_le ht
  have hplace : ((n : Int) + lead.length).toNat = lead.length + n := by omega
  have htake : (lead ++ next).take (lead.length + n) = lead ++ next.take n :=
    List.take_length_add_append n
  simp only [Token.shift, Token.unified, hplace, htake, h, Int.toNat_natCast]
  congr 1
  omega

lemma scan_offset_nonneg (h : (scan 0 next).report = none) :
    ∀ t ∈ (scan 0 next).tokens, 0 ≤ t.offset := by
  intro t ht
  have htiles := (lex_eq_ok_iff_tiles next _).1 (lex_eq_ok.2 ⟨h, rfl⟩)
  exact (htiles.bounds t ht).1

/-- A scan that begins further on finds the same further on. -/
lemma scan_natCast (n : Nat) (next : Text) :
    (scan n next).tokens = (scan 0 next).tokens.map (Token.shift n) ∧
      (scan n next).report = (scan 0 next).report.map (Report.shift n) := by
  have hscan := scan_shift n 0 next
  rw [Int.zero_add] at hscan
  rw [hscan]
  exact ⟨rfl, rfl⟩

/-- If a text can be split, and into tokens without carriage returns, then it is split into the same
ones once all its line ends are line feeds. -/
def Unifies (text : Text) : Prop :=
  (scan 0 text).report = none → (∀ t ∈ (scan 0 text).tokens, '\r' ∉ t.literal) →
    (scan 0 (Text.unifyNewlines text)).report = none ∧
      (scan 0 (Text.unifyNewlines text)).tokens = (scan 0 text).tokens.map (Token.unified text)

/-- What is found behind some characters is found behind as many, less the pairs among them. -/
lemma Unifies.behind (ih : Unifies next) {length : Nat} (hlength : length + pairs = lead.length)
    (hpairs : ∀ n, Text.pairedReturns (lead ++ next.take n) =
      pairs + Text.pairedReturns (next.take n))
    (hnone : (scan lead.length next).report = none)
    (hclean : ∀ t ∈ (scan lead.length next).tokens, '\r' ∉ t.literal) :
    (scan length (Text.unifyNewlines next)).report = none ∧
      (scan length (Text.unifyNewlines next)).tokens =
        (scan lead.length next).tokens.map (Token.unified (lead ++ next)) := by
  obtain ⟨htokens, hreport⟩ := scan_natCast lead.length next
  obtain ⟨htokens', hreport'⟩ := scan_natCast length (Text.unifyNewlines next)
  rw [hreport, Option.map_eq_none_iff] at hnone
  have hclean' : ∀ t ∈ (scan 0 next).tokens, '\r' ∉ t.literal := fun t ht =>
    hclean (t.shift lead.length) (htokens ▸ List.mem_map_of_mem ht)
  obtain ⟨hunified, hfound⟩ := ih hnone hclean'
  -- both scans find the same from offset zero on, and differ by where `next` begins
  have hshift : (length : Int) = lead.length - pairs := by omega
  refine ⟨by rw [hreport', hunified, Option.map_none], ?_⟩
  rw [htokens', hfound, htokens, hshift, List.map_map, List.map_map]
  refine List.map_congr_left fun t ht => ?_
  exact (unified_shift hpairs (scan_offset_nonneg hnone t ht)).symm

/-- Blanks of which other blanks are made change nothing but offsets. -/
lemma unifies_blanks (lead lead' : Text) (pairs : Nat) (hlead : ∀ c ∈ lead, Scan.isBlank c)
    (hlead' : ∀ c ∈ lead', Scan.isBlank c)
    (hunify : Text.unifyNewlines (lead ++ next) = lead' ++ Text.unifyNewlines next)
    (hlength : lead'.length + pairs = lead.length)
    (hpairs : ∀ n, Text.pairedReturns (lead ++ next.take n) =
      pairs + Text.pairedReturns (next.take n))
    (ih : Unifies next) : Unifies (lead ++ next) := by
  intro hnone hclean
  obtain ⟨htokens, hreport⟩ := scan_blanks 0 hlead next
  obtain ⟨htokens', hreport'⟩ := scan_blanks 0 hlead' (Text.unifyNewlines next)
  rw [Int.zero_add] at htokens hreport htokens' hreport'
  rw [hreport] at hnone
  rw [htokens] at hclean
  rw [hunify, hreport', htokens', htokens]
  exact ih.behind hlength hpairs hnone hclean

/-- A blank stays, or is a carriage return by itself or with a line feed. -/
lemma unifies_blank {c : Char} (hblank : Scan.isBlank c) (hnext : Unifies next)
    (hrest : ∀ rest, next = '\n' :: rest → Unifies rest) : Unifies (c :: next) := by
  by_cases hc : c = '\r'
  · subst hc
    -- a carriage return with its line feed is two blanks, of which one is made
    by_cases hfeed : next.head? = some '\n'
    · obtain ⟨rest, rfl⟩ := List.head?_eq_some_iff.1 hfeed
      exact unifies_blanks ['\r', '\n'] ['\n'] 1 (by simp [Scan.isBlank]) (by simp [Scan.isBlank])
        (Text.unifyNewlines_pair rest) rfl (fun n => by simp [Text.pairedReturns_cons])
        (hrest rest rfl)
    · refine unifies_blanks ['\r'] ['\n'] 0 (by simp [Scan.isBlank]) (by simp [Scan.isBlank])
        (Text.unifyNewlines_return hfeed) rfl (fun n => ?_) hnext
      have htake : (next.take n).head? ≠ some '\n' := by
        rw [List.head?_take]
        split
        · simp
        · exact hfeed
      rw [List.singleton_append, Text.pairedReturns_cons, if_neg fun h => htake h.2]
  · refine unifies_blanks [c] [c] 0 (by simpa using hblank) (by simpa using hblank)
      (Text.unifyNewlines_cons hc next) rfl (fun n => ?_) hnext
    rw [List.singleton_append, Text.pairedReturns_cons, if_neg fun h => hc h.1]

/-- A token without carriage returns is found again. -/
lemma unifies_token {kind : TokenKind} {literal : Text}
    (hmem : literal ∈ Lexeme.language kind) (hfollow : Lexeme.Follow kind literal next.head?)
    (ih : Unifies next) : Unifies (literal ++ next) := by
  intro hnone hclean
  -- the literal is read before `next` and before what is made of `next`
  have hscan := scan_literal 0 (Lexeme.token_of_cuts ⟨literal, next, rfl, rfl, hmem, hfollow⟩)
  have hscan' :=
    scan_literal 0 (Lexeme.token_of_cuts ⟨literal, _, rfl, rfl, hmem, hfollow.unify⟩)
  rw [Int.zero_add] at hscan hscan'
  rw [hscan] at hnone hclean
  obtain ⟨hliteral, hclean⟩ := List.forall_mem_cons.1 hclean
  obtain ⟨hnone', htokens⟩ := ih.behind (Nat.add_zero literal.length)
    (fun n => by rw [Text.pairedReturns_append hliteral, Nat.zero_add]) hnone hclean
  have hfirst : Token.unified (literal ++ next) ⟨kind, literal, 0⟩ = ⟨kind, literal, 0⟩ := rfl
  rw [Text.unifyNewlines_append hliteral, hscan', hscan, List.map_cons, hfirst, ← htokens]
  exact ⟨hnone', rfl⟩

/-- **Line ends do not matter** to the tokens of a text. -/
lemma unifies (text : Text) : Unifies text := by
  -- On the length: a blank may take two characters and a token any number of them.
  induction hn : text.length using Nat.strong_induction_on generalizing text with
  | _ n ih =>
    rcases text with _ | ⟨c, next⟩
    · intro _ _
      rw [Text.unifyNewlines, scan]
      exact ⟨rfl, rfl⟩
    have hnext : Unifies next := ih next.length (hn ▸ Nat.lt_succ_self _) next rfl
    by_cases hblank : Scan.isBlank c
    · refine unifies_blank hblank hnext fun rest hrest => ih rest.length ?_ rest rfl
      rw [← hn, hrest, List.length_cons, List.length_cons]
      omega
    · intro hnone hclean
      cases htoken : Scan.token (c :: next) with
      | fault cause place read =>
        rw [scan_fault 0 hblank htoken] at hnone
        cases hnone
      | token kind length =>
        obtain ⟨literal, rest, htext, rfl, hmem, hfollow⟩ := Lexeme.cuts_of_token htoken
        have hpos := token_length_pos htoken
        rw [← htext] at hnone hclean hn ⊢
        rw [List.length_append] at hn
        exact unifies_token hmem hfollow (ih rest.length (by omega) rest rfl) hnone hclean

/-- A text that can be split, and into tokens without carriage returns, is split into the same ones
once all its line ends are line feeds, each nearer by the pairs before it. -/
lemma lex_unifyNewlines (hlex : lex text = .ok tokens) (hclean : ∀ t ∈ tokens, '\r' ∉ t.literal) :
    lex (Text.unifyNewlines text) = .ok (tokens.map (Token.unified text)) := by
  obtain ⟨hnone, rfl⟩ := lex_eq_ok.1 hlex
  exact lex_eq_ok.2 (unifies text hnone hclean)

end

end Pebble
