import Pebble.Proofs.Token.Spacing
import Pebble.Token.Scanner

/-!
Locality: a text is split into tokens without a look at what is before it, and behind a text that
can be split nothing changes but the offsets, if what follows leaves the last token as it is.
-/

namespace Pebble

/-! ### Offsets further on -/

def Token.shift (n : Int) (t : Token) : Token := { t with offset := t.offset + n }

def Report.shift (n : Int) (r : Report) : Report := { r with offset := r.offset + n }

def Scanned.shift (n : Int) (s : Scanned) : Scanned where
  tokens := s.tokens.map (Token.shift n)
  read := s.read
  report := s.report.map (Report.shift n)

variable {a b text : Text} {tokens found : List Token} {report : Report}

@[simp] lemma Token.shift_shift (m n : Int) (t : Token) :
    (t.shift m).shift n = t.shift (n + m) := by
  simp only [shift]
  congr 1
  omega

@[simp] lemma Report.shift_shift (m n : Int) (r : Report) :
    (r.shift m).shift n = r.shift (n + m) := by
  simp only [shift]
  congr 1
  omega

/-- The offset at which a scan begins enters what it finds as a shift only. -/
lemma scan_shift (n offset : Int) (text : Text) :
    scan (offset + n) text = (scan offset text).shift n := by
  -- The offset is only ever added to, so that what is added first can be added last.
  induction hleft : text.length using Nat.strong_induction_on generalizing offset text with
  | _ left ih =>
    rcases text with _ | ⟨c, next⟩
    · rw [scan, scan]
      rfl
    by_cases hblank : Scan.isBlank c
    · have hnext := ih next.length (by simp [← hleft]) (offset + 1) next rfl
      rw [scan_blank _ hblank, scan_blank _ hblank, Int.add_right_comm, hnext]
      rfl
    cases htoken : Scan.token (c :: next) with
    | fault cause place read =>
      rw [scan_fault _ hblank htoken, scan_fault _ hblank htoken, Int.add_right_comm]
      rfl
    | token kind length =>
      have hlt : (next.drop (length - 1)).length < left := by
        rw [List.length_drop, ← hleft, List.length_cons]
        omega
      have hnext := ih _ hlt (offset + length) _ rfl
      rw [scan_token _ hblank htoken, scan_token _ hblank htoken, Int.add_right_comm, hnext]
      rfl

/-! ### One text behind another -/

/-- A text behind one that can be split into tokens is scanned as it is alone, if it leaves these
tokens as they are. -/
lemma scan_append (offset : Int) (h : (scan offset a).report = none)
    (hfollow : ∀ t ∈ (scan offset a).tokens, Lexeme.Follow t.kind t.literal b.head?) :
    (scan offset (a ++ b)).tokens = (scan offset a).tokens ++ (scan (offset + a.length) b).tokens ∧
      (scan offset (a ++ b)).report = (scan (offset + a.length) b).report := by
  -- On the length of the first text, of which a blank or a token is taken off.
  induction hleft : a.length using Nat.strong_induction_on generalizing offset a with
  | _ left ih =>
    subst hleft
    rcases a with _ | ⟨c, next⟩
    · rw [scan]
      simp
    by_cases hblank : Scan.isBlank c
    · rw [scan_blank offset hblank] at h hfollow ⊢
      have hrest := ih next.length (by simp) (offset + 1) h hfollow rfl
      rw [List.cons_append, scan_blank offset hblank, List.length_cons, Int.natCast_add,
        Int.natCast_one, Int.add_comm (next.length : Int), ← Int.add_assoc]
      exact hrest
    cases htoken : Scan.token (c :: next) with
    | fault cause place read =>
      rw [scan_fault offset hblank htoken] at h
      cases h
    | token kind length =>
      obtain ⟨literal, rest, htext, rfl, hmem, hkept⟩ := Lexeme.cuts_of_token htoken
      have hpos := token_length_pos htoken
      rw [← htext] at htoken h hfollow ⊢
      rw [scan_literal offset htoken] at h hfollow ⊢
      obtain ⟨hfirst, hothers⟩ := List.forall_mem_cons.mp hfollow
      -- the literal ends before the text does, or is followed by what comes behind the text
      have hcut : Scan.token (literal ++ (rest ++ b)) = .token kind literal.length := by
        refine Lexeme.token_of_cuts ⟨literal, rest ++ b, rfl, rfl, hmem, ?_⟩
        cases rest with
        | nil => exact hfirst
        | cons d rest => exact hkept
      have hshorter : rest.length < (c :: next).length := by
        rw [← htext, List.length_append]
        omega
      obtain ⟨htokens, hreport⟩ := ih rest.length hshorter _ h hothers rfl
      rw [List.append_assoc, scan_literal offset hcut, htokens, hreport, List.length_append,
        Int.natCast_add, Int.add_assoc]
      exact ⟨rfl, rfl⟩

/-- Behind a text that can be split, and whose tokens it leaves as they are, a text is split as it
is alone, so many characters further on. -/
lemma lex_append (ha : lex a = .ok tokens)
    (hfollow : ∀ t ∈ tokens, Lexeme.Follow t.kind t.literal b.head?) :
    (∀ found, lex b = .ok found →
        lex (a ++ b) = .ok (tokens ++ found.map (Token.shift a.length))) ∧
      ∀ report, lex b = .error report → lex (a ++ b) = .error (report.shift a.length) := by
  obtain ⟨hreport, rfl⟩ := lex_eq_ok.mp ha
  obtain ⟨htokens, hfault⟩ := scan_append 0 hreport hfollow
  rw [scan_shift] at htokens hfault
  constructor
  · intro found hb
    obtain ⟨hnone, rfl⟩ := lex_eq_ok.mp hb
    rw [Scanned.shift, hnone] at hfault
    exact lex_eq_ok.mpr ⟨hfault, htokens⟩
  · intro report hb
    rw [Scanned.shift, lex_eq_error.mp hb] at hfault
    exact lex_eq_error.mpr hfault

lemma lex_blanks {gap : Text} (h : ∀ c ∈ gap, Scan.isBlank c) : lex gap = .ok [] := by
  obtain ⟨htokens, hreport⟩ := scan_blanks 0 h []
  rw [List.append_nil, scan] at htokens hreport
  exact lex_eq_ok.mpr ⟨hreport, htokens⟩

/-- Blanks leave the tokens before them as they are. -/
lemma follow_blanks {gap : Text} (hne : gap ≠ []) (h : ∀ c ∈ gap, Scan.isBlank c)
    (kind : TokenKind) (literal : Text) : Lexeme.Follow kind literal (gap ++ b).head? := by
  obtain ⟨c, gap, rfl⟩ := List.exists_cons_of_ne_nil hne
  exact Lexeme.follow_of_blank kind literal (h c List.mem_cons_self)

/-! ### From a place in a text on -/

/-- A scanner in the midst of a text splits what is left of it. -/
lemma Scanner.finish_eq (text : Text) (k : Nat) :
    (finish ⟨text, k⟩).1 =
      match lex (text.drop k) with
      | .ok found => .ok (found.map (Token.shift k))
      | .error report => .error (report.shift k) := by
  have hview : Cursor.view ⟨text, k⟩ = text.drop k := Cursor.viewAt_natCast ⟨text, k⟩ k
  have hscan : scan k (text.drop k) = (scan 0 (text.drop k)).shift k := by
    rw [← scan_shift, Int.zero_add]
  rw [finish, hview]
  simp only [hscan, Scanned.shift, lex]
  cases (scan 0 (text.drop k)).report <;> rfl

/-- **The scan is local.** A text behind another one and some blanks is split as it is alone, or
has the same fault, so many characters further on; and a scanner that begins at a place in a text
splits what is left of the text, whatever is before. -/
theorem lex_local :
    (∀ (a gap b : Text) (tokens : List Token), lex a = .ok tokens → gap ≠ [] →
      (∀ c ∈ gap, c ∈ [' ', '\t', '\r', '\n']) →
      (∀ found, lex b = .ok found →
        lex (a ++ gap ++ b) = .ok (tokens ++ found.map (Token.shift (a.length + gap.length)))) ∧
      ∀ report, lex b = .error report →
        lex (a ++ gap ++ b) = .error (report.shift (a.length + gap.length))) ∧
    ∀ (text : Text) (k : Nat),
      (∀ found, lex (text.drop k) = .ok found →
        (Scanner.finish ⟨text, k⟩).1 = .ok (found.map (Token.shift k))) ∧
      ∀ report, lex (text.drop k) = .error report →
        (Scanner.finish ⟨text, k⟩).1 = .error (report.shift k) := by
  constructor
  · intro a gap b tokens ha hne hgap
    -- The blanks hold no token and leave all tokens before them as they are, so the text is put
    -- together in two steps: the blanks before `b`, and `a` before both.
    have hblank : ∀ c ∈ gap, Scan.isBlank c := fun c hc => isBlank_iff.mpr (hgap c hc)
    obtain ⟨hgapOk, hgapError⟩ := lex_append (b := b) (lex_blanks hblank) (List.forall_mem_nil _)
    obtain ⟨hok, herror⟩ := lex_append (b := gap ++ b) ha fun t _ =>
      follow_blanks hne hblank t.kind t.literal
    rw [List.append_assoc]
    constructor
    · intro found hb
      rw [hok _ (hgapOk found hb)]
      simp [Function.comp_def]
    · intro report hb
      rw [herror _ (hgapError report hb), Report.shift_shift]
  · intro text k
    rw [Scanner.finish_eq]
    exact ⟨fun found hb => by rw [hb], fun report hb => by rw [hb]⟩

end Pebble
