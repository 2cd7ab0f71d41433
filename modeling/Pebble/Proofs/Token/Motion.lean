import Pebble.Proofs.Token.Locality

/-!
Motion: where the cursor of a scan goes. A rule that starts at a character of the text moves the
cursor over characters of the text only, and a rule that finds a token moves it over one at least.
Hence the loop of the scan comes to an end, at the end of the text or at a fault in it.
-/

namespace Pebble

variable {text next : Text} {size read p : Nat}

/-! ### How far a rule reads -/

/-- An outcome on a text of so many characters: a token that is not empty and lies in the text, or
a fault at one of the characters, up to which or behind which the text has been read. -/
def Scan.Outcome.Within (size : Nat) : Outcome → Prop
  | token _ length => 0 < length ∧ length ≤ size
  | fault _ place read => place < size ∧ read ≤ size

namespace Scan

lemma within_fraction (hread : 0 < read) (hsize : read + text.length ≤ size) :
    (fraction read text).Within size := by
  unfold fraction
  split
  next rest =>
    have htaken := (List.takeWhile_prefix (l := rest) Char.isDigit).length_le
    rw [List.length_cons] at hsize
    split
    · exact ⟨by omega, by omega⟩
    · exact ⟨by omega, by omega⟩
  next => exact ⟨hread, by omega⟩

lemma within_unsigned (hpos : 0 < size) (hsize : read + text.length ≤ size) :
    (unsigned read text).Within size := by
  unfold unsigned
  split
  next rest =>
    rw [List.length_cons] at hsize
    split
    · exact ⟨hpos, by omega⟩
    · exact within_fraction (by omega) (by omega)
  next =>
    have hspan :=
      congrArg List.length (List.takeWhile_append_dropWhile (p := Char.isDigit) (l := text))
    rw [List.length_append] at hspan
    split
    next hdigit =>
      have htaken := List.length_pos_iff.mpr (Lexeme.digits_ne_nil hdigit)
      exact within_fraction (by omega) (by omega)
    next => exact ⟨hpos, by omega⟩

lemma within_number (hpos : 0 < text.length) : (number text).Within text.length := by
  unfold number
  split
  next rest => exact within_unsigned hpos (by rw [List.length_cons]; omega)
  next => exact within_unsigned hpos (by omega)

lemma within_closeCharacter (hpos : 0 < size) (hsize : read + text.length ≤ size) :
    (closeCharacter read text).Within size := by
  unfold closeCharacter
  split <;> simp only [List.length_cons, List.length_nil] at hsize
  · exact ⟨hpos, hsize⟩
  · exact ⟨by omega, by omega⟩
  · exact ⟨hpos, by omega⟩

lemma within_character (next : Text) : (character next).Within (next.length + 1) := by
  unfold character
  split
  next => exact ⟨by omega, by omega⟩
  next => exact ⟨by omega, by omega⟩
  next => exact ⟨by omega, by omega⟩
  next letter rest =>
    simp only [List.length_cons]
    split
    · exact within_closeCharacter (by omega) (by omega)
    · exact ⟨by omega, by omega⟩
  next => exact within_closeCharacter (by omega) (by rw [List.length_cons]; omega)

lemma within_string (hread : 0 < read) (hsize : read + text.length ≤ size) :
    (string read text).Within size := by
  -- What has been read and what is left make up the size in every call.
  fun_induction string read text with
  | case1 read => exact ⟨by omega, by omega⟩
  | case2 read rest =>
    rw [List.length_cons] at hsize
    exact ⟨by omega, by omega⟩
  | case3 read => exact ⟨by omega, by omega⟩
  | case4 read letter rest hletter ih =>
    simp only [List.length_cons] at hsize
    exact ih (by omega) (by omega)
  | case5 read letter rest hletter =>
    simp only [List.length_cons] at hsize
    exact ⟨by omega, by omega⟩
  | case6 read c rest hquote hend hslash ih =>
    rw [List.length_cons] at hsize
    exact ih (by omega) (by omega)

lemma within_operator (hpos : 0 < text.length) : (operator text).Within text.length := by
  unfold operator
  split
  next hpair =>
    have hlength := Lexeme.length_of_mem_pairs (by simpa using hpair)
    rw [List.length_take] at hlength
    exact ⟨by omega, by omega⟩
  next =>
    split
    · exact ⟨by omega, by omega⟩
    · exact ⟨hpos, by omega⟩

lemma within_identifier (next : Text) : (identifier next).Within (next.length + 1) := by
  have htaken := (List.takeWhile_prefix (l := next) isNamePart).length_le
  exact ⟨by omega, by omega⟩

lemma within_token (c : Char) (next : Text) : (token (c :: next)).Within (next.length + 1) := by
  have hpos : 0 < (c :: next).length := Nat.succ_pos _
  rw [token]
  split_ifs
  · exact within_identifier next
  · exact within_number hpos
  · exact within_character next
  · exact within_string Nat.one_pos (by omega)
  · exact within_operator hpos
  · exact ⟨hpos, Nat.zero_le _⟩

end Scan

namespace Scanner

/-- Every rule that starts at a character reads no further than the text goes. -/
lemma Rule.apply_within (rule : Rule) (c : Char) (next : Text) :
    (rule.apply (c :: next) next).Within (next.length + 1) := by
  cases rule with
  | token => exact Scan.within_token c next
  | identifier => exact Scan.within_identifier next
  | number => exact Scan.within_number (Nat.succ_pos _)
  | character => exact Scan.within_character next
  | string => exact Scan.within_string Nat.one_pos (by omega)
  | operator => exact Scan.within_operator (Nat.succ_pos _)

/-! ### Where a rule leaves the cursor -/

/-- What comes of a rule that starts at the place `p`: a token that begins there and ends where the
cursor is left, further on, or a fault at a character from there on. In both cases the cursor is
left among the characters of the text or at its end. -/
inductive Progress (text : Text) (p : Nat) : Except Report Token × Scanner → Prop
  | token {kind : TokenKind} {q : Nat} (hforward : p < q) (hinside : q ≤ text.length) :
    Progress text p (.ok ⟨kind, Text.slice text p q, p⟩, ⟨text, q⟩)
  | fault {cause : Fault} {offset q : Nat} (hoffset : p ≤ offset ∧ offset < text.length)
    (hinside : p ≤ q ∧ q ≤ text.length) :
    Progress text p (.error (cause.report offset), ⟨text, q⟩)

section

variable {c : Char} (hp : text.drop p = c :: next)

include hp

lemma lt_of_drop : p < text.length := by
  by_contra hend
  rw [List.drop_eq_nil_of_le (not_lt.mp hend)] at hp
  cases hp

lemma length_of_drop : p + (next.length + 1) = text.length := by
  have hlt := lt_of_drop hp
  have hlength := congrArg List.length hp
  rw [List.length_drop, List.length_cons] at hlength
  omega

lemma peek?_of_drop : Cursor.peek? ⟨text, p⟩ 0 = some c := by
  rw [Cursor.peek?, Int.add_zero, Cursor.viewAt_natCast, hp, List.head?_cons]

lemma view_of_drop : Cursor.view ⟨text, p⟩ = c :: next :=
  (Cursor.viewAt_natCast ⟨text, p⟩ p).trans hp

lemma run_of_drop (rule : Rule) :
    run ⟨text, p⟩ rule =
      match rule.apply (c :: next) next with
      | .token kind length =>
        (.ok ⟨kind, Text.slice text p (p + length : Nat), p⟩, ⟨text, (p + length : Nat)⟩)
      | .fault cause place read =>
        (.error (cause.report (p + place : Nat)), ⟨text, (p + read : Nat)⟩) := by
  have hnext : Cursor.viewAt ⟨text, p⟩ (p + 1 : Nat) = next := by
    rw [Cursor.viewAt_natCast, ← List.drop_drop, hp, List.drop_one, List.tail_cons]
  rw [run, view_of_drop hp]
  simp only [← Int.natCast_one, ← Int.natCast_add, hnext]
  cases rule.apply (c :: next) next <;> rfl

end

lemma drop_of_peek? {c : Char} (hc : Cursor.peek? ⟨text, p⟩ 0 = some c) :
    text.drop p = c :: text.drop (p + 1) := by
  rw [Cursor.peek?, Int.add_zero, Cursor.viewAt_natCast, List.head?_drop] at hc
  obtain ⟨hlt, rfl⟩ := List.getElem?_eq_some_iff.mp hc
  exact List.drop_eq_getElem_cons hlt

/-- A rule that starts at a character of the text stays in the text. -/
lemma progress_run (hp : p < text.length) (rule : Rule) : Progress text p (run ⟨text, p⟩ rule) := by
  have hdrop := List.drop_eq_getElem_cons hp
  have hlength := length_of_drop hdrop
  have hwithin := rule.apply_within text[p] (text.drop (p + 1))
  rw [run_of_drop hdrop]
  cases houtcome : rule.apply (text[p] :: text.drop (p + 1)) (text.drop (p + 1)) with
  | token kind length =>
    rw [houtcome] at hwithin
    obtain ⟨hpos, hle⟩ := hwithin
    exact .token (by omega) (by omega)
  | fault cause place read =>
    rw [houtcome] at hwithin
    obtain ⟨hplace, hread⟩ := hwithin
    exact .fault (by omega) (by omega)

/-- A backslash and its letter are passed over only where both are there. -/
lemma escape_moves (p : Nat) (start : Int) (unterminated : FaultKind) :
    (escape ⟨text, p⟩ start unterminated).2 = ⟨text, p⟩ ∨
      p + 2 ≤ text.length ∧ (escape ⟨text, p⟩ start unterminated).2 = ⟨text, (p + 2 : Nat)⟩ := by
  unfold escape
  split
  next => exact .inl rfl
  next letter hletter =>
    -- a character after the backslash is seen only inside the text
    have hthere : p + 1 < text.length := by
      by_contra hend
      have hnone := (Cursor.peek?_eq_none_iff ⟨text, p⟩ 1).mpr (.inr (by dsimp only; omega))
      rw [hnone] at hletter
      cases hletter
    split
    · exact .inr ⟨hthere, rfl⟩
    · exact .inl rfl

/-! ### The loop of the scan -/

/-- The rounds of the loop, from the cursor at which it begins: the positions at which a round
begins, what comes of the loop, and the cursor behind it. A round passes over a blank or over a
token, and the loop ends where no character is left or where the rule for tokens finds a fault. -/
inductive Rounds : Scanner → List Int → Except Report (List Token) → Scanner → Prop
  | done {s : Scanner} (hend : s.has 0 = false) : Rounds s [] (.ok []) s
  | blank {s s' : Scanner} {c : Char} {places : List Int} {out : Except Report (List Token)}
    (hc : s.peek? 0 = some c) (hblank : Scan.isBlank c)
    (hrest : Rounds (s.advance 1) places out s') :
    Rounds s (s.position :: places) out s'
  | token {s s₁ s' : Scanner} {c : Char} {t : Token} {places : List Int}
    {out : Except Report (List Token)} (hc : s.peek? 0 = some c) (hblank : ¬ Scan.isBlank c)
    (hrun : s.run .token = (.ok t, s₁)) (hrest : Rounds s₁ places out s') :
    Rounds s (s.position :: places) (out.map (t :: ·)) s'
  | fault {s s' : Scanner} {c : Char} {report : Report} (hc : s.peek? 0 = some c)
    (hblank : ¬ Scan.isBlank c) (hrun : s.run .token = (.error report, s')) :
    Rounds s [s.position] (.error report) s'

/-- The end of a loop that begins at the place `p`: all characters are behind the cursor, or the
cursor is left somewhere from `p` on, with a fault at a character from `p` on. -/
inductive Ended (text : Text) (p : Nat) : Except Report (List Token) → Scanner → Prop
  | all {tokens : List Token} : Ended text p (.ok tokens) ⟨text, text.length⟩
  | fault {cause : Fault} {offset q : Nat} (hoffset : p ≤ offset ∧ offset < text.length)
    (hinside : p ≤ q ∧ q ≤ text.length) :
    Ended text p (.error (cause.report offset)) ⟨text, q⟩

lemma Ended.of_le {out : Except Report (List Token)} {s : Scanner} {q : Nat}
    (h : Ended text q out s) (hle : p ≤ q) : Ended text p out s := by
  cases h with
  | all => exact .all
  | fault hoffset hinside => exact .fault (by omega) (by omega)

lemma Ended.map {out : Except Report (List Token)} {s : Scanner} (h : Ended text p out s)
    (f : List Token → List Token) : Ended text p (out.map f) s := by
  cases h with
  | all => exact .all
  | fault hoffset hinside => exact .fault hoffset hinside

/-! One round, by what is next. -/

lemma finish_of_end (hp : text.length ≤ p) : finish ⟨text, p⟩ = (.ok [], ⟨text, p⟩) := by
  have hview : Cursor.view ⟨text, p⟩ = [] :=
    (Cursor.viewAt_natCast ⟨text, p⟩ p).trans (List.drop_eq_nil_of_le hp)
  rw [finish, hview, scan]
  simp only [Cursor.advance, Int.natCast_zero, Int.add_zero]

section

variable {c : Char} (hp : text.drop p = c :: next)

include hp

lemma finish_of_blank (hblank : Scan.isBlank c) :
    finish ⟨text, p⟩ = finish ⟨text, (p + 1 : Nat)⟩ := by
  have hnext : Cursor.view ⟨text, (p + 1 : Nat)⟩ = next := by
    rw [Cursor.view, Cursor.viewAt_natCast, ← List.drop_drop, hp, List.drop_one, List.tail_cons]
  rw [finish, finish, view_of_drop hp, hnext, scan_blank _ hblank]
  simp only [Cursor.advance, Int.natCast_add, Int.natCast_one, Int.add_assoc, Int.add_comm 1]

lemma finish_of_token (hblank : ¬ Scan.isBlank c) {t : Token} {s : Scanner}
    (hrun : run ⟨text, p⟩ .token = (.ok t, s)) :
    finish ⟨text, p⟩ = (s.finish.1.map (t :: ·), s.finish.2) := by
  have hwithin := Scan.within_token c next
  rw [run_of_drop hp, Rule.apply] at hrun
  cases htoken : Scan.token (c :: next) with
  | fault cause place read =>
    rw [htoken] at hrun
    cases hrun
  | token kind length =>
    rw [htoken] at hrun hwithin
    cases hrun
    have hlength := length_of_drop hp
    obtain ⟨hpos, hle⟩ := hwithin
    -- what is seen behind the token, once from the cursor and once by the scan
    have hnext : Cursor.view ⟨text, (p + length : Nat)⟩ = next.drop (length - 1) := by
      obtain ⟨more, rfl⟩ : ∃ more, length = more + 1 := ⟨length - 1, by omega⟩
      rw [Cursor.view, Cursor.viewAt_natCast, ← List.drop_drop, hp, List.drop_succ_cons,
        Nat.add_sub_cancel]
    have hslice : Text.slice text p (p + length : Nat) = (c :: next).take length := by
      rw [Text.slice_natCast text (by omega), hp, Nat.add_sub_cancel_left]
    rw [finish, finish, view_of_drop hp, hnext, scan_token _ hblank htoken, hslice,
      Int.natCast_add]
    dsimp only [Cursor.advance]
    have hplace (read : Nat) : (p : Int) + (read + length : Nat) = p + length + read := by omega
    rw [hplace]
    cases (scan (p + length) (next.drop (length - 1))).report <;> rfl

lemma finish_of_fault (hblank : ¬ Scan.isBlank c) {report : Report} {s : Scanner}
    (hrun : run ⟨text, p⟩ .token = (.error report, s)) :
    finish ⟨text, p⟩ = (.error report, s) := by
  rw [run_of_drop hp, Rule.apply] at hrun
  cases htoken : Scan.token (c :: next) with
  | fault cause place read =>
    rw [htoken] at hrun
    cases hrun
    rw [finish, view_of_drop hp, scan_fault _ hblank htoken]
    rfl
  | token kind length =>
    rw [htoken] at hrun
    cases hrun

end

/-- The loop ends: there are rounds from each place of a text on. -/
lemma exists_rounds (hp : p ≤ text.length) :
    ∃ places, Rounds ⟨text, p⟩ places (finish ⟨text, p⟩).1 (finish ⟨text, p⟩).2 := by
  -- On the characters that are left: each round takes one at least.
  induction hleft : text.length - p using Nat.strong_induction_on generalizing p with
  | _ left ih =>
    rcases hp.lt_or_eq with hlt | rfl
    · have hdrop := List.drop_eq_getElem_cons hlt
      have hc := peek?_of_drop hdrop
      by_cases hblank : Scan.isBlank text[p]
      · obtain ⟨places, hrest⟩ := ih _ (by omega) (p := p + 1) hlt rfl
        rw [finish_of_blank hdrop hblank]
        exact ⟨_, .blank hc hblank hrest⟩
      · have hprogress := progress_run hlt .token
        rcases hrun : run ⟨text, p⟩ .token with ⟨report | t, s⟩
        · rw [finish_of_fault hdrop hblank hrun]
          exact ⟨_, .fault hc hblank hrun⟩
        · rw [hrun] at hprogress
          cases hprogress with
          | token hforward hinside =>
            obtain ⟨places, hrest⟩ := ih _ (by omega) hinside rfl
            rw [finish_of_token hdrop hblank hrun]
            exact ⟨_, .token hc hblank hrun hrest⟩
    · rw [finish_of_end le_rfl]
      refine ⟨[], .done ?_⟩
      have hnone := (Cursor.peek?_eq_none_iff ⟨text, text.length⟩ 0).mpr (.inr (by simp))
      rw [Cursor.has, hnone]
      rfl

/-- What holds of rounds of the loop from the place `p` of a text on. -/
structure Loop (text : Text) (p : Nat) (places : List Int) (out : Except Report (List Token))
    (s' : Scanner) : Prop where
  /-- They are the run of the loop. -/
  agrees : finish ⟨text, p⟩ = (out, s')
  /-- Each round begins further on than the one before it. -/
  forward : places.Pairwise (· < ·)
  /-- Each round begins at a character. -/
  inside : ∀ place ∈ places, p ≤ place ∧ place < text.length
  /-- There is a character for each round. -/
  short : p + places.length ≤ text.length
  ended : Ended text p out s'

/-- A round that leaves the cursor further on comes before the rounds from there on. -/
lemma Loop.cons {q : Nat} {places : List Int} {out out' : Except Report (List Token)} {s' : Scanner}
    (h : Loop text q places out s') (hforward : p < q) (hinside : q ≤ text.length)
    (hround : finish ⟨text, p⟩ = (out', s')) (hended : Ended text q out' s') :
    Loop text p (p :: places) out' s' where
  agrees := hround
  forward := List.pairwise_cons.mpr
    ⟨fun place hplace => by have hlater := h.inside place hplace; omega, h.forward⟩
  inside := List.forall_mem_cons.mpr
    ⟨by omega, fun place hplace => by have hlater := h.inside place hplace; omega⟩
  short := by
    have hshort := h.short
    rw [List.length_cons]
    omega
  ended := hended.of_le hforward.le

/-- What one round does carries over to all of them. -/
lemma Rounds.loop {s s' : Scanner} {places : List Int} {out : Except Report (List Token)}
    (h : Rounds s places out s') (hs : s = ⟨text, p⟩) (hp : p ≤ text.length) :
    Loop text p places out s' := by
  -- On the rounds: `Loop` is what one round hands on to the rounds before it.
  induction h generalizing p with
  | done hend =>
    subst hs
    have hthere : ¬ p < text.length := fun hlt => by
      rw [Cursor.has, Cursor.peek?, Int.add_zero, Cursor.viewAt_natCast, List.head?_drop,
        List.getElem?_eq_getElem hlt] at hend
      cases hend
    obtain rfl : p = text.length := by omega
    exact ⟨finish_of_end le_rfl, .nil, List.forall_mem_nil _, le_rfl, .all⟩
  | blank hc hblank hrest ih =>
    subst hs
    have hdrop := drop_of_peek? hc
    have hlt := lt_of_drop hdrop
    have hloop := ih (p := p + 1) rfl hlt
    exact hloop.cons (Nat.lt_succ_self p) hlt
      ((finish_of_blank hdrop hblank).trans hloop.agrees) hloop.ended
  | token hc hblank hrun hrest ih =>
    subst hs
    have hdrop := drop_of_peek? hc
    have hprogress := progress_run (lt_of_drop hdrop) .token
    rw [hrun] at hprogress
    cases hprogress with
    | token hforward hinside =>
      have hloop := ih rfl hinside
      -- the token goes in front of those of the later rounds, and changes neither report nor end
      have hround := finish_of_token hdrop hblank hrun
      rw [hloop.agrees] at hround
      exact hloop.cons hforward hinside hround (hloop.ended.map _)
  | fault hc hblank hrun =>
    subst hs
    have hdrop := drop_of_peek? hc
    have hlt := lt_of_drop hdrop
    have hprogress := progress_run hlt .token
    rw [hrun] at hprogress
    cases hprogress with
    | fault hoffset hinside =>
      exact ⟨finish_of_fault hdrop hblank hrun, List.pairwise_singleton _ _,
        List.forall_mem_singleton.mpr ⟨le_rfl, by dsimp only; omega⟩, hlt, .fault hoffset hinside⟩

lemma lex_eq_finish (text : Text) : lex text = (finish ⟨text, 0⟩).1 := by
  have hview : Cursor.view ⟨text, 0⟩ = text := Cursor.viewAt_natCast ⟨text, 0⟩ 0
  rw [lex, finish, hview]
  dsimp only
  cases (scan 0 text).report <;> rfl

end Scanner

/-- **The scan goes forward, stays in the text and comes to an end.** A rule that is run at a
character of a text finds a token, which begins there and ends where the cursor is left, one place
further on at least and at the end of the text at most; or it finds a fault at a character from
there on, and the cursor is left from there on, at the end of the text at most. As the cursor only
moves forward, it is not past the end in between either. An escape alone is passed over only where
it is there as a whole. Hence the loop of the scan ends from each place on: its rounds begin further
and further on, each at a character, and once it has found all tokens the cursor is at the end of
the text. -/
theorem scan_progresses (text : Text) :
    (∀ (p : Nat), p < text.length →
      (∀ rule, Scanner.Progress text p (Scanner.run ⟨text, p⟩ rule)) ∧
      ∀ start unterminated,
        (Scanner.escape ⟨text, p⟩ start unterminated).2 = ⟨text, p⟩ ∨
          p + 2 ≤ text.length ∧
            (Scanner.escape ⟨text, p⟩ start unterminated).2 = ⟨text, (p + 2 : Nat)⟩) ∧
    (∀ (p : Nat), p ≤ text.length →
      (∃ places out s', Scanner.Rounds ⟨text, p⟩ places out s') ∧
      ∀ places out s', Scanner.Rounds ⟨text, p⟩ places out s' →
        Scanner.Loop text p places out s') ∧
    lex text = (Scanner.finish ⟨text, 0⟩).1 := by
  refine ⟨fun p hp => ⟨Scanner.progress_run hp, Scanner.escape_moves p⟩, fun p hp => ⟨?_, ?_⟩,
    Scanner.lex_eq_finish text⟩
  · obtain ⟨places, hrounds⟩ := Scanner.exists_rounds hp
    exact ⟨places, _, _, hrounds⟩
  · exact fun places out s' hrounds => hrounds.loop rfl hp

end Pebble
