import Pebble.Grammar.Construct
import Pebble.Proofs.Grammar.Acceptance

/-!
Places among tokens: how far a run has come, and the offset at which it reports a complaint, in
terms of how many tokens it has taken.
-/

namespace Pebble

/-- The offset of a place among tokens: where the token there starts or, behind the last one, where
that one stops. -/
def offsetAt (tokens : List Token) (place : Nat) : Int :=
  match tokens[place]? with
  | some t => t.offset
  | none => (tokens.getLast?.map Token.stop).getD 0

/-- The place at which a complaint is reported that is made with so many tokens taken: that of the
next token, but for a missing semicolon that of the token before. -/
def Complaint.place (taken : Nat) : Complaint → Nat
  | missingSemicolon => taken - 1
  | _ => taken

lemma Complaint.place_cases (cause : Complaint) (taken : Nat) :
    taken = cause.place taken ∨ taken = cause.place taken + 1 := by
  cases cause with
  | missingSemicolon =>
    rw [place]
    omega
  | _ => exact .inl rfl

lemma Complaint.place_of_ne {cause : Complaint} (h : cause ≠ .missingSemicolon) (taken : Nat) :
    cause.place taken = taken := by
  cases cause with
  | missingSemicolon => exact absurd rfl h
  | _ => rfl

def Stop.failure (tokens : List Token) (taken : Nat) : Stop → Failure
  | complaint cause => .report (cause.report (offsetAt tokens (cause.place taken)))
  | numeral fault => .numeral fault

lemma offsetAt_cases {tokens : List Token} (hne : tokens ≠ []) {place : Nat}
    (h : place ≤ tokens.length) :
    (∃ t, tokens[place]? = some t ∧ offsetAt tokens place = t.offset) ∨
      place = tokens.length ∧ ∃ t, tokens.getLast? = some t ∧ offsetAt tokens place = t.stop := by
  rcases hplace : tokens[place]? with _ | t
  · refine .inr ⟨le_antisymm h (List.getElem?_eq_none_iff.mp hplace), ?_⟩
    refine ⟨_, List.getLast?_eq_some_getLast hne, ?_⟩
    rw [offsetAt, hplace, List.getLast?_eq_some_getLast hne]
    rfl
  · exact .inl ⟨t, rfl, by rw [offsetAt, hplace]⟩

lemma offsetAt_append (before : List Token) {tokens : List Token} (hne : tokens ≠ [])
    (place : Nat) :
    offsetAt (before ++ tokens) (before.length + place) = offsetAt tokens place := by
  have hlast : (before ++ tokens).getLast? = tokens.getLast? := by
    rw [List.getLast?_append, List.getLast?_eq_some_getLast hne, Option.some_or]
  rw [offsetAt, offsetAt, List.getElem?_append_right (Nat.le_add_right _ _),
    Nat.add_sub_cancel_left, hlast]

/-- A stop leads to the same failure behind other tokens, unless it is a missing semicolon right at
the first token. -/
lemma Stop.failure_append (before : List Token) {tokens : List Token} (hne : tokens ≠ [])
    {stop : Stop} {taken : Nat} (h : stop = .complaint .missingSemicolon → 0 < taken) :
    stop.failure (before ++ tokens) (before.length + taken) = stop.failure tokens taken := by
  obtain cause | fault := stop
  · have hplace : cause.place (before.length + taken) = before.length + cause.place taken := by
      cases cause with
      | missingSemicolon => exact Nat.add_sub_assoc (h rfl) _
      | _ => rfl
    rw [failure, failure, hplace, offsetAt_append before hne]
  · rfl

instance (construct : Construct) (side : Associativity) (levels : Nat) :
    Rule.Orderly (construct.rule side levels) := by
  cases construct <;> exact inferInstanceAs (Rule.Orderly (_ <$> _))

namespace Session

variable {side : Associativity} {tokens rest : List Token} {taken depth : Nat}

def taking (side : Associativity) (tokens : List Token) (taken : Nat) : Session :=
  { cursor := ⟨tokens, taken⟩, side }

lemma leaving_start (side : Associativity) (tokens rest : List Token) :
    (start side tokens).leaving rest = taking side tokens (tokens.length - rest.length) := by
  have hposition := Grammar.position_leaving side tokens rest
  exact congrArg (fun position => (⟨⟨tokens, position⟩, side, 0⟩ : Session)) hposition

lemma offset_eq (side : Associativity) (tokens : List Token) (taken depth : Nat) :
    offset ⟨⟨tokens, taken⟩, side, depth⟩ = offsetAt tokens taken := by
  have hpeek : Cursor.peek? ⟨tokens, taken⟩ 0 = tokens[taken]? := by
    rw [Cursor.peek?, Int.add_zero, Cursor.viewAt_natCast, List.head?_drop]
  rw [offset, hpeek]
  rfl

lemma offsetOf_eq (h : taken ≤ tokens.length) (cause : Complaint) :
    offsetOf ⟨⟨tokens, taken⟩, side, depth⟩ cause = offsetAt tokens (cause.place taken) := by
  have hnext := offset_eq side tokens taken depth
  cases cause with
  | missingSemicolon =>
    rw [offsetOf, Complaint.place]
    cases taken with
    | zero => exact hnext
    | succ k =>
      have hlast : Cursor.peek? ⟨tokens, (k + 1 : Nat)⟩ (-1) = tokens[k]? := by
        rw [Cursor.peek?, show ((k + 1 : Nat) : Int) + -1 = (k : Nat) by omega,
          Cursor.viewAt_natCast, List.head?_drop]
      rw [hlast, offsetAt, Nat.add_sub_cancel, List.getElem?_eq_getElem h]
      rfl
  | _ => exact hnext

lemma failure_eq (h : taken ≤ tokens.length) (stop : Stop) :
    failure ⟨⟨tokens, taken⟩, side, depth⟩ stop = stop.failure tokens taken := by
  cases stop with
  | complaint cause => rw [failure, offsetOf_eq h, Stop.failure]
  | numeral fault => rfl

lemma run_eq {α : Type} (h : taken ≤ tokens.length) (rule : Rule α) [Rule.Orderly rule] :
    run ⟨⟨tokens, taken⟩, side, depth⟩ rule =
      match rule (tokens.drop taken) with
      | .ok v rest => (.ok v, ⟨⟨tokens, (tokens.length - rest.length : Nat)⟩, side, depth⟩)
      | .error stop rest =>
        (.error (stop.failure tokens (tokens.length - rest.length)),
          ⟨⟨tokens, (tokens.length - rest.length : Nat)⟩, side, depth⟩) := by
  have hview : Cursor.view ⟨tokens, taken⟩ = tokens.drop taken := Cursor.viewAt_natCast _ _
  have hleaving : ∀ rest : List Token, rest.length ≤ (tokens.drop taken).length →
      leaving ⟨⟨tokens, taken⟩, side, depth⟩ rest =
        ⟨⟨tokens, (tokens.length - rest.length : Nat)⟩, side, depth⟩ := by
    -- The rule leaves a suffix of what it sees, so its length tells how much was taken.
    intro rest hrest
    have hposition : (taken + ((tokens.drop taken).length - rest.length : Nat) : Int) =
        (tokens.length - rest.length : Nat) := by
      rw [List.length_drop] at hrest ⊢
      omega
    rw [leaving, hview, Cursor.advance, hposition]
  have hsuffix := (Rule.Orderly.suffix rule (tokens.drop taken)).length_le
  rw [run, hview]
  rcases hrun : rule (tokens.drop taken) with ⟨v, rest⟩ | ⟨stop, rest⟩ <;> rw [hrun] at hsuffix
  · simp only [hleaving rest hsuffix]
  · simp only [hleaving rest hsuffix, failure_eq (Nat.sub_le _ _)]

/-- A run moves a session forward among its tokens, and does nothing else to it. -/
lemma run_moves {α : Type} (side : Associativity) (depth : Nat) (h : taken ≤ tokens.length)
    (rule : Rule α) [Rule.Orderly rule] :
    ∃ later : Nat, taken ≤ later ∧ later ≤ tokens.length ∧
      (run ⟨⟨tokens, taken⟩, side, depth⟩ rule).2 = ⟨⟨tokens, later⟩, side, depth⟩ := by
  have hleft := (Rule.Orderly.suffix rule (tokens.drop taken)).length_le
  rw [List.length_drop] at hleft
  refine ⟨tokens.length - (Rule.left (rule (tokens.drop taken))).length, by omega, Nat.sub_le _ _,
    ?_⟩
  rw [run_eq h]
  cases rule (tokens.drop taken) <;> rfl

/-- A run from the first token, in terms of the tokens that it takes. -/
lemma run_start_eq {α : Type} (side : Associativity) (tokens : List Token) (rule : Rule α) :
    (start side tokens).run rule =
      match rule tokens with
      | .ok v rest => (.ok v, taking side tokens (tokens.length - rest.length))
      | .error stop rest =>
        (.error (stop.failure tokens (tokens.length - rest.length)),
          taking side tokens (tokens.length - rest.length)) := by
  rw [Grammar.run_start]
  cases rule tokens with
  | ok v rest => simp only [leaving_start]
  | error stop rest => simp only [leaving_start, taking, failure_eq (Nat.sub_le _ _)]

end Session

namespace Grammar

/-- The tokens that do not make up a source, with the stop to which the failure is due. -/
lemma parse_eq_error {side : Associativity} {tokens : List Token} {failure : Failure} :
    parse side tokens = .error failure ↔
      ∃ stop rest, Rule.source side maxNesting tokens = .error stop rest ∧
        stop.failure tokens (tokens.length - rest.length) = failure := by
  have hlevels : (Session.start side tokens).levels = maxNesting := rfl
  simp only [parse, hlevels, Session.run_start_eq]
  cases Rule.source side maxNesting tokens <;> simp [and_assoc]

end Grammar

end Pebble
