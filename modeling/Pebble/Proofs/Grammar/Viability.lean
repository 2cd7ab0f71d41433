import Pebble.Proofs.Grammar.Acceptance
import Pebble.Proofs.Grammar.Following

/-!
Viability: a complaint is made at the first token with which the source can no longer be completed,
and its kind tells with which tokens it could be.
-/

namespace Pebble.Grammar

variable {side : Associativity} {levels : Nat} {ts rest : List Token}

/-- The terminals with which tokens can go on, so as to begin something that is derived from
`source`. -/
def Next (ts : List Token) : Set Terminal :=
  {c | ∃ t more, t.terminal = c ∧ Derivable (ts ++ t :: more)}

lemma constants_isConstant : Constants (fun _ => True) IsConstant where
  of_reading _ hv := Token.isSome_reading?.1 (by simp [hv])
  isConstant := le_rfl

lemma readable_isConstant : Readable False IsConstant := by
  intro t v ht
  obtain ⟨out, hout⟩ := Option.isSome_iff_exists.1 (Token.isSome_reading?.2 ht)
  exact ⟨out, hout, False.elim⟩

/-- **Viability**: what a source has taken can be completed. -/
lemma exists_derivable (side : Associativity) (levels : Nat) (ts : List Token) :
    ∃ used, ts = used ++ Rule.left (Rule.source side levels ts) ∧
      ∃ more, Derivable (used ++ more) := by
  have hreads := reads_source constants_isConstant side levels ts fun _ _ => trivial
  rcases hrun : Rule.source side levels ts with ⟨s, rest⟩ | ⟨stop, rest⟩ <;> rw [hrun] at hreads
  · obtain ⟨used, hts, hprogram⟩ := hreads
    exact ⟨used, hts, [], levels, side, s, by simpa using hprogram⟩
  · obtain ⟨used, hts, more, s, hprogram⟩ := hreads
    exact ⟨used, hts, more, levels + 1, side, s, hprogram⟩

/-- No complaint is made about what is derivable with as many levels as there are. -/
lemma source_ne_complaint {most : Nat} (h : DerivableWithin levels ts) (hle : levels ≤ most)
    (cause : Complaint) : Rule.source side most ts ≠ .error (.complaint cause) rest := by
  obtain ⟨side', source, h⟩ := h
  intro hrun
  rcases completes_source side readable_isConstant le_rfl False.elim hle h with
    ⟨w, _, hok⟩ | ⟨_, fault, left, herror⟩
  · rw [hrun] at hok
    cases hok
  · rw [hrun] at herror
    cases herror

/-- The terminals that a stuck run takes are those with which the tokens before can go on. -/
lemma mem_next_iff {pre : List Token} {cs : List Terminal}
    (h : Stuck (Rule.source side levels) pre cs) (c : Terminal) : c ∈ Next pre ↔ c ∈ cs := by
  constructor
  · rintro ⟨t, more, rfl, l, hder⟩
    by_contra ht
    obtain ⟨cause, hcause, hrun⟩ := h.complains t more ht
    -- With enough levels for the derivation, the run is stuck at the same token.
    have hlt : levels < max l (levels + 1) := by omega
    rcases follows_source hlt hrun with hdeep | ⟨used, hused, _, cs', hclear, hstuck, _⟩
    · exact hcause hdeep
    obtain rfl : pre = used := List.append_cancel_right hused
    obtain ⟨cause', _, hrun'⟩ := hstuck.complains t more (clear_cons.1 hclear)
    exact source_ne_complaint hder (le_max_left _ _) cause' hrun'
  · intro hc
    have ht := c.terminal_token
    have hleft := List.suffix_nil.1 (h.taken c.token [] (by rwa [ht]))
    obtain ⟨used, hused, more, hder⟩ := exists_derivable side levels (pre ++ [c.token])
    rw [hleft, List.append_nil] at hused
    subst hused
    exact ⟨c.token, more, ht, by simpa using hder⟩

lemma def_mem_next (h : Derivable ts) : .word .DEF ∈ Next ts := by
  obtain ⟨levels, side, source, h⟩ := h
  have h :=
    Source.mono (Expression.mono le_rfl levels.le_succ) (Block.mono le_rfl levels.le_succ) _ _ h
  obtain ⟨items, hitems, -⟩ := Source.flat h
  have hmethod : Method (Block IsConstant side (levels + 1)) _ _ :=
    .method (word_token .DEF) (Terminal.terminal_token .name) (Terminal.terminal_token (.mark '('))
      (.empty (Terminal.terminal_token (.mark ')'))) (word_token .DO) .nil (word_token .END)
  exact ⟨(Terminal.word .DEF).token, _, word_token .DEF, levels + 1, side, _,
    Source.ofItems (hitems.snoc (.method hmethod))⟩

/-- What is known where a source stops with a complaint, other than for its nesting. -/
lemma halts_next {cause : Complaint}
    (h : Rule.source side levels ts = .error (.complaint cause) rest)
    (hcause : cause ≠ .nestingTooDeep) :
    ∃ pre, ts = pre ++ rest ∧ (∃ more, Derivable (pre ++ more)) ∧
      (∀ t ∈ rest.head?, t.terminal ∉ Next pre) ∧ (rest = [] → ¬ Derivable pre) ∧
      (∀ kind : ComplaintKind, kind.due (Next pre) (rest = []) ↔ kind = cause.kind) ∧
      ∀ kind, cause ≠ .missing (.keyword .END) kind := by
  obtain ⟨pre, hts, hder⟩ := exists_derivable side levels ts
  rw [h, Rule.left_error] at hts
  rcases follows_source levels.lt_succ_self h with
    hdeep | ⟨used, hused, hend, cs, hclear, hstuck, hfits⟩
  · exact absurd hdeep hcause
  obtain rfl : pre = used := List.append_cancel_right (hts ▸ hused)
  have hnext := mem_next_iff hstuck
  refine ⟨pre, hts, hder, fun t ht hmem => hclear t ht ((hnext _).1 hmem), fun hrest hpre => ?_,
    fun kind => ?_, hend⟩
  · have hnil := hfits.2 ((hnext _).1 (def_mem_next hpre))
    simp [hrest] at hnil
  · have hset : Next pre = {c | c ∈ cs} := Set.ext fun c => hnext c
    have hmem : kind ∈ ComplaintKind.all := by cases kind <;> decide
    have hdue := isDue_iff cs rest.isEmpty kind
    rw [hfits.1 kind hmem, decide_eq_true_eq, List.isEmpty_iff] at hdue
    rw [hset]
    exact hdue.symm

lemma run_eq_report {report : Report} {s : Session}
    (h : (Session.start side ts).run (Rule.source side levels) = (.error (.report report), s)) :
    ∃ cause rest, Rule.source side levels ts = .error (.complaint cause) rest ∧
      report.kind = .complaint cause.kind ∧
      s.cursor.position = ((ts.length - rest.length : Nat) : Int) := by
  rw [run_start] at h
  rcases hrun : Rule.source side levels ts with ⟨v, rest⟩ | ⟨cause | fault, rest⟩ <;>
    rw [hrun] at h <;> simp only [Prod.mk.injEq] at h
  · cases h.1
  · obtain ⟨hreport, rfl⟩ := h
    cases hreport
    exact ⟨cause, rest, rfl, rfl, position_leaving side ts rest⟩
  · cases h.1

/-- **The correct-prefix property**: a complaint other than for the nesting is made where the tokens
already taken can be completed, but not with the token that comes next, if there is one, and not
without more if there is none. -/
theorem viable_prefix {tokens : List Token} {report : Report} {s : Session}
    (h : (Session.start side tokens).run (Rule.source side maxNesting) =
      (.error (.report report), s))
    (hkind : report.kind ≠ .complaint .nestingTooDeep) :
    ∃ p : Nat, s.cursor.position = p ∧ p ≤ tokens.length ∧
      (∃ more, Derivable (tokens.take p ++ more)) ∧
      (p < tokens.length → ∀ more, ¬ Derivable (tokens.take (p + 1) ++ more)) ∧
      (p = tokens.length → ¬ Derivable tokens) := by
  obtain ⟨cause, rest, hrun, hreport, hposition⟩ := run_eq_report h
  have hcause : cause ≠ .nestingTooDeep := by
    rintro rfl
    exact hkind hreport
  obtain ⟨pre, rfl, hder, hnext, hend, -, -⟩ := halts_next hrun hcause
  have hlength : (pre ++ rest).length - rest.length = pre.length := by simp
  rw [hlength] at hposition
  refine ⟨pre.length, hposition, by simp, by simpa using hder, fun hlt more hmore => ?_,
    fun heq => ?_⟩
  · rcases rest with _ | ⟨t, rest⟩
    · simp at hlt
    · refine hnext t rfl ⟨t, more, rfl, ?_⟩
      rw [List.take_length_add_append] at hmore
      simpa using hmore
  · obtain rfl : rest = [] := by simpa using heq
    simpa using hend rfl

/-- A field whose value begins with a closing parenthesis: the three tokens before can be completed,
the four cannot. -/
theorem viable_prefix_field :
    let tokens : List Token :=
      [⟨.identifier, ['L', 'E', 'T'], 0⟩, ⟨.identifier, ['x'], 4⟩, ⟨.operator, ['='], 6⟩,
        ⟨.operator, [')'], 8⟩, ⟨.operator, [';'], 9⟩]
    (∃ more, Derivable (tokens.take 3 ++ more)) ∧
      ∀ more, ¬ Derivable (tokens.take 4 ++ more) := by
  intro tokens
  have h : (Session.start .left tokens).run (Rule.source .left maxNesting) =
      (.error (.report ⟨.complaint .expectedExpression, 8, some "expected an expression".toList⟩),
        ⟨⟨tokens, 3⟩, .left, 0⟩) := by
    rfl
  obtain ⟨p, hp, -, hmore, hnone, -⟩ := viable_prefix h (by simp)
  obtain rfl : 3 = p := Int.ofNat_inj.1 hp
  exact ⟨hmore, hnone (by decide)⟩

/-- **The kind of a complaint** is the only one that is due, given with which terminals the tokens
taken can go on and whether there are more tokens; and the `END` of a block never is missing. -/
theorem report_kind_due {tokens : List Token} {report : Report} {s : Session} {kind : ComplaintKind}
    (h : (Session.start side tokens).run (Rule.source side maxNesting) =
      (.error (.report report), s))
    (hkind : report.kind = .complaint kind) (hnesting : kind ≠ .nestingTooDeep) :
    (∃ p : Nat, s.cursor.position = p ∧
      ∀ k : ComplaintKind, k.due (Next (tokens.take p)) (p = tokens.length) ↔ k = kind) ∧
    ∀ k rest, Rule.source side maxNesting tokens ≠
      .error (.complaint (.missing (.keyword .END) k)) rest := by
  obtain ⟨cause, rest, hrun, hreport, hposition⟩ := run_eq_report h
  obtain rfl : cause.kind = kind := by simpa [hreport] using hkind
  have hcause : cause ≠ .nestingTooDeep := by
    rintro rfl
    exact hnesting rfl
  obtain ⟨pre, rfl, -, -, -, hdue, hend⟩ := halts_next hrun hcause
  have hlength : (pre ++ rest).length - rest.length = pre.length := by simp
  rw [hlength] at hposition
  refine ⟨⟨pre.length, hposition, fun k => ?_⟩, fun k rest' hmissing => ?_⟩
  · have hiff : pre.length = (pre ++ rest).length ↔ rest = [] := by simp
    rw [hiff, List.take_left']
    · exact hdue k
    · rfl
  · rw [hrun] at hmissing
    cases hmissing
    exact hend k rfl

/-- A method whose block is not closed at the end of the tokens. -/
theorem report_kind_due_block :
    let tokens : List Token :=
      [⟨.identifier, ['D', 'E', 'F'], 0⟩, ⟨.identifier, ['f'], 4⟩, ⟨.operator, ['('], 5⟩,
        ⟨.operator, [')'], 6⟩, ⟨.identifier, ['D', 'O'], 8⟩]
    ∃ report s, (Session.start .right tokens).run (Rule.source .right maxNesting) =
        (.error (.report report), s) ∧
      report.kind = .complaint .missingKeyword ∧
      ∃ p : Nat, s.cursor.position = p ∧
        ∀ k : ComplaintKind, k.due (Next (tokens.take p)) (p = tokens.length) ↔
          k = .missingKeyword := by
  intro tokens
  have h : (Session.start .right tokens).run (Rule.source .right maxNesting) =
      (.error (.report ⟨.complaint .missingKeyword, 10, some "expected END".toList⟩),
        ⟨⟨tokens, 5⟩, .right, 0⟩) := by
    rfl
  exact ⟨_, _, h, rfl, (report_kind_due h rfl (by decide)).1⟩

end Pebble.Grammar
