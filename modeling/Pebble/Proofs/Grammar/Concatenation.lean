import Pebble.Proofs.Grammar.Nesting

/-!
Concatenation: a field or a method ends with its last token, whatever comes after it. Hence what is
read of tokens that follow a source is what is read of them alone, added to that source, and a run
stops at a token that begins no declaration just where a source has come to its end.
-/

namespace Pebble

lemma Source.ofItems_append (xs ys : List Item) :
    ofItems (xs ++ ys) =
      ⟨(ofItems xs).fields ++ (ofItems ys).fields,
        (ofItems xs).methods ++ (ofItems ys).methods⟩ := by
  induction xs with
  | nil => rfl
  | cons item xs ih => cases item <;> simp [ofItems, ih]

namespace Grammar

variable {side : Associativity} {levels : Nat} {ts us rest : List Token}

/-! ### Declarations end with their last token -/

def ReadsAs (t : Token) (v : Value) : Prop := t.reading? = some (.ok v)

lemma constants_readsAs : Constants (fun _ => True) ReadsAs where
  of_reading _ h := h
  isConstant _ _ h := Token.isSome_reading?.1 (by rw [h]; rfl)

lemma readable_readsAs : Readable True ReadsAs := fun _ v h => ⟨.ok v, h, fun _ => rfl⟩

lemma completes_readsAs (side : Associativity) (levels : Nat) :
    Completes True (Rule.expression side levels) (Expression ReadsAs side levels)
      (Expression.next true) :=
  completes_expression readable_readsAs constants_readsAs.isConstant (fun _ => rfl) le_rfl

lemma encloses_readsAs (side : Associativity) (levels : Nat) :
    Encloses True (Rule.block side levels) (Block ReadsAs side levels) :=
  encloses_block readable_readsAs constants_readsAs.isConstant (fun _ => rfl) le_rfl

lemma completes_statement (side : Associativity) (levels : Nat) :
    Completes True (Rule.statement side levels)
      (Statement (Expression ReadsAs side levels) (Block ReadsAs side levels)) [] := by
  rw [Rule.statement_eq]
  exact completes_statementOf (completes_readsAs side levels)
    (begins_expression constants_readsAs.isConstant side levels) (encloses_readsAs side levels)

def declaration (side : Associativity) (levels : Nat) : Rule Pebble.Item :=
  Rule.item (Rule.expression side levels) (Rule.block side levels)

instance : Rule.Advances (declaration side levels) :=
  inferInstanceAs (Rule.Advances (Rule.item _ _))

def declarations (side : Associativity) (levels : Nat) : Rule (List Pebble.Item) :=
  get >>= Rule.items (declaration side levels)

instance : Rule.Orderly (declarations side levels) :=
  inferInstanceAs (Rule.Orderly (get >>= Rule.items (declaration side levels)))

abbrev Declared (side : Associativity) (levels : Nat) : Phrase Pebble.Item :=
  Item (Expression ReadsAs side levels) (Block ReadsAs side levels)

lemma declarations_nil : declarations side levels [] = .ok [] [] := rfl

lemma declarations_cons (t : Token) (ts : List Token) :
    declarations side levels (t :: ts) =
      match declaration side levels (t :: ts) with
      | .ok v mid =>
        match declarations side levels mid with
        | .ok vs rest => .ok (v :: vs) rest
        | .error stop rest => .error stop rest
      | .error stop mid => .error stop mid := by
  rw [declarations, Rule.items_get_cons, Rule.bind_apply]
  rcases declaration side levels (t :: ts) with ⟨v, mid⟩ | ⟨stop, mid⟩
  · dsimp only
    rw [Rule.bind_apply, ← declarations]
    cases declarations side levels mid <;> rfl
  · rfl

lemma source_apply (ts : List Token) :
    Rule.source side levels ts =
      match declarations side levels ts with
      | .ok vs rest => .ok (.ofItems vs) rest
      | .error stop rest => .error stop rest := by
  rw [Rule.source_eq, Rule.bind_apply, ← declaration, ← declarations]
  cases declarations side levels ts <;> rfl

lemma declared_of_ok {v : Pebble.Item} (h : declaration side levels ts = .ok v rest) :
    ∃ used, ts = used ++ rest ∧ Declared side levels used v := by
  have hreads := reads_item (extends_succ constants_readsAs side levels)
    (reads_expression constants_readsAs levels) (reads_block constants_readsAs levels) ts
    fun _ _ => trivial
  rw [declaration] at h
  rwa [h] at hreads

/-- A declaration is read in the same way whatever comes after it. -/
lemma declaration_append {v : Pebble.Item} (h : Declared side levels us v) (rest : List Token) :
    declaration side levels (us ++ rest) = .ok v rest := by
  have hitem := completes_item (completes_readsAs side levels) (encloses_readsAs side levels)
  exact (hitem us v rest h (by simp [Clear])).eq_next

/-- Declarations are read, and then what comes after them. -/
lemma declarations_append {vs : List Pebble.Item} (h : Many (Declared side levels) us vs)
    (rest : List Token) :
    declarations side levels (us ++ rest) =
      match declarations side levels rest with
      | .ok ws left => .ok (vs ++ ws) left
      | .error stop left => .error stop left := by
  induction h with
  | nil =>
    rw [List.nil_append]
    cases declarations side levels rest <;> rfl
  | @cons ts us v vs hv _ ih =>
    -- A declaration takes a token, so there is one at which the next round starts.
    obtain ⟨t, us', heq, -⟩ := begins_item.append hv (us ++ rest)
    rw [List.append_assoc, heq, declarations_cons, ← heq, declaration_append hv]
    dsimp only
    rw [ih]
    cases declarations side levels rest <;> rfl

lemma many_declared {vs : List Pebble.Item} (h : declarations side levels ts = .ok vs rest) :
    rest = [] ∧ Many (Declared side levels) ts vs := by
  induction hn : ts.length using Nat.strong_induction_on generalizing ts vs with
  | _ n ih =>
    rcases ts with _ | ⟨t, ts⟩
    · cases h
      exact ⟨rfl, .nil⟩
    rw [declarations_cons] at h
    rcases hfirst : declaration side levels (t :: ts) with ⟨v, mid⟩ | ⟨stop, mid⟩ <;>
      simp only [hfirst] at h
    · rcases hothers : declarations side levels mid with ⟨ws, left⟩ | ⟨stop, left⟩ <;>
        simp only [hothers] at h <;> cases h
      obtain ⟨used, heq, hv⟩ := declared_of_ok hfirst
      obtain ⟨hrest, hmany⟩ := ih mid.length (hn ▸ Rule.Advances.length_lt _ hfirst) hothers rfl
      exact ⟨hrest, heq ▸ .cons hv hmany⟩
    · cases h

/-! ### Where declarations stop -/

/-- No level stops because of a token that begins no declaration. -/
lemma within_stop {x : Opening} {stop : Stop}
    (h : Openers.within side levels x ts = .error stop rest) :
    stop.kind? ≠ some .unexpectedToken := by
  induction levels generalizing x ts with
  | zero =>
    rw [Openers.within_zero] at h
    cases h
    exact nofun
  | succ levels ih =>
    rw [Openers.within_succ] at h
    rcases ((Rule.walks_body side x).run_error (Openers.steady_within levels) h).2 with
      hown | ⟨y, us, -, hy⟩
    · exact hown.2
    · exact ih hy

lemma stop_of_walks {α : Type} {F : Openers → Rule α} {b c : Int} (hF : Walks Stop.Own b c F)
    {stop : Stop} (h : F (Openers.within side levels) ts = .error stop rest) :
    stop.kind? ≠ some .unexpectedToken := by
  rcases (hF.run_error (Openers.steady_within levels) h).2 with hown | ⟨y, us, -, hy⟩
  · exact hown.2
  · exact within_stop hy

lemma eq_error_of_map {α β : Type} {r : Rule α} {f : α → β} {stop : Stop}
    (h : (r >>= fun v => pure (f v)) ts = .error stop rest) : r ts = .error stop rest := by
  rw [Rule.bind_apply] at h
  rcases hr : r ts with ⟨v, mid⟩ | ⟨stop', mid⟩ <;> simp only [hr] at h <;> cases h
  rfl

/-- A declaration stops at a token that begins none, or behind its first token. -/
lemma declaration_error {t : Token} {stop : Stop}
    (h : declaration side levels (t :: ts) = .error stop rest) :
    (t.terminal ∉ [Terminal.word .LET, .word .DEF] ∧ rest = t :: ts ∧
        stop.kind? = some .unexpectedToken) ∨
      (stop.kind? ≠ some .unexpectedToken ∧ rest <:+ ts) := by
  by_cases ht : t.terminal ∈ [Terminal.word .LET, .word .DEF]
  · right
    rw [declaration] at h
    rcases List.mem_cons.1 ht with ht | ht
    · rw [Rule.item_of_let ht] at h
      have hfield := eq_error_of_map h
      exact ⟨stop_of_walks Rule.walks_field hfield, Rule.suffix_of_error hfield⟩
    · rw [Rule.item_of_def (List.mem_singleton.1 ht)] at h
      have hmethod := eq_error_of_map h
      exact ⟨stop_of_walks Rule.walks_method hmethod, Rule.suffix_of_error hmethod⟩
  · rw [declaration, Rule.item_of_ne ht] at h
    cases h
    exact .inl ⟨ht, rfl, rfl⟩

/-- Declarations stop in the one that comes after some that are complete. -/
lemma declarations_error {stop : Stop} (h : declarations side levels ts = .error stop rest) :
    ∃ used vs t more, ts = used ++ t :: more ∧ Many (Declared side levels) used vs ∧
      ((t.terminal ∉ [Terminal.word .LET, .word .DEF] ∧ rest = t :: more ∧
          stop.kind? = some .unexpectedToken) ∨
        (stop.kind? ≠ some .unexpectedToken ∧ rest <:+ more)) := by
  induction hn : ts.length using Nat.strong_induction_on generalizing ts with
  | _ n ih =>
    rcases ts with _ | ⟨t, ts⟩
    · cases h
    rw [declarations_cons] at h
    rcases hfirst : declaration side levels (t :: ts) with ⟨v, mid⟩ | ⟨stop', mid⟩ <;>
      simp only [hfirst] at h
    · rcases hothers : declarations side levels mid with ⟨ws, left⟩ | ⟨stop', left⟩ <;>
        simp only [hothers] at h <;> cases h
      -- The stop is in one of the declarations behind the first.
      obtain ⟨first, heq, hv⟩ := declared_of_ok hfirst
      have hlt := Rule.Advances.length_lt _ hfirst
      obtain ⟨used, vs, u, more, rfl, hmany, hstop⟩ := ih mid.length (hn ▸ hlt) hothers rfl
      exact ⟨first ++ used, v :: vs, u, more, by simp [heq], .cons hv hmany, hstop⟩
    · cases h
      exact ⟨[], [], t, ts, rfl, .nil, declaration_error hfirst⟩

/-! ### Sources -/

/-- What follows a source is read as it is alone. -/
lemma source_append {s : Pebble.Source} (h : Rule.source side levels us = .ok s rest)
    (ts : List Token) :
    Rule.source side levels (us ++ ts) =
      match Rule.source side levels ts with
      | .ok s' left => .ok ⟨s.fields ++ s'.fields, s.methods ++ s'.methods⟩ left
      | .error stop left => .error stop left := by
  rw [source_apply] at h
  rcases hus : declarations side levels us with ⟨vs, left⟩ | ⟨stop, left⟩ <;>
    simp only [hus] at h <;> cases h
  rw [source_apply, declarations_append (many_declared hus).2, source_apply]
  cases declarations side levels ts with
  | ok ws left =>
    dsimp only
    rw [Source.ofItems_append]
  | error stop left => rfl

/-- A run stops because of a token that begins no declaration just behind a source. -/
lemma unexpected_iff (tokens : List Token) (p : Nat) :
    (∃ cause rest, Rule.source side levels tokens = .error (.complaint cause) rest ∧
        cause.kind = .unexpectedToken ∧ tokens.length - rest.length = p) ↔
      (∃ s rest, Rule.source side levels (tokens.take p) = .ok s rest) ∧
        ∃ t, tokens[p]? = some t ∧ t.terminal ∉ [Terminal.word .LET, .word .DEF] := by
  constructor
  · rintro ⟨cause, rest, hrun, hkind, rfl⟩
    rw [source_apply] at hrun
    rcases hdecl : declarations side levels tokens with ⟨vs, left⟩ | ⟨stop, left⟩ <;>
      simp only [hdecl] at hrun <;> cases hrun
    obtain ⟨used, vs, t, more, rfl, hmany, ⟨ht, rfl, -⟩ | ⟨hne, -⟩⟩ := declarations_error hdecl
    · -- The run has stopped at a token that begins no declaration.
      have hlength : (used ++ t :: more).length - (t :: more).length = used.length := by simp
      refine ⟨⟨.ofItems vs, [], ?_⟩, t, by simp, ht⟩
      have happend := declarations_append hmany []
      rw [declarations_nil, List.append_nil] at happend
      rw [hlength, List.take_left' rfl, source_apply, happend]
      simp
    · exact absurd (congrArg some hkind) hne
  · rintro ⟨⟨s, rest, hs⟩, t, ht, hne⟩
    obtain ⟨hlt, rfl⟩ := List.getElem?_eq_some_iff.1 ht
    -- The tokens before `p` are a program, so they are read before the rest, which stops at once.
    have hsplit : tokens = tokens.take p ++ tokens[p] :: tokens.drop (p + 1) := by simp
    have hrun := source_append hs (tokens[p] :: tokens.drop (p + 1))
    rw [← hsplit, source_apply (tokens[p] :: _), declarations_cons, declaration,
      Rule.item_of_ne hne] at hrun
    exact ⟨_, _, hrun, rfl, by simp; omega⟩

/-- Where a source stops, there is a token, and a semicolon is missing only behind one. -/
lemma pos_of_missing {stop : Stop} (h : Rule.source side levels ts = .error stop rest) :
    ts ≠ [] ∧ (stop = .complaint .missingSemicolon → 0 < ts.length - rest.length) := by
  rw [source_apply] at h
  rcases hdecl : declarations side levels ts with ⟨vs, left⟩ | ⟨stop', left⟩ <;>
    simp only [hdecl] at h <;> cases h
  obtain ⟨used, vs, t, more, rfl, -, ⟨-, -, hkind⟩ | ⟨-, hrest⟩⟩ := declarations_error hdecl
  · refine ⟨by simp, ?_⟩
    rintro rfl
    cases hkind
  · have hle := hrest.length_le
    refine ⟨by simp, fun _ => ?_⟩
    rw [List.length_append, List.length_cons]
    omega

lemma parse_append_ok {first second : List Token} {s s' : Pebble.Source}
    (hfirst : parse side first = .ok s) (hsecond : parse side second = .ok s') :
    parse side (first ++ second) = .ok ⟨s.fields ++ s'.fields, s.methods ++ s'.methods⟩ := by
  obtain ⟨rest, hs⟩ := parse_eq_ok.1 hfirst
  obtain ⟨left, hs'⟩ := parse_eq_ok.1 hsecond
  have hrun := source_append hs second
  rw [hs'] at hrun
  exact parse_eq_ok.2 ⟨left, hrun⟩

lemma parse_append_error {first second : List Token} {s : Pebble.Source} {failure : Failure}
    (hfirst : parse side first = .ok s) (hsecond : parse side second = .error failure) :
    parse side (first ++ second) = .error failure ∧
      ((Session.start side (first ++ second)).run (Rule.source side maxNesting)).2.cursor.position =
        first.length +
          ((Session.start side second).run (Rule.source side maxNesting)).2.cursor.position := by
  obtain ⟨rest, hs⟩ := parse_eq_ok.1 hfirst
  obtain ⟨stop, left, hstop, rfl⟩ := parse_eq_error.1 hsecond
  have hrun := source_append hs second
  rw [hstop] at hrun
  have hle : left.length ≤ second.length := by
    have := (Rule.Orderly.suffix (Rule.source side maxNesting) second).length_le
    rwa [hstop] at this
  have htaken : (first ++ second).length - left.length =
      first.length + (second.length - left.length) := by
    rw [List.length_append]
    omega
  -- Where a semicolon is missing, the offset is that of the token before, which is in `second`.
  obtain ⟨hne, hpos⟩ := pos_of_missing hstop
  refine ⟨parse_eq_error.2 ⟨stop, left, hrun, ?_⟩, ?_⟩
  · rw [htaken, Stop.failure_append first hne hpos]
  · rw [Session.run_start_eq, Session.run_start_eq, hrun, hstop]
    simp only [Session.taking, htaken]
    omega

/-- A run reports an unexpected token with `p` tokens taken just if its rule stops there. -/
lemma run_unexpected_iff (tokens : List Token) (p : Nat) :
    (∃ report session, (Session.start side tokens).run (Rule.source side maxNesting) =
        (.error (.report report), session) ∧
      report.kind = .complaint .unexpectedToken ∧ session.cursor.position = p) ↔
    ∃ cause rest, Rule.source side maxNesting tokens = .error (.complaint cause) rest ∧
      cause.kind = .unexpectedToken ∧ tokens.length - rest.length = p := by
  rw [Session.run_start_eq]
  constructor
  · rintro ⟨report, session, hrun, hkind, hp⟩
    rcases hsource : Rule.source side maxNesting tokens with ⟨s, rest⟩ | ⟨cause | fault, rest⟩ <;>
      rw [hsource] at hrun <;> cases hrun
    exact ⟨cause, rest, rfl, ReportKind.complaint.inj hkind, Int.natCast_inj.1 hp⟩
  · rintro ⟨cause, rest, hsource, hkind, rfl⟩
    rw [hsource]
    exact ⟨_, _, rfl, congrArg _ hkind, rfl⟩

/-- **A source is read declaration by declaration**: what is read of tokens behind a source is what
is read of them alone, added to that source, or fails in the same way, so many tokens further on.
A token is unexpected just if it begins no declaration and those before it are a source. -/
theorem parse_append (side : Associativity) :
    (∀ first second s, parse side first = .ok s →
      (∀ s', parse side second = .ok s' →
        parse side (first ++ second) = .ok ⟨s.fields ++ s'.fields, s.methods ++ s'.methods⟩) ∧
      ∀ failure, parse side second = .error failure →
        parse side (first ++ second) = .error failure ∧
          ((Session.start side (first ++ second)).run
              (Rule.source side maxNesting)).2.cursor.position =
            first.length +
              ((Session.start side second).run (Rule.source side maxNesting)).2.cursor.position) ∧
    ∀ tokens, ∀ p : Nat,
      (∃ report session, (Session.start side tokens).run (Rule.source side maxNesting) =
          (.error (.report report), session) ∧
        report.kind = .complaint .unexpectedToken ∧ session.cursor.position = p) ↔
      (∃ s, parse side (tokens.take p) = .ok s) ∧
        ∃ t, tokens[p]? = some t ∧ t.keyword? ≠ some .LET ∧ t.keyword? ≠ some .DEF := by
  refine ⟨fun first second s hfirst => ?_, fun tokens p => ?_⟩
  · exact ⟨fun s' hsecond => parse_append_ok hfirst hsecond,
      fun failure hsecond => parse_append_error hfirst hsecond⟩
  · have hparse : (∃ s, parse side (tokens.take p) = .ok s) ↔
        ∃ s rest, Rule.source side maxNesting (tokens.take p) = .ok s rest := by
      simp only [parse_eq_ok]
    have hword : ∀ t : Token, (t.keyword? ≠ some .LET ∧ t.keyword? ≠ some .DEF) ↔
        t.terminal ∉ [Terminal.word .LET, .word .DEF] := by
      intro t
      simp [Token.keyword?_eq_some_iff]
    simp only [hparse, hword]
    rw [run_unexpected_iff, unexpected_iff]

end Grammar

end Pebble
