import Pebble.Proofs.Grammar.Completeness
import Pebble.Proofs.Grammar.Soundness

/-!
Acceptance: the sources that are read are those that the grammar derives with the nesting allowed,
and each is read as what its derivation denotes.
-/

namespace Pebble

namespace Token

/-- A token whose numeral, if it is one, is plain: an integer is a sign and as many digits as can be
read, a decimal is a sign and digits on both sides of a point. -/
structure Plain (t : Token) : Prop where
  integer : t.kind = .integer → ∃ negative digits, t.literal = Decimal.sign negative ++ digits ∧
    digits ≠ [] ∧ digits.length ≤ Numeral.maxDigits ∧ ∀ c ∈ digits, c.isDigit
  decimal : t.kind = .decimal → ∃ negative whole fraction,
    t.literal = Decimal.sign negative ++ (whole ++ '.' :: fraction) ∧ whole ≠ [] ∧ fraction ≠ [] ∧
    (∀ c ∈ whole, c.isDigit) ∧ ∀ c ∈ fraction, c.isDigit

variable {t : Token} {v : Value}

lemma Plain.wellFormed (h : t.Plain) : t.WellFormed where
  integer hk := by
    obtain ⟨negative, digits, hl, hne, -, hd⟩ := h.integer hk
    exact ⟨negative, digits, hl, hne, hd⟩
  decimal := h.decimal

/-- A plain numeral can be read, unless it is a decimal out of range. -/
lemma Plain.reading?_ne_error (h : t.Plain) (hdecimal : t.kind = .decimal → ∃ v, t.Denotes v)
    (fault : Numeral.Fault) : t.reading? ≠ some (.error fault) := by
  have hread : ∀ {v : Value}, t.Denotes v → t.reading? ≠ some (.error fault) := by
    intro v hv
    simp [hv.reading?_eq]
  rcases hk : t.kind with _ | _ | _ | _ | _ | _
  · rw [reading?, terminal, hk]
    rcases Keyword.ofText? t.literal with _ | w
    · simp
    · cases w <;> simp [Keyword.constant?]
  · obtain ⟨negative, digits, hl, hne, hlen, hd⟩ := h.integer hk
    exact hread (.integer hk hl hne hd hlen)
  · obtain ⟨v, hv⟩ := hdecimal hk
    exact hread hv
  · exact hread (.text (.inl hk))
  · exact hread (.text (.inr hk))
  · rw [reading?, terminal, hk]
    simp

end Token

namespace Grammar

lemma run_start {α : Type} (side : Associativity) (tokens : List Token) (rule : Rule α) :
    (Session.start side tokens).run rule =
      match rule tokens with
      | .ok v rest => (.ok v, (Session.start side tokens).leaving rest)
      | .error stop rest =>
        (.error (((Session.start side tokens).leaving rest).failure stop),
          (Session.start side tokens).leaving rest) := by
  have hview : (Session.start side tokens).cursor.view = tokens :=
    Cursor.viewAt_natCast ⟨tokens, 0⟩ 0
  cases hrun : rule tokens <;> simp only [Session.run, hview, hrun]

lemma position_leaving (side : Associativity) (tokens rest : List Token) :
    ((Session.start side tokens).leaving rest).cursor.position =
      ((tokens.length - rest.length : Nat) : Int) := by
  have hview : (Session.start side tokens).cursor.view = tokens :=
    Cursor.viewAt_natCast ⟨tokens, 0⟩ 0
  rw [Session.leaving, hview]
  simp [Session.start, Cursor.advance]

lemma parse_eq_ok {side : Associativity} {tokens : List Token} {source : Pebble.Source} :
    parse side tokens = .ok source ↔
      ∃ rest, Rule.source side maxNesting tokens = .ok source rest := by
  have hlevels : (Session.start side tokens).levels = maxNesting := rfl
  simp only [parse, hlevels, run_start]
  split <;> simp_all

lemma constants_wellFormed : Constants Token.WellFormed Token.Denotes where
  of_reading h hv := h.denotes hv
  isConstant _ _ h := Token.isSome_reading?.1 (by simp [h.reading?_eq])

lemma denotes_le : Token.Denotes ≤ IsConstant := constants_wellFormed.isConstant

lemma readable_denotes : Readable True Token.Denotes :=
  fun _ v h => ⟨.ok v, h.reading?_eq, fun _ => rfl⟩

/-- **Completeness**: what is derived is read, with at least as many levels, as what it denotes. -/
theorem source_of_program {side : Associativity} {levels most : Nat} {tokens : List Token}
    {s : Pebble.Source} (hle : levels ≤ most) (h : Program Token.Denotes side levels tokens s) :
    Rule.source side most tokens = .ok s [] :=
  (completes_source side readable_denotes denotes_le (fun _ => rfl) hle h).eq_next

/-- The grammar is not ambiguous: no tokens are derived from `source` with two values. -/
theorem program_unique {side : Associativity} {levels : Nat} {tokens : List Token}
    {s s' : Pebble.Source} (h : Program Token.Denotes side levels tokens s)
    (h' : Program Token.Denotes side levels tokens s') : s = s' := by
  have hrun := source_of_program le_rfl h
  rw [source_of_program le_rfl h'] at hrun
  cases hrun
  rfl

/-- **Soundness**: a source that is read is derived, with at most the nesting allowed. -/
theorem program_of_parse {side : Associativity} {tokens : List Token} {source : Pebble.Source}
    (hplain : ∀ t ∈ tokens, t.Plain) (h : parse side tokens = .ok source) :
    Program Token.Denotes side maxNesting tokens source := by
  obtain ⟨rest, hrun⟩ := parse_eq_ok.1 h
  obtain ⟨used, rfl, hprogram⟩ := (reads_source constants_wellFormed side maxNesting).ok
    (fun t ht => (hplain t ht).wellFormed) hrun
  rw [Rule.source_rest hrun]
  simpa using hprogram

/-- A source is read whenever its terminals are derived with the nesting allowed, unless a numeral
in it cannot be read. -/
theorem parse_of_derivable {side : Associativity} {tokens : List Token}
    (hnumeral : ∀ t ∈ tokens, ∀ fault, t.reading? ≠ some (.error fault))
    (h : DerivableWithin maxNesting tokens) : ∃ source, parse side tokens = .ok source := by
  obtain ⟨side', source, h⟩ := h
  have hreadable : Readable False IsConstant := by
    intro t v ht
    obtain ⟨out, hout⟩ := Option.isSome_iff_exists.1 (Token.isSome_reading?.2 ht)
    exact ⟨out, hout, False.elim⟩
  rcases completes_source side hreadable le_rfl False.elim le_rfl h with
    ⟨w, _, hrun⟩ | ⟨_, fault, left, hrun⟩
  · exact ⟨w, parse_eq_ok.2 ⟨[], hrun⟩⟩
  · obtain ⟨t, ht, hread⟩ := Rule.Orderly.numeral _ hrun
    exact absurd hread (hnumeral t ht fault)

/-- The sources that are read are those that the grammar derives with at most `maxNesting`
expressions and blocks open at once, and each is read as what its derivation denotes. Unless a
decimal is out of range, the terminals alone decide whether a source is read. -/
theorem parse_iff_program {tokens : List Token} (hplain : ∀ t ∈ tokens, t.Plain)
    (side : Associativity) :
    (∀ source, parse side tokens = .ok source ↔
      Program Token.Denotes side maxNesting tokens source) ∧
    ((∀ t ∈ tokens, t.kind = .decimal → ∃ v, t.Denotes v) →
      ((∃ source, parse side tokens = .ok source) ↔ DerivableWithin maxNesting tokens)) := by
  refine ⟨fun source => ⟨program_of_parse hplain, fun h => ?_⟩, fun hdecimal => ⟨?_, fun h => ?_⟩⟩
  · exact parse_eq_ok.2 ⟨[], source_of_program le_rfl h⟩
  · rintro ⟨source, h⟩
    exact ⟨side, source,
      Source.mono (Expression.mono denotes_le le_rfl) (Block.mono denotes_le le_rfl) _ _
        (program_of_parse hplain h)⟩
  · exact parse_of_derivable (fun t ht => (hplain t ht).reading?_ne_error (hdecimal t ht)) h

/-- A field whose value adds a decimal to an integer. -/
theorem parse_iff_program_field :
    let tokens : List Token :=
      [⟨.identifier, ['L', 'e', 't'], 0⟩, ⟨.identifier, ['x'], 4⟩, ⟨.operator, ['='], 6⟩,
        ⟨.integer, ['-', '1'], 8⟩, ⟨.operator, ['+'], 11⟩, ⟨.decimal, ['2', '.', '5'], 13⟩,
        ⟨.operator, [';'], 16⟩]
    (∃ source, parse .right tokens = .ok source ∧
      Program Token.Denotes .right maxNesting tokens source) ∧
    DerivableWithin maxNesting tokens := by
  intro tokens
  have hplain : ∀ t ∈ tokens, t.Plain := by
    simp only [tokens, List.forall_mem_cons, List.not_mem_nil, false_implies, implies_true,
      and_true]
    refine ⟨⟨nofun, nofun⟩, ⟨nofun, nofun⟩, ⟨nofun, nofun⟩, ⟨fun _ => ?_, nofun⟩, ⟨nofun, nofun⟩,
      ⟨nofun, fun _ => ?_⟩, ⟨nofun, nofun⟩⟩
    · exact ⟨true, ['1'], rfl, by simp, by decide, List.forall_mem_singleton.2 rfl⟩
    · exact ⟨false, ['2'], ['5'], rfl, by simp, by simp, List.forall_mem_singleton.2 rfl,
        List.forall_mem_singleton.2 rfl⟩
  have hdecimal : ∀ t ∈ tokens, t.kind = .decimal → ∃ v, t.Denotes v := by
    simp only [tokens, List.forall_mem_cons, List.not_mem_nil, false_implies, implies_true,
      and_true]
    refine ⟨nofun, nofun, nofun, nofun, nofun, fun _ => ?_, nofun⟩
    exact ⟨_, @Token.Denotes.decimal _ false ['2'] ['5'] rfl rfl (by simp) (by simp)
      (List.forall_mem_singleton.2 rfl) (List.forall_mem_singleton.2 rfl) (by decide)⟩
  obtain ⟨hiff, hderivable⟩ := parse_iff_program hplain .right
  have hparse : parse .right tokens = .ok ⟨[⟨['x'], none, some (.binary ['+']
      (.literal (.integer (-1))) (.literal (.decimal (.finite false 25 (-1)))))⟩], []⟩ := by
    rfl
  exact ⟨⟨_, hparse, (hiff _).1 hparse⟩, (hderivable hdecimal).1 ⟨_, hparse⟩⟩

end Grammar

end Pebble
