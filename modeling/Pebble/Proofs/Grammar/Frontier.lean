import Mathlib.Data.Set.Insert
import Pebble.Proofs.Grammar.Lookahead
import Pebble.Proofs.Grammar.Progress

/-!
Frontiers: the terminals that a run takes after some tokens, where it could also go on with others
of its rules or complain.

A rule is followed within a run of a larger rule, which may open more levels. The terminals that
the rules before have left open are carried along: as long as none of them comes next, the run is
at the rule at hand.
-/

namespace Pebble

/-! ### The kinds of complaints -/

/-- Which kind of complaint is due where `next` are the terminals with which tokens can go on. -/
def ComplaintKind.due (next : Set Terminal) (atEnd : Prop) : ComplaintKind → Prop
  | .unexpectedToken => next = {.word .LET, .word .DEF}
  | .missingSemicolon => .mark ';' ∈ next
  | .expectedIdentifier => .name ∈ next ∧ .integer ∉ next
  | .expectedParameters => next = {.mark '('}
  | .unclosedParameters => next = {.mark ',', .mark ')'}
  | .unclosedArguments => .mark ',' ∈ next ∧ .mark ')' ∈ next ∧ .mark '.' ∈ next
  | .unclosedGroup => .mark ')' ∈ next ∧ .mark '.' ∈ next ∧ .mark ',' ∉ next
  | .missingKeyword => .word .DO ∈ next ∨ .word .IN ∈ next ∨ (.word .END ∈ next ∧ atEnd)
  | .expectedExpression => .integer ∈ next ∧ ¬ (.word .END ∈ next ∧ atEnd)
  | .nestingTooDeep => False

namespace Grammar

/-- Whether a kind of complaint is due, as a test on the list of terminals. -/
def isDue (next : List Terminal) (atEnd : Bool) : ComplaintKind → Bool
  | .unexpectedToken => next ⊆ [.word .LET, .word .DEF] ∧ [.word .LET, .word .DEF] ⊆ next
  | .missingSemicolon => .mark ';' ∈ next
  | .expectedIdentifier => .name ∈ next ∧ .integer ∉ next
  | .expectedParameters => next ⊆ [.mark '('] ∧ [.mark '('] ⊆ next
  | .unclosedParameters => next ⊆ [.mark ',', .mark ')'] ∧ [.mark ',', .mark ')'] ⊆ next
  | .unclosedArguments => .mark ',' ∈ next ∧ .mark ')' ∈ next ∧ .mark '.' ∈ next
  | .unclosedGroup => .mark ')' ∈ next ∧ .mark '.' ∈ next ∧ .mark ',' ∉ next
  | .missingKeyword => .word .DO ∈ next ∨ .word .IN ∈ next ∨ (.word .END ∈ next ∧ atEnd)
  | .expectedExpression => .integer ∈ next ∧ ¬ (.word .END ∈ next ∧ atEnd)
  | .nestingTooDeep => false

lemma setOf_mem_eq_iff {next : List Terminal} {E : Set Terminal} {cs : List Terminal}
    (h : ∀ c, c ∈ E ↔ c ∈ cs) : {c | c ∈ next} = E ↔ next ⊆ cs ∧ cs ⊆ next := by
  simp only [Set.ext_iff, Set.mem_ofPred_eq, h]
  exact ⟨fun heq => ⟨fun c hc => (heq c).1 hc, fun c hc => (heq c).2 hc⟩,
    fun ⟨hsub, hsup⟩ c => ⟨fun hc => hsub hc, fun hc => hsup hc⟩⟩

lemma isDue_iff (next : List Terminal) (atEnd : Bool) (kind : ComplaintKind) :
    isDue next atEnd kind ↔ kind.due {c | c ∈ next} (atEnd = true) := by
  cases kind with
  | unexpectedToken | expectedParameters | unclosedParameters =>
    rw [isDue, ComplaintKind.due, decide_eq_true_eq]
    exact (setOf_mem_eq_iff (by simp)).symm
  | _ =>
    simp only [isDue, ComplaintKind.due, Set.mem_ofPred_eq, decide_eq_true_eq, Bool.false_eq_true]

/-- A kind is the one that is due where a rule has stopped, and no method could begin there at the
end of the tokens. -/
def Fits (kind : ComplaintKind) (next : List Terminal) (atEnd : Bool) : Prop :=
  (∀ k ∈ ComplaintKind.all, isDue next atEnd k = decide (k = kind)) ∧
    (.word .DEF ∈ next → atEnd = false)

/-- A kind is the one that is due whatever comes next, except at the end if `END` could follow. -/
def Suits (kind : ComplaintKind) (next : List Terminal) : Prop :=
  ∀ atEnd, (.word .END ∈ next → atEnd = false) → Fits kind next atEnd

instance {kind : ComplaintKind} {next : List Terminal} {atEnd : Bool} :
    Decidable (Fits kind next atEnd) := by
  unfold Fits
  infer_instance

instance {kind : ComplaintKind} {next : List Terminal} : Decidable (Suits kind next) := by
  unfold Suits
  infer_instance

/-! ### Runs at a rule -/

variable {α β γ : Type}

/-- After the tokens `pre`, the run `R` takes the terminals `cs`, and unless one of them comes next
it is at the rule `r`. -/
structure At (R : Rule β) (pre : List Token) (cs : List Terminal) (r : Rule β) : Prop where
  eq {t : Token} {ts : List Token} : t.terminal ∉ cs → R (pre ++ t :: ts) = r (t :: ts)
  taken {t : Token} {ts : List Token} : t.terminal ∈ cs → Rule.left (R (pre ++ t :: ts)) <:+ ts

/-- After the tokens `pre`, the run `R` takes the terminals `cs`, and complains at any other. -/
structure Stuck (R : Rule β) (pre : List Token) (cs : List Terminal) : Prop where
  complains (t : Token) (ts : List Token) : t.terminal ∉ cs →
    ∃ cause ≠ .nestingTooDeep, R (pre ++ t :: ts) = .error (.complaint cause) (t :: ts)
  taken (t : Token) (ts : List Token) : t.terminal ∈ cs → Rule.left (R (pre ++ t :: ts)) <:+ ts

/-- What is left when none of some terminals comes next. They do not include `END` at the end of the
tokens, where a block is not closed. -/
structure Rests (cs : List Terminal) (ts : List Token) : Prop where
  clear : Clear cs ts
  ne_nil : .word .END ∈ cs → ts ≠ []

/-- A cause for which `R` is stuck where only `rest` is left: it is the one that is due, and it is
not an `END` that is demanded. -/
def Halts (R : Rule β) (pre : List Token) (cause : Complaint) (rest : List Token) : Prop :=
  (∀ kind, cause ≠ .missing (.keyword .END) kind) ∧
    ∃ cs, Clear cs rest ∧ Stuck R pre cs ∧ Fits cause.kind cs rest.isEmpty

/-- What is known of a rule that has stopped within the run `R`: `R` is stuck there, unless a
numeral cannot be read or no level is left to open. -/
def Stops (R : Rule β) (pre ts : List Token) : Stop → List Token → Prop
  | .complaint cause, rest =>
    cause = .nestingTooDeep ∨ ∃ used, ts = used ++ rest ∧ Halts R (pre ++ used) cause rest
  | .numeral _, _ => True

/-- What has become of a rule within the run `R`, with `k` to be run after it: it has given a value
and left open one of the lists `Cs`, or it has stopped. -/
def Outcome (R : Rule β) (k : α → Rule β) (Cs : List (List Terminal)) (pre ts : List Token) :
    EStateM.Result Stop (List Token) α → Prop
  | .ok v rest => ∃ used, ∃ cs ∈ Cs, ts = used ++ rest ∧ Rests cs rest ∧ At R (pre ++ used) cs (k v)
  | .error stop rest => Stops R pre ts stop rest

/-- On up to `n` tokens, where the rules before have left `cs` open, a rule does what `r'` does
within any run, as far as it comes. -/
def Follows (n : Nat) (cs : List Terminal) (r r' : Rule α) (Cs : List (List Terminal)) : Prop :=
  ∀ ⦃β : Type⦄ ⦃R : Rule β⦄ ⦃k : α → Rule β⦄ ⦃pre ts : List Token⦄, (∀ v, Rule.Orderly (k v)) →
    ts.length ≤ n → Rests cs ts → At R pre cs (r' >>= k) → Outcome R k Cs pre ts (r ts)

lemma Stops.append {R : Rule β} {pre ts rest : List Token} (taken : List Token) {stop : Stop}
    (h : Stops R (pre ++ taken) ts stop rest) : Stops R pre (taken ++ ts) stop rest := by
  match stop, h with
  | .complaint cause, .inl h => exact .inl h
  | .complaint cause, .inr ⟨used, hts, h⟩ =>
    exact .inr ⟨taken ++ used, by simp [hts], by simpa using h⟩
  | .numeral _, h => exact h

lemma Outcome.append {R : Rule β} {k : α → Rule β} {Cs : List (List Terminal)}
    {pre ts : List Token} (taken : List Token) {out : EStateM.Result Stop (List Token) α}
    (h : Outcome R k Cs (pre ++ taken) ts out) : Outcome R k Cs pre (taken ++ ts) out := by
  match out, h with
  | .ok v rest, ⟨used, cs, hcs, hts, hrest, hat⟩ =>
    exact ⟨taken ++ used, cs, hcs, by simp [hts], hrest, by simpa using hat⟩
  | .error stop rest, h => exact Stops.append taken h

/-- A terminal has been taken: the run is at the rule that goes on after it. -/
lemma At.take {R r r' : Rule β} {pre : List Token} {cs : List Terminal} {t : Token}
    (h : At R pre cs r) (ht : t.terminal ∉ cs) (hr : ∀ ts, r (t :: ts) = r' ts) :
    At R (pre ++ [t]) [] r' where
  eq {u us} _ := by rw [List.append_assoc, List.singleton_append, h.eq ht, hr]
  taken hu := absurd hu List.not_mem_nil

/-- A rule has declined some terminals, which the run still takes. -/
lemma At.decline {R r r' : Rule β} {pre : List Token} {cs ds : List Terminal} (h : At R pre cs r)
    (hno : ∀ {t : Token} {ts : List Token}, t.terminal ∉ ds → r (t :: ts) = r' (t :: ts))
    (hyes : ∀ {t : Token} {ts : List Token}, t.terminal ∈ ds → Rule.left (r (t :: ts)) <:+ ts) :
    At R pre (cs ++ ds) r' where
  eq {t ts} ht := by
    simp only [List.mem_append, not_or] at ht
    rw [h.eq ht.1, hno ht.2]
  taken {t ts} ht := by
    by_cases hcs : t.terminal ∈ cs
    · exact h.taken hcs
    · rw [h.eq hcs]
      exact hyes ((List.mem_append.1 ht).resolve_left hcs)

/-- The run has come to a rule that complains at every token. -/
lemma At.stuck {R r : Rule β} {pre : List Token} {cs : List Terminal} (h : At R pre cs r)
    {cause : Complaint} (hcause : cause ≠ .nestingTooDeep)
    (hr : ∀ {t : Token} {ts : List Token}, t.terminal ∉ cs →
      r (t :: ts) = .error (.complaint cause) (t :: ts)) : Stuck R pre cs where
  complains _ _ ht := ⟨cause, hcause, by rw [h.eq ht, hr ht]⟩
  taken _ _ ht := h.taken ht

/-- The run has come to a rule that complains at every token but those that it takes. -/
lemma At.refuses {R : Rule β} {r' : Rule α} {k : α → Rule β} {pre : List Token}
    {cs ds : List Terminal} (h : At R pre cs (r' >>= k)) (hk : ∀ v, Rule.Orderly (k v))
    (cause : Complaint) (hcause : cause ≠ .nestingTooDeep)
    (hno : ∀ {t : Token} {ts : List Token}, t.terminal ∉ ds →
      r' (t :: ts) = .error (.complaint cause) (t :: ts))
    (hyes : ∀ {t : Token} {ts : List Token}, t.terminal ∈ ds →
      Rule.left (r' (t :: ts)) <:+ ts) : Stuck R pre (cs ++ ds) := by
  have hat : At R pre (cs ++ ds) (r' >>= k) :=
    h.decline (fun _ => rfl) fun ht => (Rule.left_bind_suffix hk _).trans (hyes ht)
  exact hat.stuck hcause fun ht =>
    Rule.bind_error (hno fun hc => ht (List.mem_append_right _ hc))

lemma Rests.append {cs ds : List Terminal} {ts : List Token} (h : Rests cs ts) (hds : Clear ds ts)
    (hend : .word .END ∉ ds) : Rests (cs ++ ds) ts where
  clear t ht hc := (List.mem_append.1 hc).elim (h.clear t ht) (hds t ht)
  ne_nil hc := h.ne_nil ((List.mem_append.1 hc).resolve_right hend)

lemma rests_nil (ts : List Token) : Rests [] ts := ⟨fun _ _ => nofun, nofun⟩

/-- A rule has stopped where the run is stuck. -/
lemma Stops.stuck {R : Rule β} {pre ts : List Token} {cs : List Terminal} {cause : Complaint}
    (hend : ∀ kind, cause ≠ .missing (.keyword .END) kind) (h : Suits cause.kind cs)
    (hrest : Rests cs ts) (hstuck : Stuck R pre cs) : Stops R pre ts (.complaint cause) ts := by
  refine .inr ⟨[], rfl, hend, cs, hrest.clear, by simpa using hstuck, h _ fun hc => ?_⟩
  simpa using hrest.ne_nil hc

namespace Follows

variable {n : Nat} {cs : List Terminal} {Cs Ds : List (List Terminal)}

lemma pure {v : α} (h : cs ∈ Cs) : Follows n cs (Pure.pure v) (Pure.pure v) Cs := by
  intro β R k pre ts _ _ hrest hat
  rw [pure_bind] at hat
  exact ⟨[], cs, h, rfl, hrest, by simpa using hat⟩

lemma refuse {cause : Complaint} {r' : Rule α} (hcause : cause ≠ .nestingTooDeep)
    (hend : ∀ kind, cause ≠ .missing (.keyword .END) kind) (h : Suits cause.kind cs)
    (hr : ∀ {t : Token} {ts : List Token}, t.terminal ∉ cs →
      r' (t :: ts) = .error (.complaint cause) (t :: ts)) :
    Follows n cs (Rule.refuse cause) r' Cs := by
  intro β R k pre ts _ _ hrest hat
  exact Stops.stuck hend h hrest (hat.stuck hcause fun ht => Rule.bind_error (hr ht))

/-- Nothing is claimed of a rule that has no level left to open. -/
lemma nesting {r' : Rule α} : Follows n cs (Rule.refuse .nestingTooDeep) r' Cs :=
  fun _ _ _ _ _ _ _ _ _ => .inl rfl

lemma mono {r r' : Rule α} {m : Nat} (h : Follows n cs r r' Cs) (hle : m ≤ n) :
    Follows m cs r r' Cs :=
  fun _ _ _ _ _ hk hlen hrest hat => h hk (hlen.trans hle) hrest hat

lemma bind {r r' : Rule α} [Rule.Orderly r] {f f' : α → Rule γ} [∀ v, Rule.Orderly (f' v)]
    (hr : Follows n cs r r' Ds) (hf : ∀ v, ∀ ds ∈ Ds, Follows n ds (f v) (f' v) Cs) :
    Follows n cs (r >>= f) (r' >>= f') Cs := by
  intro β R k pre ts hk hlen hrest hat
  rw [bind_assoc] at hat
  -- the first part is followed with the second one in its continuation
  have hout := hr (fun v => inferInstance) hlen hrest hat
  rw [Rule.bind_apply]
  rcases hres : r ts with ⟨v, rest⟩ | ⟨stop, rest⟩ <;> rw [hres] at hout
  · obtain ⟨used, ds, hds, hts, hrest, hat⟩ := hout
    have hleft : rest.length ≤ n := (Rule.length_le_of_ok hres).trans hlen
    have hfollows := (hf v ds hds).mono hleft
    rw [hts]
    exact .append used (hfollows hk le_rfl hrest hat)
  · exact hout

lemma bind_nil {r r' : Rule α} [Rule.Orderly r] {f f' : α → Rule γ} [∀ v, Rule.Orderly (f' v)]
    (hr : Follows n cs r r' [[]]) (hf : ∀ v, Follows n [] (f v) (f' v) Cs) :
    Follows n cs (r >>= f) (r' >>= f') Cs := by
  refine hr.bind fun v ds hds => ?_
  obtain rfl : ds = [] := List.mem_singleton.1 hds
  exact hf v

/-- A rule whose first step takes a token of some terminals or none. -/
lemma accept? {patterns : List Pattern} {ds : List Terminal} (fit : Pattern.Fit patterns ds)
    (hend : .word .END ∉ ds) {f f' : Option Token → Rule γ} [Rule.Orderly (f' none)]
    [∀ t, Rule.Orderly (f' (some t))]
    (yes : ∀ t : Token, t.terminal ∈ ds → ∀ m < n, Follows m [] (f (some t)) (f' (some t)) Cs)
    (no : Follows n (cs ++ ds) (f none) (f' none) Cs) :
    Follows n cs (Rule.accept? patterns >>= f) (Rule.accept? patterns >>= f') Cs := by
  intro β R k pre ts hk hlen hrest hat
  rw [bind_assoc] at hat
  -- where none of the terminals comes next they stay open behind the rule
  by_cases hclear : Clear ds ts
  · rw [Rule.bind_ok (Rule.accept?_of_clear fit hclear)]
    refine no hk hlen (hrest.append hclear hend) (hat.decline (fun ht => ?_) fun {t ts} ht => ?_)
    · rw [Rule.bind_ok (Rule.accept?_of_clear fit (clear_cons.2 ht))]
    · rw [Rule.bind_ok (Rule.accept?_of_mem fit ht)]
      exact Rule.Orderly.suffix (f' (some t) >>= k) ts
  · rcases ts with _ | ⟨t, ts⟩
    · exact absurd (clear_nil ds) hclear
    have ht : t.terminal ∈ ds := not_not.1 fun h => hclear (clear_cons.2 h)
    rw [Rule.bind_ok (Rule.accept?_of_mem fit ht)]
    refine .append [t] (yes t ht ts.length hlen hk le_rfl (rests_nil ts) ?_)
    refine hat.take (clear_cons.1 hrest.clear) fun ts => ?_
    rw [Rule.bind_ok (Rule.accept?_of_mem fit ht)]

lemma branch {pattern : Pattern} {c : Terminal} (fit : Pattern.Fit [pattern] [c])
    (hend : c ≠ .word .END) {x y x' y' : Rule γ} [Rule.Orderly x'] [Rule.Orderly y']
    (yes : ∀ t : Token, t.terminal = c → ∀ m < n, Follows m [] x x' Cs)
    (no : Follows n (cs ++ [c]) y y' Cs) :
    Follows n cs (Rule.accepts pattern >>= fun found => if found = true then x else y)
      (Rule.accepts pattern >>= fun found => if found = true then x' else y') Cs := by
  rw [Rule.accepts_bind, Rule.accepts_bind]
  refine accept? fit (by simpa using hend.symm) (fun t ht m hm => ?_) (by simpa using no)
  simpa using yes t (by simpa using ht) m hm

lemma demand {pattern : Pattern} {kind : ComplaintKind} {c : Terminal}
    (fit : Pattern.Fit [pattern] [c]) (hend : pattern ≠ .keyword .END) (hc : c ≠ .word .END)
    (h : Suits kind (cs ++ [c])) {f f' : Token → Rule γ} [∀ t, Rule.Orderly (f' t)]
    (yes : ∀ t : Token, t.terminal = c → ∀ m < n, Follows m [] (f t) (f' t) Cs) :
    Follows n cs (Rule.demand pattern kind >>= f) (Rule.demand pattern kind >>= f') Cs := by
  rw [Rule.demand_bind, Rule.demand_bind]
  refine accept? fit (by simpa using hc.symm) (fun t ht m hm => yes t (by simpa using ht) m hm) ?_
  exact refuse nofun (fun k => by simpa using fun heq => absurd heq hend) h fun _ => rfl

lemma demandWord {w : Keyword} (hw : w ≠ .END) (h : Suits .missingKeyword (cs ++ [.word w]))
    {f f' : Unit → Rule γ} [∀ u, Rule.Orderly (f' u)]
    (yes : ∀ m < n, Follows m [] (f ()) (f' ()) Cs) :
    Follows n cs (Rule.demandWord w >>= f) (Rule.demandWord w >>= f') Cs := by
  rw [Rule.demandWord, Rule.discard_bind, Rule.discard_bind]
  exact demand (Pattern.fit_keyword w) (by simpa using hw) (by simpa using hw) h fun _ _ => yes

lemma semicolon (h : Suits .missingSemicolon (cs ++ [.mark ';'])) {f f' : Unit → Rule γ}
    [∀ u, Rule.Orderly (f' u)] (yes : ∀ m < n, Follows m [] (f ()) (f' ()) Cs) :
    Follows n cs (Rule.semicolon >>= f) (Rule.semicolon >>= f') Cs := by
  rw [Rule.semicolon_bind, Rule.semicolon_bind]
  refine accept? (Pattern.fit_mark ';') (by decide) (fun t ht => yes) ?_
  exact refuse nofun nofun h fun _ => rfl

lemma name (h : Suits .expectedIdentifier (cs ++ [.name])) :
    Follows n cs Rule.name Rule.name [[]] := by
  intro β R k pre ts hk hlen hrest hat
  by_cases hclear : Clear [.name] ts
  · -- no name comes next: the rule stops, and the run is stuck
    rw [Rule.name_of_clear hclear]
    refine Stops.stuck nofun h (hrest.append hclear (by decide)) (hat.refuses hk
      .expectedIdentifier nofun (fun ht => ?_) fun {t ts} ht => ?_)
    · exact Rule.name_of_clear (clear_cons.2 ht)
    · rw [Rule.name_of_eq (by simpa using ht)]
      exact List.suffix_refl _
  · rcases ts with _ | ⟨t, ts⟩
    · exact absurd (clear_nil _) hclear
    have ht : t.terminal = .name := by simpa using hclear
    rw [Rule.name_of_eq ht]
    refine ⟨[t], [], List.mem_singleton.2 rfl, rfl, rests_nil ts, ?_⟩
    exact hat.take (clear_cons.1 hrest.clear) fun ts => Rule.bind_ok (Rule.name_of_eq ht)

/-- A part that may be absent is left open together with the mark that introduces it. -/
lemma after? {c : Char} {r r' : Rule α} [Rule.Orderly r] [Rule.Orderly r']
    (hr : ∀ m < n, Follows m [] r r' Ds) :
    Follows n cs (Rule.after? c r) (Rule.after? c r') (Ds ++ [cs ++ [.mark c]]) := by
  refine branch (Pattern.fit_mark c) nofun (fun t ht m hm => ?_) (pure (by simp))
  exact (hr m hm).bind fun v ds hds => pure (List.mem_append_left _ hds)

end Follows

/-! ### Lists in parentheses -/

section

variable {n : Nat} {Ds : List (List Terminal)}

lemma follows_others {item item' : Rule α} [Rule.Orderly item] [Rule.Orderly item']
    (hi : ∀ n, Follows n [] item item' Ds) {ds : List Terminal} (hds : ds ∈ Ds) :
    Follows n ds (get >>= Rule.others item) (get >>= Rule.others item')
      (Ds.map (· ++ [.mark ','])) := by
  induction n using Nat.strong_induction_on generalizing ds with
  | _ n ih =>
    rw [Rule.others_get item, Rule.others_get item']
    refine .branch (Pattern.fit_mark ',') nofun (fun t ht m hm => ?_) ?_
    · exact (hi m).bind fun v es hes => (ih m hm hes).bind fun vs fs hfs => .pure hfs
    · exact .pure (List.mem_map.2 ⟨ds, hds, rfl⟩)

lemma follows_commaSeparated {item item' : Rule α} [Rule.Orderly item] [Rule.Orderly item']
    {cs : List Terminal} (hfirst : Follows n cs item item' Ds)
    (hi : ∀ n, Follows n [] item item' Ds) :
    Follows n cs (Rule.commaSeparated item) (Rule.commaSeparated item')
      (Ds.map (· ++ [.mark ','])) := by
  rw [Rule.commaSeparated_eq, Rule.commaSeparated_eq]
  exact hfirst.bind fun v ds hds => (follows_others hi hds).bind fun vs es hes => .pure hes

end

lemma follows_parameters {n : Nat} : Follows n [] Rule.parameters Rule.parameters [[]] := by
  refine .branch (Pattern.fit_mark ')') nofun (fun t ht m hm => .pure (by simp)) ?_
  have hname : ∀ n, Follows n [] Rule.name Rule.name [[]] := fun n => .name (by decide)
  refine (follows_commaSeparated (.name (by decide)) hname).bind fun vs ds hds => ?_
  rw [Rule.discard_bind]
  obtain rfl : ds = [.mark ','] := by simpa using hds
  exact .demand (Pattern.fit_mark ')') nofun nofun (by decide) fun t ht m hm => .pure (by simp)

end Grammar

end Pebble
