import Pebble.Proofs.Grammar.Routine
import Pebble.Proofs.Grammar.Sequence

/-!
Descent: the calls of routines inside one another come to an end. A routine that calls another one
has taken a token by then, or the other one is of a lower rank. So a run of a routine is finite,
with or without a limit on the levels that it may open.
-/

namespace Pebble

namespace Rule

variable {α : Type} {r : Rule α}

/-! A rule is told by what it does on each tokens. -/

lemma Orderly.of_apply (h : ∀ ts, ∃ r' : Rule α, Orderly r' ∧ r ts = r' ts) : Orderly r where
  suffix ts := by
    obtain ⟨r', hr', heq⟩ := h ts
    rw [heq]
    exact hr'.suffix ts
  numeral {ts _ _} hres := by
    obtain ⟨r', hr', heq⟩ := h ts
    exact hr'.numeral (heq.symm.trans hres)

lemma Advances.of_apply (h : ∀ ts, ∃ r' : Rule α, Advances r' ∧ r ts = r' ts) : Advances r where
  toOrderly := .of_apply fun ts =>
    have ⟨r', hr', heq⟩ := h ts
    ⟨r', hr'.toOrderly, heq⟩
  length_lt {ts _ _} hres := by
    obtain ⟨r', hr', heq⟩ := h ts
    exact hr'.length_lt (heq.symm.trans hres)

lemma accept?_eq_ok {patterns : List Pattern} {found : Option Token} {ts mid : List Token}
    (h : accept? patterns ts = .ok found mid) :
    found = none ∧ mid = ts ∨ mid.length < ts.length := by
  rcases ts with _ | ⟨t, ts⟩
  · cases h
    exact .inl ⟨rfl, rfl⟩
  rw [accept?_cons] at h
  split at h
  · cases h
    exact .inr (Nat.lt_succ_self _)
  · cases h
    exact .inl ⟨rfl, rfl⟩

end Rule

/-! ### Runs -/

namespace Openers

variable {side : Associativity}

/-- The openers that may open so many levels inside one another, or as many as they like. -/
def upTo (side : Associativity) (levels : ℕ∞) : Openers :=
  levels.recTopCoe (free side) (within side)

lemma upTo_add_one (levels : ℕ∞) : upTo side (levels + 1) = body side (upTo side levels) := by
  cases levels with
  | top => exact free_eq_body
  | coe levels => exact within_succ

lemma upTo_add (levels : ℕ∞) (k : Nat) :
    upTo side (levels + k) = (body side)^[k] (upTo side levels) := by
  induction k with
  | zero => rw [Nat.cast_zero, add_zero, Function.iterate_zero_apply]
  | succ k ih =>
    rw [Nat.cast_add, Nat.cast_one, ← add_assoc, upTo_add_one, ih, Function.iterate_succ_apply']

instance (levels : Nat) : (within side levels).Advancing where
  expression := inferInstanceAs (Rule.Advances (Rule.expression side levels))
  block terminators := inferInstanceAs (Rule.Orderly (Rule.block side levels terminators))

instance : (free side).Advancing where
  expression := .of_apply fun ts =>
    ⟨Rule.expression side (room .expression ts + 1), inferInstance, rfl⟩
  block terminators := .of_apply fun ts =>
    ⟨Rule.block side (room (.block terminators) ts + 1) terminators, inferInstance, rfl⟩

instance (levels : ℕ∞) : (upTo side levels).Advancing := by
  cases levels with
  | top => exact inferInstanceAs (free side).Advancing
  | coe levels => exact inferInstanceAs (within side levels).Advancing

end Openers

namespace Code

variable {α β : Type} {side : Associativity} {levels : ℕ∞} {ts us mid : List Token}

/-- The run of some code on some tokens, with so many levels left that may be opened: what comes of
each step and each call. A routine runs with the levels that it leaves; it is refused if there are
not as many as it opens. -/
inductive Runs (side : Associativity) : {α : Type} → ℕ∞ → Code α → List Token →
    EStateM.Result Stop (List Token) α → Prop
  | done {α : Type} {levels : ℕ∞} {v : α} {ts : List Token} :
    Runs side levels (.done v) ts (.ok v ts)
  | step {α : Type} {levels : ℕ∞} {r : Rule α} [Rule.Orderly r] {ts : List Token} :
    Runs side levels (.step r) ts (r ts)
  | seq {α β : Type} {levels : ℕ∞} {c : Code β} {next : β → Code α} {ts mid : List Token} {v : β}
    {out : EStateM.Result Stop (List Token) α} :
    Runs side levels c ts (.ok v mid) → Runs side levels (next v) mid out →
      Runs side levels (.seq c next) ts out
  | stop {α β : Type} {levels : ℕ∞} {c : Code β} {next : β → Code α} {ts mid : List Token}
    {stop : Stop} :
    Runs side levels c ts (.error stop mid) → Runs side levels (.seq c next) ts (.error stop mid)
  | call {levels : ℕ∞} {r : Routine} {ts : List Token}
    {out : EStateM.Result Stop (List Token) r.Value} :
    Runs side levels (r.code side) ts out → Runs side (levels + r.opens) (.call r) ts out
  | refused {levels : ℕ∞} {r : Routine} {ts : List Token} :
    levels < r.opens → Runs side levels (.call r) ts (.error (.complaint .nestingTooDeep) ts)

end Code

lemma Routine.rule_of_lt {side : Associativity} {levels : ℕ∞} {r : Routine} (h : levels < r.opens)
    (ts : List Token) :
    r.rule side (Openers.upTo side levels) ts = .error (.complaint .nestingTooDeep) ts := by
  -- what opens no level is never short of one
  have hzero (hr : r.opens = 1) : levels = 0 := by
    rwa [hr, Nat.cast_one, Order.lt_one_iff] at h
  cases r with
  | block terminators =>
    rw [hzero rfl]
    exact @Openers.within_zero side (.block terminators) ts
  | construct c =>
    cases c with
    | expression =>
      rw [hzero rfl]
      exact @Openers.within_zero side .expression ts
    | _ => exact absurd h not_lt_zero
  | _ => exact absurd h not_lt_zero

namespace Code

variable {α β : Type} {side : Associativity} {levels : ℕ∞} {ts us mid : List Token}

lemma Runs.denote_eq {c : Code α} {out : EStateM.Result Stop (List Token) α}
    (h : c.Runs side levels ts out) : c.denote side (Openers.upTo side levels) ts = out := by
  induction h with
  | done => rfl
  | step => rfl
  | seq _ _ ihc ihnext => exact (Rule.bind_ok ihc).trans ihnext
  | stop _ ihc => exact Rule.bind_error ihc
  | @call levels r ts out _ ih =>
    rw [denote_call, Openers.upTo_add, ← Routine.denote_code]
    exact ih
  | refused hlt => exact Routine.rule_of_lt hlt _

instance {o : Openers} [o.Advancing] (c : Code α) : Rule.Orderly (c.denote side o) := by
  induction c with
  | done v => exact inferInstanceAs (Rule.Orderly (pure v : Rule _))
  | step r => exact ‹Rule.Orderly r›
  | call r => exact inferInstanceAs (Rule.Orderly (r.rule side o))
  | seq c next ihc ihnext => exact inferInstanceAs (Rule.Orderly (c.denote side o >>= _))

lemma Runs.suffix {c : Code α} {v : α} (h : c.Runs side levels ts (.ok v mid)) : mid <:+ ts :=
  Rule.suffix_of_ok h.denote_eq

/-! ### Calls -/

def Calls (side : Associativity) (levels : ℕ∞) {α : Type} :
    Code α → List Token → Routine → List Token → Prop
  | .done _, _, _, _ | @step _ _ _, _, _, _ => False
  | .call r, ts, q, us => r = q ∧ ts = us
  | .seq c next, ts, q, us => c.Calls side levels ts q us ∨
    ∃ v mid, c.Runs side levels ts (.ok v mid) ∧ (next v).Calls side levels mid q us

lemma Calls.suffix {c : Code α} {q : Routine} (h : c.Calls side levels ts q us) : us <:+ ts := by
  induction c generalizing ts with
  | done v => exact h.elim
  | step r => exact h.elim
  | call r =>
    obtain ⟨-, rfl⟩ := h
    exact List.suffix_refl _
  | seq c next ihc ihnext =>
    rcases h with h | ⟨v, mid, hrun, h⟩
    · exact ihc h
    · exact (ihnext v h).trans hrun.suffix

lemma exists_runs {c : Code α}
    (h : ∀ q us, c.Calls side levels ts q us → ∃ out, Runs side levels (.call q) us out) :
    ∃ out, c.Runs side levels ts out := by
  -- On the code; what is called behind a part is known once that part has come to a value.
  induction c generalizing ts with
  | done v => exact ⟨_, .done⟩
  | step r => exact ⟨_, .step⟩
  | call r => exact h r ts ⟨rfl, rfl⟩
  | seq c next ihc ihnext =>
    obtain ⟨out, hc⟩ := ihc fun q us hq => h q us (.inl hq)
    cases out with
    | error stop mid => exact ⟨_, .stop hc⟩
    | ok v mid =>
      obtain ⟨out, hnext⟩ := ihnext v fun q us hq => h q us (.inr ⟨v, mid, hc, hq⟩)
      exact ⟨out, .seq hc hnext⟩

/-! ### What is called first -/

/-- Before it has taken a token, some code calls no routines but those of a list. -/
def Begins (side : Associativity) (c : Code α) (first : List Routine) : Prop :=
  ∀ ⦃levels ts q us⦄, c.Calls side levels ts q us →
    us.length < ts.length ∨ us = ts ∧ q ∈ first

/-- Some code has taken a token when it gives a value. -/
def Takes (side : Associativity) (c : Code α) : Prop :=
  ∀ ⦃levels ts v mid⦄, c.Runs side levels ts (.ok v mid) → mid.length < ts.length

section

variable {first : List Routine} {q : Routine} {r : Rule α} [Rule.Orderly r] {c : Code β}
  {next : β → Code α}

lemma takes_of_advances {c : Code α}
    (h : ∀ (o : Openers) [o.Advancing], Rule.Advances (c.denote side o)) : c.Takes side :=
  fun _ _ _ _ hrun => (h _).length_lt hrun.denote_eq

lemma takes_step {r : Rule α} [Rule.Advances r] : (step r).Takes side :=
  takes_of_advances fun _ _ => inferInstanceAs (Rule.Advances r)

lemma begins_done (v : α) : (done v).Begins side first := nofun

lemma begins_step : (step r).Begins side first := nofun

lemma begins_call (h : q ∈ first) : (call q).Begins side first := by
  rintro levels ts q us ⟨rfl, rfl⟩
  exact .inr ⟨rfl, h⟩

/-- Behind what has taken a token anything may be called. -/
lemma Begins.behind (h : c.Begins side first) (ht : c.Takes side) :
    (c >>= next).Begins side first := by
  rintro levels ts q us (hq | ⟨v, mid, hrun, hq⟩)
  · exact h hq
  · exact .inl (hq.suffix.length_le.trans_lt (ht hrun))

lemma Begins.bind (h : c.Begins side first) (hnext : ∀ v, (next v).Begins side first) :
    (c >>= next).Begins side first := by
  rintro levels ts q us (hq | ⟨v, mid, hrun, hq⟩)
  · exact h hq
  · have hle := hrun.suffix.length_le
    rcases hnext v hq with hlt | ⟨rfl, hmem⟩
    · exact .inl (hlt.trans_le hle)
    · rcases hle.lt_or_eq with hlt | heq
      · exact .inl hlt
      · exact .inr ⟨hrun.suffix.eq_of_length heq, hmem⟩

lemma Begins.map {f : β → α} (h : c.Begins side first) : (f <$> c).Begins side first :=
  h.bind fun _ => begins_done _

/-- A token that may be there: if it is, anything may be called behind it. -/
lemma begins_accept? {patterns : List Pattern} {next : Option Token → Code α}
    (h : (next none).Begins side first) :
    (step (Rule.accept? patterns) >>= next).Begins side first := by
  rintro levels ts q us (⟨⟨⟩⟩ | ⟨found, mid, hrun, hq⟩)
  rcases Rule.accept?_eq_ok hrun.denote_eq with ⟨rfl, rfl⟩ | hlt
  · exact h hq
  · exact .inl (hq.suffix.length_le.trans_lt hlt)

lemma begins_branch {pattern : Pattern} {c d : Code α} (h : d.Begins side first) :
    (step (Rule.accepts pattern) >>= fun found => if found = true then c else d).Begins side
      first := by
  rintro levels ts q us (⟨⟨⟩⟩ | ⟨found, mid, hrun, hq⟩)
  obtain ⟨token, rest, haccept, hfound⟩ := Rule.bind_eq_ok hrun.denote_eq
  cases hfound
  rcases Rule.accept?_eq_ok haccept with ⟨rfl, rfl⟩ | hlt
  · exact h hq
  · exact .inl (hq.suffix.length_le.trans_lt hlt)

end

end Code

namespace Part

def Takes : Part → Prop
  | construct c => c ≠ .source
  | chain _ p => p.Takes
  | demand _ _ | name | semicolon => True
  | block _ | check _ | accept _ => False

lemma advances_rule {side : Associativity} {o : Openers} [o.Advancing] {p : Part} (h : p.Takes) :
    Rule.Advances (p.rule side o) := by
  induction p with
  | construct c =>
    have hc : Rule.Advances (c.reading side o) := Construct.advances_reading h
    rw [rule, ← c.record_map_reading]
    infer_instance
  | chain operators p ih =>
    have hp : Rule.Advances (p.rule side o) := ih h
    exact inferInstanceAs (Rule.Advances (Rule.chain _ _ _ (p.record <$> p.rule side o)))
  | demand pattern kind => exact inferInstanceAs (Rule.Advances (Rule.demand pattern kind))
  | name => exact inferInstanceAs (Rule.Advances Rule.name)
  | semicolon => exact inferInstanceAs (Rule.Advances Rule.semicolon)
  | _ => exact h.elim

end Part

namespace Routine

/-! ### What routines call first -/

def Takes : Routine → Prop
  | construct c => c ≠ .source
  | part p | operand p => p.Takes
  | block _ | items | statements _ | links _ _ | members _ | others _ => False

/-- The routines that a routine may call before it takes a token. -/
def corners : Routine → List Routine
  | construct .source => [items]
  | construct .statement | construct .ifElse | construct .whileDo | construct .returning
  | construct .arguments => [construct .expression]
  | construct .expression => [construct .logical]
  | construct .logical => [construct .equality]
  | construct .equality => [construct .additive]
  | construct .additive => [construct .multiplicative]
  | construct .multiplicative => [construct .secondary]
  | construct .secondary => [construct .primary]
  | construct .field | construct .method | construct .declaration | construct .forIn
  | construct .primary => []
  | block terminators => [statements terminators]
  | statements _ => [construct .statement]
  | part (.construct c) => [construct c]
  | part (.block terminators) => [block terminators]
  | part (.chain operators p) => [operand p, links operators (operand p)]
  | part _ => []
  | operand p => [part p]
  | items | links _ _ | members _ | others _ => []

variable {side : Associativity} {levels : ℕ∞} {r q : Routine} {ts us : List Token}

lemma advances_rule {o : Openers} [o.Advancing] (h : r.Takes) : Rule.Advances (r.rule side o) := by
  cases r with
  | construct c => exact Construct.advances_reading h
  | part p => exact Part.advances_rule (p := p) h
  | operand p =>
    have hp : Rule.Advances (p.rule side o) := Part.advances_rule h
    exact inferInstanceAs (Rule.Advances (p.record <$> p.rule side o))
  | _ => exact h.elim

end Routine

namespace Code

variable {side : Associativity}

lemma takes_call {r : Routine} (h : r.Takes) : (call r).Takes side :=
  takes_of_advances fun _ _ => Routine.advances_rule h

lemma takes_commaSeparated {r : Routine} (h : r.Takes) : (commaSeparated r).Takes side :=
  takes_of_advances fun o _ => by
    have hr : Rule.Advances (r.rule side o) := Routine.advances_rule h
    rw [denote_commaSeparated]
    infer_instance

lemma takes_item : item.Takes side :=
  takes_of_advances fun o _ => by
    rw [denote_item]
    infer_instance

lemma begins_item : item.Begins side [] := begins_branch (begins_branch begins_step)

lemma begins_chain {operators : List Pattern} {r : Routine}
    {combine : Text → r.Value → r.Value → r.Value} :
    (chain side operators r combine).Begins side [r, .links operators r] :=
  (begins_call List.mem_cons_self).bind fun _ =>
    (begins_call (List.mem_cons_of_mem _ List.mem_cons_self)).bind fun _ => begins_done _

/-- After a routine that takes a token anything may be called. -/
lemma begins_call_bind {α : Type} {r : Routine} {next : r.Value → Code α} (h : r.Takes) :
    (call r >>= next).Begins side [r] :=
  (begins_call List.mem_cons_self).behind (takes_call h)

/-- What a construct calls before it takes a token. -/
lemma begins_ofConstruct (c : Construct) :
    (ofConstruct side c).Begins side (Routine.construct c).corners := by
  have hexpression : (Routine.construct .expression).Takes := nofun
  cases c with
  | source => exact (begins_call List.mem_cons_self).bind fun _ => begins_done _
  | field | method | declaration | forIn | primary => exact begins_step.behind takes_step
  | statement =>
    refine begins_branch (begins_branch (begins_branch (begins_branch (begins_branch ?_))))
    exact begins_call_bind hexpression
  | ifElse | whileDo | returning => exact begins_call_bind hexpression
  | expression => exact begins_call List.mem_cons_self
  | logical | equality | additive | multiplicative => exact begins_call_bind nofun
  | secondary => exact begins_call_bind (r := .construct .primary) nofun
  | arguments =>
    refine begins_branch ?_
    exact (begins_call_bind hexpression).behind (takes_commaSeparated hexpression)

end Code

namespace Routine

variable {side : Associativity} {levels : ℕ∞} {r q : Routine} {ts us : List Token}

/-- What a routine calls before it takes a token. -/
lemma begins_code (r : Routine) : (r.code side).Begins side r.corners := by
  cases r with
  | construct c => exact Code.begins_ofConstruct c
  | block terminators => exact Code.begins_call List.mem_cons_self
  | part p =>
    cases p with
    | construct c => exact (Code.begins_call List.mem_cons_self).map
    | block terminators => exact (Code.begins_call List.mem_cons_self).map
    | chain operators p => exact Code.begins_chain
    | _ => exact Code.begins_step
  | operand p => exact (Code.begins_call List.mem_cons_self).map
  | items =>
    refine Code.begins_step.bind fun found => ?_
    cases found with
    | true => exact Code.begins_done _
    | false => exact Code.begins_item.behind Code.takes_item
  | statements terminators =>
    refine Code.begins_step.bind fun found => ?_
    cases found with
    | true => exact Code.begins_done _
    | false =>
      refine Code.begins_step.bind fun ended => ?_
      cases ended with
      | true => exact Code.begins_step
      | false => exact Code.begins_call_bind nofun
  | links operators r => exact Code.begins_accept? (Code.begins_done _)
  | members receiver => exact Code.begins_branch (Code.begins_done _)
  | others r => exact Code.begins_branch (Code.begins_done _)

end Routine

/-! ### The rank of a routine -/

def Construct.rank : Construct → Nat
  | field | method | declaration | forIn | primary => 0
  | source | secondary => 1
  | multiplicative => 2
  | additive => 3
  | equality => 4
  | logical => 5
  | expression => 6
  | statement | ifElse | whileDo | returning | arguments => 7

def Part.rank : Part → Nat
  | construct c => c.rank + 1
  | block _ => 10
  | chain _ p => p.rank + 2
  | check _ | accept _ | demand _ _ | name | semicolon => 0

namespace Routine

variable {side : Associativity} {levels : ℕ∞} {r q : Routine} {ts us : List Token}

/-- The rank of a routine, above those of the routines that it may call before it takes a token. -/
def rank : Routine → Nat
  | construct c => c.rank
  | statements _ => 8
  | block _ => 9
  | part p => p.rank
  | operand p => p.rank + 1
  | items | links _ _ | members _ | others _ => 0

lemma rank_lt (h : q ∈ r.corners) : q.rank < r.rank := by
  cases r with
  | construct c => cases c <;> simp_all [corners, rank, Construct.rank]
  | part p =>
    cases p with
    | chain operators p =>
      simp only [corners, List.mem_cons, List.not_mem_nil, or_false] at h
      rcases h with rfl | rfl
      · exact Nat.lt_succ_self _
      · exact Nat.succ_pos _
    | _ => simp_all [corners, rank, Part.rank]
  | _ => simp_all [corners, rank, Construct.rank]

/-- A routine that calls another one has taken a token by then, or the other one is of a lower
rank. -/
lemma descends (h : (r.code side).Calls side levels ts q us) :
    Prod.Lex (· < ·) (· < ·) (us.length, q.rank) (ts.length, r.rank) := by
  rcases r.begins_code h with hlt | ⟨rfl, hmem⟩
  · exact .left _ _ hlt
  · exact .right _ (rank_lt hmem)

lemma exists_runs (side : Associativity) (r : Routine) (levels : ℕ∞) (ts : List Token) :
    ∃ out, Code.Runs side levels (.call r) ts out := by
  -- On the tokens that are left and the rank, which each call lowers.
  have hwf : WellFounded (Prod.Lex (· < ·) (· < ·) : Nat × Nat → Nat × Nat → Prop) :=
    wellFounded_lt.prod_lex wellFounded_lt
  induction hmeasure : (ts.length, r.rank) using hwf.induction generalizing r levels ts with
  | _ m ih =>
    subst hmeasure
    by_cases hlevels : levels < r.opens
    · exact ⟨_, .refused hlevels⟩
    · obtain ⟨inside, rfl⟩ := le_iff_exists_add'.mp (not_lt.mp hlevels)
      obtain ⟨out, hrun⟩ := Code.exists_runs fun q us hq => ih _ (descends hq) q inside us rfl
      exact ⟨out, .call hrun⟩

lemma runs_iff {out : EStateM.Result Stop (List Token) r.Value} :
    Code.Runs side levels (.call r) ts out ↔ r.rule side (Openers.upTo side levels) ts = out := by
  constructor
  · exact Code.Runs.denote_eq
  · rintro rfl
    obtain ⟨out, hrun⟩ := exists_runs side r levels ts
    have hout : r.rule side (Openers.upTo side levels) ts = out := hrun.denote_eq
    rwa [hout]

/-! ### Levels inside one another -/

/-- Inside a routine, with so many levels left there, another one is called, and no level is opened
in between. -/
inductive Leads (side : Associativity) (levels : ℕ∞) (r : Routine) (ts : List Token) :
    Routine → List Token → Prop
  | call {q : Routine} {us : List Token} :
    (r.code side).Calls side levels ts q us → Leads side levels r ts q us
  | inside {p q : Routine} {vs us : List Token} :
    Leads side levels r ts p vs → p.opens = 0 → (p.code side).Calls side levels vs q us →
      Leads side levels r ts q us

/-- What is called before a token is taken is among what is so called first, and first by that. -/
lemma Leads.begins (h : Leads side levels r ts q us) {near : Routine → Prop}
    (hfirst : ∀ q ∈ r.corners, near q)
    (hnear : ∀ p, near p → p.opens = 0 → ∀ q ∈ p.corners, near q) :
    us.length < ts.length ∨ us = ts ∧ near q := by
  -- On the calls from the first one on: as long as no token has been taken, they stay near.
  induction h with
  | call hcall =>
    rcases r.begins_code hcall with hlt | ⟨rfl, hmem⟩
    · exact .inl hlt
    · exact .inr ⟨rfl, hfirst _ hmem⟩
  | @inside p q vs us hlead hp hcall ih =>
    rcases ih with hlt | ⟨rfl, hnearest⟩
    · exact .inl (hcall.suffix.length_le.trans_lt hlt)
    rcases p.begins_code hcall with hlt | ⟨rfl, hmem⟩
    · exact .inl hlt
    · exact .inr ⟨rfl, hnear p hnearest hp q hmem⟩

/-- What an expression or a block may call, and they in turn, before a token is taken or another
level is opened. -/
def scope : Routine → List Routine
  | construct .expression =>
    [construct .logical, construct .equality, construct .additive, construct .multiplicative,
      construct .secondary, construct .primary]
  | block terminators => [statements terminators, construct .statement, construct .expression]
  | _ => []

lemma mem_scope_of_corner (hr : r.opens = 1) (h : q ∈ r.corners) : q ∈ r.scope := by
  cases r with
  | construct c => cases c <;> simp_all [corners, scope, opens]
  | _ => simp_all [corners, scope, opens]

lemma mem_scope_of_mem {p : Routine} (hp : p ∈ r.scope) (hopens : p.opens = 0)
    (h : q ∈ p.corners) : q ∈ r.scope := by
  cases r with
  | construct c =>
    cases c with
    | expression =>
      simp only [scope, List.mem_cons, List.not_mem_nil, or_false] at hp
      rcases hp with rfl | rfl | rfl | rfl | rfl | rfl <;> simp_all [corners, scope]
    | _ => cases hp
  | block terminators =>
    simp only [scope, List.mem_cons, List.not_mem_nil, or_false] at hp
    rcases hp with rfl | rfl | rfl <;> simp_all [corners, scope, opens]
  | _ => cases hp

/-- Of these only the expression of a statement opens a level. -/
lemma eq_of_mem_scope (h : q ∈ r.scope) (hq : q.opens = 1) :
    (∃ terminators, r = block terminators) ∧ q = construct .expression := by
  cases r with
  | construct c =>
    cases c with
    | expression =>
      simp only [scope, List.mem_cons, List.not_mem_nil, or_false] at h
      rcases h with rfl | rfl | rfl | rfl | rfl | rfl <;> cases hq
    | _ => cases h
  | block terminators =>
    simp only [scope, List.mem_cons, List.not_mem_nil, or_false] at h
    rcases h with rfl | rfl | rfl
    · cases hq
    · cases hq
    · exact ⟨⟨terminators, rfl⟩, rfl⟩
  | _ => cases h

/-- A statement of a block begins at `ts`, where the block does, and its expression is called there
too. -/
structure AtStatement (side : Associativity) (levels : ℕ∞) (r : Routine) (ts : List Token)
    (q : Routine) : Prop where
  block : ∃ terminators, r = block terminators
  expression : q = construct .expression
  statement : Leads side levels r ts (construct .statement) ts
  calls : ((construct .statement).code side).Calls side levels ts q ts

/-- A level that is opened inside another one is opened behind a token that was taken there, or by
the expression with which a statement begins. -/
lemma Leads.opens (h : Leads side levels r ts q us) (hr : r.opens = 1) (hq : q.opens = 1) :
    us.length < ts.length ∨ us = ts ∧ AtStatement side levels r ts q := by
  -- what is called before a token is taken stays within the scope, so it is the expression
  have hclosed : ∀ p, p ∈ r.scope → p.opens = 0 → ∀ q ∈ p.corners, q ∈ r.scope :=
    fun _ hp hopens _ => mem_scope_of_mem hp hopens
  rcases h.begins (fun _ => mem_scope_of_corner hr) hclosed with hlt | ⟨rfl, hscope⟩
  · exact .inl hlt
  obtain ⟨⟨terminators, rfl⟩, rfl⟩ := eq_of_mem_scope hscope hq
  suffices hlast : Leads side levels (block terminators) us (construct .statement) us ∧
      ((construct .statement).code side).Calls side levels us (construct .expression) us from
    .inr ⟨rfl, ⟨terminators, rfl⟩, rfl, hlast.1, hlast.2⟩
  -- of all that a block may call first, only a statement calls the expression itself
  cases h with
  | call hcall =>
    rcases begins_code _ hcall with hlt | ⟨-, hmem⟩
    · exact absurd hlt (lt_irrefl _)
    · cases List.mem_singleton.mp hmem
  | @inside p _ vs _ hlead hp hcall =>
    have hle := hcall.suffix.length_le
    rcases hlead.begins (fun _ => mem_scope_of_corner hr) hclosed with hlt | ⟨rfl, hnear⟩
    · exact absurd hlt (not_lt.mpr hle)
    rcases p.begins_code hcall with hlt | ⟨-, hmem⟩
    · exact absurd hlt (lt_irrefl _)
    simp only [scope, List.mem_cons, List.not_mem_nil, or_false] at hnear
    rcases hnear with rfl | rfl | rfl
    · cases List.mem_singleton.mp hmem
    · exact ⟨hlead, hcall⟩
    · cases hp

end Routine

/-! ### Where a session is left -/

namespace Session

variable {s : Session} {p : Part} {rest : List Token}

/-- A session after a part was asked of it, with what came of that: it has moved forward, up to the
end of the tokens at most, and by one token at least where a part that takes a token has given its
value; and nothing else in it has changed. -/
structure Moves (s : Session) (p : Part) (after : Except Failure p.Value × Session) : Prop where
  forward : s.cursor.position ≤ after.2.cursor.position
  inside : after.2.cursor.position ≤ s.cursor.items.length
  takes : p.Takes → ∀ v, after.1 = .ok v → s.cursor.position < after.2.cursor.position
  rest : after.2 = { s with cursor := ⟨s.cursor.items, after.2.cursor.position⟩ }

lemma moves_run (hs : s.cursor.position ≤ s.cursor.items.length) {r : Rule p.Value}
    [Rule.Orderly r] (ht : p.Takes → Rule.Advances r) : s.Moves p (s.run r) := by
  -- what is to be seen does not go past the last token, so neither does what is taken of it
  have hview : s.cursor.position + s.cursor.view.length ≤ s.cursor.items.length := by
    rw [Cursor.view, Cursor.viewAt]
    split
    · simpa using hs
    · rw [List.length_drop]
      omega
  have hforward (rest : List Token) : s.cursor.position ≤ (s.leaving rest).cursor.position := by
    dsimp only [leaving, Cursor.advance]
    omega
  have hinside (rest : List Token) :
      (s.leaving rest).cursor.position ≤ s.cursor.items.length := by
    dsimp only [leaving, Cursor.advance]
    omega
  cases hrun : r s.cursor.view with
  | ok v rest =>
    rw [run_eq_of_ok hrun]
    refine ⟨hforward rest, hinside rest, fun hp _ _ => ?_, rfl⟩
    have hlt := (ht hp).length_lt hrun
    dsimp only [leaving, Cursor.advance]
    omega
  | error stop rest =>
    rw [run_eq_of_error hrun]
    refine ⟨hforward rest, hinside rest, fun _ v hv => ?_, rfl⟩
    cases hv

/-- What holds of a part that is asked of a session: it runs to its end with the levels that the
session has left, and moves the session; and so it would without a limit on the levels. -/
structure Progresses (s : Session) (p : Part) : Prop where
  ends : ∃ out, Code.Runs s.side s.levels (.call (.part p)) s.cursor.view out ∧
    s.ask p = s.run fun _ => out
  moves : s.Moves p (s.ask p)
  free : ∃ out, Code.Runs s.side ⊤ (.call (.part p)) s.cursor.view out ∧
    s.Moves p (s.run fun _ => out)

lemma progresses (hs : s.cursor.position ≤ s.cursor.items.length) (p : Part) : s.Progresses p := by
  -- A run comes to what the rule does, with the levels of the session and without a limit alike.
  have hrun (levels : ℕ∞) : ∃ out, Code.Runs s.side levels (.call (.part p)) s.cursor.view out ∧
      s.run (p.rule s.side (Openers.upTo s.side levels)) = s.run fun _ => out := by
    obtain ⟨out, hout⟩ := (Routine.part p).exists_runs s.side levels s.cursor.view
    have heq : p.rule s.side (Openers.upTo s.side levels) s.cursor.view = out := hout.denote_eq
    refine ⟨out, hout, ?_⟩
    simp only [run, heq]
  have hask : s.ask p = s.run (p.rule s.side (Openers.upTo s.side s.levels)) := s.ask_eq p
  obtain ⟨out, hends, heq⟩ := hrun s.levels
  obtain ⟨free, hfree, hfreeEq⟩ := hrun ⊤
  refine ⟨⟨out, hends, hask.trans heq⟩, ?_, free, hfree, ?_⟩
  · rw [hask]
    exact moves_run hs Part.advances_rule
  · rw [← hfreeEq]
    exact moves_run hs Part.advances_rule

end Session

/-- What holds of the runs of a routine: they end, with and without a limit on the levels, and come
to what the rule of the routine comes to; they leave an end of the tokens, and one or more of these
are taken where a value is given, if the routine takes a token; each call inside lowers the number
of tokens that are left or, where this stays as it is, the rank; and between two levels that are
opened inside one another a token is taken, unless the second one is an expression with which a
statement begins. -/
structure Routine.Progresses (side : Associativity) (r : Routine) : Prop where
  ends : ∀ levels ts, ∃ out, Code.Runs side levels (.call r) ts out
  agrees : ∀ levels ts out,
    Code.Runs side levels (.call r) ts out ↔ r.rule side (Openers.upTo side levels) ts = out
  leaves : ∀ levels ts out, Code.Runs side levels (.call r) ts out → Rule.left out <:+ ts
  takes : r.Takes → ∀ levels ts v rest,
    Code.Runs side levels (.call r) ts (.ok v rest) → rest.length < ts.length
  descends : ∀ levels ts q us, (r.code side).Calls side levels ts q us →
    Prod.Lex (· < ·) (· < ·) (us.length, q.rank) (ts.length, r.rank)
  openings : r.opens = 1 → ∀ levels ts q us, r.Leads side levels ts q us → q.opens = 1 →
    us.length < ts.length ∨ us = ts ∧ r.AtStatement side levels ts q

/-- **The rules of the grammar go forward and come to an end**, from any tokens on and in any
session that is not past its tokens, with any number of levels left and without a limit on them:
the loops and the calls of the rules lower the tokens that are left and the rank,
lexicographically. -/
theorem parsing_progresses (side : Associativity) :
    (∀ r : Routine, r.Progresses side) ∧
      ∀ s : Session, s.cursor.position ≤ s.cursor.items.length → ∀ p : Part, s.Progresses p := by
  refine ⟨fun r => ⟨r.exists_runs side, fun _ _ _ => Routine.runs_iff, ?_, ?_,
    fun _ _ _ _ => Routine.descends, ?_⟩, fun s hs p => Session.progresses hs p⟩
  · intro levels ts out hrun
    rw [← hrun.denote_eq]
    exact Rule.Orderly.suffix _ ts
  · intro htakes levels ts v rest hrun
    exact Code.takes_call htakes hrun
  · intro hr levels ts q us hleads hq
    exact hleads.opens hr hq

end Pebble
