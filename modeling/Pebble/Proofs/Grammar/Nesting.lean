import Pebble.Proofs.Grammar.Place
import Pebble.Proofs.Grammar.Walk

/-!
Nesting: the limit on open levels is only a cutoff. The rules without the limit are the solution of
the equations of the grammar. A run with the limit is the run without it, up to the token at which
that one opens a level too many. How many levels are open at a token is told by the brackets before
it alone.
-/

namespace Pebble

namespace Openers

variable {side : Associativity} {o : Openers} {x y : Opening} {ts us rest : List Token}

/-! ### The rules without a limit -/

/-- A bound on how many levels can be opened inside one another from some tokens on. -/
def room (x : Opening) (ts : List Token) : Nat := ts.length + x.weight

/-- The rules with more levels than can be opened, so that none is refused. -/
def free (side : Associativity) : Openers := fun x ts => within side (room x ts + 1) x ts

lemma steady_body (h : o.Steady) : (body side o).Steady where
  leaves {x ts rest v} hrun := by
    have := (Rule.walks_body side x).run_ok h hrun
    rwa [Int.sub_self] at this
  suffix {x ts rest stop} hrun := ((Rule.walks_body side x).run_error h hrun).1

lemma steady_within (levels : Nat) : (within side levels).Steady := by
  induction levels with
  | zero =>
    refine ⟨fun {x ts rest v} h => ?_, fun {x ts rest stop} h => ?_⟩ <;> rw [within_zero] at h <;>
      cases h
    exact List.suffix_refl _
  | succ levels ih =>
    rw [within_succ]
    exact steady_body ih

lemma room_lt (h : o.Steady) (ha : Asks (fun o => o.body side x) o ts y us) :
    room y us < room x ts := by
  obtain ⟨used, rfl, hused⟩ := (Rule.walks_body side x).leaves h ha
  have := balance_le_length used
  simp only [room, List.length_append]
  omega

/-- Any two numbers of levels that are more than the room do the same. -/
lemma within_eq {m n : Nat} (hm : room x ts < m) (hn : room x ts < n) :
    within side m x ts = within side n x ts := by
  induction m generalizing n x ts with
  | zero => omega
  | succ m ih =>
    obtain ⟨n, rfl⟩ : ∃ k, n = k + 1 := ⟨n - 1, by omega⟩
    rw [within_succ, within_succ]
    -- Both run the same body, and whatever that opens has less room.
    refine (Rule.walks_body side x).congr fun y us ha => ?_
    have := room_lt (steady_within n) ha
    exact ih (by omega) (by omega)

/-- The rules without a limit solve the equations of the grammar. -/
lemma free_eq_body : free side = body side (free side) := by
  funext x ts
  have h : free side x ts = body side (within side (room x ts)) x ts := by rw [free, within_succ]
  rw [h]
  refine ((Rule.walks_body side x).congr fun y us ha => ?_).symm
  have := room_lt (steady_within (room x ts)) ha
  exact within_eq (by omega) (by omega)

lemma steady_free : (free side).Steady :=
  ⟨fun h => (steady_within _).leaves h, fun h => (steady_within _).suffix h⟩

/-- No other rules do. -/
lemma eq_free (h : o = body side o) : o = free side := by
  funext x ts
  induction hn : room x ts using Nat.strong_induction_on generalizing x ts with
  | _ n ih =>
    rw [h, free_eq_body]
    refine (Rule.walks_body side x).congr fun y us ha => ?_
    have := room_lt steady_free ha
    exact ih (room y us) (by omega) y us rfl

/-- Without a limit no level is refused. -/
lemma own_of_free {stop : Stop} (h : free side x ts = .error stop rest) : stop.Own := by
  induction hn : room x ts using Nat.strong_induction_on generalizing x ts with
  | _ n ih =>
    rw [free_eq_body] at h
    rcases ((Rule.walks_body side x).run_error steady_free h).2 with hown | ⟨y, us, ha, hy⟩
    · exact hown
    · have := room_lt steady_free ha
      exact ih (room y us) (by omega) hy rfl

/-! ### Which levels are opened -/

/-- Inside a level that is opened, another one is, with so many levels open from the first on. -/
inductive Reaches (side : Associativity) : Nat → Opening → List Token → Opening → List Token → Prop
  | here {x : Opening} {ts : List Token} : Reaches side 0 x ts x ts
  | inside {n : Nat} {x y z : Opening} {ts us vs : List Token} :
    Asks (fun o => o.body side x) (free side) ts y us → Reaches side n y us z vs →
      Reaches side (n + 1) x ts z vs

/-- Without a limit, a rule on some tokens opens a level with so many levels open. -/
def Enters {α : Type} (side : Associativity) (F : Openers → Rule α) (ts : List Token) (n : Nat)
    (x : Opening) (us : List Token) : Prop :=
  ∃ y vs, Asks F (free side) ts y vs ∧ Reaches side n y vs x us

namespace Reaches

variable {n : Nat} {vs : List Token}

lemma leaves (h : Reaches side n x ts y us) : Leaves (n + y.weight - x.weight) ts us := by
  induction h with
  | here =>
    rw [show ((0 : Nat) : Int) + Opening.weight _ - Opening.weight _ = 0 by omega]
    exact .refl _
  | @inside n x y z ts us vs ha _ ih =>
    have := ((Rule.walks_body side x).leaves steady_free ha).trans ih
    rwa [show (y.weight : Int) - (x.weight - 1) + (n + z.weight - y.weight) =
      (n + 1 : Nat) + z.weight - x.weight by omega] at this

/-- A level that has been read has read what was opened inside it. -/
lemma rest_suffix (h : Reaches side n x ts y us) {v : x.Value}
    (hrun : free side x ts = .ok v rest) :
    rest <:+ us := by
  induction h generalizing rest with
  | here => exact (steady_free.leaves hrun).suffix
  | @inside n x y z ts us vs ha _ ih =>
    rw [free_eq_body] at hrun
    obtain ⟨w, mid, hw, hmid⟩ := (Rule.walks_body side x).asked_ok steady_free ha hrun
    exact hmid.trans (ih hw)

end Reaches

/-! ### The cutoff -/

/-- An outcome with a limit is that without it if the limit is never passed; else a level is refused
at the first of the places where it is. -/
inductive Cut {α : Type} (limited free : EStateM.Result Stop (List Token) α)
    (passed : List Token → Prop) : Prop
  | same : limited = free → (∀ us, ¬ passed us) → Cut limited free passed
  | refused {us : List Token} : limited = .error (.complaint .nestingTooDeep) us → passed us →
    (∀ vs, passed vs → vs <:+ us) → Cut limited free passed

lemma Cut.congr {α : Type} {limited free : EStateM.Result Stop (List Token) α}
    {passed passed' : List Token → Prop} (h : Cut limited free passed)
    (hpassed : ∀ us, passed us ↔ passed' us) : Cut limited free passed' := by
  obtain rfl : passed = passed' := funext fun us => propext (hpassed us)
  exact h

/-- A plan is cut off where the first of the levels is cut off that it asks for. -/
lemma cut_run {α : Type} {E : Stop → Prop} {b c : Int} {o' : Openers} {p : Plan α}
    {R : (x : Opening) → List Token → List Token → Prop} (h : p.Keeps E c b ts) (ho : o'.Steady)
    (hcut : ∀ x us, Cut (o x us) (o' x us) (R x us)) (hsuffix : ∀ {x us vs}, R x us vs → vs <:+ us)
    (hrest : ∀ {x us vs v rest}, R x us vs → o' x us = .ok v rest → rest <:+ vs) :
    Cut (p.run o) (p.run o') fun vs => ∃ x us, p.Asks o' x us ∧ R x us vs := by
  -- On the plan: as long as no level is cut off, both sides have the same answers, and the first
  -- level that is cut off ends the plan with the limit.
  induction p generalizing b ts with
  | done out =>
    refine .same rfl ?_
    rintro vs ⟨_, _, h, -⟩
    cases h
  | ask x us next ih =>
    rcases hcut x us with ⟨heq, hnone⟩ | ⟨herror, hpassed, hfirst⟩
    · cases hx : o' x us with
      | error stop mid =>
        rw [Plan.run_of_error (heq.trans hx), Plan.run_of_error hx]
        refine .same rfl ?_
        rintro vs ⟨y, ws, ha, hR⟩
        obtain ⟨rfl, rfl⟩ := (Plan.asks_of_error hx).1 ha
        exact hnone vs hR
      | ok v mid =>
        rw [Plan.run_of_ok (heq.trans hx), Plan.run_of_ok hx]
        refine (ih v mid (h.2 v mid (ho.leaves hx))).congr fun vs => ⟨?_, ?_⟩
        · rintro ⟨y, ws, ha, hR⟩
          exact ⟨y, ws, .later hx ha, hR⟩
        · rintro ⟨y, ws, ha, hR⟩
          obtain ⟨rfl, rfl⟩ | ha := (Plan.asks_of_ok hx).1 ha
          · exact absurd hR (hnone vs)
          · exact ⟨y, ws, ha, hR⟩
    · refine .refused (Plan.run_of_error herror) ⟨x, us, .now, hpassed⟩ ?_
      rintro vs ⟨y, ws, _ | ⟨hw, ha⟩, hR⟩
      · exact hfirst vs hR
      -- What is asked later is behind what the level that was cut off has read.
      · have hlater := ((h.2 _ _ (ho.leaves hw)).leaves ho ha).suffix
        exact (hsuffix hR).trans (hlater.trans (hrest hpassed hw))

lemma cut_walk {α : Type} {E : Stop → Prop} {b c : Int} {F : Openers → Rule α}
    (h : Walks E b c F) {n : Nat} (hcut : ∀ x us, Cut (within side n x us) (free side x us)
      fun vs => ∃ y, Reaches side n x us y vs) (ts : List Token) :
    Cut (F (within side n) ts) (F (free side) ts) fun vs => ∃ y, Enters side F ts n y vs := by
  obtain ⟨p, hp, hkeeps⟩ := h ts
  have hcut' := cut_run hkeeps steady_free hcut (fun ⟨_, hr⟩ => hr.leaves.suffix)
    fun ⟨_, hr⟩ hrun => hr.rest_suffix hrun
  rw [hp, hp]
  refine hcut'.congr fun vs => ?_
  simp only [Enters, asks_iff hp]
  constructor
  · rintro ⟨x, us, ha, y, hr⟩
    exact ⟨y, x, us, ha, hr⟩
  · rintro ⟨y, x, us, ha, hr⟩
    exact ⟨x, us, ha, y, hr⟩

/-- The rules with a limit are cut off where those without it pass it. -/
lemma cut_within (side : Associativity) (n : Nat) (x : Opening) (ts : List Token) :
    Cut (within side n x ts) (free side x ts) fun vs => ∃ y, Reaches side n x ts y vs := by
  -- On the levels: with none left the level itself is refused.
  induction n generalizing x ts with
  | zero =>
    refine .refused (within_zero x ts) ⟨x, .here⟩ ?_
    rintro vs ⟨y, ⟨⟩⟩
    exact List.suffix_refl _
  | succ n ih =>
    have h := cut_walk (Rule.walks_body side x) ih ts
    rw [← free_eq_body, ← within_succ] at h
    refine h.congr fun vs => ⟨?_, ?_⟩
    · rintro ⟨z, y, us, ha, hr⟩
      exact ⟨z, .inside ha hr⟩
    · rintro ⟨z, _ | ⟨ha, hr⟩⟩
      exact ⟨z, _, _, ha, hr⟩

/-! ### Where runs begin -/

def statement (o : Openers) : Rule Stmt := Rule.statementOf o.expression o.block

def source (o : Openers) : Rule Source := do
  let found ← Rule.items (Rule.item o.expression o.block) (← get)
  return .ofItems found

lemma statement_within (n : Nat) : (within side n).statement = Rule.statement side n :=
  (Rule.statement_eq side n).symm

lemma walks_source : Walks Stop.Outer 0 0 source :=
  .get fun bound => .bind (Rule.walks_items bound) fun _ => .pure _

lemma walks_statement : Walks Stop.Outer 0 0 statement :=
  Rule.walks_statementOf.mono fun _ h => h.1

lemma walks_expression : Walks Stop.Outer 0 0 expression := .opener .expression

/-- **The limit is only a cutoff** for what a rule reads from the first of some tokens, built from
openers as `F` says: unless the run without the limit opens a level too many, the two runs are the
same; if it does, the run with the limit stops where it does so first. How many levels are open is
told by the brackets before, so that levels are refused only behind that many brackets. -/
structure IsCutoff {α : Type} (side : Associativity) (tokens : List Token) (F : Openers → Rule α)
    (limited : Rule α) : Prop where
  same : (∀ x us, ¬ Enters side F tokens maxNesting x us) →
    (Session.start side tokens).run limited = (Session.start side tokens).run (F (free side))
  refused : (∃ x us, Enters side F tokens maxNesting x us) →
    ∃ p ≤ tokens.length, (∃ x, Enters side F tokens maxNesting x (tokens.drop p)) ∧
      (∀ x us, Enters side F tokens maxNesting x us → ∃ q ≥ p, us = tokens.drop q) ∧
      (Session.start side tokens).run limited =
        (.error (.report (Complaint.nestingTooDeep.report (offsetAt tokens p))),
          .taking side tokens p)
  brackets : ∀ n x us, Enters side F tokens n x us →
    ∃ p, us = tokens.drop p ∧ balance (tokens.take p) = n + x.weight
  shallow : (∀ p, balance (tokens.take p) < maxNesting) →
    ∀ report, ((Session.start side tokens).run limited).1 = .error (.report report) →
      report.kind ≠ .complaint .nestingTooDeep

lemma outer_of_free {α : Type} {F : Openers → Rule α} {b c : Int} (h : Walks Stop.Outer b c F)
    {stop : Stop} (hrun : F (free side) ts = .error stop rest) : stop.Outer := by
  rcases (h.run_error steady_free hrun).2 with houter | ⟨y, us, -, hy⟩
  · exact houter
  · exact (own_of_free hy).1

lemma Enters.leaves {α : Type} {F : Openers → Rule α} {E : Stop → Prop} {c : Int} {n : Nat}
    (h : Walks E 0 c F) (he : Enters side F ts n x us) : Leaves (n + x.weight) ts us := by
  obtain ⟨y, vs, ha, hr⟩ := he
  have := (h.leaves steady_free ha).trans hr.leaves
  rwa [show (y.weight : Int) - 0 + (n + x.weight - y.weight) = n + x.weight by omega] at this

lemma Enters.brackets {α : Type} {F : Openers → Rule α} {E : Stop → Prop} {c : Int} {n : Nat}
    (h : Walks E 0 c F) (he : Enters side F ts n x us) :
    ∃ p, us = ts.drop p ∧ balance (ts.take p) = n + x.weight := by
  obtain ⟨used, rfl, hused⟩ := he.leaves h
  exact ⟨used.length, by simp, by simpa using hused⟩

/-- Where few brackets are open, no level is refused. -/
lemma not_refused {α : Type} {F : Openers → Rule α} (h : Walks Stop.Outer 0 0 F)
    {tokens : List Token} {limited : Rule α} (hshallow : ∀ p, balance (tokens.take p) < maxNesting)
    (hsame : (∀ x us, ¬ Enters side F tokens maxNesting x us) →
      (Session.start side tokens).run limited = (Session.start side tokens).run (F (free side)))
    {report : Report}
    (hrun : ((Session.start side tokens).run limited).1 = .error (.report report)) :
    report.kind ≠ .complaint .nestingTooDeep := by
  -- where the limit is passed, as many brackets are open
  have hnone : ∀ x us, ¬ Enters side F tokens maxNesting x us := by
    intro x us hx
    obtain ⟨p, -, hp⟩ := hx.brackets h
    have := hshallow p
    omega
  rw [hsame hnone, Session.run_start_eq] at hrun
  cases hfree : F (free side) tokens with
  | ok v rest => simp [hfree] at hrun
  | error stop rest =>
    rw [hfree] at hrun
    obtain cause | fault := stop
    · obtain rfl : cause.report _ = report := Failure.report.inj (Except.error.inj hrun)
      have houter := outer_of_free h hfree
      simpa [Stop.Outer, Stop.kind?, Complaint.report] using houter
    · cases hrun

lemma isCutoff {α : Type} {F : Openers → Rule α} (h : Walks Stop.Outer 0 0 F)
    (tokens : List Token) : IsCutoff side tokens F (F (within side maxNesting)) := by
  have hcut := cut_walk h (cut_within side maxNesting) tokens
  have hsame : (∀ x us, ¬ Enters side F tokens maxNesting x us) →
      (Session.start side tokens).run (F (within side maxNesting)) =
        (Session.start side tokens).run (F (free side)) := by
    intro hnone
    rcases hcut with ⟨heq, -⟩ | ⟨-, ⟨x, hx⟩, -⟩
    · rw [Session.run_start_eq, Session.run_start_eq, heq]
    · exact absurd hx (hnone x _)
  refine ⟨hsame, fun hsome => ?_, fun n x us he => he.brackets h, fun hshallow _ hrun =>
    not_refused h hshallow hsame hrun⟩
  -- the limit is passed, so the run is cut off at the first place where it is
  rcases hcut with ⟨-, hnone⟩ | @⟨us, herror, ⟨x, hx⟩, hfirst⟩
  · obtain ⟨x, us, hx⟩ := hsome
    exact absurd ⟨x, hx⟩ (hnone us)
  · have hus := List.suffix_iff_eq_drop.1 (hx.leaves h).suffix
    refine ⟨tokens.length - us.length, Nat.sub_le _ _, ⟨x, hus ▸ hx⟩, fun y vs hy => ?_, ?_⟩
    · have hle := (hfirst vs ⟨y, hy⟩).length_le
      exact ⟨_, Nat.sub_le_sub_left hle _, List.suffix_iff_eq_drop.1 (hy.leaves h).suffix⟩
    · rw [Session.run_start_eq, herror]
      rfl

end Openers

/-- **The nesting limit is only a cutoff**, for sources, statements and expressions. The rules
without it are those that solve the equations of the grammar. -/
theorem nesting_cutoff (side : Associativity) (tokens : List Token) :
    (∀ o, o = Openers.body side o ↔ o = Openers.free side) ∧
      Openers.IsCutoff side tokens Openers.source (Rule.source side maxNesting) ∧
      Openers.IsCutoff side tokens Openers.statement (Rule.statement side maxNesting) ∧
      Openers.IsCutoff side tokens Openers.expression (Rule.expression side maxNesting) := by
  refine ⟨fun o => ⟨Openers.eq_free, ?_⟩, ?_, ?_, ?_⟩
  · rintro rfl
    exact Openers.free_eq_body
  · exact Openers.isCutoff Openers.walks_source tokens
  · rw [← Openers.statement_within]
    exact Openers.isCutoff Openers.walks_statement tokens
  · exact Openers.isCutoff Openers.walks_expression tokens

end Pebble
