import Pebble.Proofs.Grammar.Opening

/-!
Plans: what a rule that is built from openers does on given tokens, as a tree of the questions that
it asks its openers. The answer to a question, a value and the tokens left, decides how it goes on.
-/

namespace Pebble

/-- What a rule does: it is done, or it asks an opener at some tokens and goes on with what that
gives. -/
inductive Plan (α : Type) where
  | done (out : EStateM.Result Stop (List Token) α)
  | ask (x : Opening) (ts : List Token) (next : x.Value → List Token → Plan α)

namespace Plan

variable {α β : Type}

/-- What a plan comes to. A stop of an opener is the stop of the whole. -/
def run (o : Openers) : Plan α → EStateM.Result Stop (List Token) α
  | done out => out
  | ask x ts next =>
    match o x ts with
    | .ok v rest => (next v rest).run o
    | .error stop rest => .error stop rest

def bind : Plan α → (α → List Token → Plan β) → Plan β
  | done (.ok v rest), k => k v rest
  | done (.error stop rest), _ => done (.error stop rest)
  | ask x ts next, k => ask x ts fun v rest => (next v rest).bind k

inductive Asks (o : Openers) : Plan α → Opening → List Token → Prop
  | now {x : Opening} {ts : List Token} {next : x.Value → List Token → Plan α} :
    Asks o (ask x ts next) x ts
  | later {x y : Opening} {ts us rest : List Token} {next : x.Value → List Token → Plan α}
      {v : x.Value} :
    o x ts = .ok v rest → Asks o (next v rest) y us → Asks o (ask x ts next) y us

/-- A plan keeps to the brackets: from tokens with `b` brackets open, on the level at hand, it asks
an opener where as many are open as this one comes after, and it ends with `c` of them open. Where
it stops of itself it stops with one of the stops `E`. -/
def Keeps (E : Stop → Prop) (c : Int) : Plan α → Int → List Token → Prop
  | done (.ok _ rest), b, ts => Leaves (c - b) ts rest
  | done (.error stop rest), _, ts => E stop ∧ rest <:+ ts
  | ask x us next, b, ts =>
    Leaves (x.weight - b) ts us ∧
      ∀ v rest, Leaves 0 us rest → (next v rest).Keeps E c x.weight rest

end Plan

/-- Openers that close the brackets they open, and that leave an end of the tokens they are
given. -/
structure Openers.Steady (o : Openers) : Prop where
  leaves {x : Opening} {ts rest : List Token} {v : x.Value} :
    o x ts = .ok v rest → Leaves 0 ts rest
  suffix {x : Opening} {ts rest : List Token} {stop : Stop} :
    o x ts = .error stop rest → rest <:+ ts

namespace Plan

variable {α β : Type} {E : Stop → Prop} {o o' : Openers} {b c d : Int} {ts us rest : List Token}
  {x : Opening}

lemma run_bind (p : Plan α) (k : α → List Token → Plan β) :
    (p.bind k).run o =
      match p.run o with
      | .ok v rest => (k v rest).run o
      | .error stop rest => .error stop rest := by
  induction p with
  | done out => cases out <;> rfl
  | ask x ts next ih =>
    simp only [bind, run]
    cases o x ts with
    | ok v rest => exact ih v rest
    | error stop rest => rfl

/-! ### Keeping to the brackets -/

/-- A plan may be looked at from any tokens before those at which it starts. -/
lemma Keeps.of_leaves {p : Plan α} (h : p.Keeps E c d us) (hl : Leaves (d - b) ts us) :
    p.Keeps E c b ts := by
  cases p with
  | done out =>
    cases out with
    | ok v rest =>
      have hrest : Leaves (c - d) us rest := h
      have := hl.trans hrest
      rwa [show d - b + (c - d) = c - b by omega] at this
    | error stop rest => exact ⟨h.1, h.2.trans hl.suffix⟩
  | ask x vs next =>
    refine ⟨?_, h.2⟩
    have := hl.trans h.1
    rwa [show d - b + ((x.weight : Int) - d) = x.weight - b by omega] at this

lemma Keeps.mono {E' : Stop → Prop} {p : Plan α} (h : p.Keeps E c b ts)
    (hE : ∀ stop, E stop → E' stop) : p.Keeps E' c b ts := by
  induction p generalizing b ts with
  | done out =>
    cases out with
    | ok v rest => exact h
    | error stop rest => exact ⟨hE stop h.1, h.2⟩
  | ask x us next ih => exact ⟨h.1, fun v rest hrest => ih v rest (h.2 v rest hrest)⟩

lemma Keeps.bind {p : Plan α} {k : α → List Token → Plan β} (h : p.Keeps E c b ts)
    (hk : ∀ v rest, (k v rest).Keeps E d c rest) : (p.bind k).Keeps E d b ts := by
  induction p generalizing b ts with
  | done out =>
    cases out with
    | ok v rest => exact (hk v rest).of_leaves h
    | error stop rest => exact h
  | ask x us next ih => exact ⟨h.1, fun v rest hrest => ih v rest (h.2 v rest hrest)⟩

/-- A plan closes the brackets that it opens, given openers that do. -/
lemma Keeps.run_ok {p : Plan α} (h : p.Keeps E c b ts) (ho : o.Steady) {v : α}
    (hrun : p.run o = .ok v rest) : Leaves (c - b) ts rest := by
  -- On the plan: what answers a question closes its own brackets, the rest of the plan the others.
  induction p generalizing b ts with
  | done out =>
    obtain rfl : out = .ok v rest := hrun
    exact h
  | ask x us next ih =>
    simp only [run] at hrun
    split at hrun
    · next w mid hw =>
      have hmid := ho.leaves hw
      have hrest := (h.1.trans hmid).trans (ih w mid (h.2 w mid hmid) hrun)
      rwa [show (x.weight : Int) - b + 0 + (c - x.weight) = c - b by omega] at hrest
    · cases hrun

/-- Where a plan stops, it stops of itself, or because an opener does that it asks. -/
lemma Keeps.run_error {p : Plan α} (h : p.Keeps E c b ts) (ho : o.Steady) {stop : Stop}
    (hrun : p.run o = .error stop rest) :
    rest <:+ ts ∧ (E stop ∨ ∃ x us, p.Asks o x us ∧ o x us = .error stop rest) := by
  -- On the plan: it stops at the end, at a question, or after an answer.
  induction p generalizing b ts with
  | done out =>
    obtain rfl : out = .error stop rest := hrun
    exact ⟨h.2, .inl h.1⟩
  | ask x us next ih =>
    simp only [run] at hrun
    split at hrun
    · next w mid hw =>
      have hmid := ho.leaves hw
      obtain ⟨hrest, hstop⟩ := ih w mid (h.2 w mid hmid) hrun
      refine ⟨hrest.trans (hmid.suffix.trans h.1.suffix), hstop.imp_right ?_⟩
      rintro ⟨y, vs, ha, hy⟩
      exact ⟨y, vs, .later hw ha, hy⟩
    · next stop' mid hw =>
      cases hrun
      exact ⟨(ho.suffix hw).trans h.1.suffix, .inr ⟨x, us, .now, hw⟩⟩

lemma Keeps.leaves {p : Plan α} (h : p.Keeps E c b ts) (ho : o.Steady) (ha : p.Asks o x us) :
    Leaves (x.weight - b) ts us := by
  induction ha generalizing b ts with
  | now => exact h.1
  | @later y x vs us rest next v hv _ ih =>
    have hrest := ho.leaves hv
    have := (h.1.trans hrest).trans (ih (h.2 v rest hrest))
    rwa [show (y.weight : Int) - b + 0 + (x.weight - y.weight) = x.weight - b by omega] at this

lemma Keeps.asked_ok {p : Plan α} (h : p.Keeps E c b ts) (ho : o.Steady) (ha : p.Asks o x us)
    {v : α} (hrun : p.run o = .ok v rest) : ∃ w mid, o x us = .ok w mid ∧ rest <:+ mid := by
  induction ha generalizing b ts with
  | @now x us next =>
    simp only [run] at hrun
    split at hrun
    · next w mid hw =>
      exact ⟨w, mid, hw, ((h.2 w mid (ho.leaves hw)).run_ok ho hrun).suffix⟩
    · cases hrun
  | later hw _ ih =>
    simp only [run, hw] at hrun
    exact ih (h.2 _ _ (ho.leaves hw)) hrun

/-! ### What is asked -/

section

variable {y : Opening} {next : x.Value → List Token → Plan α}

lemma asks_of_ok {v : x.Value} (hv : o x ts = .ok v rest) :
    (ask x ts next).Asks o y us ↔ (x = y ∧ ts = us) ∨ (next v rest).Asks o y us := by
  constructor
  · rintro (_ | ⟨hw, ha⟩)
    · exact .inl ⟨rfl, rfl⟩
    · cases hv.symm.trans hw
      exact .inr ha
  · rintro (⟨rfl, rfl⟩ | ha)
    · exact .now
    · exact .later hv ha

lemma asks_of_error {stop : Stop} (hv : o x ts = .error stop rest) :
    (ask x ts next).Asks o y us ↔ x = y ∧ ts = us := by
  constructor
  · rintro (_ | ⟨hw, -⟩)
    · exact ⟨rfl, rfl⟩
    · cases hv.symm.trans hw
  · rintro ⟨rfl, rfl⟩
    exact .now

lemma run_of_ok {v : x.Value} (hv : o x ts = .ok v rest) :
    (ask x ts next).run o = (next v rest).run o := by
  simp only [run, hv]

lemma run_of_error {stop : Stop} (hv : o x ts = .error stop rest) :
    (ask x ts next).run o = .error stop rest := by
  simp only [run, hv]

end

lemma run_congr {p : Plan α} (h : ∀ x us, p.Asks o' x us → o x us = o' x us) :
    p.run o = p.run o' := by
  induction p with
  | done out => rfl
  | ask x us next ih =>
    have hnow := h x us .now
    cases hv : o' x us with
    | ok v rest =>
      rw [run_of_ok (hnow.trans hv), run_of_ok hv]
      exact ih v rest fun y vs ha => h y vs (.later hv ha)
    | error stop rest => rw [run_of_error (hnow.trans hv), run_of_error hv]

/-- With an opener halted that it asks, a plan stops there; otherwise it does not notice. -/
lemma run_halting (p : Plan α) (x : Opening) (us : List Token) :
    (p.Asks o x us ∧ ∀ stop, p.run (o.halting x us stop) = .error stop us) ∨
      (¬ p.Asks o x us ∧ ∀ stop, p.run (o.halting x us stop) = p.run o) := by
  induction p with
  | done out => exact .inr ⟨nofun, fun _ => rfl⟩
  | ask y vs next ih =>
    by_cases h : y = x ∧ vs = us
    · obtain ⟨rfl, rfl⟩ := h
      exact .inl ⟨.now, fun stop => run_of_error (by simp [Openers.halting])⟩
    -- The question now asked is another one, so that the answer is the same.
    have hsame : ∀ stop, o.halting x us stop y vs = o y vs := fun stop => if_neg h
    cases hv : o y vs with
    | ok v rest =>
      simp only [asks_of_ok hv, h, false_or, run_of_ok hv, run_of_ok ((hsame _).trans hv)]
      exact ih v rest
    | error stop rest =>
      simp only [asks_of_error hv, h, run_of_error hv, run_of_error ((hsame _).trans hv)]
      exact .inr ⟨not_false, fun _ => trivial⟩

end Plan

/-- The levels that a rule opens are those that its plan asks for. -/
lemma asks_iff {α : Type} {F : Openers → Rule α} {o : Openers} {ts us : List Token} {x : Opening}
    {p : Plan α} (h : ∀ o, F o ts = p.run o) : Asks F o ts x us ↔ p.Asks o x us := by
  simp only [Asks, h]
  rcases p.run_halting (o := o) x us with ⟨ha, hrun⟩ | ⟨ha, hrun⟩
  · exact ⟨fun _ => ha, fun _ => hrun⟩
  · refine ⟨fun hall => ?_, fun h' => absurd h' ha⟩
    -- The run without the opener cannot be two stops at once.
    have hdeep := hall (.complaint .nestingTooDeep)
    have hmissing := hall (.complaint .missingSemicolon)
    rw [hrun] at hdeep hmissing
    rw [hdeep] at hmissing
    cases hmissing

end Pebble
