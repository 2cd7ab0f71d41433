import Pebble.Proofs.Grammar.Nesting

/-!
The counter of open levels: a run that opens a level adds one to it, unless as many are open as may
be, and takes one away again when it leaves the level, also where it stops inside. The rules have no
counter but are told how many levels may still be opened; the two come to the same.
-/

namespace Pebble

/-! ### Plans -/

/-- A rule that is built from openers follows a plan. -/
def Planned {α : Type} (F : Openers → Rule α) : Prop :=
  ∀ ts, ∃ p : Plan α, ∀ o, F o ts = p.run o

namespace Planned

variable {α β : Type}

lemma of_walks {F : Openers → Rule α} {E : Stop → Prop} {b c : Int} (h : Walks E b c F) :
    Planned F := by
  intro ts
  obtain ⟨p, hp, -⟩ := h ts
  exact ⟨p, hp⟩

lemma plain (r : Rule α) : Planned fun _ => r := fun ts => ⟨.done (r ts), fun _ => rfl⟩

lemma opener (x : Opening) : Planned fun o => o x :=
  of_walks (Walks.opener (E := Stop.Own) x)

lemma bind {F : Openers → Rule α} {G : α → Openers → Rule β} (hF : Planned F)
    (hG : ∀ v, Planned (G v)) : Planned fun o => F o >>= fun v => G v o := by
  intro ts
  obtain ⟨p, hp⟩ := hF ts
  choose k hk using hG
  refine ⟨p.bind k, fun o => ?_⟩
  dsimp only
  rw [Rule.bind_apply, Plan.run_bind, hp]
  cases p.run o with
  | ok v rest => exact hk v rest o
  | error stop rest => rfl

lemma map {F : Openers → Rule α} (f : α → β) (hF : Planned F) : Planned fun o => f <$> F o := by
  simp only [map_eq_pure_bind]
  exact hF.bind fun v => plain (pure (f v))

lemma get {F : List Token → Openers → Rule α} (h : ∀ bound, Planned (F bound)) :
    Planned fun o => MonadState.get >>= fun bound => F bound o :=
  fun ts => h ts ts

section

variable {operand : Openers → Rule α} {operators : List Pattern}

lemma links (h : Planned operand) (bound : List Token) :
    Planned fun o => Rule.links operators (operand o) bound := by
  induction bound with
  | nil => exact plain (pure [])
  | cons _ bound ih =>
    refine bind (plain (Rule.accept? operators)) fun found => ?_
    cases found with
    | none => exact plain (pure [])
    | some operator => exact h.bind fun _ => ih.bind fun _ => plain (pure _)

/-- A chain follows a plan, whatever its operators are, if its operand does. -/
lemma chain (side : Associativity) (combine : Text → α → α → α) (h : Planned operand) :
    Planned fun o => Rule.chain side combine operators (operand o) :=
  h.bind fun _ => get fun bound => (h.links bound).bind fun _ => plain (pure _)

end

end Planned

/-! ### Runs with a counter -/

namespace Plan

/-- A run of a plan with a counter of open levels: what the counter is before it, what it is set to
one time after the other, what the plan comes to, and what the counter is after it. -/
inductive Counts (side : Associativity) :
    {α : Type} → Plan α → Nat → List Nat → EStateM.Result Stop (List Token) α → Nat → Prop
  | done {α : Type} {out : EStateM.Result Stop (List Token) α} {depth : Nat} :
    Counts side (.done out) depth [] out depth
  | refused {α : Type} {x : Opening} {ts : List Token} {next : x.Value → List Token → Plan α}
      {depth : Nat} :
    maxNesting ≤ depth →
    Counts side (.ask x ts next) depth [] (.error (.complaint .nestingTooDeep) ts) depth
  | returned {α : Type} {x : Opening} {ts rest : List Token}
      {next : x.Value → List Token → Plan α} {inner : Plan x.Value} {v : x.Value}
      {out : EStateM.Result Stop (List Token) α} {depth last after : Nat} {log more : List Nat} :
    depth < maxNesting → (∀ o : Openers, o.body side x ts = inner.run o) →
    Counts side inner (depth + 1) log (.ok v rest) last →
    Counts side (next v rest) (last - 1) more out after →
    Counts side (.ask x ts next) depth ((depth + 1) :: log ++ (last - 1) :: more) out after
  | raised {α : Type} {x : Opening} {ts rest : List Token}
      {next : x.Value → List Token → Plan α} {inner : Plan x.Value} {stop : Stop}
      {depth last : Nat} {log : List Nat} :
    depth < maxNesting → (∀ o : Openers, o.body side x ts = inner.run o) →
    Counts side inner (depth + 1) log (.error stop rest) last →
    Counts side (.ask x ts next) depth ((depth + 1) :: log ++ [last - 1]) (.error stop rest)
      (last - 1)

variable {α : Type} {side : Associativity} {p : Plan α} {depth after : Nat} {log : List Nat}
  {out : EStateM.Result Stop (List Token) α}

/-- A run with a counter leaves it as it was, never sets it higher than it may be, and comes to what
the run comes to that is told how many levels are left. -/
lemma Counts.spec (h : Counts side p depth log out after) (hdepth : depth ≤ maxNesting) :
    after = depth ∧ (∀ n ∈ log, n ≤ maxNesting) ∧
      p.run (Openers.within side (maxNesting - depth)) = out := by
  -- On the run: a level that returns or stops has left the counter as it was before the level.
  induction h with
  | done => exact ⟨rfl, nofun, rfl⟩
  | @refused _ x ts next depth hfull =>
    obtain rfl : depth = maxNesting := le_antisymm hdepth hfull
    refine ⟨rfl, nofun, run_of_error ?_⟩
    rw [Nat.sub_self, Openers.within_zero]
  | @returned _ x ts rest next inner v out depth last after log more hlt hinner _ _ ih ihnext =>
    obtain ⟨rfl, hlog, hrun⟩ := ih hlt
    obtain ⟨rfl, hmore, hout⟩ := ihnext hdepth
    refine ⟨rfl, ?_, ?_⟩
    · simp only [List.cons_append, List.forall_mem_cons, List.forall_mem_append]
      exact ⟨hlt, hlog, hdepth, hmore⟩
    · rw [← hout, Nat.add_sub_cancel]
      refine run_of_ok ?_
      rw [Openers.within_of_lt hlt, hinner, hrun]
  | @raised _ x ts rest next inner stop depth last log hlt hinner _ ih =>
    obtain ⟨rfl, hlog, hrun⟩ := ih hlt
    refine ⟨rfl, ?_, run_of_error ?_⟩
    · simp only [List.cons_append, List.forall_mem_cons, List.forall_mem_append]
      exact ⟨hlt, hlog, hdepth, nofun⟩
    · rw [Openers.within_of_lt hlt, hinner, hrun]

lemma exists_counts (side : Associativity) (p : Plan α) (hdepth : depth ≤ maxNesting) :
    ∃ log, Counts side p depth log (p.run (Openers.within side (maxNesting - depth))) depth := by
  -- On the levels that are left, and then on the plan.
  induction hlevels : maxNesting - depth generalizing α depth with
  | zero =>
    cases p with
    | done out => exact ⟨[], .done⟩
    | ask x ts next =>
      rw [run_of_error (Openers.within_zero x ts)]
      exact ⟨[], .refused (by omega)⟩
  | succ levels ihlevels =>
    induction p with
    | done out => exact ⟨[], .done⟩
    | ask x ts next ih =>
      have hlt : depth < maxNesting := by omega
      obtain ⟨inner, hinner, -⟩ := Rule.walks_body side x ts
      obtain ⟨log, hlog⟩ := ihlevels inner hlt (by omega)
      have hwithin : Openers.within side (levels + 1) x ts =
          inner.run (Openers.within side levels) := by
        rw [Openers.within_succ]
        exact hinner _
      cases hrun : inner.run (Openers.within side levels) with
      | ok v rest =>
        obtain ⟨more, hmore⟩ := ih v rest
        rw [run_of_ok (hwithin.trans hrun)]
        rw [hrun] at hlog
        exact ⟨_, .returned hlt hinner hlog hmore⟩
      | error stop rest =>
        rw [run_of_error (hwithin.trans hrun)]
        rw [hrun] at hlog
        exact ⟨_, .raised hlt hinner hlog⟩

end Plan

end Pebble
