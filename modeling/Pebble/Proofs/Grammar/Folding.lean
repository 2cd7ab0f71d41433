import Pebble.Proofs.Grammar.History
import Pebble.Proofs.Grammar.Sequence

/-!
Folding: a chain is read as a flat row of operands and operators and put together at its end. It
comes to what a rule reads that puts it together as it goes: to the right by calling itself behind
an operator, to the left by adding to what it has.
-/

namespace Pebble

namespace Session

def operand (part : Part) (s : Session) : Except Failure Record × Session :=
  ((s.ask part).1.map part.record, (s.ask part).2)

end Session

/-! ### The reference -/

section

variable (operators : List Pattern) (operand : Session → Except Failure Record × Session)

/-- A chain to the right, from the session at which it begins to what comes of it and the session
behind it: an operand `x` and, if one of the operators is next, behind the operator again a chain to
the right, which stands to the right of `x`. -/
inductive Nests : Session → Except Failure Record → Session → Prop
  | failed {s s' : Session} {e : Failure} (hfailed : operand s = (.error e, s')) :
    Nests s (.error e) s'
  | last {s s' : Session} {x : Record} (hx : operand s = (.ok x, s'))
      (hlast : s'.next? operators = none) :
    Nests s (.ok x) s'
  | more {s s₁ s' : Session} {x : Record} {t : Token} {out : Except Failure Record}
      (hx : operand s = (.ok x, s₁)) (ht : s₁.next? operators = some t)
      (hmore : Nests s₁.skip out s') :
    Nests s (out.map (Record.binary t.literal x)) s'

/-- What is added to `x` on its right: as long as one of the operators is next, the operator and
an operand `y`, which make `x` the left and `y` the right of what takes the place of `x`. -/
inductive Gathers : Record → Session → Except Failure Record → Session → Prop
  | last {x : Record} {s : Session} (hlast : s.next? operators = none) :
    Gathers x s (.ok x) s
  | failed {x : Record} {s s' : Session} {t : Token} {e : Failure}
      (ht : s.next? operators = some t) (hfailed : operand s.skip = (.error e, s')) :
    Gathers x s (.error e) s'
  | more {x y : Record} {s s₁ s' : Session} {t : Token} {out : Except Failure Record}
      (ht : s.next? operators = some t) (hy : operand s.skip = (.ok y, s₁))
      (hmore : Gathers (Record.binary t.literal x y) s₁ out s') :
    Gathers x s out s'

inductive Accumulates : Session → Except Failure Record → Session → Prop
  | failed {s s' : Session} {e : Failure} (hfailed : operand s = (.error e, s')) :
    Accumulates s (.error e) s'
  | first {s s₁ s' : Session} {x : Record} {out : Except Failure Record}
      (hx : operand s = (.ok x, s₁)) (hmore : Gathers operators operand x s₁ out s') :
    Accumulates s out s'

def Chains : Associativity → Session → Except Failure Record → Session → Prop
  | .right => Nests operators operand
  | .left => Accumulates operators operand

/-- The operators and operands behind the first operand of a chain, in the order in which they are
written, up to where no operator is next. -/
inductive Links : Session → List (Text × Record) → Session → Prop
  | last {s : Session} (hlast : s.next? operators = none) : Links s [] s
  | more {s s₁ s' : Session} {t : Token} {y : Record} {links : List (Text × Record)}
      (ht : s.next? operators = some t) (hy : operand s.skip = (.ok y, s₁))
      (hmore : Links s₁ links s') :
    Links s ((t.literal, y) :: links) s'

end

namespace Associativity

variable {α : Type} {combine : Text → α → α → α}

/-- Puts a chain together from its operators and its operands, each in the order in which they are
written. To the right, the last operand is what the others are put before, from the last but one to
the first; to the left, the first operand is what the others are put behind. -/
def assemble (side : Associativity) (combine : Text → α → α → α) (operators : List Text)
    (operands : List α) : Option α :=
  match side with
  | right => operands.getLast?.map fun last =>
    (operators.reverse.zip operands.dropLast.reverse).foldl
      (fun tree link => combine link.1 link.2 tree) last
  | left => operands.head?.map fun first =>
    (operators.zip operands.tail).foldl (fun tree link => combine link.1 tree link.2) first

lemma assemble_right_cons {operators : List Text} {operands : List α}
    (h : operators.length = operands.length) (operator : Text) (first next : α) :
    right.assemble combine (operator :: operators) (first :: next :: operands) =
      (right.assemble combine operators (next :: operands)).map (combine operator first) := by
  -- The first operator meets the first operand, as there is one operand more than operators.
  have hlength : operators.reverse.length = (next :: operands).dropLast.reverse.length := by
    simp only [List.length_reverse, List.length_dropLast, List.length_cons, h, Nat.add_sub_cancel]
  simp only [assemble, List.getLast?_cons_cons, List.dropLast_cons_cons, List.reverse_cons,
    List.zip_append hlength, List.zip_cons_cons, List.zip_nil_right, List.foldl_append,
    List.foldl_cons, List.foldl_nil, Option.map_map, Function.comp_def]

lemma assemble_left_cons (operators : List Text) (operands : List α) (operator : Text)
    (first next : α) :
    left.assemble combine (operator :: operators) (first :: next :: operands) =
      left.assemble combine operators (combine operator first next :: operands) := rfl

/-- To put a chain together from its operators and its operands is to fold it. -/
lemma assemble_eq (side : Associativity) (first : α) (links : List (Text × α)) :
    side.assemble combine (links.map Prod.fst) (first :: links.map Prod.snd) =
      some (side.fold combine first links) := by
  induction links generalizing first with
  | nil => cases side <;> rfl
  | cons link links ih =>
    obtain ⟨operator, next⟩ := link
    cases side with
    | right =>
      -- To the right, the last operand is taken first, so both lists have to be of one length.
      have hlength : (links.map Prod.fst).length = (links.map Prod.snd).length := by
        rw [List.length_map, List.length_map]
      rw [List.map_cons, List.map_cons, assemble_right_cons hlength, ih]
      rfl
    | left =>
      rw [List.map_cons, List.map_cons, assemble_left_cons, ih]
      rfl

/-- The operands `a`, `b` and `c` with `-` and `+` between them, to either side. -/
example :
    let bracket := fun (operator x y : Text) => '(' :: x ++ operator ++ y ++ [')']
    right.assemble bracket [['-'], ['+']] [['a'], ['b'], ['c']] = some "(a-(b+c))".toList ∧
      left.assemble bracket [['-'], ['+']] [['a'], ['b'], ['c']] = some "((a-b)+c)".toList := by
  decide

end Associativity

/-! ### The chain as its reference -/

namespace Rule

variable {α : Type} (combine : Text → α → α → α) (operators : List Pattern) (operand : Rule α)

/-- What is added to `x` on its right, as a rule. -/
def gather (x : α) : Rule α :=
  (fun links => Associativity.foldLeft combine x links) <$> (get >>= links operators operand)

lemma chain_right_eq [Orderly operand] :
    chain .right combine operators operand = (do
      let x ← operand
      match ← accept? operators with
      | none => return x
      | some t =>
        let tree ← chain .right combine operators operand
        return combine t.literal x tree) := by
  conv_lhs => rw [chain_eq, links_get]
  simp only [bind_assoc]
  refine congrArg _ (funext fun x => congrArg _ (funext fun found => ?_))
  cases found with
  | none => rfl
  | some t =>
    simp only [chain_eq, bind_assoc, pure_bind, Associativity.fold, Associativity.foldRight]

lemma chain_left_eq :
    chain .left combine operators operand = operand >>= gather combine operators operand := by
  rw [chain_eq]
  refine congrArg _ (funext fun x => ?_)
  rw [gather, map_eq_pure_bind]
  rfl

lemma gather_eq [Orderly operand] (x : α) :
    gather combine operators operand x = (do
      match ← accept? operators with
      | none => return x
      | some t =>
        let y ← operand
        gather combine operators operand (combine t.literal x y)) := by
  rw [gather, links_get]
  simp only [gather, map_eq_pure_bind, bind_assoc]
  refine congrArg _ (funext fun found => ?_)
  cases found with
  | none => rfl
  | some t => simp only [bind_assoc, pure_bind, Associativity.foldLeft]

instance [Orderly operand] (x : α) : Orderly (gather combine operators operand x) := by
  unfold gather
  infer_instance

end Rule

namespace Session

variable {operators : List Pattern} {part : Part} {s s₁ s' : Session} {out : Except Failure Record}

abbrev operandRule (s : Session) (part : Part) : Rule Record :=
  part.record <$> part.rule s.side (Openers.within s.side s.levels)

lemma operand_eq (part : Part) (s : Session) : s.operand part = s.run (s.operandRule part) := by
  rw [operand, ask_eq, run_map]

def Continues (s s' : Session) : Prop :=
  s'.side = s.side ∧ s'.depth = s.depth ∧ s'.cursor.view <:+ s.cursor.view

lemma Continues.operandRule_eq (h : s.Continues s') (part : Part) :
    s'.operandRule part = s.operandRule part := by
  rw [operandRule, levels, h.1, h.2.1, ← levels]

lemma continues_operand (part : Part) (s : Session) : s.Continues (s.operand part).2 := by
  rw [operand_eq]
  exact ⟨run_side s _, run_depth s _, view_run s _⟩

lemma continues_of_operand {x : Except Failure Record} (h : s.operand part = (x, s')) :
    s.Continues s' := by
  have hcontinues := continues_operand part s
  rwa [h] at hcontinues

def gather (s : Session) (operators : List Pattern) (part : Part) (x : Record) :
    Except Failure Record × Session :=
  s.run (Rule.gather Record.binary operators (s.operandRule part) x)

lemma ask_chain_right (hside : s.side = .right) (operators : List Pattern) (part : Part) :
    s.ask (.chain operators part) =
      match s.operand part with
      | (.error e, s₁) => (.error e, s₁)
      | (.ok x, s₁) =>
        match s₁.next? operators with
        | none => (.ok x, s₁)
        | some t =>
          ((s₁.skip.ask (.chain operators part)).1.map (Record.binary t.literal x),
            (s₁.skip.ask (.chain operators part)).2) := by
  have hask : ∀ s : Session, s.side = .right → s.ask (.chain operators part) =
      s.run (Rule.chain .right Record.binary operators (s.operandRule part)) := by
    intro s hside
    rw [← hside]
    rfl
  rw [hask s hside, Rule.chain_right_eq, run_bind, operand_eq]
  rcases hx : s.run (s.operandRule part) with ⟨e | x, s₁⟩
  · rfl
  have hs₁ : s.Continues s₁ := continues_of_operand ((operand_eq part s).trans hx)
  have hrule : s₁.skip.operandRule part = s.operandRule part := hs₁.operandRule_eq part
  simp only [run_accept?_bind]
  cases hnext : s₁.next? operators with
  | none => exact run_pure s₁ x
  | some t =>
    simp only [run_bind, hask s₁.skip (hs₁.1.trans hside), hrule]
    rcases s₁.skip.run (Rule.chain .right Record.binary operators (s.operandRule part))
      with ⟨e | tree, s'⟩
    · rfl
    · exact run_pure s' _

lemma ask_chain_left (hside : s.side = .left) (operators : List Pattern) (part : Part) :
    s.ask (.chain operators part) =
      match s.operand part with
      | (.error e, s₁) => (.error e, s₁)
      | (.ok x, s₁) => s₁.gather operators part x := by
  have hask : s.ask (.chain operators part) =
      s.run (Rule.chain .left Record.binary operators (s.operandRule part)) := by
    rw [← hside]
    rfl
  rw [hask, Rule.chain_left_eq, run_bind, operand_eq]
  rcases hx : s.run (s.operandRule part) with ⟨e | x, s₁⟩
  · rfl
  -- The operand that was read leaves the session's side and depth as they were.
  have hs₁ : s.Continues s₁ := continues_of_operand ((operand_eq part s).trans hx)
  simp only [gather, hs₁.operandRule_eq part]

lemma gather_eq (s : Session) (operators : List Pattern) (part : Part) (x : Record) :
    s.gather operators part x =
      match s.next? operators with
      | none => (.ok x, s)
      | some t =>
        match s.skip.operand part with
        | (.error e, s₁) => (.error e, s₁)
        | (.ok y, s₁) => s₁.gather operators part (Record.binary t.literal x y) := by
  rw [gather, Rule.gather_eq, run_accept?_bind]
  cases hnext : s.next? operators with
  | none => exact run_pure s x
  | some t =>
    have hoperand : s.skip.operand part = s.skip.run (s.operandRule part) := operand_eq part s.skip
    simp only [run_bind, hoperand]
    rcases hy : s.skip.run (s.operandRule part) with ⟨e | y, s₁⟩
    · rfl
    · have hs₁ : s.skip.Continues s₁ := continues_of_operand (hoperand.trans hy)
      have hrule : s₁.operandRule part = s.operandRule part := hs₁.operandRule_eq part
      simp only [gather, hrule]

/-! The executable chain and its reference, one step after the other. -/

lemma nests_iff (operators : List Pattern) (part : Part) (hside : s.side = .right) :
    s.ask (.chain operators part) = (out, s') ↔ Nests operators (operand part) s out s' := by
  constructor
  · -- Every operator that is taken leaves less to be seen.
    intro h
    induction hn : s.cursor.view.length using Nat.strong_induction_on generalizing s out s' with
    | _ n ih =>
      rw [ask_chain_right hside] at h
      rcases hx : s.operand part with ⟨e | x, s₁⟩ <;> rw [hx] at h
      · cases h
        exact .failed hx
      have hs₁ : s.Continues s₁ := continues_of_operand hx
      cases ht : s₁.next? operators with
      | none =>
        simp only [ht] at h
        cases h
        exact .last hx ht
      | some t =>
        simp only [ht] at h
        cases h
        have hless : s₁.skip.cursor.view.length < n :=
          hn ▸ (length_view_skip ht).trans_le hs₁.2.2.length_le
        exact .more hx ht (ih _ hless (hs₁.1.trans hside) rfl rfl)
  · intro h
    induction h with
    | failed hfailed => rw [ask_chain_right hside, hfailed]
    | last hx hlast =>
      rw [ask_chain_right hside]
      simp only [hx, hlast]
    | more hx ht _ ih =>
      have hmore := ih ((continues_of_operand hx).1.trans hside)
      rw [ask_chain_right hside]
      simp only [hx, ht, hmore]

lemma gathers_iff (operators : List Pattern) (part : Part) (x : Record) :
    s.gather operators part x = (out, s') ↔ Gathers operators (operand part) x s out s' := by
  constructor
  · intro h
    induction hn : s.cursor.view.length using Nat.strong_induction_on generalizing s x with
    | _ n ih =>
      rw [gather_eq] at h
      cases ht : s.next? operators with
      | none =>
        simp only [ht] at h
        cases h
        exact .last ht
      | some t =>
        simp only [ht] at h
        rcases hy : s.skip.operand part with ⟨e | y, s₁⟩ <;> rw [hy] at h
        · cases h
          exact .failed ht hy
        have hs₁ : s.skip.Continues s₁ := continues_of_operand hy
        have hless : s₁.cursor.view.length < n :=
          hn ▸ hs₁.2.2.length_le.trans_lt (length_view_skip ht)
        exact .more ht hy (ih _ hless _ h rfl)
  · intro h
    induction h with
    | last hlast => simp only [gather_eq, hlast]
    | failed ht hfailed => simp only [gather_eq, ht, hfailed]
    | more ht hy _ ih =>
      rw [gather_eq]
      simpa only [ht, hy] using ih

lemma accumulates_iff (operators : List Pattern) (part : Part) (hside : s.side = .left) :
    s.ask (.chain operators part) = (out, s') ↔ Accumulates operators (operand part) s out s' := by
  rw [ask_chain_left hside]
  constructor
  · intro h
    rcases hx : s.operand part with ⟨e | x, s₁⟩ <;> rw [hx] at h
    · cases h
      exact .failed hx
    · exact .first hx ((gathers_iff operators part x).1 h)
  · rintro (hfailed | ⟨hx, hmore⟩)
    · rw [hfailed]
    · rw [hx]
      exact (gathers_iff operators part _).2 hmore

lemma chains_iff (operators : List Pattern) (part : Part) :
    s.ask (.chain operators part) = (out, s') ↔
      Chains operators (operand part) s.side s out s' := by
  cases hside : s.side with
  | right => exact nests_iff operators part hside
  | left => exact accumulates_iff operators part hside

end Session

/-! ### The chain as it is written -/

section

variable {operators : List Pattern} {operand : Session → Except Failure Record × Session}
  {s s' : Session} {x v : Record}

lemma nests_ok_iff : Nests operators operand s (.ok v) s' ↔
    ∃ first s₁ links, operand s = (.ok first, s₁) ∧ Links operators operand s₁ links s' ∧
      Associativity.foldRight Record.binary first links = v := by
  constructor
  · intro h
    generalize hout : Except.ok v = out at h
    induction h generalizing v with
    | failed => cases hout
    | last hx hlast =>
      cases hout
      exact ⟨_, _, [], hx, .last hlast, rfl⟩
    | @more _ s₁ _ x t out hx ht _ ih =>
      rcases out with e | w
      · -- A chain that succeeds is an operand and, behind an operator, a chain that succeeds.
        cases hout
      · cases hout
        obtain ⟨first, s₂, links, hfirst, hlinks, rfl⟩ := ih rfl
        exact ⟨x, s₁, _, hx, .more ht hfirst hlinks, rfl⟩
  · rintro ⟨first, s₁, links, hfirst, hlinks, rfl⟩
    induction hlinks generalizing s first with
    | last hlast => exact .last hfirst hlast
    | more ht hy _ ih => exact .more hfirst ht (ih _ hy)

lemma gathers_ok_iff : Gathers operators operand x s (.ok v) s' ↔
    ∃ links, Links operators operand s links s' ∧
      Associativity.foldLeft Record.binary x links = v := by
  constructor
  · intro h
    generalize hout : Except.ok v = out at h
    induction h with
    | last hlast =>
      cases hout
      exact ⟨[], .last hlast, rfl⟩
    | failed => cases hout
    | more ht hy _ ih =>
      obtain ⟨links, hlinks, hfold⟩ := ih hout
      exact ⟨_, .more ht hy hlinks, hfold⟩
  · rintro ⟨links, hlinks, rfl⟩
    induction hlinks generalizing x with
    | last hlast => exact .last hlast
    | more ht hy _ ih => exact .more ht hy ih

lemma accumulates_ok_iff : Accumulates operators operand s (.ok v) s' ↔
    ∃ first s₁ links, operand s = (.ok first, s₁) ∧ Links operators operand s₁ links s' ∧
      Associativity.foldLeft Record.binary first links = v := by
  constructor
  · rintro (_ | ⟨hx, hmore⟩)
    obtain ⟨links, hlinks, hfold⟩ := gathers_ok_iff.1 hmore
    exact ⟨_, _, links, hx, hlinks, hfold⟩
  · rintro ⟨first, s₁, links, hx, hlinks, hfold⟩
    exact .first hx (gathers_ok_iff.2 ⟨links, hlinks, hfold⟩)

lemma chains_ok_iff (side : Associativity) : Chains operators operand side s (.ok v) s' ↔
    ∃ first s₁ links, operand s = (.ok first, s₁) ∧ Links operators operand s₁ links s' ∧
      side.assemble Record.binary (links.map Prod.fst) (first :: links.map Prod.snd) = some v := by
  simp only [Associativity.assemble_eq, Option.some_inj]
  cases side with
  | right => exact nests_ok_iff
  | left => exact accumulates_ok_iff

end

/-- **A chain is its reference.** In every state, a chain of any operators and of operands of any
kind comes to what its reference comes to, and leaves the session where that one leaves it, also
when it fails. When it does not fail, its tree is what its operators and operands make up in the
order in which they are written, each operator between the operands that stand beside it. -/
theorem chain_reference (s : Session) (operators : List Pattern) (part : Part) (s' : Session) :
    (∀ out, s.ask (.chain operators part) = (out, s') ↔
      Chains operators (Session.operand part) s.side s out s') ∧
    ∀ v, s.ask (.chain operators part) = (.ok v, s') ↔
      ∃ first s₁ links, s.operand part = (.ok first, s₁) ∧
        Links operators (Session.operand part) s₁ links s' ∧
        s.side.assemble Record.binary (links.map Prod.fst) (first :: links.map Prod.snd) =
          some v := by
  refine ⟨fun out => Session.chains_iff operators part, fun v => ?_⟩
  rw [Session.chains_iff, chains_ok_iff]

/-! ### The levels of the operators -/

namespace Associativity

variable {α β : Type} {combine : Text → α → α → α} {combine' : Text → β → β → β} {f : α → β}

lemma map_fold (h : ∀ operator x y, f (combine operator x y) = combine' operator (f x) (f y))
    (side : Associativity) (first : α) (links : List (Text × α)) :
    f (side.fold combine first links) =
      side.fold combine' (f first) (links.map (Prod.map id f)) := by
  induction links generalizing first with
  | nil => cases side <;> rfl
  | cons link links ih =>
    obtain ⟨operator, next⟩ := link
    cases side with
    | right => exact (h operator first _).trans (congrArg _ (ih next))
    | left => exact (ih _).trans (congrArg (left.fold combine' · _) (h operator first next))

end Associativity

namespace Rule

variable {α β : Type} {combine : Text → α → α → α} {combine' : Text → β → β → β} {f : α → β}
  {operators : List Pattern} {operand : Rule α}

lemma map_links (f : α → β) (bound : List Token) :
    links operators (f <$> operand) bound =
      List.map (Prod.map id f) <$> links operators operand bound := by
  induction bound with
  | nil => rfl
  | cons _ bound ih =>
    simp only [links, map_bind, bind_map_left, ih]
    refine congrArg _ (funext fun found => ?_)
    cases found with
    | none => rfl
    | some t => simp only [map_bind, map_pure, List.map_cons, Prod.map_apply, id_eq]

lemma map_chain (h : ∀ operator x y, f (combine operator x y) = combine' operator (f x) (f y))
    (side : Associativity) :
    f <$> chain side combine operators operand =
      chain side combine' operators (f <$> operand) := by
  simp only [chain, map_bind, map_pure, bind_map_left, map_links, Associativity.map_fold h]

end Rule

def Level.construct : Level → Construct
  | logical => .logical
  | equality => .equality
  | additive => .additive
  | multiplicative => .multiplicative

/-- The construct that stands between the operators of a level. -/
def Level.operand : Level → Construct
  | logical => .equality
  | equality => .additive
  | additive => .multiplicative
  | multiplicative => .secondary

lemma Session.ask_level (s : Session) (level : Level) :
    s.ask (.construct level.construct) =
      s.ask (.chain (level.operators.map .operator) (.construct level.operand)) := by
  rw [ask_eq, ask_eq, Part.rule, Openers.construct_within, Part.rule, Part.rule,
    Openers.construct_within]
  have hid : ∀ c : Construct, Part.record (.construct c) <$> c.rule s.side s.levels =
      c.rule s.side s.levels := fun c => id_map _
  rw [hid]
  cases level <;> exact congrArg s.run (Rule.map_chain (fun _ _ _ => rfl) s.side)

/-- Each level of the operators is read as the reference says, with the next tighter level for its
operands. -/
theorem level_reference (s : Session) (level : Level) (out : Except Failure Record)
    (s' : Session) :
    s.ask (.construct level.construct) = (out, s') ↔
      Chains (level.operators.map .operator) (Session.operand (.construct level.operand)) s.side
        s out s' := by
  rw [Session.ask_level, Session.chains_iff]

end Pebble
