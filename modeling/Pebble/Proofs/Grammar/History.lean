import Pebble.Proofs.Grammar.Counter

/-!
Histories: sessions of which one thing after the other is asked, whatever the answers are. All that
a history leaves behind is how far it has come and how many levels it has opened directly.
-/

namespace Pebble

/-! ### What is asked of a session -/

namespace Openers

def construct (side : Associativity) (o : Openers) : Construct → Rule Record
  | .source => Source.record <$> o.source
  | .field => Field.record <$> Rule.field o.expression
  | .method => Method.record <$> Rule.method o.block
  | .statement => Stmt.record <$> o.statement
  | .declaration => Stmt.record <$> Rule.declaration o.expression
  | .ifElse => Stmt.record <$> Rule.ifElse o.expression o.block
  | .forIn => Stmt.record <$> Rule.forIn o.expression o.block
  | .whileDo => Stmt.record <$> Rule.whileDo o.expression o.block
  | .returning => Stmt.record <$> Rule.returning o.expression
  | .expression => Expr.record <$> o.expression
  | .logical => Expr.record <$> Rule.logical side o.expression
  | .equality => Expr.record <$> Rule.equality side o.expression
  | .additive => Expr.record <$> Rule.additive side o.expression
  | .multiplicative => Expr.record <$> Rule.multiplicative side o.expression
  | .secondary => Expr.record <$> Rule.secondary o.expression
  | .primary => Expr.record <$> Rule.primary o.expression
  | .arguments => (fun es => .list (Expr.records es)) <$> Rule.arguments o.expression

lemma construct_within (side : Associativity) (levels : Nat) (c : Construct) :
    (within side levels).construct side c = c.rule side levels := by
  cases c with
  | statement => exact congrArg (Stmt.record <$> ·) (statement_within levels)
  | _ => rfl

lemma planned_construct (side : Associativity) (c : Construct) :
    Planned fun o => o.construct side c := by
  -- The levels of the operators are chains, each with the next one as its operand.
  have hsecondary : Planned fun o => Rule.secondary o.expression := .of_walks Rule.walks_secondary
  have hmultiplicative : Planned fun o => Rule.multiplicative side o.expression :=
    hsecondary.chain side _
  have hadditive : Planned fun o => Rule.additive side o.expression :=
    hmultiplicative.chain side _
  have hequality : Planned fun o => Rule.equality side o.expression := hadditive.chain side _
  cases c with
  | source => exact (Planned.of_walks walks_source).map _
  | field => exact (Planned.of_walks Rule.walks_field).map _
  | method => exact (Planned.of_walks Rule.walks_method).map _
  | statement => exact (Planned.of_walks walks_statement).map _
  | declaration => exact (Planned.of_walks Rule.walks_declaration).map _
  | ifElse => exact (Planned.of_walks Rule.walks_ifElse).map _
  | forIn => exact (Planned.of_walks Rule.walks_forIn).map _
  | whileDo => exact (Planned.of_walks Rule.walks_whileDo).map _
  | returning => exact (Planned.of_walks Rule.walks_returning).map _
  | expression => exact (Planned.of_walks walks_expression).map _
  | logical => exact (hequality.chain side _).map _
  | equality => exact hequality.map _
  | additive => exact hadditive.map _
  | multiplicative => exact hmultiplicative.map _
  | secondary => exact hsecondary.map _
  | primary => exact (Planned.of_walks Rule.walks_primary).map _
  | arguments => exact (Planned.of_walks Rule.walks_arguments).map _

end Openers

/-- What can be asked of a session that opens no level for good: a construct, a block, a chain of
operands, or one of the steps that rules are made of. -/
inductive Part where
  | construct (construct : Construct)
  | block (terminators : List Pattern)
  | chain (operators : List Pattern) (operand : Part)
  | check (patterns : List Pattern)
  | accept (patterns : List Pattern)
  | demand (pattern : Pattern) (kind : ComplaintKind)
  | name
  | semicolon
  deriving DecidableEq, Repr

namespace Part

abbrev Value : Part → Type
  | construct _ | block _ | chain _ _ => Record
  | check _ => Bool
  | accept _ => Option Token
  | demand _ _ => Token
  | name => Text
  | semicolon => Unit

def record : (part : Part) → part.Value → Record
  | construct _ | block _ | chain _ _ => id
  | check _ => .bool
  | name => .text
  | accept _ | demand _ _ | semicolon => fun _ => .nil

def rule (side : Associativity) (o : Openers) : (part : Part) → Rule part.Value
  | construct c => o.construct side c
  | block terminators => (fun body => .list (Stmt.records body)) <$> o.block terminators
  | chain operators operand =>
    Rule.chain side Record.binary operators (operand.record <$> operand.rule side o)
  | check patterns => Rule.check patterns
  | accept patterns => Rule.accept? patterns
  | demand pattern kind => Rule.demand pattern kind
  | name => Rule.name
  | semicolon => Rule.semicolon

lemma planned (side : Associativity) (part : Part) : Planned fun o => part.rule side o := by
  induction part with
  | construct c => exact Openers.planned_construct side c
  | block terminators => exact (Planned.opener (.block terminators)).map _
  | chain operators operand ih => exact (ih.map operand.record).chain side Record.binary
  | _ => exact .plain _

instance (side : Associativity) (levels : Nat) (part : Part) :
    Rule.Orderly (part.rule side (Openers.within side levels)) := by
  induction part with
  | construct c =>
    rw [rule, Openers.construct_within]
    infer_instance
  | block terminators =>
    exact inferInstanceAs (Rule.Orderly (_ <$> Rule.block side levels terminators))
  | chain operators operand ih => exact inferInstanceAs (Rule.Orderly (Rule.chain _ _ _ (_ <$> _)))
  | check patterns => exact inferInstanceAs (Rule.Orderly (Rule.check patterns))
  | accept patterns => exact inferInstanceAs (Rule.Orderly (Rule.accept? patterns))
  | demand pattern kind => exact inferInstanceAs (Rule.Orderly (Rule.demand pattern kind))
  | name => exact inferInstanceAs (Rule.Orderly Rule.name)
  | semicolon => exact inferInstanceAs (Rule.Orderly Rule.semicolon)

/-- A run of a part with a counter of open levels. -/
def Counts (side : Associativity) (part : Part) (ts : List Token) (depth : Nat) (log : List Nat)
    (out : EStateM.Result Stop (List Token) part.Value) (after : Nat) : Prop :=
  ∃ p : Plan part.Value, (∀ o, part.rule side o ts = p.run o) ∧ p.Counts side depth log out after

/-- A part leaves the counter as it was and never sets it higher than it may be, and it comes to the
same with the counter as without it. -/
lemma Counts.spec {side : Associativity} {part : Part} {ts : List Token} {depth after : Nat}
    {log : List Nat} {out : EStateM.Result Stop (List Token) part.Value}
    (h : part.Counts side ts depth log out after) (hdepth : depth ≤ maxNesting) :
    after = depth ∧ (∀ n ∈ log, n ≤ maxNesting) ∧
      part.rule side (Openers.within side (maxNesting - depth)) ts = out := by
  obtain ⟨p, hp, hcounts⟩ := h
  rw [hp]
  exact hcounts.spec hdepth

lemma exists_counts (side : Associativity) (part : Part) (ts : List Token) {depth : Nat}
    (hdepth : depth ≤ maxNesting) : ∃ log out after, part.Counts side ts depth log out after := by
  obtain ⟨p, hp⟩ := part.planned side ts
  obtain ⟨log, hlog⟩ := p.exists_counts side hdepth
  exact ⟨log, _, depth, p, hp, hlog⟩

end Part

/-- What can be asked of a session: a part, or to open a level and leave it open. -/
inductive Call where
  | ask (part : Part)
  | enter
  deriving DecidableEq, Repr

namespace Session

def ask (s : Session) : (part : Part) → Except Failure part.Value × Session
  | .construct c => s.read c
  | .block terminators => s.readBlock terminators
  | .chain operators operand =>
    s.readChain operators (operand.record <$> operand.rule s.side (Openers.within s.side s.levels))
  | .check patterns => s.run (Rule.check patterns)
  | .accept patterns => s.run (Rule.accept? patterns)
  | .demand pattern kind => s.run (Rule.demand pattern kind)
  | .name => s.run Rule.name
  | .semicolon => s.run Rule.semicolon

lemma ask_eq (s : Session) (part : Part) :
    s.ask part = s.run (part.rule s.side (Openers.within s.side s.levels)) := by
  cases part with
  | construct c => rw [ask, read, Part.rule, Openers.construct_within]
  | _ => rfl

/-- What comes of a call, and the session after it. -/
def perform (s : Session) : Call → Except Failure Unit × Session
  | .ask part => ((s.ask part).1.map fun _ => (), (s.ask part).2)
  | .enter => s.enter

def play : Session → List Call → Session
  | s, [] => s
  | s, call :: calls => (s.perform call).2.play calls

/-- How many of some calls open a level and leave it open: those that ask for it and do not fail. -/
def entered : Session → List Call → Nat
  | _, [] => 0
  | s, .ask part :: calls => (s.perform (.ask part)).2.entered calls
  | s, .enter :: calls =>
    match s.perform .enter with
    | (.ok _, s') => s'.entered calls + 1
    | (.error _, s') => s'.entered calls

/-- A session on some tokens that has so many levels open, no more than may be, and that is at one
of its tokens or behind the last one. -/
def Sound (side : Associativity) (tokens : List Token) (depth : Nat) (s : Session) : Prop :=
  depth ≤ maxNesting ∧ ∃ place : Nat, place ≤ tokens.length ∧ s = ⟨⟨tokens, place⟩, side, depth⟩

variable {side : Associativity} {tokens : List Token} {depth : Nat} {s s' : Session}

lemma sound_start (side : Associativity) (tokens : List Token) :
    (start side tokens).Sound side tokens 0 :=
  ⟨Nat.zero_le _, 0, Nat.zero_le _, rfl⟩

/-! ### One call -/

/-- A part that is asked of a session moves it forward, and does nothing else to it. -/
lemma Sound.ask (h : s.Sound side tokens depth) (part : Part) :
    (s.ask part).2.Sound side tokens depth ∧
      s.cursor.position ≤ (s.ask part).2.cursor.position := by
  obtain ⟨hdepth, place, hplace, rfl⟩ := h
  obtain ⟨later, hle, hlater, hmoves⟩ := run_moves side depth hplace
    (part.rule side (Openers.within side (maxNesting - depth)))
  have hask : (Session.ask ⟨⟨tokens, place⟩, side, depth⟩ part).2 =
      ⟨⟨tokens, later⟩, side, depth⟩ := by
    rw [ask_eq]
    exact hmoves
  rw [hask]
  exact ⟨⟨hdepth, later, hlater, rfl⟩, Int.ofNat_le.mpr hle⟩

/-- To open a level adds one to those that are open or, if as many are open as may be, fails and
does nothing. -/
lemma Sound.enter (h : s.Sound side tokens depth) :
    (depth < maxNesting ∧ ∃ s', s.enter = (.ok (), s') ∧ s'.Sound side tokens (depth + 1) ∧
        s.cursor.position ≤ s'.cursor.position) ∨
      depth = maxNesting ∧ ∃ failure, s.enter = (.error failure, s) := by
  obtain ⟨hdepth, place, hplace, rfl⟩ := h
  rcases hdepth.lt_or_eq with hlt | rfl
  · have hopen : levels ⟨⟨tokens, place⟩, side, depth⟩ ≠ 0 := Nat.sub_ne_zero_of_lt hlt
    exact .inl ⟨hlt, _, if_neg hopen, ⟨hlt, place, hplace, rfl⟩, le_rfl⟩
  · have hfull : levels ⟨⟨tokens, place⟩, side, maxNesting⟩ = 0 := Nat.sub_self _
    exact .inr ⟨rfl, _, if_pos hfull⟩

lemma Sound.enter_ok_iff (h : s.Sound side tokens depth) :
    (s.perform .enter).1 = .ok () ↔ depth < maxNesting := by
  rcases h.enter with ⟨hlt, s', hopen, -, -⟩ | ⟨rfl, failure, hrefused⟩
  · simp only [perform, hopen, hlt]
  · simp only [perform, hrefused, reduceCtorEq, lt_irrefl]

lemma Sound.perform_error (h : s.Sound side tokens depth) {call : Call} {failure : Failure}
    (hcall : s.perform call = (.error failure, s')) : s'.Sound side tokens depth := by
  cases call with
  | ask part =>
    obtain rfl : (s.ask part).2 = s' := congrArg Prod.snd hcall
    exact (h.ask part).1
  | enter =>
    rcases h.enter with ⟨-, s'', hopen, -, -⟩ | ⟨-, failure', hrefused⟩
    · cases hopen.symm.trans hcall
    · cases hrefused.symm.trans hcall
      exact h

/-! ### Any number of calls -/

/-- After some calls, as many levels are open as before, and those that the calls have opened
directly. -/
lemma Sound.play (h : s.Sound side tokens depth) (calls : List Call) :
    (s.play calls).Sound side tokens (depth + s.entered calls) ∧
      s.cursor.position ≤ (s.play calls).cursor.position := by
  -- The levels that are open are the invariant, and only `enter` changes them.
  induction calls generalizing s depth with
  | nil => exact ⟨h, le_rfl⟩
  | cons call calls ih =>
    cases call with
    | ask part =>
      obtain ⟨hask, hforward⟩ := h.ask part
      obtain ⟨hplay, hlater⟩ := ih hask
      exact ⟨hplay, hforward.trans hlater⟩
    | enter =>
      rcases h.enter with ⟨-, s', hopen, hs', hforward⟩ | ⟨-, failure, hrefused⟩
      · obtain ⟨hplay, hlater⟩ := ih hs'
        have hentered : s.entered (.enter :: calls) = 1 + s'.entered calls := by
          simp only [entered, perform, hopen, Nat.add_comm]
        rw [hentered, ← Nat.add_assoc, Session.play, perform, hopen]
        exact ⟨hplay, hforward.trans hlater⟩
      · have hentered : s.entered (.enter :: calls) = s.entered calls := by
          simp only [entered, perform, hrefused]
        rw [hentered, Session.play, perform, hrefused]
        exact ih h

/-- What holds of a session on some tokens when calls have opened so many levels directly: these are
all that are open, and the session is among its tokens; no calls move it back; another level can be
opened just if fewer are open than may be; a part, run with a counter of open levels, never sets it
higher than it may be, leaves it as it was, and comes to what it comes to without; and a call that
fails moves the session, if anything, so that all levels may be opened again but those that were
opened directly. -/
structure Consistent (side : Associativity) (tokens : List Token) (opened : Nat) (s : Session) :
    Prop where
  sound : s.Sound side tokens opened
  forward : ∀ calls, s.cursor.position ≤ (s.play calls).cursor.position
  opens : (s.perform .enter).1 = .ok () ↔ opened < maxNesting
  counted : ∀ part : Part, ∃ log out after, part.Counts side s.cursor.view s.depth log out after
  counter : ∀ (part : Part) log out after,
    part.Counts side s.cursor.view s.depth log out after →
      after = s.depth ∧ (∀ n ∈ log, n ≤ maxNesting) ∧ s.ask part = s.run fun _ => out
  failed : ∀ call failure s', s.perform call = (.error failure, s') →
    s'.levels + opened = maxNesting ∧
      ∃ place : Nat, place ≤ tokens.length ∧ s' = { s with cursor := ⟨tokens, place⟩ }

lemma Sound.consistent (h : s.Sound side tokens depth) : s.Consistent side tokens depth := by
  have hsound := h
  obtain ⟨hdepth, place, hplace, rfl⟩ := h
  refine ⟨hsound, fun calls => (hsound.play calls).2, hsound.enter_ok_iff, fun part => ?_,
    fun part log out after hcounts => ?_, fun call failure s' hcall => ?_⟩
  · exact part.exists_counts side _ hdepth
  · obtain ⟨hafter, hlog, hout⟩ := hcounts.spec hdepth
    refine ⟨hafter, hlog, ?_⟩
    rw [ask_eq]
    simp only [run, levels, hout]
  · obtain ⟨-, later, hlater, rfl⟩ := hsound.perform_error hcall
    exact ⟨Nat.sub_add_cancel hdepth, later, hlater, rfl⟩

end Session

/-- **Depth and place stay consistent over any history.** Whatever is asked of a session, and
whether it fails or not, as many levels are open as were opened directly, and not more than may be,
also inside what is asked; the session moves forward among its tokens; and after a failure all
levels may be opened again but those that were opened directly. -/
theorem history_consistent (side : Associativity) (tokens : List Token) (calls : List Call) :
    ((Session.start side tokens).play calls).Consistent side tokens
      ((Session.start side tokens).entered calls) := by
  have hplay := ((Session.sound_start side tokens).play calls).1
  rw [Nat.zero_add] at hplay
  exact hplay.consistent

end Pebble
