import Pebble.Grammar.Session
import Pebble.Proofs.Grammar.Terminal

/-!
Rules step by step: what the first step of a rule does to the tokens, in terms of the terminal of
the next one.
-/

namespace Pebble

/-- The patterns fit the tokens of some terminals and no others. -/
def Pattern.Fit (patterns : List Pattern) (cs : List Terminal) : Prop :=
  ∀ token : Token, patterns.any (·.accepts token) ↔ token.terminal ∈ cs

namespace Pattern

lemma fit_mark (c : Char) : Fit [mark c] [.mark c] := by
  intro t
  simp [accepts_mark]

lemma fit_keyword (w : Keyword) : Fit [keyword w] [.word w] := by
  intro t
  simp [accepts_keyword]

lemma fit_keywords (v w : Keyword) : Fit [keyword v, keyword w] [.word v, .word w] := by
  intro t
  simp [accepts_keyword]

lemma fit_operators (literals : List Text) :
    Fit (literals.map operator) (literals.map Terminal.operator) := by
  intro t
  simp only [List.any_map, List.any_eq_true, Function.comp_apply, accepts_operator, List.mem_map]
  exact ⟨fun ⟨l, hl, h⟩ => ⟨l, hl, h.symm⟩, fun ⟨l, hl, h⟩ => ⟨l, hl, h.symm⟩⟩

end Pattern

/-- The next token, if there is one, has none of some terminals. -/
def Clear (cs : List Terminal) (ts : List Token) : Prop := ∀ t ∈ ts.head?, t.terminal ∉ cs

lemma clear_nil (cs : List Terminal) : Clear cs [] := by simp [Clear]

@[simp] lemma clear_cons {cs : List Terminal} {t : Token} {ts : List Token} :
    Clear cs (t :: ts) ↔ t.terminal ∉ cs := by
  simp [Clear]

lemma Clear.mono {cs ds : List Terminal} {ts : List Token} (h : Clear ds ts) (hsub : cs ⊆ ds) :
    Clear cs ts :=
  fun t ht hc => h t ht (hsub hc)

namespace Rule

variable {α β : Type} {ts rest : List Token} {t : Token}

lemma bind_apply (r : Rule α) (f : α → Rule β) (ts : List Token) :
    (r >>= f) ts =
      match r ts with
      | .ok v rest => f v rest
      | .error stop rest => .error stop rest := by
  simp only [bind, EStateM.bind]
  cases r ts <;> rfl

lemma bind_ok {r : Rule α} {f : α → Rule β} {v : α} (h : r ts = .ok v rest) :
    (r >>= f) ts = f v rest := by
  simp only [bind_apply, h]

lemma bind_error {r : Rule α} {f : α → Rule β} {stop : Stop} (h : r ts = .error stop rest) :
    (r >>= f) ts = .error stop rest := by
  simp only [bind_apply, h]

lemma map_apply (f : α → β) (r : Rule α) (ts : List Token) :
    (f <$> r) ts =
      match r ts with
      | .ok v rest => .ok (f v) rest
      | .error stop rest => .error stop rest := by
  simp only [Functor.map, EStateM.map]
  cases r ts <;> rfl

lemma discard_bind (r : Rule α) (f : Unit → Rule β) :
    (discard r >>= f) = r >>= fun _ => f () := by
  funext ts
  unfold discard
  simp only [bind_apply, Functor.mapConst, EStateM.map, Function.comp]
  cases r ts <;> rfl

lemma pure_apply (v : α) (ts : List Token) : (pure v : Rule α) ts = .ok v ts := rfl

lemma refuse_apply (cause : Complaint) (ts : List Token) :
    (refuse cause : Rule α) ts = .error (.complaint cause) ts := rfl

lemma get_bind (f : List Token → Rule β) (ts : List Token) : (get >>= f) ts = f ts ts := rfl

lemma set_bind (f : Unit → Rule β) (ts rest : List Token) : (set rest >>= f) ts = f () rest := rfl

/-! ### The steps -/

lemma accept?_cons (patterns : List Pattern) (t : Token) (rest : List Token) :
    accept? patterns (t :: rest) =
      if patterns.any (·.accepts t) then .ok (some t) rest else .ok none (t :: rest) := by
  simp only [accept?, get_bind]
  split <;> rfl

lemma accept?_of_mem {patterns : List Pattern} {cs : List Terminal} (fit : Pattern.Fit patterns cs)
    (h : t.terminal ∈ cs) : accept? patterns (t :: rest) = .ok (some t) rest := by
  rw [accept?_cons, if_pos ((fit t).2 h)]

lemma accept?_of_clear {patterns : List Pattern} {cs : List Terminal}
    (fit : Pattern.Fit patterns cs) (h : Clear cs ts) : accept? patterns ts = .ok none ts := by
  rcases ts with _ | ⟨t, ts⟩
  · rfl
  · rw [accept?_cons, if_neg fun hp => clear_cons.1 h ((fit t).1 hp)]

lemma name_of_eq (h : t.terminal = .name) : name (t :: rest) = .ok t.literal rest := by
  simp only [name, get_bind, Token.isName_iff.2 h, if_true, set_bind, pure_apply]

lemma name_of_clear (h : Clear [.name] ts) :
    name ts = .error (.complaint .expectedIdentifier) ts := by
  rcases ts with _ | ⟨t, ts⟩
  · rfl
  have hn : ¬ t.isName := fun hn => clear_cons.1 h (by simpa using Token.isName_iff.1 hn)
  simp only [name, get_bind, hn, Bool.false_eq_true, if_false, refuse_apply]

lemma accepts_bind (pattern : Pattern) (f : Bool → Rule β) :
    (accepts pattern >>= f) = accept? [pattern] >>= fun found => f found.isSome := by
  simp only [accepts, bind_assoc, pure_bind]

section

variable {pattern : Pattern} {c : Terminal} {x y : Rule α}

lemma branch_of_eq (fit : Pattern.Fit [pattern] [c]) (h : t.terminal = c) :
    (accepts pattern >>= fun found => if found = true then x else y) (t :: rest) = x rest := by
  rw [accepts_bind, bind_ok (accept?_of_mem fit (by simpa using h))]
  rfl

lemma branch_of_clear (fit : Pattern.Fit [pattern] [c]) (h : Clear [c] ts) :
    (accepts pattern >>= fun found => if found = true then x else y) ts = y ts := by
  rw [accepts_bind, bind_ok (accept?_of_clear fit h)]
  rfl

lemma branch_word {w w' : Keyword} (h : t.terminal = .word w) :
    (accepts (.keyword w') >>= fun found => if found = true then x else y) (t :: rest) =
      if w = w' then x rest else y (t :: rest) := by
  by_cases heq : w = w'
  · rw [if_pos heq]
    exact branch_of_eq (Pattern.fit_keyword w') (heq ▸ h)
  · rw [if_neg heq]
    exact branch_of_clear (Pattern.fit_keyword w') (by simp [h, heq])

end

lemma demand_bind (pattern : Pattern) (kind : ComplaintKind) (f : Token → Rule β) :
    (demand pattern kind >>= f) = accept? [pattern] >>= fun
      | some token => f token
      | none => refuse (.missing pattern kind) := by
  simp only [demand, bind_assoc]
  congr 1
  funext found
  cases found <;> rfl

lemma demand_of_eq {pattern : Pattern} {kind : ComplaintKind} {c : Terminal} {f : Token → Rule β}
    (fit : Pattern.Fit [pattern] [c]) (h : t.terminal = c) :
    (demand pattern kind >>= f) (t :: rest) = f t rest := by
  rw [demand_bind, bind_ok (accept?_of_mem fit (by simpa using h))]

lemma demandWord_bind (word : Keyword) (f : Unit → Rule β) :
    (demandWord word >>= f) = accept? [.keyword word] >>= fun
      | some _ => f ()
      | none => refuse (.missing (.keyword word) .missingKeyword) := by
  rw [demandWord, discard_bind, demand_bind]

lemma demandWord_of_eq {word : Keyword} {f : Unit → Rule β} (h : t.terminal = .word word) :
    (demandWord word >>= f) (t :: rest) = f () rest := by
  rw [demandWord_bind, bind_ok (accept?_of_mem (Pattern.fit_keyword word) (by simpa using h))]

lemma closing_of_eq {f : Unit → Rule β} (h : t.terminal = .word .END) :
    (closing >>= f) (t :: rest) = f () rest :=
  demandWord_of_eq h

lemma semicolon_bind (f : Unit → Rule β) :
    (semicolon >>= f) = accept? [.mark ';'] >>= fun
      | some _ => f ()
      | none => refuse .missingSemicolon := by
  rw [semicolon, bind_assoc, accepts_bind]
  congr 1
  funext found
  cases found <;> rfl

lemma semicolon_of_eq {f : Unit → Rule β} (h : t.terminal = .mark ';') :
    (semicolon >>= f) (t :: rest) = f () rest := by
  rw [semicolon_bind, bind_ok (accept?_of_mem (Pattern.fit_mark ';') (by simpa using h))]

lemma after?_bind (c : Char) (r : Rule α) (f : Option α → Rule β) :
    (after? c r >>= f) = accept? [.mark c] >>= fun
      | some _ => r >>= fun v => f (some v)
      | none => f none := by
  rw [after?, bind_assoc, accepts_bind]
  congr 1
  funext found
  cases found <;> simp

/-- What comes after the first block of a conditional: perhaps another block, and the end. -/
def elsePart (body : List Pattern → Rule (List Stmt)) (f : List Stmt → α) : Rule α := do
  if ← accepts (.keyword .ELSE) then
    let other ← body [.keyword .END]
    closing
    return f other
  else
    closing
    return f []

lemma ifElse_eq (inner : Rule Expr) (body : List Pattern → Rule (List Stmt)) :
    ifElse inner body =
      inner >>= fun condition => demandWord .DO >>= fun _ =>
        body [.keyword .ELSE, .keyword .END] >>= fun thenBody =>
          elsePart body (.ifElse condition thenBody) := by
  simp only [ifElse, elsePart, pure_bind]

section

variable {body : List Pattern → Rule (List Stmt)} {f : List Stmt → α}

lemma elsePart_of_else (h : t.terminal = .word .ELSE) :
    elsePart body f (t :: rest) =
      (body [.keyword .END] >>= fun other => closing >>= fun _ => pure (f other)) rest := by
  rw [elsePart, branch_of_eq (Pattern.fit_keyword .ELSE) h]

lemma elsePart_of_end (h : t.terminal = .word .END) :
    elsePart body f (t :: rest) = .ok (f []) rest := by
  rw [elsePart, branch_of_clear (Pattern.fit_keyword .ELSE) (by simp [h]), closing_of_eq h,
    pure_apply]

end

section

variable {inner : Rule Expr} {body : List Pattern → Rule (List Stmt)}

lemma item_of_let (h : t.terminal = .word .LET) :
    item inner body (t :: rest) = (field inner >>= fun f => pure (.field f)) rest := by
  rw [item, branch_word h, if_pos rfl]

lemma item_of_def (h : t.terminal = .word .DEF) :
    item inner body (t :: rest) = (method body >>= fun m => pure (.method m)) rest := by
  rw [item, branch_word h, if_neg (by decide), branch_word h, if_pos rfl]

lemma item_of_ne (h : t.terminal ∉ [Terminal.word .LET, .word .DEF]) :
    item inner body (t :: rest) =
      .error (.complaint (.unexpectedToken t.literal)) (t :: rest) := by
  have hne : t.terminal ≠ .word .LET ∧ t.terminal ≠ .word .DEF := by simpa using h
  rw [item, branch_of_clear (Pattern.fit_keyword .LET) (by simpa using hne.1),
    branch_of_clear (Pattern.fit_keyword .DEF) (by simpa using hne.2)]
  rfl

end

lemma statements_cons (terminators : List Pattern) (statement : Rule Stmt) (b : Token)
    (bound ts : List Token) :
    statements terminators statement (b :: bound) ts =
      if ts.head?.any fun token => terminators.any (·.accepts token) then .ok [] ts
      else if ts.isEmpty then .error (.complaint (.unclosedBlock terminators)) ts
      else (statement >>= fun first =>
        statements terminators statement bound >>= fun others => pure (first :: others)) ts := by
  rw [statements, bind_apply]
  simp only [check, get_bind, pure_apply]
  split
  · rfl
  · rw [get_bind]
    split <;> rfl

lemma items_cons (item : Rule Item) (b : Token) (bound ts : List Token) :
    items item (b :: bound) ts =
      if ts.isEmpty then .ok [] ts
      else (item >>= fun first =>
        items item bound >>= fun others => pure (first :: others)) ts := by
  rw [items, get_bind]
  split <;> rfl

end Rule

end Pebble
