import Pebble.Proofs.Grammar.Constant

/-!
Symbols: what a token says, apart from how it is spelled and where it stands. A tree can be written
down as symbols; nothing but its constructors tells which, whatever side its chains fold to.
-/

namespace Pebble

namespace Numeral

def integer (text : Text) : Int :=
  let (negative, digits) := splitSign text
  signed negative (value digits)

/-- The decimal that a sign and digits around a point denote, with all its digits. -/
def decimal (text : Text) : Decimal :=
  let (negative, body) := splitSign text
  let whole := body.takeWhile (· ≠ '.')
  let fraction := (body.dropWhile (· ≠ '.')).tail
  .finite negative (value (whole ++ fraction)) (-fraction.length)

variable {negative : Bool} {digits whole fraction : Text}

lemma integer_digits (hne : digits ≠ []) (h : ∀ c ∈ digits, c.isDigit) :
    integer (Decimal.sign negative ++ digits) = signed negative (value digits) := by
  have hsplit := splitSign_sign negative hne h []
  rw [List.append_nil] at hsplit
  simp only [integer, hsplit]

lemma decimal_digits (hne : whole ≠ []) (h : ∀ c ∈ whole, c.isDigit) :
    decimal (Decimal.sign negative ++ (whole ++ '.' :: fraction)) =
      .finite negative (value (whole ++ fraction)) (-fraction.length) := by
  -- The point is no digit, so the whole part is what stands before the first point.
  have hpoint : ∀ c ∈ whole, decide (c ≠ '.') := by
    intro c hc
    have hd := h c hc
    have : c ≠ '.' := by
      rintro rfl
      exact absurd hd (by decide)
    simpa using this
  have htake : (whole ++ '.' :: fraction).takeWhile (· ≠ '.') = whole := by
    rw [List.takeWhile_append_of_pos hpoint, List.takeWhile_cons_of_neg (by decide),
      List.append_nil]
  have hdrop : (whole ++ '.' :: fraction).dropWhile (· ≠ '.') = '.' :: fraction := by
    rw [List.dropWhile_append_of_pos hpoint, List.dropWhile_cons_of_neg (by decide)]
  simp only [decimal, splitSign_sign negative hne h, htake, hdrop, List.tail_cons]

end Numeral

/-- What a token says: a keyword, a name, an operator, or the value of a literal. -/
inductive Symbol where
  | word (word : Keyword)
  | name (name : Text)
  | operator (literal : Text)
  | value (value : Value)
  deriving DecidableEq, Repr

namespace Symbol

def mark (c : Char) : Symbol := .operator [c]

/-- How a value is written: three of them are keywords. -/
def ofValue : Value → Symbol
  | .nil => .word .NIL
  | .bool true => .word .TRUE
  | .bool false => .word .FALSE
  | v => .value v

/-- Leaves out each `ELSE` that stands right before an `END`. -/
def dropElse : List Symbol → List Symbol
  | .word .ELSE :: .word .END :: symbols => .word .END :: dropElse symbols
  | symbol :: symbols => symbol :: dropElse symbols
  | [] => []

variable {s : Symbol} {symbols : List Symbol}

lemma dropElse_cons (h : s ≠ .word .ELSE) : dropElse (s :: symbols) = s :: dropElse symbols := by
  rw [dropElse]
  rintro _ rfl
  exact absurd rfl h

lemma dropElse_else (h : s ≠ .word .END) :
    dropElse (.word .ELSE :: s :: symbols) = .word .ELSE :: dropElse (s :: symbols) := by
  rw [dropElse]
  rintro _ - heq
  exact absurd (List.cons.inj heq).1 h

end Symbol

namespace Token

def symbol (t : Token) : Symbol :=
  match t.terminal with
  | .word w => .word w
  | .name => .name t.literal
  | .integer => .value (.integer (Numeral.integer t.literal))
  | .decimal => .value (.decimal (Numeral.decimal t.literal))
  | .character | .string => .value (.text (Escape.decode t.literal.tail.dropLast))
  | .operator literal => .operator literal

lemma Denotes.symbol_eq {t : Token} {v : Value} (h : t.Denotes v) : t.symbol = .ofValue v := by
  cases h with
  | nil h | true h | false h => simp [symbol, h, Symbol.ofValue]
  | integer hk hl hne hd _ =>
    simp [symbol, terminal_of_integer hk, hl, Numeral.integer_digits hne hd, Symbol.ofValue]
  | decimal hk hl hne _ hw _ _ =>
    simp [symbol, terminal_of_decimal hk, hl, Numeral.decimal_digits hne hw, Symbol.ofValue]
  | text hk => rcases hk with hk | hk <;> simp [symbol, terminal, hk, Symbol.ofValue]

end Token

/-- The symbols of tokens, without the `ELSE` of a conditional statement whose else part is
empty. -/
def normalise (ts : List Token) : List Symbol := Symbol.dropElse (ts.map Token.symbol)

section

variable {t : Token} {ts : List Token}

lemma normalise_cons (h : t.symbol ≠ .word .ELSE) :
    normalise (t :: ts) = t.symbol :: normalise ts :=
  Symbol.dropElse_cons h

lemma normalise_word {w : Keyword} (h : t.terminal = .word w) (hw : w ≠ .ELSE) :
    normalise (t :: ts) = .word w :: normalise ts := by
  have hsymbol : t.symbol = .word w := by rw [Token.symbol, h]
  rw [normalise_cons (by simpa [hsymbol] using hw), hsymbol]

lemma normalise_name (h : t.terminal = .name) :
    normalise (t :: ts) = .name t.literal :: normalise ts := by
  have hsymbol : t.symbol = .name t.literal := by rw [Token.symbol, h]
  rw [normalise_cons (by simp [hsymbol]), hsymbol]

lemma normalise_operator {literal : Text} (h : t.terminal = .operator literal) :
    normalise (t :: ts) = .operator literal :: normalise ts := by
  have hsymbol : t.symbol = .operator literal := by rw [Token.symbol, h]
  rw [normalise_cons (by simp [hsymbol]), hsymbol]

lemma normalise_mark {c : Char} (h : t.terminal = .mark c) :
    normalise (t :: ts) = .mark c :: normalise ts :=
  normalise_operator h

lemma normalise_constant {v : Value} (h : t.Denotes v) :
    normalise (t :: ts) = .ofValue v :: normalise ts := by
  have hsymbol := h.symbol_eq
  have hne : Symbol.ofValue v ≠ .word .ELSE := by
    rcases v with _ | b | _ | _ | _
    · simp [Symbol.ofValue]
    · cases b <;> simp [Symbol.ofValue]
    all_goals simp [Symbol.ofValue]
  rw [normalise_cons (hsymbol ▸ hne), hsymbol]

lemma normalise_else_end {e : Token} (ht : t.terminal = .word .ELSE)
    (he : e.terminal = .word .END) :
    normalise (t :: e :: ts) = normalise (e :: ts) := by
  have ht : t.symbol = .word .ELSE := by rw [Token.symbol, ht]
  have he : e.symbol = .word .END := by rw [Token.symbol, he]
  simp [normalise, ht, he, Symbol.dropElse]

lemma normalise_else {u : Token} (ht : t.terminal = .word .ELSE) (hu : u.terminal ≠ .word .END) :
    normalise (t :: u :: ts) = .word .ELSE :: normalise (u :: ts) := by
  have ht : t.symbol = .word .ELSE := by rw [Token.symbol, ht]
  have hu : u.symbol ≠ .word .END := by
    rw [Token.symbol]
    split <;> simp_all
  rw [normalise, List.map_cons, List.map_cons, ht, Symbol.dropElse_else hu]
  rfl

end

/-! ### The symbols of trees -/

def Symbol.commas (parts : List (List Symbol)) : List Symbol :=
  List.intercalate [.mark ','] parts

/-- The first of some parts, and the others, each after a comma. -/
lemma Symbol.commas_cons (part : List Symbol) (parts : List (List Symbol)) :
    commas (part :: parts) = part ++ (parts.map (.mark ',' :: ·)).flatten := by
  induction parts generalizing part with
  | nil => simp [commas]
  | cons next parts ih =>
    have hnext : commas (part :: next :: parts) = part ++ .mark ',' :: commas (next :: parts) := by
      simp [commas]
    rw [hnext, ih, List.map_cons, List.flatten_cons, List.cons_append]

def Symbol.after (c : Char) {α : Type} (symbols : α → List Symbol) : Option α → List Symbol
  | none => []
  | some x => .mark c :: symbols x

mutual

def Expr.symbols : Expr → List Symbol
  | .literal v => [.ofValue v]
  | .group inner => .mark '(' :: (inner.symbols ++ [.mark ')'])
  | .variable name => [.name name]
  | .member receiver name => receiver.symbols ++ [.mark '.', .name name]
  | .call name arguments =>
    .name name :: .mark '(' :: (Symbol.commas (Expr.symbolsOf arguments) ++ [.mark ')'])
  | .invoke receiver name arguments =>
    receiver.symbols ++ .mark '.' :: .name name :: .mark '(' ::
      (Symbol.commas (Expr.symbolsOf arguments) ++ [.mark ')'])
  | .binary operator left right => left.symbols ++ .operator operator :: right.symbols

def Expr.symbolsOf : List Expr → List (List Symbol)
  | [] => []
  | e :: es => e.symbols :: Expr.symbolsOf es

end

lemma Expr.symbolsOf_eq_map (es : List Expr) : Expr.symbolsOf es = es.map Expr.symbols := by
  induction es with
  | nil => simp [Expr.symbolsOf]
  | cons e es ih => simp [Expr.symbolsOf, ih]

mutual

/-- The symbols of a statement. Nothing is written for an else part without statements. -/
def Stmt.symbols : Stmt → List Symbol
  | .expression v => v.symbols ++ [.mark ';']
  | .assignment receiver v => receiver.symbols ++ .mark '=' :: (v.symbols ++ [.mark ';'])
  | .declaration name v =>
    .word .LET :: .name name :: (Symbol.after '=' Expr.symbols v ++ [.mark ';'])
  | .ifElse condition thenBody elseBody =>
    .word .IF :: (condition.symbols ++ .word .DO :: (Stmt.bodySymbols thenBody ++
      ((if elseBody.isEmpty then [] else .word .ELSE :: Stmt.bodySymbols elseBody) ++
        [.word .END])))
  | .forIn name v body =>
    .word .FOR :: .name name :: .word .IN :: (v.symbols ++ .word .DO ::
      (Stmt.bodySymbols body ++ [.word .END]))
  | .whileDo condition body =>
    .word .WHILE :: (condition.symbols ++ .word .DO :: (Stmt.bodySymbols body ++ [.word .END]))
  | .return v => .word .RETURN :: (v.symbols ++ [.mark ';'])

def Stmt.bodySymbols : List Stmt → List Symbol
  | [] => []
  | s :: body => s.symbols ++ Stmt.bodySymbols body

end

lemma Stmt.bodySymbols_eq_flatten (body : List Stmt) :
    Stmt.bodySymbols body = (body.map Stmt.symbols).flatten := by
  induction body with
  | nil => simp [Stmt.bodySymbols]
  | cons s body ih => simp [Stmt.bodySymbols, ih]

def Field.symbols (f : Field) : List Symbol :=
  .word .LET :: .name f.name :: (Symbol.after ':' (fun name => [.name name]) f.typeName ++
    (Symbol.after '=' Expr.symbols f.value ++ [.mark ';']))

def Method.symbols (m : Method) : List Symbol :=
  .word .DEF :: .name m.name :: .mark '(' ::
    (Symbol.commas (m.parameters.map fun name => [.name name]) ++ .mark ')' :: .word .DO ::
      (Stmt.bodySymbols m.body ++ [.word .END]))

def Item.symbols : Item → List Symbol
  | .field f => f.symbols
  | .method m => m.symbols

end Pebble
