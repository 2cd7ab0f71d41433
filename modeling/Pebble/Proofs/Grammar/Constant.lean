import Pebble.Proofs.Grammar.Run
import Pebble.Proofs.Number.Reading

/-!
Constants: what a token that stands for a value denotes, and how a rule reads it.
-/

namespace Pebble

namespace Token

/-- What a token of a constant stands for. An integer is a sign and not too many digits, a decimal
has digits on both sides of its point; texts stand between two quotes. -/
inductive Denotes : Token → Value → Prop
  | nil {t : Token} : t.terminal = .word .NIL → Denotes t .nil
  | true {t : Token} : t.terminal = .word .TRUE → Denotes t (.bool true)
  | false {t : Token} : t.terminal = .word .FALSE → Denotes t (.bool false)
  | integer {t : Token} {negative : Bool} {digits : Text} :
      t.kind = .integer → t.literal = Decimal.sign negative ++ digits → digits ≠ [] →
      (∀ c ∈ digits, c.isDigit) → digits.length ≤ Numeral.maxDigits →
      Denotes t (.integer (Numeral.signed negative (Numeral.value digits)))
  | decimal {t : Token} {negative : Bool} {whole fraction : Text} :
      t.kind = .decimal → t.literal = Decimal.sign negative ++ (whole ++ '.' :: fraction) →
      whole ≠ [] → fraction ≠ [] → (∀ c ∈ whole, c.isDigit) → (∀ c ∈ fraction, c.isDigit) →
      (Decimal.finite negative (Numeral.value (whole ++ fraction)) (-fraction.length)).inRange →
      Denotes t
        (.decimal (.finite negative (Numeral.value (whole ++ fraction)) (-fraction.length)))
  | text {t : Token} :
      t.kind = .character ∨ t.kind = .string →
      Denotes t (.text (Escape.decode t.literal.tail.dropLast))

/-- How a token of a constant is read: as a value, or as a numeral with a fault. -/
def reading? (t : Token) : Option (Except Numeral.Fault Value) :=
  match t.terminal with
  | .word w => w.constant?.map .ok
  | .integer => some ((Numeral.readInteger t.literal).map .integer)
  | .decimal => some ((Decimal.read t.literal).map .decimal)
  | .character | .string => some (.ok (.text (Escape.decode t.literal.tail.dropLast)))
  | .name | .operator _ => none

variable {t : Token} {v : Value}

lemma terminal_of_integer (h : t.kind = .integer) : t.terminal = .integer := by
  simp [terminal, h]

lemma terminal_of_decimal (h : t.kind = .decimal) : t.terminal = .decimal := by
  simp [terminal, h]

lemma Denotes.reading?_eq (h : Denotes t v) : t.reading? = some (.ok v) := by
  cases h with
  | nil h | true h | false h => simp [reading?, h, Keyword.constant?]
  | integer hk hl hne hd hlen =>
    simp only [reading?, terminal_of_integer hk, hl, Numeral.readInteger_plain hne hd hlen]
    rfl
  | decimal hk hl hne hne' hw hf hr =>
    simp only [reading?, terminal_of_decimal hk, hl, Decimal.read_plain hne hw hf, if_pos hr]
    rfl
  | text hk => rcases hk with hk | hk <;> simp [reading?, terminal, hk]

/-- A token whose numeral, if it is one, is well formed: an integer is a sign and digits, a decimal
has digits on both sides of its point. An integer may have more digits than can be read. -/
structure WellFormed (t : Token) : Prop where
  integer : t.kind = .integer → ∃ negative digits, t.literal = Decimal.sign negative ++ digits ∧
    digits ≠ [] ∧ ∀ c ∈ digits, c.isDigit
  decimal : t.kind = .decimal → ∃ negative whole fraction,
    t.literal = Decimal.sign negative ++ (whole ++ '.' :: fraction) ∧ whole ≠ [] ∧ fraction ≠ [] ∧
    (∀ c ∈ whole, c.isDigit) ∧ ∀ c ∈ fraction, c.isDigit

lemma WellFormed.denotes (h : t.WellFormed) (hv : t.reading? = some (.ok v)) : t.Denotes v := by
  have hsame : ∀ {w : Value}, t.Denotes w → t.Denotes v := by
    intro w hw
    rw [hw.reading?_eq] at hv
    cases hv
    exact hw
  -- a token denotes one value at most, so it is enough that it denotes some value
  rcases hk : t.kind with _ | _ | _ | _ | _ | _
  · have hterm : t.terminal = (Keyword.ofText? t.literal).elim .name .word := by
      rw [terminal, hk]
      cases Keyword.ofText? t.literal <;> rfl
    rcases hw : Keyword.ofText? t.literal with _ | w <;> rw [hw] at hterm <;>
      rw [reading?, hterm] at hv
    · cases hv
    · cases w <;> simp [Keyword.constant?] at hv <;> subst hv
      · exact .nil hterm
      · exact .true hterm
      · exact .false hterm
  · obtain ⟨negative, digits, hl, hne, hd⟩ := h.integer hk
    rw [reading?, terminal_of_integer hk, hl] at hv
    dsimp only at hv
    rw [Numeral.readInteger_digits hne hd] at hv
    split at hv
    · cases hv
    · next hlen => exact hsame (.integer hk hl hne hd (Nat.not_lt.1 hlen))
  · obtain ⟨negative, whole, fraction, hl, hne, hne', hw, hf⟩ := h.decimal hk
    rw [reading?, terminal_of_decimal hk, hl] at hv
    dsimp only at hv
    rw [Decimal.read_plain hne hw hf] at hv
    split at hv
    · next hr => exact hsame (.decimal hk hl hne hne' hw hf hr)
    · cases hv
  · exact hsame (.text (.inl hk))
  · exact hsame (.text (.inr hk))
  · rw [reading?, terminal, hk] at hv
    cases hv

lemma isSome_reading? : t.reading?.isSome ↔ t.terminal.isConstant := by
  unfold reading?
  cases t.terminal with
  | word w => cases w <;> simp [Terminal.isConstant, Keyword.constant?]
  | _ => simp [Terminal.isConstant]

end Token

/-! ### Reading a constant -/

namespace Rule

variable {inner : Rule Expr} {t : Token} {rest : List Token}

lemma primary_nil : primary inner [] = .error (.complaint .expectedExpression) [] := rfl

/-- A primary expression is chosen by the reading and the terminal of its first token. -/
lemma primary_cons :
    primary inner (t :: rest) =
      match t.reading? with
      | some (.ok v) => .ok (.literal v) rest
      | some (.error fault) => .error (.numeral fault) rest
      | none =>
        if t.terminal = .name then named inner t.literal rest
        else if t.terminal = .mark '(' then grouped inner rest
        else .error (.complaint .expectedExpression) (t :: rest) := by
  obtain ⟨kind, literal, offset⟩ := t
  unfold primary
  rw [get_bind]
  -- by the kind of the token: the rule asks for the keywords, the numerals and the texts in turn
  cases kind with
  | identifier =>
    cases h : Keyword.ofText? literal with
    | some w =>
      cases w <;> simp [Token.keyword?, Token.reading?, Token.terminal, h, Keyword.constant?,
        set_bind, pure_apply, refuse_apply, Terminal.mark]
    | none => simp [Token.keyword?, Token.reading?, Token.terminal, h, set_bind]
  | integer =>
    cases h : Numeral.readInteger literal <;>
      simp [Token.keyword?, Token.reading?, Token.terminal, h, integer, Except.map,
        bind_apply, pure_apply] <;> rfl
  | decimal =>
    cases h : Decimal.read literal <;>
      simp [Token.keyword?, Token.reading?, Token.terminal, h, decimal, Except.map,
        bind_apply, pure_apply] <;> rfl
  | character | string =>
    simp [Token.keyword?, Token.reading?, Token.terminal, set_bind, pure_apply]
  | operator =>
    by_cases h : literal = ['('] <;>
      simp [Token.keyword?, Token.reading?, Token.terminal, h, set_bind, refuse_apply,
        Terminal.mark]

lemma primary_of_name (h : t.terminal = .name) :
    primary inner (t :: rest) = named inner t.literal rest := by
  rw [primary_cons, Token.reading?, h]
  rfl

lemma primary_of_group (h : t.terminal = .mark '(') :
    primary inner (t :: rest) = grouped inner rest := by
  rw [primary_cons, Token.reading?, h]
  rfl

end Rule

end Pebble
