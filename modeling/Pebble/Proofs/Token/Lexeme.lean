import Mathlib.Computability.Language
import Mathlib.Tactic.Lemma
import Pebble.Token.Scan

/-!
The lexemes of each kind of token, as a regular language, and what may stand right after one.
The rules of the scan cut off exactly these.
-/

namespace Pebble.Lexeme

open scoped Computability

/-! ### The languages of the kinds -/

def one (p : Char → Prop) : Language Char := {text | ∃ c, p c ∧ text = [c]}

def Digit (c : Char) : Prop := '0' ≤ c ∧ c ≤ '9'

def NameStart (c : Char) : Prop := ('A' ≤ c ∧ c ≤ 'Z') ∨ ('a' ≤ c ∧ c ≤ 'z') ∨ c = '_'

def NamePart (c : Char) : Prop := NameStart c ∨ Digit c

def sign : Language Char := 1 + one (· = '-')

/-- An integer part: a zero by itself, or digits that do not start with one. -/
def whole : Language Char :=
  one (· = '0') + one (fun c => '1' ≤ c ∧ c ≤ '9') * (one Digit)∗

/-- A unit of a literal in quotes: a character other than the quote and the backslash, or a
backslash and an escape letter. -/
def unit (quote : Char) : Language Char :=
  one (fun c => c ≠ quote ∧ c ≠ '\\') +
    one (· = '\\') * one (· ∈ ['n', 't', 'r', '\\', '"', '\''])

def language : TokenKind → Language Char
  | .identifier => one NameStart * (one NamePart)∗
  | .integer => sign * whole
  | .decimal => sign * (whole * (one (· = '.') * (one Digit * (one Digit)∗)))
  | .character => one (· = '\'') * (unit '\'' * one (· = '\''))
  | .string => one (· = '"') * ((unit '"')∗ * one (· = '"'))
  | .operator => {text | text ∈ Scan.pairs ∨ ∃ c ∈ Scan.singles, text = [c]}

/-- Whether the character after a literal, if there is one, leaves the literal as it is: it
neither continues the literal nor makes it part of another one. -/
def Follow : TokenKind → Text → Option Char → Prop
  | .identifier, _, next => ∀ c ∈ next, ¬ NamePart c
  | .integer, _, next => ∀ c ∈ next, ¬ Digit c ∧ c ≠ '.'
  | .decimal, _, next => ∀ c ∈ next, ¬ Digit c
  | .character, _, _ => True
  | .string, _, _ => True
  | .operator, literal, next =>
    ∀ c ∈ next, literal ++ [c] ∉ Scan.pairs ∧ ¬ (literal = ['-'] ∧ Digit c)

/-- A text starts with a literal of a kind and a length, which is cut off from the rest. -/
def Cuts (text : Text) (kind : TokenKind) (length : Nat) : Prop :=
  ∃ literal rest, literal ++ rest = text ∧ literal.length = length ∧
    literal ∈ language kind ∧ Follow kind literal rest.head?

/-! ### Membership -/

@[simp] lemma mem_one {p : Char → Prop} {text : Text} : text ∈ one p ↔ ∃ c, p c ∧ text = [c] :=
  Iff.rfl

@[simp] lemma mem_one_mul {p : Char → Prop} {l : Language Char} {text : Text} :
    text ∈ one p * l ↔ ∃ c rest, p c ∧ rest ∈ l ∧ text = c :: rest := by
  constructor
  · rintro ⟨-, ⟨c, hc, rfl⟩, rest, hrest, rfl⟩
    exact ⟨c, rest, hc, hrest, rfl⟩
  · rintro ⟨c, rest, hc, hrest, rfl⟩
    exact ⟨[c], ⟨c, hc, rfl⟩, rest, hrest, rfl⟩

@[simp] lemma mem_one_kstar {p : Char → Prop} {text : Text} :
    text ∈ (one p)∗ ↔ ∀ c ∈ text, p c := by
  constructor
  · rintro ⟨units, rfl, hunits⟩ c hc
    obtain ⟨y, hy, hcy⟩ := List.mem_flatten.mp hc
    obtain ⟨d, hd, rfl⟩ := hunits y hy
    obtain rfl : c = d := by simpa using hcy
    exact hd
  · intro h
    refine ⟨text.map ([·]), by simp [← List.flatMap_def], fun y hy => ?_⟩
    obtain ⟨c, hc, rfl⟩ := List.mem_map.mp hy
    exact ⟨c, h c hc, rfl⟩

lemma mem_sign {text : Text} : text ∈ sign ↔ text = [] ∨ text = ['-'] := by
  rw [sign, Language.mem_add, Language.mem_one]
  simp

lemma mem_unit {quote : Char} {text : Text} : text ∈ unit quote ↔
    (∃ c, (c ≠ quote ∧ c ≠ '\\') ∧ text = [c]) ∨
      ∃ letter ∈ ['n', 't', 'r', '\\', '"', '\''], text = ['\\', letter] := by
  simp only [unit, Language.mem_add, mem_one, mem_one_mul]
  constructor
  · rintro (h | ⟨c, rest, rfl, ⟨letter, hletter, rfl⟩, rfl⟩)
    · exact .inl h
    · exact .inr ⟨letter, hletter, rfl⟩
  · rintro (h | ⟨letter, hletter, rfl⟩)
    · exact .inl h
    · exact .inr ⟨'\\', [letter], rfl, ⟨letter, hletter, rfl⟩, rfl⟩

lemma mem_operator {text : Text} :
    text ∈ language .operator ↔ text ∈ Scan.pairs ∨ ∃ c ∈ Scan.singles, text = [c] := Iff.rfl

/-! ### Classes of characters -/

lemma isDigit_iff {c : Char} : c.isDigit = true ↔ Digit c := by
  simp [Char.isDigit, Digit, Char.le_def]

lemma isAlpha_iff {c : Char} :
    c.isAlpha = true ↔ ('A' ≤ c ∧ c ≤ 'Z') ∨ ('a' ≤ c ∧ c ≤ 'z') := by
  have hupper : c.isUpper = true ↔ 'A' ≤ c ∧ c ≤ 'Z' := decide_eq_true_iff
  have hlower : c.isLower = true ↔ 'a' ≤ c ∧ c ≤ 'z' :=
    Bool.and_eq_true_iff.trans (and_congr decide_eq_true_iff decide_eq_true_iff)
  exact Bool.or_eq_true_iff.trans (or_congr hupper hlower)

lemma isNameStart_iff {c : Char} : Scan.isNameStart c = true ↔ NameStart c := by
  simp [Scan.isNameStart, NameStart, isAlpha_iff, or_assoc]

lemma isNamePart_iff {c : Char} : Scan.isNamePart c = true ↔ NamePart c := by
  simp only [Scan.isNamePart, NamePart, NameStart, Bool.or_eq_true, isAlpha_iff, isDigit_iff,
    decide_eq_true_eq]
  tauto

lemma isLetter_iff {c : Char} :
    Escape.isLetter c = true ↔ c ∈ ['n', 't', 'r', '\\', '"', '\''] := by
  unfold Escape.isLetter Escape.denoted?
  split <;> simp_all

end Pebble.Lexeme
