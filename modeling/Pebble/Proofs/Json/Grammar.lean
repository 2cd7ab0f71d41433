import Mathlib.Tactic.Lemma
import Pebble.Json
import Pebble.Number.Numeral

/-!
The grammar of JSON, as far as there are values for it: which texts denote which value. White space
may stand around every value and every key, a character of a string may be written in any of the
ways that JSON has for it, and a number is an integer. Half a surrogate pair denotes no text, and
the members of an object keep their order.
-/

namespace Pebble.Json

/-! ### White space -/

def blanks : Text := [' ', '\t', '\n', '\r']

def Gap (t : Text) : Prop := ∀ c ∈ t, c ∈ blanks

lemma gap_nil : Gap [] := List.forall_mem_nil _

lemma gap_replicate (n : Nat) : Gap (List.replicate n ' ') := by
  intro c hc
  rw [List.eq_of_mem_replicate hc]
  decide

lemma Gap.cons {c : Char} {t : Text} (hc : c ∈ blanks) (h : Gap t) : Gap (c :: t) :=
  List.forall_mem_cons.mpr ⟨hc, h⟩

lemma Gap.append {t u : Text} (ht : Gap t) (hu : Gap u) : Gap (t ++ u) :=
  List.forall_mem_append.mpr ⟨ht, hu⟩

/-! ### Words and numbers -/

def words : List (Text × Json) :=
  [("null".toList, .null), ("true".toList, .bool true), ("false".toList, .bool false)]

/-- The numeral of a natural number: some digits, with no zero in front. -/
def Natural (digits : Text) : Prop :=
  digits ≠ [] ∧ (∀ c ∈ digits, c.isDigit) ∧ (digits.head? = some '0' → digits = ['0'])

instance (digits : Text) : Decidable (Natural digits) := inferInstanceAs (Decidable (_ ∧ _ ∧ _))

inductive Integer : Text → Int → Prop
  | natural {digits : Text} : Natural digits → Integer digits (Numeral.value digits)
  | negative {digits : Text} : Natural digits →
    Integer ('-' :: digits) (-(Numeral.value digits : Int))

/-! ### Strings -/

/-- The letters that stand after a backslash, and what they stand for. -/
def letters : List (Char × Char) :=
  [('"', '"'), ('\\', '\\'), ('/', '/'), ('b', '\x08'), ('f', '\x0c'), ('n', '\n'), ('r', '\r'),
    ('t', '\t')]

/-- A character that stands for itself in a string. -/
def Plain (c : Char) : Prop := 0x20 ≤ c.toNat ∧ c ≠ '"' ∧ c ≠ '\\'

instance (c : Char) : Decidable (Plain c) := inferInstanceAs (Decidable (_ ∧ _ ∧ _))

def hexDigit? (c : Char) : Option Nat := "0123456789abcdef".toList.idxOf? c.toLower

/-- A code unit of UTF-16, written in four hexadecimal digits. -/
inductive CodeUnit : Text → Nat → Prop
  | mk {a b c d : Char} {i j k l : Nat} : hexDigit? a = some i → hexDigit? b = some j →
    hexDigit? c = some k → hexDigit? d = some l →
    CodeUnit ['\\', 'u', a, b, c, d] (((i * 16 + j) * 16 + k) * 16 + l)

def IsHigh (n : Nat) : Prop := 0xD800 ≤ n ∧ n < 0xDC00

def IsLow (n : Nat) : Prop := 0xDC00 ≤ n ∧ n < 0xE000

instance (n : Nat) : Decidable (IsHigh n) := inferInstanceAs (Decidable (_ ∧ _))

instance (n : Nat) : Decidable (IsLow n) := inferInstanceAs (Decidable (_ ∧ _))

/-- The character that a surrogate pair denotes. -/
def paired (high low : Nat) : Char :=
  Char.ofNat (0x10000 + (high - 0xD800) * 0x400 + (low - 0xDC00))

/-- The ways to write a character in a string. -/
inductive Piece : Text → Char → Prop
  | plain {c : Char} : Plain c → Piece [c] c
  | letter {l c : Char} : (l, c) ∈ letters → Piece ['\\', l] c
  | unit {t : Text} {n : Nat} : CodeUnit t n → ¬ IsHigh n → ¬ IsLow n → Piece t (Char.ofNat n)
  | pair {t u : Text} {high low : Nat} : CodeUnit t high → IsHigh high → CodeUnit u low →
    IsLow low → Piece (t ++ u) (paired high low)

inductive Body : Text → Text → Prop
  | nil : Body [] []
  | cons {t u s : Text} {c : Char} : Piece t c → Body u s → Body (t ++ u) (c :: s)

inductive Quoted : Text → Text → Prop
  | mk {t s : Text} : Body t s → Quoted ('"' :: t ++ ['"']) s

/-! ### Values -/

/-- What is written with white space around it, and what it denotes. -/
structure Entry (α : Type) where
  before : Text
  text : Text
  after : Text
  value : α
  before_gap : Gap before
  after_gap : Gap after

def Entry.written {α : Type} (entry : Entry α) : Text := entry.before ++ entry.text ++ entry.after

lemma Entry.length_le {α : Type} (entry : Entry α) : entry.text.length ≤ entry.written.length := by
  simp only [Entry.written, List.length_append]
  omega

structure Member where
  key : Entry Text
  entry : Entry Json
  quoted : Quoted key.text key.value

def Member.written (member : Member) : Text := member.key.written ++ ':' :: member.entry.written

def Member.value (member : Member) : Text × Json := (member.key.value, member.entry.value)

def joined (ts : List Text) : Text := List.intercalate [','] ts

lemma joined_cons {t : Text} {ts : List Text} (h : ts ≠ []) :
    joined (t :: ts) = t ++ ',' :: joined ts := by
  obtain ⟨u, us, rfl⟩ := List.exists_cons_of_ne_nil h
  rw [joined, List.intercalate_cons_cons, List.append_assoc]
  rfl

lemma joined_singleton (t : Text) : joined [t] = t := List.intercalate_singleton

lemma length_le_joined (ts : List Text) : ts.length ≤ (joined ts).length + 1 := by
  induction ts with
  | nil => simp
  | cons t ts ih =>
    by_cases hnil : ts = []
    · simp [hnil]
    · rw [joined_cons hnil]
      simp only [List.length_cons, List.length_append]
      omega

lemma length_le_joined_of_mem {t : Text} {ts : List Text} (h : t ∈ ts) :
    t.length ≤ (joined ts).length := by
  induction ts with
  | nil => cases h
  | cons u us ih =>
    by_cases hnil : us = []
    · subst hnil
      obtain rfl : t = u := by simpa using h
      simp only [joined_singleton, Nat.le_refl]
    · rw [joined_cons hnil, List.length_append, List.length_cons]
      rcases List.mem_cons.mp h with rfl | hmem
      · omega
      · have := ih hmem
        omega

lemma Entry.length_le_joined {α : Type} (entry : Entry α) {entries : List (Entry α)}
    (h : entry ∈ entries) : entry.text.length ≤ (joined (entries.map written)).length :=
  Nat.le_trans entry.length_le (length_le_joined_of_mem (List.mem_map_of_mem h))

lemma Member.length_le_joined (member : Member) {members : List Member} (h : member ∈ members) :
    member.entry.text.length ≤ (joined (members.map written)).length := by
  have hwritten := length_le_joined_of_mem (List.mem_map_of_mem (f := written) h)
  have hentry := member.entry.length_le
  rw [written, List.length_append, List.length_cons] at hwritten
  omega

/-- The texts that denote a value. -/
inductive Value : Text → Json → Prop
  | word {t : Text} {v : Json} : (t, v) ∈ words → Value t v
  | integer {t : Text} {n : Int} : Integer t n → Value t (.integer n)
  | text {t s : Text} : Quoted t s → Value t (.text s)
  | noItems {gap : Text} : Gap gap → Value ('[' :: gap ++ [']']) (.list [])
  | items {entries : List (Entry Json)} : entries ≠ [] →
    (∀ entry ∈ entries, Value entry.text entry.value) →
    Value ('[' :: joined (entries.map Entry.written) ++ [']']) (.list (entries.map Entry.value))
  | noMembers {gap : Text} : Gap gap → Value ('\x7b' :: gap ++ ['\x7d']) (.object [])
  | members {members : List Member} : members ≠ [] →
    (∀ member ∈ members, Value member.entry.text member.entry.value) →
    Value ('\x7b' :: joined (members.map Member.written) ++ ['\x7d'])
      (.object (members.map Member.value))

/-- The text and the value of some `e` of which `good` holds. -/
def Shown {ε α : Type} (written : ε → Text) (value : ε → α) (good : ε → Prop) (t : Text) (a : α) :
    Prop :=
  ∃ e, good e ∧ written e = t ∧ value e = a

def Padded {α : Type} (grammar : Text → α → Prop) : Text → α → Prop :=
  Shown Entry.written Entry.value fun entry => grammar entry.text entry.value

/-- A JSON text: a value with white space around it. -/
def Document : Text → Json → Prop := Padded Value

end Pebble.Json
