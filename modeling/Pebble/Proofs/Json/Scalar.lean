import Pebble.Proofs.Json.Grammar
import Pebble.Proofs.Token.Rules

/-!
Readers, and those of the words, the numbers and the strings of JSON. Each is shown to take just
what the grammar has: it is sound, and complete if the rest of the text may come next.
-/

namespace Pebble.Json

/-! ### Readers -/

abbrev Reader (α : Type) := Text → Option (α × Text)

namespace Reader

variable {α β : Type}

/-- What a reader takes is what a grammar has. -/
def Sound (read : Reader α) (grammar : Text → α → Prop) : Prop :=
  ∀ {t : Text} {a : α} {rest : Text}, read t = some (a, rest) → ∃ u, t = u ++ rest ∧ grammar u a

/-- What a grammar has is what a reader takes, if the rest may come next. -/
def Complete (read : Reader α) (grammar : Text → α → Prop) (next : Text → Prop) : Prop :=
  ∀ {t : Text} {a : α}, grammar t a → ∀ rest, next rest → read (t ++ rest) = some (a, rest)

def map (f : α → β) (read : Reader α) : Reader β := fun t =>
  (read t).map fun found => (f found.1, found.2)

lemma map_eq_some_iff {f : α → β} {read : Reader α} {t rest : Text} {b : β} :
    read.map f t = some (b, rest) ↔ ∃ a, read t = some (a, rest) ∧ f a = b := by
  simp only [map, Option.map_eq_some_iff, Prod.mk.injEq, Prod.exists]
  constructor
  · rintro ⟨a, _, h, rfl, rfl⟩
    exact ⟨a, h, rfl⟩
  · rintro ⟨a, h, rfl⟩
    exact ⟨a, rest, h, rfl, rfl⟩

end Reader

def word? : Reader Json := fun t =>
  words.findSome? fun word =>
    if word.1.isPrefixOf t then some (word.2, t.drop word.1.length) else none

def natural? : Reader Nat := fun t =>
  if Natural (t.takeWhile Char.isDigit) then
    some (Numeral.value (t.takeWhile Char.isDigit), t.dropWhile Char.isDigit)
  else none

def integer? : Reader Int
  | '-' :: t => Reader.map (fun n : Nat => -(n : Int)) natural? t
  | t => Reader.map (fun n : Nat => (n : Int)) natural? t

def codeUnit? : Reader Nat
  | '\\' :: 'u' :: a :: b :: c :: d :: rest =>
    match hexDigit? a, hexDigit? b, hexDigit? c, hexDigit? d with
    | some i, some j, some k, some l => some (((i * 16 + j) * 16 + k) * 16 + l, rest)
    | _, _, _, _ => none
  | _ => none

def unit? : Reader Char := fun t =>
  match codeUnit? t with
  | none => none
  | some (n, rest) =>
    if IsHigh n then
      match codeUnit? rest with
      | none => none
      | some (m, rest) => if IsLow m then some (paired n m, rest) else none
    else if IsLow n then none
    else some (Char.ofNat n, rest)

def simple? : Reader Char
  | '\\' :: l :: rest => (letters.lookup l).map fun c => (c, rest)
  | c :: rest => if Plain c then some (c, rest) else none
  | [] => none

def piece? : Reader Char := fun t => (unit? t).or (simple? t)

/-! ### Words and numbers -/

def NoDigit (rest : Text) : Prop := ∀ c ∈ rest.head?, ¬ c.isDigit

def Word (t : Text) (v : Json) : Prop := (t, v) ∈ words

def NaturalOf (t : Text) (n : Nat) : Prop := Natural t ∧ n = Numeral.value t

lemma word?_sound : Reader.Sound word? Word := by
  intro t v rest h
  obtain ⟨word, hword, hfound⟩ := List.exists_of_findSome?_eq_some h
  split at hfound
  · next hprefix =>
    obtain ⟨rfl, rfl⟩ := Prod.mk.inj (Option.some.inj hfound)
    obtain ⟨u, rfl⟩ := List.isPrefixOf_iff_prefix.mp hprefix
    exact ⟨word.1, by rw [List.drop_left], hword⟩
  · cases hfound

lemma word?_complete : Reader.Complete word? Word fun _ => True := by
  intro t v h rest _
  simp only [Word, words, List.mem_cons, Prod.mk.injEq, List.not_mem_nil, or_false] at h
  rcases h with ⟨rfl, rfl⟩ | ⟨rfl, rfl⟩ | ⟨rfl, rfl⟩ <;> rfl

lemma natural?_sound : Reader.Sound natural? NaturalOf := by
  intro t n rest h
  unfold natural? at h
  split at h
  · next hnatural =>
    obtain ⟨rfl, rfl⟩ := Prod.mk.inj (Option.some.inj h)
    exact ⟨_, List.takeWhile_append_dropWhile.symm, hnatural, rfl⟩
  · cases h

lemma natural?_complete : Reader.Complete natural? NaturalOf NoDigit := by
  rintro t n ⟨hnatural, rfl⟩ rest hrest
  obtain ⟨htake, hdrop⟩ :=
    (Lexeme.span_iff (p := Char.isDigit)).mpr ⟨rfl, hnatural.2.1, hrest⟩
  rw [natural?, htake, hdrop, if_pos hnatural]

lemma integer?_sound : Reader.Sound integer? Integer := by
  intro t n rest h
  unfold integer? at h
  split at h
  · next t =>
    obtain ⟨m, hread, rfl⟩ := Reader.map_eq_some_iff.mp h
    obtain ⟨u, rfl, hu, rfl⟩ := natural?_sound hread
    exact ⟨'-' :: u, rfl, .negative hu⟩
  · obtain ⟨m, hread, rfl⟩ := Reader.map_eq_some_iff.mp h
    obtain ⟨u, rfl, hu, rfl⟩ := natural?_sound hread
    exact ⟨u, rfl, .natural hu⟩

lemma Natural.eq_cons {t : Text} (h : Natural t) : ∃ c u, t = c :: u ∧ c.isDigit := by
  obtain ⟨hne, hdigits, -⟩ := h
  obtain ⟨c, u, rfl⟩ := List.exists_cons_of_ne_nil hne
  exact ⟨c, u, rfl, hdigits c List.mem_cons_self⟩

lemma integer?_complete : Reader.Complete integer? Integer NoDigit := by
  intro t n h rest hrest
  cases h with
  | natural hnatural =>
    obtain ⟨c, u, rfl, hc⟩ := hnatural.eq_cons
    have hne : c ≠ '-' := by
      rintro rfl
      cases hc
    have hread := natural?_complete ⟨hnatural, rfl⟩ rest hrest
    rw [integer?]
    · exact Reader.map_eq_some_iff.mpr ⟨_, hread, rfl⟩
    · rintro v heq
      exact hne (List.cons.inj heq).1
  | negative hnatural =>
    have hread := natural?_complete ⟨hnatural, rfl⟩ rest hrest
    rw [List.cons_append, integer?]
    exact Reader.map_eq_some_iff.mpr ⟨_, hread, rfl⟩

/-! ### Characters -/

lemma codeUnit?_sound : Reader.Sound codeUnit? CodeUnit := by
  intro t n rest h
  unfold codeUnit? at h
  split at h
  · next a b c d rest' =>
    split at h
    · next i j k l hi hj hk hl =>
      cases h
      exact ⟨['\\', 'u', a, b, c, d], rfl, .mk hi hj hk hl⟩
    · cases h
  · cases h

lemma codeUnit?_complete : Reader.Complete codeUnit? CodeUnit fun _ => True := by
  rintro t n ⟨hi, hj, hk, hl⟩ rest -
  simp [codeUnit?, hi, hj, hk, hl]

lemma CodeUnit.eq_cons {t : Text} {n : Nat} (h : CodeUnit t n) : ∃ u, t = '\\' :: 'u' :: u := by
  cases h
  exact ⟨_, rfl⟩

lemma unit?_sound : Reader.Sound unit? Piece := by
  intro t c rest h
  unfold unit? at h
  split at h
  · cases h
  · next n rest₁ hn =>
    obtain ⟨u, rfl, hu⟩ := codeUnit?_sound hn
    -- a unit of the upper half of a pair needs one of the lower half behind it
    split at h
    · next hhigh =>
      split at h
      · cases h
      · next m rest₂ hm =>
        obtain ⟨v, rfl, hv⟩ := codeUnit?_sound hm
        split at h
        · next hlow =>
          obtain ⟨rfl, rfl⟩ := Prod.mk.inj (Option.some.inj h)
          exact ⟨u ++ v, (List.append_assoc ..).symm, .pair hu hhigh hv hlow⟩
        · cases h
    · next hhigh =>
      split at h
      · cases h
      · next hlow =>
        cases h
        exact ⟨u, rfl, .unit hu hhigh hlow⟩

lemma mem_letters_of_lookup {l c : Char} (h : letters.lookup l = some c) : (l, c) ∈ letters := by
  obtain ⟨l₁, l₂, heq, -⟩ := List.lookup_eq_some_iff.mp h
  rw [heq]
  simp

lemma simple?_sound : Reader.Sound simple? Piece := by
  intro t c rest h
  unfold simple? at h
  split at h
  · next l rest' =>
    obtain ⟨c', hlookup, heq⟩ := Option.map_eq_some_iff.mp h
    cases heq
    exact ⟨['\\', l], rfl, .letter (mem_letters_of_lookup hlookup)⟩
  · split at h
    · next hplain =>
      cases h
      exact ⟨[_], rfl, .plain hplain⟩
    · cases h
  · cases h

lemma piece?_sound : Reader.Sound piece? Piece := by
  intro t c rest h
  rcases Option.or_eq_some_iff.mp h with hunit | ⟨-, hsimple⟩
  · exact unit?_sound hunit
  · exact simple?_sound hsimple

lemma codeUnit?_eq_none {t : Text} (h : ∀ u, t ≠ '\\' :: 'u' :: u) : codeUnit? t = none := by
  rcases hread : codeUnit? t with _ | ⟨n, rest⟩
  · rfl
  · obtain ⟨u, rfl, hu⟩ := codeUnit?_sound hread
    obtain ⟨v, rfl⟩ := hu.eq_cons
    exact absurd rfl (h _)

/-- No escape by a letter begins a code unit. -/
lemma simple?_of_letter {l c : Char} (h : (l, c) ∈ letters) (rest : Text) :
    codeUnit? ('\\' :: l :: rest) = none ∧ simple? ('\\' :: l :: rest) = some (c, rest) := by
  simp only [letters, List.mem_cons, Prod.mk.injEq, List.not_mem_nil, or_false] at h
  rcases h with ⟨rfl, rfl⟩ | ⟨rfl, rfl⟩ | ⟨rfl, rfl⟩ | ⟨rfl, rfl⟩ | ⟨rfl, rfl⟩ | ⟨rfl, rfl⟩ |
    ⟨rfl, rfl⟩ | ⟨rfl, rfl⟩ <;> exact ⟨rfl, rfl⟩

lemma simple?_of_plain {c : Char} (h : Plain c) (rest : Text) :
    codeUnit? (c :: rest) = none ∧ simple? (c :: rest) = some (c, rest) := by
  have hne : c ≠ '\\' := h.2.2
  exact ⟨codeUnit?_eq_none fun u heq => hne (List.cons.inj heq).1, by simp [simple?, h, hne]⟩

lemma piece?_complete : Reader.Complete piece? Piece fun _ => True := by
  rintro t c h rest -
  cases h with
  | plain hplain =>
    obtain ⟨hunit, hsimple⟩ := simple?_of_plain hplain rest
    simp [piece?, unit?, hunit, hsimple]
  | letter hletter =>
    obtain ⟨hunit, hsimple⟩ := simple?_of_letter hletter rest
    simp [piece?, unit?, hunit, hsimple]
  | unit hunit hhigh hlow =>
    simp [piece?, unit?, codeUnit?_complete hunit, hhigh, hlow]
  | pair hfirst hhigh hsecond hlow =>
    simp [piece?, unit?, List.append_assoc, codeUnit?_complete hfirst,
      codeUnit?_complete hsecond, hhigh, hlow]

/-! ### Strings -/

/-- No character is written as the quote that ends a string. -/
lemma Piece.eq_cons {t : Text} {c : Char} (h : Piece t c) : ∃ d u, t = d :: u ∧ d ≠ '"' := by
  cases h with
  | plain hplain => exact ⟨c, [], rfl, hplain.2.1⟩
  | letter _ => exact ⟨'\\', _, rfl, by decide⟩
  | unit hunit _ _ =>
    obtain ⟨u, rfl⟩ := hunit.eq_cons
    exact ⟨'\\', _, rfl, by decide⟩
  | pair hfirst _ _ _ =>
    obtain ⟨u, rfl⟩ := hfirst.eq_cons
    exact ⟨'\\', _, rfl, by decide⟩

lemma piece?_shorter {t rest : Text} {c : Char} (h : piece? t = some (c, rest)) :
    rest.length < t.length := by
  obtain ⟨u, rfl, hu⟩ := piece?_sound h
  obtain ⟨d, v, rfl, -⟩ := hu.eq_cons
  simp only [List.cons_append, List.length_cons, List.length_append]
  omega

/-- The characters of a string and the quote after them. -/
def body? (t : Text) : Option (Text × Text) :=
  if t.head? = some '"' then some ([], t.tail)
  else
    match _ : piece? t with
    | none => none
    | some (c, rest) => (body? rest).map fun found => (c :: found.1, found.2)
termination_by t.length
decreasing_by exact piece?_shorter ‹_›

def quoted? : Reader Text
  | '"' :: t => body? t
  | _ => none

lemma body?_sound : Reader.Sound body? fun t s => ∃ u, t = u ++ ['"'] ∧ Body u s := by
  intro t s rest h
  -- On the length of the text: each character takes something off it.
  induction hlength : t.length using Nat.strong_induction_on generalizing t s with
  | _ n ih =>
    rw [body?] at h
    split at h
    · next hquote =>
      obtain ⟨u, rfl⟩ := List.head?_eq_some_iff.mp hquote
      obtain ⟨rfl, rfl⟩ := Prod.mk.inj (Option.some.inj h)
      exact ⟨['"'], rfl, [], rfl, .nil⟩
    · split at h
      · cases h
      · next c rest' hpiece =>
        obtain ⟨⟨s', rest''⟩, hbody, heq⟩ := Option.map_eq_some_iff.mp h
        obtain ⟨rfl, rfl⟩ := Prod.mk.inj heq
        obtain ⟨_, rfl, u, rfl, hu⟩ := ih _ (hlength ▸ piece?_shorter hpiece) hbody rfl
        obtain ⟨p, rfl, hp⟩ := piece?_sound hpiece
        exact ⟨p ++ (u ++ ['"']), by simp, p ++ u, by simp, .cons hp hu⟩

lemma body?_complete :
    Reader.Complete body? (fun t s => ∃ u, t = u ++ ['"'] ∧ Body u s) fun _ => True := by
  rintro _ s ⟨u, rfl, hu⟩ rest -
  rw [List.append_assoc]
  induction hu with
  | nil => simp [body?]
  | @cons _ u _ c hpiece _ ih =>
    -- a character does not begin with the quote that ends the string
    obtain ⟨d, v, rfl, hd⟩ := hpiece.eq_cons
    have hread : piece? (d :: v ++ (u ++ (['"'] ++ rest))) = some (c, u ++ (['"'] ++ rest)) :=
      piece?_complete hpiece _ trivial
    rw [List.append_assoc, body?, if_neg (by simpa using hd)]
    split
    · next hnone =>
      rw [hread] at hnone
      cases hnone
    · next hsome =>
      rw [hread] at hsome
      obtain ⟨rfl, rfl⟩ := Prod.mk.inj (Option.some.inj hsome)
      rw [ih]
      rfl

lemma quoted?_sound : Reader.Sound quoted? Quoted := by
  intro t s rest h
  unfold quoted? at h
  split at h
  · obtain ⟨_, rfl, u, rfl, hu⟩ := body?_sound h
    exact ⟨'"' :: u ++ ['"'], rfl, .mk hu⟩
  · cases h

lemma quoted?_complete : Reader.Complete quoted? Quoted fun _ => True := by
  rintro _ s ⟨hu⟩ rest -
  exact body?_complete ⟨_, rfl, hu⟩ rest trivial

end Pebble.Json
