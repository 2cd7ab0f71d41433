import Pebble.Proofs.Json.Scalar

/-!
A reader of JSON texts. The main statement is `read?_eq_some_iff`: it finds a value in a text just
if the grammar gives the text that value, so that no text denotes two values.
-/

namespace Pebble.Json

/-! ### White space -/

def skip (t : Text) : Text := t.dropWhile (· ∈ blanks)

/-- Neither a digit nor white space comes next. -/
def Ends (rest : Text) : Prop := ∀ c ∈ rest.head?, ¬ c.isDigit ∧ c ∉ blanks

/-- A text that begins neither with white space nor with a closing bracket. -/
def Begins (t : Text) : Prop := ∃ c u, t = c :: u ∧ c ∉ blanks ∧ c ∉ [']', '\x7d']

lemma exists_gap (t : Text) : ∃ gap, Gap gap ∧ t = gap ++ skip t := by
  refine ⟨t.takeWhile (· ∈ blanks), fun c hc => ?_, List.takeWhile_append_dropWhile.symm⟩
  exact of_decide_eq_true (List.mem_takeWhile_imp (p := (· ∈ blanks)) hc)

lemma skip_append {gap rest : Text} (hgap : Gap gap) (hrest : ∀ c ∈ rest.head?, c ∉ blanks) :
    skip (gap ++ rest) = rest := by
  refine ((Lexeme.span_iff (p := (· ∈ blanks))).mpr ⟨rfl, fun c hc => ?_, fun c hc => ?_⟩).2
  · exact decide_eq_true (hgap c hc)
  · simpa using hrest c hc

lemma Begins.skip_append {gap t rest : Text} (h : Begins t) (hgap : Gap gap) :
    skip (gap ++ (t ++ rest)) = t ++ rest := by
  obtain ⟨c, u, rfl, hc, -⟩ := h
  exact Json.skip_append hgap (by simpa using hc)

lemma Ends.noDigit {gap rest : Text} (h : Ends rest) (hgap : Gap gap) : NoDigit (gap ++ rest) := by
  intro c hc
  cases gap with
  | nil => exact (h c hc).1
  | cons d gap =>
    obtain rfl : d = c := by simpa using hc
    have hd := hgap d List.mem_cons_self
    simp only [blanks, List.mem_cons, List.not_mem_nil, or_false] at hd
    rcases hd with rfl | rfl | rfl | rfl <;> decide

variable {α : Type} {read : Reader α} {grammar : Text → α → Prop}

def padded? (read : Reader α) : Reader α := fun t =>
  (read (skip t)).map fun found => (found.1, skip found.2)

lemma padded?_sound (h : Reader.Sound read grammar) :
    Reader.Sound (padded? read) (Padded grammar) := by
  intro t a rest hread
  obtain ⟨⟨a', rest'⟩, hfound, heq⟩ := Option.map_eq_some_iff.mp hread
  obtain ⟨rfl, rfl⟩ := Prod.mk.inj heq
  obtain ⟨before, hbefore, ht⟩ := exists_gap t
  obtain ⟨after, hafter, hrest⟩ := exists_gap rest'
  obtain ⟨u, hu, hgrammar⟩ := h hfound
  refine ⟨before ++ u ++ after, ?_, ⟨before, u, after, a', hbefore, hafter⟩, hgrammar, rfl, rfl⟩
  calc t = before ++ (u ++ rest') := by rw [← hu, ← ht]
    _ = before ++ (u ++ (after ++ skip rest')) := by rw [← hrest]
    _ = before ++ u ++ after ++ skip rest' := by simp only [List.append_assoc]

lemma padded?_complete (h : Reader.Complete read grammar NoDigit)
    (hbegins : ∀ {t a}, grammar t a → Begins t) :
    Reader.Complete (padded? read) (Padded grammar) Ends := by
  rintro _ _ ⟨entry, hgrammar, rfl, rfl⟩ rest hrest
  have hskip : skip (entry.written ++ rest) = entry.text ++ (entry.after ++ rest) := by
    rw [Entry.written, List.append_assoc, List.append_assoc]
    exact (hbegins hgrammar).skip_append entry.before_gap
  have hread := h hgrammar _ (hrest.noDigit entry.after_gap)
  rw [padded?, hskip, hread, Option.map_some]
  congr 2
  exact skip_append entry.after_gap fun c hc => (hrest c hc).2

/-! ### Items in brackets -/

/-- Items with a comma between each two and a bracket after them, at most `bound` of them. -/
def separated? (closing : Char) (read : Reader α) : Nat → Reader (List α)
  | 0, _ => none
  | bound + 1, t =>
    match read t with
    | none | some (_, []) => none
    | some (a, c :: rest) =>
      if c = closing then some ([a], rest)
      else if c = ',' then Reader.map (a :: ·) (separated? closing read bound) rest
      else none

def enclosed? (closing : Char) (read : Reader α) : Reader (List α) := fun t =>
  if (skip t).head? = some closing then some ([], (skip t).tail)
  else separated? closing read t.length t

def Enclosed {ε : Type} (closing : Char) (written : ε → Text) (value : ε → α) (good : ε → Prop)
    (t : Text) (as : List α) : Prop :=
  (∃ gap, Gap gap ∧ t = gap ++ [closing] ∧ as = []) ∨
    ∃ es, es ≠ [] ∧ (∀ e ∈ es, good e) ∧ t = joined (es.map written) ++ [closing] ∧
      as = es.map value

section Enclosed

variable {ε : Type} {closing : Char} {written : ε → Text} {value : ε → α} {good : ε → Prop}

lemma separated?_sound (h : Reader.Sound read (Shown written value good)) (bound : Nat) :
    Reader.Sound (separated? closing read bound) fun t as =>
      ∃ es, es ≠ [] ∧ (∀ e ∈ es, good e) ∧ t = joined (es.map written) ++ [closing] ∧
        as = es.map value := by
  induction bound with
  | zero =>
    intro t as rest hread
    cases hread
  | succ bound ih =>
    intro t as rest hread
    rw [separated?] at hread
    split at hread
    · cases hread
    · cases hread
    · next a c rest' hitem =>
      obtain ⟨_, rfl, e, he, rfl, rfl⟩ := h hitem
      -- behind an item there is the closing bracket, or a comma and more items
      split at hread
      · next hc =>
        obtain ⟨rfl, rfl⟩ := Prod.mk.inj (Option.some.inj hread)
        refine ⟨written e ++ [closing], by rw [hc, List.append_assoc]; rfl, [e],
          List.cons_ne_nil _ _, by simpa using he, ?_, rfl⟩
        rw [List.map_singleton, joined_singleton]
      · split at hread
        · next hcomma =>
          obtain ⟨as', hrest, rfl⟩ := Reader.map_eq_some_iff.mp hread
          obtain ⟨_, rfl, es, hne, hes, rfl, rfl⟩ := ih hrest
          refine ⟨written e ++ ',' :: (joined (es.map written) ++ [closing]), ?_, e :: es,
            List.cons_ne_nil _ _, List.forall_mem_cons.mpr ⟨he, hes⟩, ?_, rfl⟩
          · simp [hcomma]
          · rw [List.map_cons, joined_cons (by simpa using hne), List.append_assoc,
              List.cons_append]
        · cases hread

lemma separated?_complete (h : Reader.Complete read (Shown written value good) Ends)
    (hclosing : ¬ closing.isDigit ∧ closing ∉ blanks) (hcomma : closing ≠ ',') {es : List ε}
    (hne : es ≠ []) (hes : ∀ e ∈ es, good e) {bound : Nat} (hbound : es.length ≤ bound)
    (rest : Text) :
    separated? closing read bound (joined (es.map written) ++ closing :: rest) =
      some (es.map value, rest) := by
  -- a comma or the bracket comes after an item, and both end it
  induction es generalizing bound with
  | nil => exact absurd rfl hne
  | cons e es ih =>
    obtain ⟨he, hes⟩ := List.forall_mem_cons.mp hes
    obtain ⟨bound, rfl⟩ : ∃ n, bound = n + 1 := Nat.exists_eq_add_one.mpr (by simp at hbound; omega)
    by_cases hnil : es = []
    · subst hnil
      have hread := h ⟨e, he, rfl, rfl⟩ (closing :: rest) (by simpa [Ends] using hclosing)
      simp [separated?, joined_singleton, hread]
    · have hread := h ⟨e, he, rfl, rfl⟩
        (',' :: (joined (es.map written) ++ closing :: rest)) (by simp [Ends, blanks])
      have hrest := ih hnil hes (Nat.le_of_succ_le_succ hbound)
      rw [List.map_cons, joined_cons (by simpa using hnil), List.append_assoc, List.cons_append,
        separated?, hread]
      simp [hcomma.symm, Reader.map, hrest]

lemma enclosed?_sound (h : Reader.Sound read (Shown written value good)) :
    Reader.Sound (enclosed? closing read) (Enclosed closing written value good) := by
  intro t as rest hread
  rw [enclosed?] at hread
  split at hread
  · next hhead =>
    obtain ⟨gap, hgap, ht⟩ := exists_gap t
    obtain ⟨u, hu⟩ := List.head?_eq_some_iff.mp hhead
    rw [hu] at ht hread
    obtain ⟨rfl, rfl⟩ := Prod.mk.inj (Option.some.inj hread)
    exact ⟨gap ++ [closing], by simpa using ht, .inl ⟨gap, hgap, rfl, rfl⟩⟩
  · obtain ⟨u, hu, hes⟩ := separated?_sound h _ hread
    exact ⟨u, hu, .inr hes⟩

lemma enclosed?_complete (h : Reader.Complete read (Shown written value good) Ends)
    (hclosing : ¬ closing.isDigit ∧ closing ∉ blanks) (hcomma : closing ≠ ',')
    (hfirst : ∀ {e}, good e → ∀ rest, (skip (written e ++ rest)).head? ≠ some closing) :
    Reader.Complete (enclosed? closing read) (Enclosed closing written value good)
      fun _ => True := by
  rintro t as (⟨gap, hgap, rfl, rfl⟩ | ⟨es, hne, hes, rfl, rfl⟩) rest -
  · have hskip : skip (gap ++ [closing] ++ rest) = closing :: rest := by
      rw [List.append_assoc]
      exact skip_append hgap (by simpa using hclosing.2)
    rw [enclosed?, hskip, List.head?_cons, if_pos rfl, List.tail_cons]
  · -- the first item does not begin with the closing bracket, nor with white space
    have hhead : (skip (joined (es.map written) ++ [closing] ++ rest)).head? ≠ some closing := by
      obtain ⟨e, es, rfl⟩ := List.exists_cons_of_ne_nil hne
      by_cases hnil : es = []
      · subst hnil
        rw [List.map_singleton, joined_singleton, List.append_assoc]
        exact hfirst (hes e List.mem_cons_self) _
      · rw [List.map_cons, joined_cons (by simpa using hnil), List.append_assoc,
          List.append_assoc]
        exact hfirst (hes e List.mem_cons_self) _
    have hlength := length_le_joined (es.map written)
    rw [enclosed?, if_neg hhead, List.append_assoc]
    refine separated?_complete h hclosing hcomma hne hes ?_ rest
    simp only [List.length_map, List.length_append, List.length_cons] at hlength ⊢
    omega

end Enclosed

/-! ### Values -/

def member? (read : Reader Json) : Reader (Text × Json) := fun t =>
  match padded? quoted? t with
  | some (key, ':' :: rest) => Reader.map (fun v => (key, v)) (padded? read) rest
  | _ => none

def nested? (read : Reader Json) : Reader Json
  | '[' :: t => Reader.map .list (enclosed? ']' (padded? read)) t
  | '\x7b' :: t => Reader.map .object (enclosed? '\x7d' (member? read)) t
  | _ => none

/-- A value that holds no more than `bound` others inside each other. -/
def value? : Nat → Reader Json
  | 0, _ => none
  | bound + 1, t =>
    (Reader.map .integer integer? t).or
      ((Reader.map .text quoted? t).or ((word? t).or (nested? (value? bound) t)))

/-- The value of a JSON text. A value is not nested deeper than its text is long. -/
def read? (t : Text) : Option Json :=
  match padded? (value? t.length) t with
  | some (v, []) => some v
  | _ => none

def MemberOf (grammar : Text → Json → Prop) : Text → Text × Json → Prop :=
  Shown Member.written Member.value fun member => grammar member.entry.text member.entry.value

lemma member?_sound {read : Reader Json} {grammar : Text → Json → Prop}
    (h : Reader.Sound read grammar) : Reader.Sound (member? read) (MemberOf grammar) := by
  intro t a rest hread
  rw [member?] at hread
  split at hread
  · next key rest' hkey =>
    obtain ⟨v, hvalue, rfl⟩ := Reader.map_eq_some_iff.mp hread
    obtain ⟨_, rfl, k, hquoted, rfl, rfl⟩ := padded?_sound quoted?_sound hkey
    obtain ⟨_, rfl, entry, hentry, rfl, rfl⟩ := padded?_sound h hvalue
    exact ⟨k.written ++ ':' :: entry.written, by simp, ⟨k, entry, hquoted⟩, hentry, rfl, rfl⟩
  · cases hread

lemma Quoted.begins {t s : Text} (h : Quoted t s) : Begins t := by
  cases h
  exact ⟨'"', _, rfl, by decide, by decide⟩

lemma member?_complete {read : Reader Json} {grammar : Text → Json → Prop}
    (h : Reader.Complete read grammar NoDigit) (hbegins : ∀ {t a}, grammar t a → Begins t) :
    Reader.Complete (member? read) (MemberOf grammar) Ends := by
  rintro _ _ ⟨⟨key, entry, hquoted⟩, hentry, rfl, rfl⟩ rest hrest
  have hstring : Reader.Complete quoted? Quoted NoDigit := fun hq rest _ =>
    quoted?_complete hq rest trivial
  have hkey := padded?_complete hstring Quoted.begins ⟨key, hquoted, rfl, rfl⟩
    (':' :: (entry.written ++ rest)) (by simp [Ends, blanks])
  have hvalue := padded?_complete h hbegins ⟨entry, hentry, rfl, rfl⟩ rest hrest
  rw [Member.written, List.append_assoc, List.cons_append, member?, hkey]
  exact Reader.map_eq_some_iff.mpr ⟨_, hvalue, rfl⟩

/-- **Soundness**: the value that is read is one that the text denotes. -/
lemma value?_sound (bound : Nat) : Reader.Sound (value? bound) Value := by
  -- On the bound; the alternatives are tried in the order number, string, word, brackets.
  induction bound with
  | zero =>
    intro t v rest h
    cases h
  | succ bound ih =>
    intro t v rest h
    rw [value?] at h
    rcases Option.or_eq_some_iff.mp h with hinteger | ⟨-, h⟩
    · obtain ⟨n, hread, rfl⟩ := Reader.map_eq_some_iff.mp hinteger
      obtain ⟨u, rfl, hu⟩ := integer?_sound hread
      exact ⟨u, rfl, .integer hu⟩
    rcases Option.or_eq_some_iff.mp h with hquoted | ⟨-, h⟩
    · obtain ⟨s, hread, rfl⟩ := Reader.map_eq_some_iff.mp hquoted
      obtain ⟨u, rfl, hu⟩ := quoted?_sound hread
      exact ⟨u, rfl, .text hu⟩
    rcases Option.or_eq_some_iff.mp h with hword | ⟨-, h⟩
    · obtain ⟨u, rfl, hu⟩ := word?_sound hword
      exact ⟨u, rfl, .word hu⟩
    unfold nested? at h
    split at h
    · obtain ⟨items, hread, rfl⟩ := Reader.map_eq_some_iff.mp h
      obtain ⟨_, rfl, ⟨gap, hgap, rfl, rfl⟩ | ⟨entries, hne, hentries, rfl, rfl⟩⟩ :=
        enclosed?_sound (padded?_sound ih) hread
      · exact ⟨'[' :: gap ++ [']'], rfl, .noItems hgap⟩
      · exact ⟨_, rfl, .items hne hentries⟩
    · obtain ⟨items, hread, rfl⟩ := Reader.map_eq_some_iff.mp h
      obtain ⟨_, rfl, ⟨gap, hgap, rfl, rfl⟩ | ⟨members, hne, hmembers, rfl, rfl⟩⟩ :=
        enclosed?_sound (member?_sound ih) hread
      · exact ⟨'\x7b' :: gap ++ ['\x7d'], rfl, .noMembers hgap⟩
      · exact ⟨_, rfl, .members hne hmembers⟩
    · cases h

lemma Integer.eq_cons {t : Text} {n : Int} (h : Integer t n) :
    ∃ c u, t = c :: u ∧ (c.isDigit ∨ c = '-') := by
  cases h with
  | natural hnatural =>
    obtain ⟨c, u, rfl, hc⟩ := hnatural.eq_cons
    exact ⟨c, u, rfl, .inl hc⟩
  | negative hnatural => exact ⟨'-', _, rfl, .inr rfl⟩

lemma Value.begins {t : Text} {v : Json} (h : Value t v) : Begins t := by
  cases h with
  | word hword =>
    simp only [words, List.mem_cons, Prod.mk.injEq, List.not_mem_nil, or_false] at hword
    rcases hword with ⟨rfl, -⟩ | ⟨rfl, -⟩ | ⟨rfl, -⟩ <;>
      exact ⟨_, _, rfl, by decide, by decide⟩
  | integer hinteger =>
    obtain ⟨c, u, rfl, hc⟩ := hinteger.eq_cons
    have hout : ∀ d ∈ blanks ++ [']', '\x7d'], ¬ d.isDigit ∧ d ≠ '-' := by simp [blanks]
    refine ⟨c, u, rfl, fun hmem => ?_, fun hmem => ?_⟩
    · obtain ⟨hdigit, hminus⟩ := hout c (List.mem_append_left _ hmem)
      exact hc.elim hdigit hminus
    · obtain ⟨hdigit, hminus⟩ := hout c (List.mem_append_right _ hmem)
      exact hc.elim hdigit hminus
  | text hquoted => exact hquoted.begins
  | noItems _ => exact ⟨'[', _, rfl, by decide, by decide⟩
  | items _ _ => exact ⟨'[', _, rfl, by decide, by decide⟩
  | noMembers _ => exact ⟨'\x7b', _, rfl, by decide, by decide⟩
  | members _ _ => exact ⟨'\x7b', _, rfl, by decide, by decide⟩

lemma Begins.skip_head_ne {t rest : Text} (h : Begins t) {gap : Text} (hgap : Gap gap) :
    ∀ c ∈ [']', '\x7d'], (skip (gap ++ (t ++ rest))).head? ≠ some c := by
  intro c hc
  rw [h.skip_append hgap]
  obtain ⟨d, u, rfl, -, hd⟩ := h
  rintro heq
  cases heq
  exact hd hc

lemma integer?_eq_none {c : Char} {t : Text} (hdigit : ¬ c.isDigit) (hminus : c ≠ '-') :
    integer? (c :: t) = none := by
  rcases hread : integer? (c :: t) with _ | ⟨n, rest⟩
  · rfl
  · obtain ⟨u, hu, hinteger⟩ := integer?_sound hread
    obtain ⟨d, v, rfl, hd⟩ := hinteger.eq_cons
    obtain rfl : c = d := (List.cons.inj hu).1
    exact absurd hd (not_or.mpr ⟨hdigit, hminus⟩)

lemma value?_word {t : Text} {v : Json} (h : (t, v) ∈ words) (bound : Nat) (rest : Text) :
    value? (bound + 1) (t ++ rest) = some (v, rest) := by
  have hread := word?_complete h rest trivial
  simp only [words, List.mem_cons, Prod.mk.injEq, List.not_mem_nil, or_false] at h
  have hinteger : integer? (t ++ rest) = none := by
    rcases h with ⟨rfl, -⟩ | ⟨rfl, -⟩ | ⟨rfl, -⟩ <;>
      exact integer?_eq_none (by decide) (by decide)
  have hquoted : quoted? (t ++ rest) = none := by
    rcases h with ⟨rfl, -⟩ | ⟨rfl, -⟩ | ⟨rfl, -⟩ <;> rfl
  simp [value?, Reader.map, hinteger, hquoted, hread]

lemma value?_text {t s : Text} (h : Quoted t s) (bound : Nat) (rest : Text) :
    value? (bound + 1) (t ++ rest) = some (.text s, rest) := by
  have hread := quoted?_complete h rest trivial
  have hinteger : integer? (t ++ rest) = none := by
    cases h
    exact integer?_eq_none (by decide) (by decide)
  simp [value?, Reader.map, hinteger, hread]

/-- What begins with a bracket is no number, no string and no word. -/
lemma value?_bracket {c : Char} (hc : c ∈ ['[', '\x7b']) (bound : Nat) (t : Text) :
    value? (bound + 1) (c :: t) = nested? (value? bound) (c :: t) := by
  have hscalar : ∀ d ∈ ['[', '\x7b'], ¬ d.isDigit ∧ d ≠ '-' := by simp
  have hinteger : integer? (c :: t) = none :=
    integer?_eq_none (hscalar c hc).1 (hscalar c hc).2
  simp only [List.mem_cons, List.not_mem_nil, or_false] at hc
  rw [value?, Reader.map, hinteger]
  rcases hc with rfl | rfl <;> rfl

section Brackets

variable {read : Reader Json} {grammar : Text → Json → Prop}

lemma items_complete (h : Reader.Complete read grammar NoDigit)
    (hbegins : ∀ {t a}, grammar t a → Begins t) :
    Reader.Complete (enclosed? ']' (padded? read))
      (Enclosed ']' Entry.written Entry.value fun entry => grammar entry.text entry.value)
      fun _ => True := by
  refine enclosed?_complete (padded?_complete h hbegins) (by decide) (by decide) ?_
  intro entry hentry rest
  rw [Entry.written, List.append_assoc, List.append_assoc]
  exact (hbegins hentry).skip_head_ne entry.before_gap _ (by simp)

lemma members_complete (h : Reader.Complete read grammar NoDigit)
    (hbegins : ∀ {t a}, grammar t a → Begins t) :
    Reader.Complete (enclosed? '\x7d' (member? read))
      (Enclosed '\x7d' Member.written Member.value
        fun member => grammar member.entry.text member.entry.value)
      fun _ => True := by
  refine enclosed?_complete (member?_complete h hbegins) (by decide) (by decide) ?_
  intro member _ rest
  rw [Member.written, Entry.written, List.append_assoc, List.append_assoc, List.append_assoc]
  exact member.quoted.begins.skip_head_ne member.key.before_gap _ (by simp)

end Brackets

/-- **Completeness**: a value that a text denotes is read, up to a rest that no number goes on
in. -/
lemma value?_complete (bound : Nat) :
    Reader.Complete (value? bound) (fun t v => Value t v ∧ t.length ≤ bound) NoDigit := by
  -- On the bound: what stands between brackets is shorter than the text with them.
  induction bound with
  | zero =>
    rintro t v ⟨hvalue, hlength⟩ rest -
    obtain ⟨c, u, rfl, -⟩ := hvalue.begins
    cases hlength
  | succ bound ih =>
    rintro t v ⟨hvalue, hlength⟩ rest hrest
    have hbegins : ∀ {t v}, Value t v ∧ t.length ≤ bound → Begins t := fun h => h.1.begins
    cases hvalue with
    | word hword => exact value?_word hword bound rest
    | integer hinteger => simp [value?, Reader.map, integer?_complete hinteger rest hrest]
    | text hquoted => exact value?_text hquoted bound rest
    | noItems hgap =>
      have hread := items_complete ih hbegins (.inl ⟨_, hgap, rfl, rfl⟩) rest trivial
      exact (value?_bracket (by simp) bound _).trans (Reader.map_eq_some_iff.mpr ⟨_, hread, rfl⟩)
    | @items entries hne hentries =>
      have hshort : ∀ entry ∈ entries, entry.text.length ≤ bound := by
        intro entry hentry
        have hentry := entry.length_le_joined hentry
        simp only [List.length_append, List.length_cons] at hlength
        omega
      have hread := items_complete ih hbegins
        (.inr ⟨_, hne, fun e he => ⟨hentries e he, hshort e he⟩, rfl, rfl⟩) rest trivial
      exact (value?_bracket (by simp) bound _).trans (Reader.map_eq_some_iff.mpr ⟨_, hread, rfl⟩)
    | noMembers hgap =>
      have hread := members_complete ih hbegins (.inl ⟨_, hgap, rfl, rfl⟩) rest trivial
      exact (value?_bracket (by simp) bound _).trans (Reader.map_eq_some_iff.mpr ⟨_, hread, rfl⟩)
    | @members members hne hmembers =>
      have hshort : ∀ member ∈ members, member.entry.text.length ≤ bound := by
        intro member hmember
        have hmember := member.length_le_joined hmember
        simp only [List.length_append, List.length_cons] at hlength
        omega
      have hread := members_complete ih hbegins
        (.inr ⟨_, hne, fun m hm => ⟨hmembers m hm, hshort m hm⟩, rfl, rfl⟩) rest trivial
      exact (value?_bracket (by simp) bound _).trans (Reader.map_eq_some_iff.mpr ⟨_, hread, rfl⟩)

/-- **A text is read as a value** just if it denotes that value. -/
theorem read?_eq_some_iff {t : Text} {v : Json} : read? t = some v ↔ Document t v := by
  constructor
  · intro h
    unfold read? at h
    split at h
    · next v' hread =>
      obtain rfl : v' = v := Option.some.inj h
      obtain ⟨u, ht, hdocument⟩ := padded?_sound (value?_sound _) hread
      rwa [ht, List.append_nil]
    · cases h
  · rintro ⟨entry, hvalue, rfl, rfl⟩
    have hread := padded?_complete (value?_complete entry.written.length) (fun h => h.1.begins)
      ⟨entry, ⟨hvalue, entry.length_le⟩, rfl, rfl⟩ [] (by simp [Ends])
    rw [List.append_nil] at hread
    rw [read?, hread]

/-- No text denotes two values. -/
theorem Document.unique {t : Text} {v w : Json} (hv : Document t v) (hw : Document t w) : v = w :=
  Option.some.inj ((read?_eq_some_iff.mpr hv).symm.trans (read?_eq_some_iff.mpr hw))

end Pebble.Json
