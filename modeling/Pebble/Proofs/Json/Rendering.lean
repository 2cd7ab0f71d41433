import Pebble.Proofs.Json.Grammar
import Pebble.Proofs.Token.Layout

/-!
What is written for a value: a text of ASCII characters that denotes the value, in every layout
that adds nothing but white space.
-/

namespace Pebble

namespace Json

/-! ### Code units -/

/-- The last digit of a padded numeral, and the numeral before it. -/
lemma leftpad_toDigits {b : Nat} (hb : 1 < b) (k n : Nat) :
    (Nat.toDigits b n).leftpad (k + 2) '0' =
      (Nat.toDigits b (n / b)).leftpad (k + 1) '0' ++ [Nat.digitChar (n % b)] := by
  by_cases hn : n < b
  · rw [Nat.toDigits_of_lt_base hn, Nat.div_eq_of_lt hn, Nat.mod_eq_of_lt hn, Nat.toDigits_zero]
    simp [List.leftpad, ← List.replicate_succ']
  · rw [Nat.toDigits_of_base_le hb (by omega)]
    simp [List.leftpad]

/-- A number below `0x10000` in four hexadecimal digits. -/
lemma hex_four {n : Nat} (h : n < 0x10000) :
    Text.hex 4 n =
      [Nat.digitChar (n / 4096), Nat.digitChar (n / 256 % 16), Nat.digitChar (n / 16 % 16),
        Nat.digitChar (n % 16)] := by
  have hfirst : n / 16 / 16 / 16 < 16 := by omega
  rw [Text.hex, leftpad_toDigits (by omega), leftpad_toDigits (by omega),
    leftpad_toDigits (by omega), Nat.toDigits_of_lt_base hfirst]
  simp [List.leftpad, Nat.div_div_eq_div_mul]

lemma hexDigit?_digitChar : ∀ d < 16, hexDigit? (Nat.digitChar d) = some d := by decide

lemma codeUnit_unit {n : Nat} (h : n < 0x10000) : CodeUnit (unit n) n := by
  have hvalue : ((n / 4096 * 16 + n / 256 % 16) * 16 + n / 16 % 16) * 16 + n % 16 = n := by
    omega
  have hunit := CodeUnit.mk (hexDigit?_digitChar (n / 4096) (by omega))
    (hexDigit?_digitChar (n / 256 % 16) (by omega)) (hexDigit?_digitChar (n / 16 % 16) (by omega))
    (hexDigit?_digitChar (n % 16) (by omega))
  rw [hvalue] at hunit
  rw [unit, hex_four h]
  exact hunit

/-! ### Strings -/

lemma paired_eq {c : Char} (h : 0x10000 ≤ c.toNat) :
    paired (0xD800 + (c.toNat - 0x10000) / 0x400) (0xDC00 + (c.toNat - 0x10000) % 0x400) = c := by
  have hvalue : 0x10000 + (0xD800 + (c.toNat - 0x10000) / 0x400 - 0xD800) * 0x400 +
      (0xDC00 + (c.toNat - 0x10000) % 0x400 - 0xDC00) = c.toNat := by omega
  rw [paired, hvalue, Char.ofNat_toNat]

lemma not_surrogate (c : Char) :
    c.toNat < 0xD800 ∨ 0xE000 ≤ c.toNat ∧ c.toNat < 0x110000 := c.valid

/-- All the ways in which a code point is written. -/
lemma escaped_cases (n : Nat) :
    (∃ l c, (l, c) ∈ letters ∧ c.toNat = n ∧ escaped n = ['\\', l]) ∨
      (∃ c, Plain c ∧ c.toNat = n ∧ n < 128 ∧ escaped n = [c]) ∨
      (n < 0x10000 ∧ escaped n = unit n) ∨
      (0x10000 ≤ n ∧
        escaped n =
          unit (0xD800 + (n - 0x10000) / 0x400) ++ unit (0xDC00 + (n - 0x10000) % 0x400)) := by
  by_cases hletter : ∃ c ∈ ['"', '\\', '\n', '\r', '\t', '\x0c', '\x08'], c.toNat = n
  · obtain ⟨c, hc, rfl⟩ := hletter
    simp only [List.mem_cons, List.not_mem_nil, or_false] at hc
    rcases hc with rfl | rfl | rfl | rfl | rfl | rfl | rfl <;>
      exact .inl ⟨_, _, by decide, rfl, rfl⟩
  · -- none of the characters with a letter of its own: printed, a single unit, or a pair
    simp only [List.exists_mem_cons_iff, List.not_mem_nil, false_and, exists_false, or_false,
      not_or] at hletter
    obtain ⟨hquote, hslash, hfeed, hreturn, htab, hform, hback⟩ := hletter
    rw [escaped, if_neg (Ne.symm hquote), if_neg (Ne.symm hslash), if_neg (Ne.symm hfeed),
      if_neg (Ne.symm hreturn), if_neg (Ne.symm htab), if_neg (Ne.symm hform),
      if_neg (Ne.symm hback)]
    by_cases hprinted : 0x20 ≤ n ∧ n < 0x7F
    · have hchars : ∀ m < 0x7F, (Char.ofNat m).toNat = m := by decide
      have hchar := hchars n hprinted.2
      rw [if_pos hprinted]
      refine .inr (.inl ⟨Char.ofNat n, ⟨by omega, ?_, ?_⟩, hchar, by omega, rfl⟩)
      · rintro heq
        exact hquote (heq ▸ hchar)
      · rintro heq
        exact hslash (heq ▸ hchar)
    rw [if_neg hprinted]
    by_cases hbasic : n < 0x10000
    · rw [if_pos hbasic]
      exact .inr (.inr (.inl ⟨hbasic, rfl⟩))
    · rw [if_neg hbasic]
      exact .inr (.inr (.inr ⟨by omega, rfl⟩))

lemma piece_escaped (c : Char) : Piece (escaped c.toNat) c := by
  have hvalid := not_surrogate c
  rcases escaped_cases c.toNat with ⟨l, d, hletter, hd, heq⟩ | ⟨d, hplain, hd, -, heq⟩ |
    ⟨hbasic, heq⟩ | ⟨hlarge, heq⟩ <;> rw [heq]
  · obtain rfl := Char.toNat_inj.mp hd
    exact .letter hletter
  · obtain rfl := Char.toNat_inj.mp hd
    exact .plain hplain
  · -- a character is no half of a pair
    have hpiece := Piece.unit (codeUnit_unit hbasic) (by unfold IsHigh; omega)
      (by unfold IsLow; omega)
    rwa [Char.ofNat_toNat] at hpiece
  · have hpiece := Piece.pair
      (codeUnit_unit (n := 0xD800 + (c.toNat - 0x10000) / 0x400) (by omega))
      (by unfold IsHigh; omega)
      (codeUnit_unit (n := 0xDC00 + (c.toNat - 0x10000) % 0x400) (by omega))
      (by unfold IsLow; omega)
    rwa [paired_eq hlarge] at hpiece

lemma body_escaped (t : Text) : Body ((t.map Char.toNat).flatMap escaped) t := by
  induction t with
  | nil => exact .nil
  | cons c t ih => exact .cons (piece_escaped c) ih

lemma quoted_string (t : Text) : Quoted (string t) t := .mk (body_escaped t)

/-! ### Numbers -/

lemma natural_ofNat (n : Nat) : Natural (Text.ofNat n) := by
  refine ⟨Text.ofNat_ne_nil, fun c hc => Text.isDigit_of_mem_ofNat hc, fun hzero => ?_⟩
  rcases Nat.eq_zero_or_pos n with rfl | hn
  · exact Nat.toDigits_zero 10
  · exact absurd rfl (Text.head_ofNat hn _ hzero)

lemma integer_ofInt (n : Int) : Integer (Text.ofInt n) n := by
  cases n with
  | ofNat n =>
    have h := Integer.natural (natural_ofNat n)
    rwa [Numeral.value_ofNat] at h
  | negSucc n =>
    have h := Integer.negative (natural_ofNat (n + 1))
    rwa [Numeral.value_ofNat] at h

/-! ### Layouts -/

/-- A layout that adds nothing but white space to the comma. -/
structure Layout.Spaces (layout : Layout) : Prop where
  comma : ∃ gap, layout.comma = ',' :: gap ∧ Gap gap
  start (depth : Nat) : Gap (layout.start depth)

lemma Layout.compact_spaces : Layout.compact.Spaces where
  comma := ⟨[' '], rfl, gap_replicate 1⟩
  start _ := gap_nil

lemma Layout.pretty_spaces : Layout.pretty.Spaces where
  comma := ⟨[], rfl, gap_nil⟩
  start depth := .cons (by decide) (gap_replicate (2 * depth))

lemma Layout.ofPretty_spaces (pretty : Bool) : (Layout.ofPretty pretty).Spaces := by
  cases pretty
  · exact compact_spaces
  · exact pretty_spaces

variable {layout : Layout} {depth : Nat}

lemma items_eq_joined {π : Type} (text : π → Text) (h : layout.Spaces) (depth : Nat)
    {before : Text} (hbefore : Gap before) (first : π) (pieces : List π) :
    ∃ entries : List (Entry π),
      before ++ text first ++
          (pieces.map text).flatMap
            (fun other => layout.comma ++ layout.start (depth + 1) ++ other) ++
          layout.start depth =
        joined (entries.map Entry.written) ∧
      entries.map Entry.value = first :: pieces ∧
      ∀ entry ∈ entries, entry.text = text entry.value := by
  -- the white space behind a comma belongs to the entry after it
  induction pieces generalizing first before with
  | nil =>
    refine ⟨[⟨before, text first, layout.start depth, first, hbefore, h.start depth⟩], ?_, rfl, ?_⟩
    · simp [joined_singleton, Entry.written]
    · simp
  | cons second pieces ih =>
    obtain ⟨gap, hcomma, hgap⟩ := h.comma
    obtain ⟨entries, hjoined, hvalues, htexts⟩ :=
      ih (hgap.append (h.start (depth + 1))) second
    refine ⟨⟨before, text first, [], first, hbefore, gap_nil⟩ :: entries, ?_, ?_, ?_⟩
    · have hne : entries.map Entry.written ≠ [] := by
        rintro hnil
        rw [List.map_eq_nil_iff.mp hnil] at hvalues
        cases hvalues
      rw [List.map_cons, List.map_cons, joined_cons hne, ← hjoined, hcomma]
      simp [Entry.written]
    · simp [hvalues]
    · simpa using htexts

lemma bracketed_eq {π : Type} (text : π → Text) (h : layout.Spaces) {pieces : List π}
    (hne : pieces ≠ []) (opening closing : Char) :
    ∃ entries : List (Entry π),
      bracketed layout depth opening closing (pieces.map text) =
        opening :: joined (entries.map Entry.written) ++ [closing] ∧
      entries.map Entry.value = pieces ∧
      ∀ entry ∈ entries, entry.text = text entry.value := by
  obtain ⟨first, pieces, rfl⟩ := List.exists_cons_of_ne_nil hne
  obtain ⟨entries, hjoined, hvalues, htexts⟩ :=
    items_eq_joined text h depth (h.start (depth + 1)) first pieces
  refine ⟨entries, ?_, hvalues, htexts⟩
  rw [← hjoined]
  simp [bracketed]

/-! ### Values -/

def renderMember (layout : Layout) (depth : Nat) (member : Text × Json) : Text :=
  string member.1 ++ ": ".toList ++ render layout depth member.2

lemma renderItems_eq (items : List Json) :
    renderItems layout depth items = items.map (render layout depth) := by
  induction items with
  | nil => rfl
  | cons item items ih => rw [renderItems, ih, List.map_cons]

lemma renderMembers_eq (members : List (Text × Json)) :
    renderMembers layout depth members = members.map (renderMember layout depth) := by
  induction members with
  | nil => rfl
  | cons member members ih =>
    rw [renderMembers, ih, List.map_cons]
    rfl

def Entry.member (layout : Layout) (depth : Nat) (entry : Entry (Text × Json)) : Member where
  key := ⟨entry.before, string entry.value.1, [], entry.value.1, entry.before_gap, gap_nil⟩
  entry :=
    ⟨[' '], render layout depth entry.value.2, entry.after, entry.value.2, gap_replicate 1,
      entry.after_gap⟩
  quoted := quoted_string entry.value.1

lemma Entry.member_written {entry : Entry (Text × Json)}
    (h : entry.text = renderMember layout depth entry.value) :
    (entry.member layout depth).written = entry.written := by
  simp [Member.written, Entry.written, Entry.member, h, renderMember]

lemma value_items (h : layout.Spaces) {items : List Json}
    (hitems : ∀ item ∈ items, Value (render layout (depth + 1) item) item) :
    Value (bracketed layout depth '[' ']' (renderItems layout (depth + 1) items))
      (.list items) := by
  rw [renderItems_eq]
  by_cases hnil : items = []
  · subst hnil
    exact .noItems gap_nil
  · obtain ⟨entries, htext, rfl, htexts⟩ :=
      bracketed_eq (render layout (depth + 1)) h hnil '[' ']'
    rw [htext]
    refine .items (by simpa using hnil) fun entry hentry => ?_
    rw [htexts entry hentry]
    exact hitems _ (List.mem_map_of_mem hentry)

lemma value_members (h : layout.Spaces) {members : List (Text × Json)}
    (hmembers : ∀ member ∈ members, Value (render layout (depth + 1) member.2) member.2) :
    Value (bracketed layout depth '\x7b' '\x7d' (renderMembers layout (depth + 1) members))
      (.object members) := by
  rw [renderMembers_eq]
  by_cases hnil : members = []
  · subst hnil
    exact .noMembers gap_nil
  · obtain ⟨entries, htext, rfl, htexts⟩ :=
      bracketed_eq (renderMember layout (depth + 1)) h hnil '\x7b' '\x7d'
    -- an entry here is a key, a colon and a value; each is taken apart into the two
    have hwritten : entries.map Entry.written =
        (entries.map (Entry.member layout (depth + 1))).map Member.written := by
      rw [List.map_map]
      exact List.map_congr_left fun entry hentry =>
        (Entry.member_written (htexts entry hentry)).symm
    have hvalue : entries.map Entry.value =
        (entries.map (Entry.member layout (depth + 1))).map Member.value := by
      rw [List.map_map]
      rfl
    rw [htext, hwritten, hvalue]
    refine .members (by simpa using hnil) fun member hmember => ?_
    obtain ⟨entry, hentry, rfl⟩ := List.mem_map.mp hmember
    exact hmembers _ (List.mem_map_of_mem hentry)

mutual

/-- **The text of a value denotes it**, in every layout. -/
lemma value_render (h : layout.Spaces) : ∀ (depth : Nat) (v : Json), Value (render layout depth v) v
  | _, .null => .word (.head _)
  | _, .bool true => .word (.tail _ (.head _))
  | _, .bool false => .word (.tail _ (.tail _ (.head _)))
  | _, .integer n => .integer (integer_ofInt n)
  | _, .text t => .text (quoted_string t)
  | depth, .list items => value_items h (value_renderItems h (depth + 1) items)
  | depth, .object members => value_members h (value_renderMembers h (depth + 1) members)

lemma value_renderItems (h : layout.Spaces) :
    ∀ (depth : Nat) (items : List Json), ∀ item ∈ items, Value (render layout depth item) item
  | _, [] => List.forall_mem_nil _
  | depth, item :: items =>
    List.forall_mem_cons.mpr ⟨value_render h depth item, value_renderItems h depth items⟩

lemma value_renderMembers (h : layout.Spaces) :
    ∀ (depth : Nat) (members : List (Text × Json)),
      ∀ member ∈ members, Value (render layout depth member.2) member.2
  | _, [] => List.forall_mem_nil _
  | depth, (_, value) :: members =>
    List.forall_mem_cons.mpr ⟨value_render h depth value, value_renderMembers h depth members⟩

end

/-! ### ASCII -/

def Ascii (t : Text) : Prop := ∀ c ∈ t, c.toNat < 128

instance (t : Text) : Decidable (Ascii t) := List.decidableBAll _ t

lemma Ascii.cons {c : Char} {t : Text} (hc : c.toNat < 128) (h : Ascii t) : Ascii (c :: t) :=
  List.forall_mem_cons.mpr ⟨hc, h⟩

lemma Ascii.append {t u : Text} (ht : Ascii t) (hu : Ascii u) : Ascii (t ++ u) :=
  List.forall_mem_append.mpr ⟨ht, hu⟩

lemma ascii_flatMap {α : Type} {text : α → Text} {as : List α} (h : ∀ a ∈ as, Ascii (text a)) :
    Ascii (as.flatMap text) := by
  intro c hc
  obtain ⟨a, ha, hmem⟩ := List.mem_flatMap.mp hc
  exact h a ha c hmem

lemma Gap.ascii {t : Text} (h : Gap t) : Ascii t := by
  have hall : ∀ c ∈ blanks, c.toNat < 128 := by simp [blanks]
  exact fun c hc => hall c (h c hc)

lemma ascii_unit {n : Nat} (h : n < 0x10000) : Ascii (unit n) := by
  have hdigit : ∀ d < 16, (Nat.digitChar d).toNat < 128 := by decide
  rw [unit, hex_four h]
  refine Ascii.append (by decide) ?_
  exact .cons (hdigit _ (by omega)) (.cons (hdigit _ (by omega)) (.cons (hdigit _ (by omega))
    (.cons (hdigit _ (by omega)) (List.forall_mem_nil _))))

/-- Code points go up to `0x10FFFF`. -/
lemma ascii_escaped {n : Nat} (h : n < 0x110000) : Ascii (escaped n) := by
  have hletters : ∀ letter ∈ letters, letter.1.toNat < 128 := by decide
  rcases escaped_cases n with ⟨l, d, hletter, -, heq⟩ | ⟨d, -, hd, hsmall, heq⟩ |
    ⟨hbasic, heq⟩ | ⟨hlarge, heq⟩ <;> rw [heq]
  · exact .cons (by decide) (.cons (hletters _ hletter) (List.forall_mem_nil _))
  · exact .cons (hd ▸ hsmall) (List.forall_mem_nil _)
  · exact ascii_unit hbasic
  · exact .append (ascii_unit (by omega)) (ascii_unit (by omega))

lemma ascii_string (t : Text) : Ascii (string t) := by
  refine .append (.cons (by decide) (ascii_flatMap fun n hn => ?_)) (by decide)
  obtain ⟨c, -, rfl⟩ := List.mem_map.mp hn
  have hvalid := not_surrogate c
  exact ascii_escaped (by omega)

lemma ascii_ofNat (n : Nat) : Ascii (Text.ofNat n) := by
  intro c hc
  have hdigit := Text.isDigit_of_mem_ofNat hc
  simp only [Char.isDigit, Bool.and_eq_true, decide_eq_true_eq, UInt32.le_iff_toNat_le] at hdigit
  exact lt_of_le_of_lt hdigit.2 (by decide)

lemma ascii_ofInt (n : Int) : Ascii (Text.ofInt n) := by
  cases n with
  | ofNat n => exact ascii_ofNat n
  | negSucc n => exact .cons (by decide) (ascii_ofNat (n + 1))

lemma ascii_bracketed (h : layout.Spaces) {opening closing : Char} (hopening : opening.toNat < 128)
    (hclosing : closing.toNat < 128) {items : List Text} (hitems : ∀ item ∈ items, Ascii item) :
    Ascii (bracketed layout depth opening closing items) := by
  have hend : Ascii [closing] := .cons hclosing (List.forall_mem_nil _)
  obtain ⟨gap, hcomma, hgap⟩ := h.comma
  cases items with
  | nil => exact .cons hopening hend
  | cons item items =>
    obtain ⟨hitem, hitems⟩ := List.forall_mem_cons.mp hitems
    have hothers : Ascii (items.flatMap
        fun other => layout.comma ++ layout.start (depth + 1) ++ other) := by
      refine ascii_flatMap fun other hother => ?_
      rw [hcomma]
      exact .append (.append (.cons (by decide) hgap.ascii) (h.start (depth + 1)).ascii)
        (hitems other hother)
    rw [bracketed]
    exact ((((Ascii.cons hopening (h.start (depth + 1)).ascii).append hitem).append
      hothers).append (h.start depth).ascii).append hend

mutual

/-- What is written for a value is ASCII. -/
lemma ascii_render (h : layout.Spaces) : ∀ (depth : Nat) (v : Json), Ascii (render layout depth v)
  | _, .null => (by decide : Ascii "null".toList)
  | _, .bool true => (by decide : Ascii "true".toList)
  | _, .bool false => (by decide : Ascii "false".toList)
  | _, .integer n => ascii_ofInt n
  | _, .text t => ascii_string t
  | depth, .list items =>
    ascii_bracketed h (by decide) (by decide) (ascii_renderItems h (depth + 1) items)
  | depth, .object members =>
    ascii_bracketed h (by decide) (by decide) (ascii_renderMembers h (depth + 1) members)

lemma ascii_renderItems (h : layout.Spaces) :
    ∀ (depth : Nat) (items : List Json), ∀ text ∈ renderItems layout depth items, Ascii text
  | _, [] => List.forall_mem_nil _
  | depth, item :: items =>
    List.forall_mem_cons.mpr ⟨ascii_render h depth item, ascii_renderItems h depth items⟩

lemma ascii_renderMembers (h : layout.Spaces) :
    ∀ (depth : Nat) (members : List (Text × Json)),
      ∀ text ∈ renderMembers layout depth members, Ascii text
  | _, [] => List.forall_mem_nil _
  | depth, (key, value) :: members =>
    List.forall_mem_cons.mpr
      ⟨((ascii_string key).append (by decide)).append (ascii_render h depth value),
        ascii_renderMembers h depth members⟩

end

end Json

end Pebble
