import Pebble.Command.Task
import Pebble.Proofs.Grammar.Concatenation
import Pebble.Proofs.Grammar.Properness
import Pebble.Proofs.Token.Spacing

/-!
Failures: what can keep a text from its result. Beside the reports there are only numerals out of
reach: an integer with more digits than can be read, and a decimal whose exponent cannot be
represented.
-/

namespace Pebble

namespace Numeral

/-- A token that is a numeral out of reach, with the fault for which it cannot be read. -/
inductive OutOfReach : Token → Fault → Prop
  | integer {t : Token} {negative : Bool} {digits : Text} : t.kind = .integer →
    t.literal = Decimal.sign negative ++ digits → (∀ c ∈ digits, c.isDigit) →
    maxDigits < digits.length → OutOfReach t (.tooLong digits.length)
  | decimal {t : Token} : t.kind = .decimal → 10 ^ 18 < t.literal.length →
    OutOfReach t .outOfRange

end Numeral

/-- A token of a text can be read, unless it is a numeral out of reach. -/
lemma Token.outOfReach_of_reading {t : Token} (ht : t.WellFormed) {fault : Numeral.Fault}
    (h : t.reading? = some (.error fault)) : Numeral.OutOfReach t fault := by
  rcases hk : t.kind with _ | _ | _ | _ | _ | _
  · rw [reading?, terminal, hk] at h
    rcases hword : Keyword.ofText? t.literal with _ | word <;> simp [hword] at h
  · -- an integer of a text is well formed, so that its length is the only cause
    obtain ⟨negative, digits, hl, hne, hd⟩ := ht.integer hk
    rw [reading?, terminal_of_integer hk, hl] at h
    dsimp only at h
    rw [Numeral.readInteger_digits hne hd] at h
    split at h
    · next hlong =>
      cases h
      exact .integer hk hl hd hlong
    · cases h
  · -- a decimal that is out of range is very long
    obtain ⟨negative, whole, fraction, hl, hne, -, hw, hf⟩ := ht.decimal hk
    rw [reading?, terminal_of_decimal hk, hl] at h
    dsimp only at h
    rw [Decimal.read_plain hne hw hf] at h
    split at h
    · cases h
    · next hrange =>
      cases h
      refine .decimal hk ?_
      have := Decimal.lt_length_of_not_inRange hne hw hf (by simpa using hrange)
      rw [hl, List.length_append]
      omega
  · simp [reading?, terminal, hk] at h
  · simp [reading?, terminal, hk] at h
  · simp [reading?, terminal, hk] at h

/-! ### Where a task fails -/

namespace Task

variable {task : Task} {files : Directory} {failure : Failure}

lemma result_error {text : Text} {side : Associativity} (hside : task.side = .ok side)
    (h : (task.result text).1 = .error failure) :
    (∃ report, lex text = .error report ∧ failure = .report report) ∨
      ∃ tokens, lex text = .ok tokens ∧ parse side tokens = .error failure := by
  rw [result, hside] at h
  rcases hlex : lex text with report | tokens <;> simp only [hlex] at h
  · cases h
    exact .inl ⟨report, rfl, rfl⟩
  · split at h
    · cases h
    · rw [parseTo] at h
      rcases hparse : parse side tokens with fault | source <;> simp only [hparse] at h <;> cases h
      exact .inr ⟨tokens, rfl, hparse⟩

lemma deliver_failure {log : List LogEntry} {document : Text}
    (h : (task.deliver files log document).failure = some failure) :
    ∃ fault name, task.out = some name ∧ failure = .file fault name := by
  rw [deliver] at h
  split at h
  · cases h
  · cases h
  · next name _ hout =>
    split at h
    · next fault _ =>
      cases h
      exact ⟨fault, name, hout, rfl⟩
    · cases h

/-- A task fails for want of its text, of the result of that, or of a place for its output. -/
lemma run_failure (h : (task.run files).failure = some failure) :
    task.text files = .error failure ∨
      ∃ text, task.text files = .ok text ∧ ((task.result text).1 = .error failure ∨
        ∃ fault name, task.out = some name ∧ failure = .file fault name) := by
  rw [run] at h
  rcases htext : task.text files with fault | text <;> simp only [htext] at h
  · cases h
    exact .inl rfl
  · refine .inr ⟨text, rfl, ?_⟩
    rcases hresult : task.result text with ⟨fault | value, log⟩ <;> simp only [hresult] at h
    · cases h
      exact .inl rfl
    · exact .inr (deliver_failure h)

lemma run_of_parse {side : Associativity} {tokens : List Token} (hinline : task.inline = true)
    (htree : task.tokensOnly = false) (hside : task.side = .ok side)
    (hlex : lex task.source = .ok tokens) (hparse : parse side tokens = .error failure) :
    (task.run files).failure = some failure := by
  have htext : task.text files = .ok task.source := by rw [text, if_pos hinline]
  have hresult : (task.result task.source).1 = .error failure := by
    simp [result, hlex, htree, hside, parseTo, hparse]
  rw [run, htext]
  rcases hfailed : task.result task.source with ⟨fault | value, log⟩ <;>
    simp only [hfailed] at hresult ⊢ <;> cases hresult
  rfl

end Task

/-! ### From text to tree -/

lemma fault_of_lex {text : Text} {report : Report} (h : lex text = .error report) :
    ∃ kind, report.kind = .fault kind := by
  obtain ⟨_, _, _, _, _, _, cause, _, _, _, rfl⟩ := scan_report 0 (lex_eq_error.mp h)
  exact ⟨cause.kind, rfl⟩

/-- Tokens of a text that are no source are complained about, unless a numeral is out of reach. -/
lemma outOfReach_of_parse {side : Associativity} {text : Text} {tokens : List Token}
    {failure : Failure} (hlex : lex text = .ok tokens) (h : parse side tokens = .error failure) :
    (∃ report kind, failure = .report report ∧ report.kind = .complaint kind) ∨
      ∃ t ∈ tokens, ∃ fault, Numeral.OutOfReach t fault ∧ failure = .numeral fault := by
  obtain ⟨stop, rest, hrun, rfl⟩ := Grammar.parse_eq_error.mp h
  obtain cause | fault := stop
  · exact .inl ⟨_, cause.kind, rfl, rfl⟩
  · obtain ⟨t, ht, hread⟩ := Rule.Orderly.numeral _ hrun
    have hwell := Token.wellFormed_of_mem (mem_language_of_lex hlex t ht)
    exact .inr ⟨t, ht, fault, Token.outOfReach_of_reading hwell hread, rfl⟩

/-- **What keeps a text from its tree** is a report of the stage that failed or a numeral out of
reach, and nothing else. A task with such a text fails for these or for want of a place for its
output. -/
theorem failure_of_text (side : Associativity) (text : Text) :
    (∀ report, lex text = .error report → ∃ kind, report.kind = .fault kind) ∧
      (∀ tokens failure, lex text = .ok tokens → parse side tokens = .error failure →
        (∃ report kind, failure = .report report ∧ report.kind = .complaint kind) ∨
          ∃ t ∈ tokens, ∃ fault, Numeral.OutOfReach t fault ∧ failure = .numeral fault) ∧
      ∀ task : Task, task.inline → task.source = text → task.side = .ok side →
        ∀ files failure, (task.run files).failure = some failure →
          (∃ report, failure = .report report) ∨
            (∃ tokens, lex text = .ok tokens ∧
              ∃ t ∈ tokens, ∃ fault, Numeral.OutOfReach t fault ∧ failure = .numeral fault) ∨
            ∃ fault name, task.out = some name ∧ failure = .file fault name := by
  refine ⟨fun report hreport => fault_of_lex hreport,
    fun tokens failure hlex hfailed => outOfReach_of_parse hlex hfailed,
    fun task hinline hsource hside files failure h => ?_⟩
  -- the text is given, so the task fails in the scan, in the parse or at its output
  have htext : task.text files = .ok text := by rw [Task.text, hinline, if_pos rfl, hsource]
  rcases Task.run_failure h with hfailed | ⟨text', hfound, hresult | hout⟩
  · cases htext.symm.trans hfailed
  · cases htext.symm.trans hfound
    rcases Task.result_error hside hresult with ⟨report, -, rfl⟩ | ⟨tokens, hlex, hfailed⟩
    · exact .inl ⟨report, rfl⟩
    · rcases outOfReach_of_parse hlex hfailed with ⟨report, -, rfl, -⟩ | hnumeral
      · exact .inl ⟨report, rfl⟩
      · exact .inr (.inl ⟨tokens, hlex, hnumeral⟩)
  · exact .inr (.inr hout)

/-! ### Numerals out of reach -/

namespace Rule

variable {side : Associativity} {levels : Nat} {t : Token} {rest : List Token}
  {fault : Numeral.Fault}

lemma chain_error {α : Type} {combine : Text → α → α → α} {operators : List Pattern}
    {operand : Rule α} {ts : List Token} {stop : Stop} (h : operand ts = .error stop rest) :
    chain side combine operators operand ts = .error stop rest :=
  bind_error h

/-- An expression is not read past a numeral that cannot be read. -/
lemma expression_fault (h : t.reading? = some (.error fault)) :
    expression side (levels + 1) (t :: rest) = .error (.numeral fault) rest := by
  have hprimary : primary (expression side levels) (t :: rest) = .error (.numeral fault) rest := by
    rw [primary_cons, h]
  have hsecondary : secondary (expression side levels) (t :: rest) =
      .error (.numeral fault) rest := bind_error hprimary
  exact chain_error (chain_error (chain_error (chain_error hsecondary)))

/-- Nor is a field with such a value. -/
lemma field_fault {name equals : Token} (hname : name.terminal = .name)
    (hequals : equals.terminal = .mark '=') (h : t.reading? = some (.error fault)) :
    field (expression side (levels + 1)) (name :: equals :: t :: rest) =
      .error (.numeral fault) rest := by
  have hcolon : Clear [.mark ':'] (equals :: t :: rest) := by simp [hequals, Terminal.mark]
  have hmark : equals.terminal ∈ [Terminal.mark '='] := by simp [hequals]
  rw [field, bind_ok (name_of_eq hname), after?_bind,
    bind_ok (accept?_of_clear (Pattern.fit_mark ':') hcolon)]
  dsimp only
  rw [after?_bind, bind_ok (accept?_of_mem (Pattern.fit_mark '=') hmark)]
  exact bind_error (expression_fault h)

end Rule

/-- Hence nothing is read of a text that starts with such a field. -/
lemma Grammar.parse_fault {word name equals t : Token} {rest : List Token}
    {fault : Numeral.Fault} (side : Associativity) (hword : word.terminal = .word .LET)
    (hname : name.terminal = .name) (hequals : equals.terminal = .mark '=')
    (h : t.reading? = some (.error fault)) :
    parse side (word :: name :: equals :: t :: rest) = .error (.numeral fault) := by
  have hfield : Rule.field (Rule.expression side maxNesting) (name :: equals :: t :: rest) =
      .error (.numeral fault) rest := Rule.field_fault hname hequals h
  have hitem : declaration side maxNesting (word :: name :: equals :: t :: rest) =
      .error (.numeral fault) rest := by
    rw [declaration, Rule.item_of_let hword, Rule.bind_error hfield]
  have hsource : Rule.source side maxNesting (word :: name :: equals :: t :: rest) =
      .error (.numeral fault) rest := by
    rw [source_apply, declarations_cons, hitem]
  exact parse_eq_error.mpr ⟨_, _, hsource, rfl⟩

def fieldText (literal : Text) : Text :=
  Keyword.LET.spelling ++ ([' ', 'x', ' ', '=', ' '] ++ (literal ++ [' ', ';']))

def fieldPieces (kind : TokenKind) (literal : Text) : List Piece :=
  [⟨.identifier, Keyword.LET.spelling, [' ']⟩, ⟨.identifier, ['x'], [' ']⟩,
    ⟨.operator, ['='], [' ']⟩, ⟨kind, literal, [' ']⟩, ⟨.operator, [';'], []⟩]

lemma lex_fieldText {kind : TokenKind} {literal : Text} (h : literal ∈ Lexeme.language kind) :
    lex (fieldText literal) = .ok (placed 0 (fieldPieces kind literal)) := by
  have htext : fieldText literal = [] ++ spaced (fieldPieces kind literal) := by
    rw [fieldText, fieldPieces]
    simp only [spaced_cons]
    rfl
  have hlead : ∀ c ∈ ([] : Text), Scan.isBlank c := by simp
  have hapart : Apart (fieldPieces kind literal) :=
    ⟨by simp [fieldPieces, Scan.isBlank], by simp [fieldPieces]⟩
  have hname : ['x'] ∈ Lexeme.language .identifier :=
    Lexeme.mem_one_mul.mpr ⟨'x', [], Lexeme.isNameStart_iff.mp rfl, Language.nil_mem_kstar _, rfl⟩
  have hmem : ∀ piece ∈ fieldPieces kind literal, piece.literal ∈ Lexeme.language piece.kind := by
    simp only [fieldPieces, List.forall_mem_cons]
    refine ⟨Keyword.spelling_mem .LET, hname, ?_, h, ?_, by simp⟩
    · exact .inr ⟨'=', by decide, rfl⟩
    · exact .inr ⟨';', by decide, rfl⟩
  rw [htext, lex_spaced hlead hapart hmem]
  rfl

/-- **An integer out of reach stops a task**: the field with it is split into tokens, but it is
neither parsed nor reported on. -/
lemma fieldText_tooLong {digits : Text} (h : digits ∈ Lexeme.whole)
    (hlong : Numeral.maxDigits < digits.length) (side : Associativity) (files : Directory) :
    let tokens := placed 0 (fieldPieces .integer digits)
    let task : Task := { source := fieldText digits, inline := true, side := .ok side }
    lex (fieldText digits) = .ok tokens ∧
      parse side tokens = .error (.numeral (.tooLong digits.length)) ∧
      (task.run files).failure = some (.numeral (.tooLong digits.length)) := by
  intro tokens task
  have hdigits : ∀ c ∈ digits, c.isDigit := fun c hc =>
    Lexeme.isDigit_iff.mpr (Lexeme.digit_of_whole h c hc)
  have hread : Numeral.readInteger (Decimal.sign false ++ digits) =
      .error (.tooLong digits.length) := by
    rw [Numeral.readInteger_digits (Lexeme.whole_ne_nil h) hdigits, if_pos hlong]
  have hreading : Token.reading? ⟨.integer, digits, 8⟩ =
      some (.error (.tooLong digits.length)) := by
    rw [Token.reading?, Token.terminal_of_integer rfl]
    exact congrArg some (congrArg (Except.map Value.integer) hread)
  have hlex : lex (fieldText digits) = .ok tokens :=
    lex_fieldText (Language.append_mem_mul (Lexeme.sign_mem false) h)
  have hparse : parse side tokens = .error (.numeral (.tooLong digits.length)) :=
    Grammar.parse_fault side rfl rfl rfl hreading
  exact ⟨hlex, hparse, Task.run_of_parse rfl rfl rfl hlex hparse⟩

lemma Lexeme.ones_mem_whole (n : Nat) : List.replicate (n + 1) '1' ∈ whole := by
  have hone : Digit '1' := isDigit_iff.mp rfl
  have hones : ∀ c ∈ List.replicate n '1', Digit c := by
    intro c hc
    rwa [List.eq_of_mem_replicate hc]
  rw [List.replicate_succ]
  exact mem_whole.mpr
    (.inr ⟨mem_one_mul.mpr ⟨'1', _, hone, mem_one_kstar.mpr hones, rfl⟩, by simp⟩)

/-- An integer with one digit more than can be read. -/
theorem fieldText_tooLong_ones :
    let digits := List.replicate 4301 '1'
    let tokens := placed 0 (fieldPieces .integer digits)
    lex (fieldText digits) = .ok tokens ∧
      ∀ side, parse side tokens = .error (.numeral (.tooLong 4301)) ∧
        ∀ files, (Task.run { source := fieldText digits, inline := true, side := .ok side }
          files).failure = some (.numeral (.tooLong 4301)) := by
  intro digits tokens
  have h := fieldText_tooLong (Lexeme.ones_mem_whole 4300) (by rw [List.length_replicate]; decide)
  simp only [List.length_replicate] at h
  exact ⟨(h .right {}).1, fun side => ⟨(h side {}).2.1, fun files => (h side files).2.2⟩⟩

end Pebble
