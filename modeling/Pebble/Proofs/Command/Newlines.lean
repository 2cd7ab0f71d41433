import Pebble.Proofs.Command.Atomicity
import Pebble.Proofs.Grammar.Rewriting
import Pebble.Proofs.Token.LineEnds

/-!
Line ends of files: a task that takes its source from a file does what it does with the text that
the file holds, up to the offsets, which count every line end of the file once.
-/

namespace Pebble

lemma Directory.decode?_encode (text : Text) :
    decode? (encode text) = some (Text.unifyNewlines text) := by
  have hbytes : String.fromUTF8? (String.ofList text).toUTF8 = some (String.ofList text) :=
    dif_pos (String.ofList text).isValidUTF8
  rw [decode?, encode, hbytes, Option.map_some, String.toList_ofList]

/-- Two outcomes are the same but for their logs. -/
structure Outcome.Same (a b : Outcome) : Prop where
  failure : a.failure = b.failure
  printed : a.printed = b.printed
  files : a.files = b.files

namespace Outcome.Same

variable {a b c : Outcome}

lemma symm (h : a.Same b) : b.Same a := ⟨h.failure.symm, h.printed.symm, h.files.symm⟩

lemma trans (h : a.Same b) (h' : b.Same c) : a.Same c :=
  ⟨h.failure.trans h'.failure, h.printed.trans h'.printed, h.files.trans h'.files⟩

end Outcome.Same

namespace Task

variable {task : Task} {files : Directory} {name text : Text} {tokens : List Token}

def onText (task : Task) (text : Text) : Task := { task with source := text, inline := true }

def onFile (task : Task) (name : Text) : Task := { task with source := name, inline := false }

/-- What a task comes to when its text has come to a result. -/
def finish (task : Task) (files : Directory) : Except Failure Json → Outcome
  | .error failure => ⟨some failure, [], files, []⟩
  | .ok value => task.deliver files [] (task.document value)

lemma deliver_same (task : Task) (files : Directory) (log log' : List LogEntry) (document : Text) :
    (task.deliver files log document).Same (task.deliver files log' document) := by
  rcases htarget : task.target? with _ | name
  · rw [deliver_of_none htarget, deliver_of_none htarget]
    exact ⟨rfl, rfl, rfl⟩
  · rw [deliver_of_some htarget, deliver_of_some htarget]
    cases files.locate name <;> exact ⟨rfl, rfl, rfl⟩

lemma run_same (htext : task.text files = .ok text) :
    (task.run files).Same (task.finish files (task.result text).1) := by
  rcases hresult : task.result text with ⟨failure | value, log⟩ <;> simp only [run, htext, hresult]
  · exact ⟨rfl, rfl, rfl⟩
  · exact task.deliver_same files log [] (task.document value)

lemma text_onFile (hname : extension.isSuffixOf name)
    (hread : files.read name = .ok (Directory.encode text)) :
    (task.onFile name).text files = .ok (Text.unifyNewlines text) := by
  have hnotInline : (task.onFile name).inline ≠ true := Bool.false_ne_true
  have hsource : (task.onFile name).source = name := rfl
  rw [Task.text, if_neg hnotInline, hsource, if_pos hname, hread]
  simp only [Directory.decode?_encode]

lemma result_of_tokensOnly (h : task.tokensOnly = true) (hlex : lex text = .ok tokens) :
    (task.result text).1 = .ok (.list (tokens.map Token.toJson)) := by
  simp only [result, hlex, h, if_true]

lemma result_of_unknown (h : task.tokensOnly = false) {shown : Text}
    (hside : task.side = .error shown) (hlex : lex text = .ok tokens) :
    (task.result text).1 = .error (.unknownAssociativity shown) := by
  simp only [result, hlex, h, hside, parseTo, Bool.false_eq_true, if_false]

lemma result_of_tree (h : task.tokensOnly = false) {side : Associativity}
    (hside : task.side = .ok side) (hlex : lex text = .ok tokens) :
    (task.result text).1 =
      ((Session.start side tokens).run (Rule.source side maxNesting)).1.map
        fun source => source.record.toJson := by
  have hparse : parse side tokens =
      ((Session.start side tokens).run (Rule.source side maxNesting)).1 := rfl
  simp only [result, hlex, h, hside, parseTo, hparse, Bool.false_eq_true, if_false]
  rcases ((Session.start side tokens).run (Rule.source side maxNesting)).1 with failure | source <;>
    rfl

end Task

lemma tokensAlike_unified (text : Text) (tokens : List Token) :
    TokensAlike .same tokens (tokens.map (Token.unified text)) := by
  rw [TokensAlike, List.forall₂_map_right_iff]
  exact List.forall₂_same.2 fun t _ => Token.alike_of_eq rfl rfl

/-- Runs of the same kind that end in no report have the same value. -/
lemma SameRun.map_eq {tokens tokens' : List Token} {run run' : Except Failure Source × Session}
    (h : SameRun tokens tokens' run run') (hreport : ∀ report, run.1 ≠ .error (.report report)) :
    run.1 = run'.1 := by
  obtain ⟨out, s⟩ := run
  obtain ⟨out', s'⟩ := run'
  obtain ⟨-, h⟩ := h
  dsimp only at h hreport ⊢
  split at h
  · rw [h]
  · exact absurd rfl (hreport _)
  · rw [h]
  · exact h.elim

/-- What a task on a file does, compared with what it does on the text that the file holds, of which
the tokens are given. -/
structure Task.FileAsText (task : Task) (files : Directory) (name text : Text)
    (tokens : List Token) : Prop where
  /-- The tokens are found in the file, each nearer by the carriage returns before it that a line
  feed follows. -/
  found : (task.onFile name).text files = .ok (Text.unifyNewlines text) ∧
    lex (Text.unifyNewlines text) = .ok (tokens.map (Token.unified text))
  /-- When the tokens alone are asked for, they are the documents. -/
  tokensOnly : task.tokensOnly = true →
    ((task.onText text).run files).Same
        (task.finish files (.ok (.list (tokens.map Token.toJson)))) ∧
      ((task.onFile name).run files).Same
        (task.finish files (.ok (.list ((tokens.map (Token.unified text)).map Token.toJson))))
  /-- A side that is no side is found fault with in the same way. -/
  unknown : task.tokensOnly = false → ∀ shown, task.side = .error shown →
    ((task.onText text).run files).Same
        (task.finish files (.error (.unknownAssociativity shown))) ∧
      ((task.onFile name).run files).Same ((task.onText text).run files)
  /-- When the tree is asked for, the tokens are read in the same way, and only a report may come
  to differ, by its offset. -/
  tree : task.tokensOnly = false → ∀ side, task.side = .ok side →
    let run := (Session.start side tokens).run (Rule.source side maxNesting)
    let run' := (Session.start side (tokens.map (Token.unified text))).run
      (Rule.source side maxNesting)
    SameRun tokens (tokens.map (Token.unified text)) run run' ∧
      ((task.onText text).run files).Same
        (task.finish files (run.1.map fun source => source.record.toJson)) ∧
      ((task.onFile name).run files).Same
        (task.finish files (run'.1.map fun source => source.record.toJson)) ∧
      ((∀ report, run.1 ≠ .error (.report report)) →
        ((task.onFile name).run files).Same ((task.onText text).run files))

/-- **A file is read as the text that it holds.** If a text can be split into tokens, none of which
has a carriage return in it, a task on a file with this text finds these tokens, and makes of them
the same document as on the text itself, or ends with a report of the same kind at the same place
among the tokens, or with the same other failure. -/
theorem file_as_text {files : Directory} {name text : Text} {tokens : List Token}
    (hname : Task.extension.isSuffixOf name)
    (hread : files.read name = .ok (Directory.encode text)) (hlex : lex text = .ok tokens)
    (hclean : ∀ t ∈ tokens, '\r' ∉ t.literal) (task : Task) :
    task.FileAsText files name text tokens := by
  have hfound := lex_unifyNewlines hlex hclean
  have htext := task.text_onFile hname hread
  -- both tasks end as the result of their text says, and only the results are left to compare
  have hinline : ((task.onText text).run files).Same (task.finish files (task.result text).1) :=
    Task.run_same rfl
  have hfile : ((task.onFile name).run files).Same
      (task.finish files (task.result (Text.unifyNewlines text)).1) :=
    Task.run_same htext
  refine ⟨⟨htext, hfound⟩, fun honly => ?_, fun htree shown hside => ?_,
    fun htree side hside => ?_⟩
  · rw [Task.result_of_tokensOnly honly hlex] at hinline
    rw [Task.result_of_tokensOnly honly hfound] at hfile
    exact ⟨hinline, hfile⟩
  · rw [Task.result_of_unknown htree hside hlex] at hinline
    rw [Task.result_of_unknown htree hside hfound] at hfile
    exact ⟨hinline, hfile.trans hinline.symm⟩
  · rw [Task.result_of_tree htree hside hlex] at hinline
    rw [Task.result_of_tree htree hside hfound] at hfile
    have hrun := sameRun (tokensAlike_unified text tokens) side
    refine ⟨hrun, hinline, hfile, fun hreport => ?_⟩
    rw [← hrun.map_eq hreport] at hfile
    exact hfile.trans hinline.symm

/-- Two fields, on lines that end with both characters and with a carriage return alone. -/
theorem file_as_text_fields :
    let name := "a.pebble".toList
    let text := "LET a;\r\nLET\rb;".toList
    let tokens : List Token :=
      [⟨.identifier, ['L', 'E', 'T'], 0⟩, ⟨.identifier, ['a'], 4⟩, ⟨.operator, [';'], 5⟩,
        ⟨.identifier, ['L', 'E', 'T'], 8⟩, ⟨.identifier, ['b'], 12⟩, ⟨.operator, [';'], 13⟩]
    let files := (Directory.ofFiles [] [] []).write [name] (Directory.encode text)
    let task : Task := { source := [] }
    files.read name = .ok (Directory.encode text) ∧ lex text = .ok tokens ∧
      tokens.map (fun t => (t.unified text).offset) = [0, 4, 5, 7, 11, 12] ∧
      task.FileAsText files name text tokens := by
  intro name text tokens files task
  have hplace : (Directory.ofFiles [] [] []).locate name = .ok [name] := by decide
  have hread : files.read name = .ok (Directory.encode text) := Directory.read_write _ hplace
  have hlex : lex text = .ok tokens := by decide +kernel
  exact ⟨hread, hlex, by decide, file_as_text (by decide) hread hlex (by decide) task⟩

end Pebble
