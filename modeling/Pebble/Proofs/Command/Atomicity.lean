import Pebble.Command.Transcript
import Pebble.Proofs.Token.Tiling

/-!
Atomicity: a task does all that is asked of it or nothing. If it fails, no file is touched and
nothing is printed; if it does not, its document stands where it was asked for, and nowhere else.
-/

namespace Pebble

/-! ### What a task makes of its text -/

inductive Product where
  | tokens (found : List Token)
  | tree (source : Source)

def Product.toJson : Product → Json
  | tokens found => .list (found.map Token.toJson)
  | tree source => source.record.toJson

namespace Task

variable {task : Task} {files : Directory} {text : Text} {product : Product} {value : Json}

inductive Makes (task : Task) (text : Text) : Product → Prop
  | tokens {found : List Token} : task.tokensOnly = true → lex text = .ok found →
    Makes task text (.tokens found)
  | tree {found : List Token} {side : Associativity} {source : Source} :
    task.tokensOnly = false → lex text = .ok found → task.side = .ok side →
    parse side found = .ok source → Makes task text (.tree source)

lemma result_ok_iff :
    (task.result text).1 = .ok value ↔
      ∃ product, task.Makes text product ∧ product.toJson = value := by
  constructor
  · intro h
    rw [result] at h
    rcases hlex : lex text with report | found <;> simp only [hlex] at h
    · cases h
    · -- the tokens alone, or the tree if there is a side and the parse succeeds
      split at h
      · next honly =>
        cases h
        exact ⟨_, .tokens honly hlex, rfl⟩
      · next hall =>
        rcases hside : task.side with shown | side <;> simp only [hside, parseTo] at h
        · cases h
        · rcases hparse : parse side found with fault | source <;> simp only [hparse] at h <;>
            cases h
          exact ⟨_, .tree (Bool.eq_false_iff.mpr hall) hlex hside hparse, rfl⟩
  · rintro ⟨product, ⟨honly, hlex⟩ | ⟨hall, hlex, hside, hparse⟩, rfl⟩
    · simp [result, hlex, honly, Product.toJson]
    · simp [result, hlex, hall, hside, parseTo, hparse, Product.toJson]

/-- The name of the file that a task writes, if it does not print. An empty name is none. -/
def target? (task : Task) : Option Text := task.out.filter (· ≠ [])

/-- What a task asks of a directory beside its text: a place for the file that it writes. -/
def Placed (task : Task) (files : Directory) : Prop :=
  ∀ name ∈ task.target?, ∃ place, files.locate name = .ok place

/-! ### How a task can end -/

lemma deliver_of_none {log : List LogEntry} {document : Text} (h : task.target? = none) :
    task.deliver files log document = ⟨none, document, files, log⟩ := by
  rw [deliver]
  split
  · rfl
  · rfl
  · next name hname hout =>
    rw [target?, hout, Option.filter_some, if_pos (by simpa using hname)] at h
    cases h

lemma deliver_of_some {log : List LogEntry} {document name : Text} (h : task.target? = some name) :
    task.deliver files log document =
      match files.locate name with
      | .error fault => ⟨some (.file fault name), [], files, log⟩
      | .ok place =>
        ⟨none, [], files.write place (Directory.encode document), log ++ [.wrote name]⟩ := by
  obtain ⟨hout, hne⟩ := Option.filter_eq_some_iff.mp h
  rw [deliver, hout]
  split
  · next hnone => cases hnone
  · next hnil =>
    cases hnil
    simp at hne
  · next hname =>
    cases hname
    rfl

/-- All the ways in which a task can end: it fails and does nothing, it prints its document, or it
writes it to one file. -/
lemma run_cases (task : Task) (files : Directory) :
    (∃ failure log, task.run files = ⟨some failure, [], files, log⟩) ∨
      ∃ text product log, task.text files = .ok text ∧ task.Makes text product ∧
        (task.target? = none ∧
            task.run files = ⟨none, task.document product.toJson, files, log⟩ ∨
          ∃ name place, task.target? = some name ∧ files.locate name = .ok place ∧
            task.run files =
              ⟨none, [], files.write place (Directory.encode (task.document product.toJson)),
                log⟩) := by
  -- it goes on from the text to the result and from that to the file, and may fail at each
  rw [run]
  rcases htext : task.text files with fault | text
  · exact .inl ⟨_, _, rfl⟩
  rcases hresult : task.result text with ⟨fault | value, log⟩ <;> simp only [hresult]
  · exact .inl ⟨_, _, rfl⟩
  obtain ⟨product, hmakes, rfl⟩ : ∃ product, task.Makes text product ∧ product.toJson = value :=
    result_ok_iff.mp (by rw [hresult])
  rcases htarget : task.target? with _ | name
  · rw [deliver_of_none htarget]
    exact .inr ⟨text, product, _, rfl, hmakes, .inl ⟨rfl, rfl⟩⟩
  · rw [deliver_of_some htarget]
    rcases hplace : files.locate name with fault | place
    · exact .inl ⟨_, _, rfl⟩
    · exact .inr ⟨text, product, _, rfl, hmakes, .inr ⟨name, place, rfl, hplace, rfl⟩⟩

/-- A task that has a text, can make a product of it and has a place for its file does not fail. -/
lemma run_of_makes (htext : task.text files = .ok text) (hmakes : task.Makes text product)
    (hplaced : task.Placed files) : (task.run files).failure = none := by
  have hvalue := result_ok_iff.mpr ⟨product, hmakes, rfl⟩
  rcases hresult : task.result text with ⟨fault | found, log⟩ <;> rw [hresult] at hvalue <;>
    cases hvalue
  simp only [run, htext, hresult]
  rcases htarget : task.target? with _ | name
  · rw [deliver_of_none htarget]
  · obtain ⟨place, hplace⟩ := hplaced name htarget
    rw [deliver_of_some htarget, hplace]

/-- **Success**: a task does not fail just if it has a text, can make a product of it and has a
place for its file. -/
lemma run_failure_eq_none_iff : (task.run files).failure = none ↔
    (∃ text product, task.text files = .ok text ∧ task.Makes text product) ∧ task.Placed files := by
  constructor
  · intro h
    rcases run_cases task files with ⟨failure, log, hrun⟩ |
      ⟨text, product, log, htext, hmakes, ⟨hnone, -⟩ | ⟨name, place, hsome, hplace, -⟩⟩
    · rw [hrun] at h
      cases h
    · exact ⟨⟨text, product, htext, hmakes⟩, fun name hname => by simp [hnone] at hname⟩
    · refine ⟨⟨text, product, htext, hmakes⟩, fun other hother => ?_⟩
      obtain rfl : name = other := Option.some.inj (hsome.symm.trans hother)
      exact ⟨place, hplace⟩
  · rintro ⟨⟨text, product, htext, hmakes⟩, hplaced⟩
    exact run_of_makes htext hmakes hplaced

lemma makes_of_tokensOnly (h : task.tokensOnly = true) :
    (∃ product, task.Makes text product) ↔ ∃ found, lex text = .ok found := by
  constructor
  · rintro ⟨product, ⟨-, hlex⟩ | ⟨hall, -⟩⟩
    · exact ⟨_, hlex⟩
    · rw [h] at hall
      cases hall
  · rintro ⟨found, hlex⟩
    exact ⟨_, .tokens h hlex⟩

lemma run_of_tokensOnly (h : task.tokensOnly = true) (side : Except Text Associativity) :
    ({ task with side := side } : Task).run files = task.run files := by
  have hresult : ∀ text, ({ task with side := side } : Task).result text = task.result text := by
    intro text
    simp only [result, h, if_true]
  simp only [run, hresult]
  rfl

end Task

/-! ### Directories that differ in one file -/

/-- A directory is another one with one file written. -/
structure Directory.Rewrites (after before : Directory) (place : Location) (contents : ByteArray) :
    Prop where
  home : after.home = before.home
  folders : after.folders = before.folders
  written : find? place after.files = some contents
  kept : ∀ other, other ≠ place → find? other after.files = find? other before.files

lemma Directory.rewrites_write (d : Directory) (place : Location) (contents : ByteArray) :
    (d.write place contents).Rewrites d place contents where
  home := rfl
  folders := rfl
  written := by rw [find?_write, if_pos rfl]
  kept other hne := by rw [find?_write, if_neg hne]

/-! ### The command -/

namespace Arguments.Command

variable {command : Command} {program : Text} {files : Directory}

/-- A command that shows no log ends as its task does: it exits with a line for a report, and is
aborted by any other failure. -/
lemma run_of_quiet (h : command.verbose = false) :
    command.run program files =
      match (command.task.run files).failure with
      | none => ⟨.exit 0, (command.task.run files).printed, [], (command.task.run files).files⟩
      | some (.report report) =>
        ⟨.exit 1, (command.task.run files).printed,
          "error: ".toList ++ report.kind.name ++ " at offset ".toList ++
            Text.ofInt report.offset ++ ['\n'],
          (command.task.run files).files⟩
      | some failure =>
        ⟨.abort failure, (command.task.run files).printed, [], (command.task.run files).files⟩ := by
  rw [run]
  simp only [h]
  rcases (command.task.run files).failure with _ | failure
  · rfl
  · cases failure with
    | report report => simp [Report.summary]
    | _ => rfl

end Arguments.Command

/-! ### All or nothing -/

namespace Task

variable {task : Task} {files : Directory}

lemma run_of_failure {failure : Failure} (h : (task.run files).failure = some failure) :
    (task.run files).files = files ∧ (task.run files).printed = [] := by
  rcases run_cases task files with ⟨fault, log, hrun⟩ |
    ⟨text, product, log, -, -, ⟨-, hrun⟩ | ⟨name, place, -, -, hrun⟩⟩
  · rw [hrun]
    exact ⟨rfl, rfl⟩
  · rw [hrun] at h
    cases h
  · rw [hrun] at h
    cases h

/-- The document of a task that does not fail is where it was asked for, and nowhere else. -/
lemma run_of_success (h : (task.run files).failure = none) :
    ∃ text product, task.text files = .ok text ∧ task.Makes text product ∧
      (∀ name, task.target? = some name →
        (task.run files).printed = [] ∧
        (task.run files).files.read name = .ok (Directory.encode (task.document product.toJson)) ∧
        ∃ place, files.locate name = .ok place ∧
          (task.run files).files.Rewrites files place
            (Directory.encode (task.document product.toJson))) ∧
      (task.target? = none →
        (task.run files).files = files ∧
          (task.run files).printed = task.document product.toJson) := by
  rcases run_cases task files with ⟨fault, log, hrun⟩ |
    ⟨text, product, log, htext, hmakes, ⟨hnone, hrun⟩ | ⟨name, place, hsome, hplace, hrun⟩⟩
  · rw [hrun] at h
    cases h
  · refine ⟨text, product, htext, hmakes, fun name hname => ?_, fun _ => ?_⟩
    · rw [hnone] at hname
      cases hname
    · rw [hrun]
      exact ⟨rfl, rfl⟩
  · refine ⟨text, product, htext, hmakes, fun other hother => ?_, fun hnone => ?_⟩
    · obtain rfl : name = other := Option.some.inj (hsome.symm.trans hother)
      rw [hrun]
      exact ⟨rfl, Directory.read_write _ hplace, place, hplace,
        Directory.rewrites_write files place _⟩
    · rw [hsome] at hnone
      cases hnone

lemma target?_eq_some_iff {name : Text} :
    task.target? = some name ↔ task.out = some name ∧ name ≠ [] := by
  simp [target?, Option.filter_eq_some_iff]

lemma target?_eq_none_iff : task.target? = none ↔ task.out = none ∨ task.out = some [] := by
  cases h : task.out <;> simp [target?, h]

end Task

/-- **All or nothing.** A task that fails touches no file and prints nothing; it does not fail just
if it has a text, can make a product of it and has a place for its file, and then its document is
where it was asked for, and nowhere else. For the tokens alone neither the grammar nor the side
matters. A command that shows no log exits with code 1 just for a report, of which it says one
line. -/
theorem run_all_or_nothing (task : Task) (files : Directory) :
    (∀ failure, (task.run files).failure = some failure →
      (task.run files).files = files ∧ (task.run files).printed = []) ∧
    ((task.run files).failure = none ↔
      (∃ text product, task.text files = .ok text ∧ task.Makes text product) ∧ task.Placed files) ∧
    ((task.run files).failure = none →
      ∃ text product, task.text files = .ok text ∧ task.Makes text product ∧
        let document := Json.render (.ofPretty task.pretty) 0 product.toJson ++ ['\n']
        (∀ name, task.out = some name → name ≠ [] →
          (task.run files).printed = [] ∧
          (task.run files).files.read name = .ok (Directory.encode document) ∧
          ∃ place, files.locate name = .ok place ∧
            (task.run files).files.Rewrites files place (Directory.encode document)) ∧
        (task.out = none ∨ task.out = some [] →
          (task.run files).files = files ∧ (task.run files).printed = document)) ∧
    (task.tokensOnly = true →
      (∀ side, ({ task with side := side } : Task).run files = task.run files) ∧
      ((task.run files).failure = none ↔
        (∃ text found, task.text files = .ok text ∧ lex text = .ok found) ∧ task.Placed files)) ∧
    ∀ (command : Arguments.Command) (program : Text),
      command.task = task → command.verbose = false →
      let transcript := command.run program files
      (transcript.ending = .exit 1 ↔ ∃ report, (task.run files).failure = some (.report report)) ∧
      (∀ report, (task.run files).failure = some (.report report) →
        transcript.printed = [] ∧ transcript.files = files ∧
        transcript.errors = "error: ".toList ++ report.kind.name ++ " at offset ".toList ++
          Text.ofInt report.offset ++ ['\n']) ∧
      (∀ failure, (task.run files).failure = some failure → (∀ report, failure ≠ .report report) →
        transcript = ⟨.abort failure, [], [], files⟩) ∧
      ((task.run files).failure = none →
        transcript = ⟨.exit 0, (task.run files).printed, [], (task.run files).files⟩) := by
  refine ⟨fun failure h => Task.run_of_failure h, Task.run_failure_eq_none_iff, fun h => ?_,
    fun honly => ⟨Task.run_of_tokensOnly honly, ?_⟩, ?_⟩
  · obtain ⟨text, product, htext, hmakes, hwritten, hprinted⟩ := Task.run_of_success h
    exact ⟨text, product, htext, hmakes,
      fun name hout hne => hwritten name (Task.target?_eq_some_iff.mpr ⟨hout, hne⟩),
      fun hout => hprinted (Task.target?_eq_none_iff.mpr hout)⟩
  · rw [Task.run_failure_eq_none_iff]
    simp only [← Task.makes_of_tokensOnly honly, exists_and_left]
  · -- only reports are turned into a line and an exit code
    rintro command program rfl hquiet transcript
    have hrun : transcript = command.run program files := rfl
    rw [Arguments.Command.run_of_quiet hquiet] at hrun
    rcases hfailure : (command.task.run files).failure with _ | failure
    · rw [hfailure] at hrun
      simp [hrun]
    · obtain ⟨hfiles, hprinted⟩ := Task.run_of_failure hfailure
      rw [hfailure, hfiles, hprinted] at hrun
      cases failure <;> simp [hrun]

end Pebble
