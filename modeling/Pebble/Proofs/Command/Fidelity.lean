import Pebble.Proofs.Command.Atomicity
import Pebble.Proofs.Json.CodeUnit
import Pebble.Proofs.Json.Reader
import Pebble.Proofs.Tree.Keys

/-!
Fidelity: what a task writes is JSON in ASCII, and a reader of JSON finds in it the value of the
tokens or of the tree, whatever the layout. So the tokens can be told from what is written for them,
and a tree too, but for its decimals, which are written as texts.
-/

namespace Pebble

/-! ### Tokens -/

lemma TokenKind.name_injective : Function.Injective name := by
  intro kind kind' h
  have hfound := ofName?_name kind
  rw [h, ofName?_name] at hfound
  exact (Option.some.inj hfound).symm

lemma Token.toJson_injective : Function.Injective toJson := by
  rintro ⟨kind, literal, offset⟩ ⟨kind', literal', offset'⟩ h
  simp only [toJson, Json.object.injEq, List.cons.injEq, Prod.mk.injEq, Json.text.injEq,
    Json.integer.injEq, true_and, and_true] at h
  rw [TokenKind.name_injective h.1, h.2.1, h.2.2]

namespace Product

/-- A product with each decimal of its tree replaced by the text that shows it. -/
def spelled : Product → Product
  | tokens found => tokens found
  | tree source => tree (source.relabel .spelled)

/-- A product is told by its JSON value, but for decimals. -/
lemma spelled_eq_of_toJson_eq {product product' : Product} (h : product.toJson = product'.toJson) :
    product.spelled = product'.spelled := by
  match product, product' with
  | tokens found, tokens found' =>
    rw [List.map_injective_iff.mpr Token.toJson_injective (Json.list.inj h)]
  | tree source, tree source' => exact congrArg tree (Source.relabel_spelled_eq h)
  | tokens found, tree source' => cases h
  | tree source, tokens found' => cases h

end Product

/-! ### Documents -/

lemma Directory.encode_injective : Function.Injective encode := fun _ _ h =>
  String.ofList_injective (String.toByteArray_inj.mp h)

namespace Task

variable {task : Task} {files : Directory} {text document : Text} {product : Product}

/-- A task that does not fail leaves a document: it prints it, or writes it to a file. -/
def Leaves (task : Task) (files : Directory) (document : Text) : Prop :=
  (task.run files).failure = none ∧
    match task.target? with
    | none => (task.run files).printed = document
    | some name => (task.run files).files.read name = .ok (Directory.encode document)

lemma Makes.toJson_eq {product' : Product} (h : task.Makes text product)
    (h' : task.Makes text product') : product.toJson = product'.toJson := by
  have hresult := result_ok_iff.mpr ⟨product, h, rfl⟩
  rw [result_ok_iff.mpr ⟨product', h', rfl⟩] at hresult
  exact (Except.ok.inj hresult).symm

/-- A task leaves the document of what it makes, and no other. -/
lemma leaves_iff (htext : task.text files = .ok text) (hmakes : task.Makes text product)
    (hplaced : task.Placed files) :
    task.Leaves files document ↔ document = task.document product.toJson := by
  have hnone := run_of_makes htext hmakes hplaced
  obtain ⟨text', product', htext', hmakes', hwritten, hprinted⟩ := run_of_success hnone
  obtain rfl : text = text' := Except.ok.inj (htext.symm.trans htext')
  rw [hmakes.toJson_eq hmakes', Leaves]
  rcases htarget : task.target? with _ | name
  · simp [hnone, (hprinted htarget).2, eq_comm]
  · simp [hnone, (hwritten name htarget).2.1, Directory.encode_injective.eq_iff, eq_comm]

/-- **A document is JSON in ASCII**, and denotes its value. -/
lemma document_written (task : Task) (value : Json) :
    Json.Ascii (task.document value) ∧ Json.Document (task.document value) value := by
  have hlayout := Json.Layout.ofPretty_spaces task.pretty
  have hgap : Json.Gap ['\n'] := .cons (by decide) Json.gap_nil
  refine ⟨(Json.ascii_render hlayout 0 value).append hgap.ascii, ?_⟩
  exact ⟨⟨[], _, ['\n'], value, Json.gap_nil, hgap⟩, Json.value_render hlayout 0 value, rfl, rfl⟩

/-- A document that is left denotes the value of what the task makes. -/
lemma Leaves.written (h : task.Leaves files document) (htext : task.text files = .ok text)
    (hmakes : task.Makes text product) :
    Json.Ascii document ∧ Json.Document document product.toJson := by
  have hplaced := (run_failure_eq_none_iff.mp h.1).2
  rw [(leaves_iff htext hmakes hplaced).mp h]
  exact task.document_written product.toJson

lemma Makes.pretty (h : task.Makes text product) (pretty : Bool) :
    ({ task with pretty := pretty } : Task).Makes text product := by
  cases h with
  | tokens honly hlex => exact .tokens honly hlex
  | tree hall hlex hside hparse => exact .tree hall hlex hside hparse

end Task

end Pebble
