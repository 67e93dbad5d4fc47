import EconModel.Proofs.Json.Codec
import EconModel.Value

/-!
# Values read back

A value is written without a tag, so what it reads back as depends on what it looks like.  A number
that is not finite looks like a missing value, and structured data that is not a container looks
like a value of another kind.  All other values read back.
-/

namespace EconModel

open Json (Decoder Document)

namespace Json

/-- Whether a document is a list or an object. -/
def Document.IsContainer : Document → Prop
  | .list _ => True
  | .object _ => True
  | _ => False

/-- Data that is written is denoted by its tree. -/
theorem Data.ofJson?_tree (data : Data) : Data.ofJson? data.document.tree = some data := by
  have read := Document.ofJson?_tree data.document data.sorted
  unfold Data.ofJson?
  split
  · next document found =>
    rw [read] at found
    cases found
    rfl
  · next found =>
    rw [read] at found
    cases found

end Json

namespace Value

/-- A value that can be told from its text: its number is finite, and its structured data is a
container. -/
def Faithful : Value → Prop
  | .number value => value.isFinite = true
  | .structured data => data.document.IsContainer
  | _ => True

theorem ofJson?_tree_structured (data : Json.Data) :
    ofJson? data.document.tree = some (.structured data) ↔ data.document.IsContainer := by
  have read := data.ofJson?_tree
  cases document_eq : data.document with
  | list items =>
      rw [document_eq, Document.tree] at read
      simp [Document.tree, ofJson?, read, Document.IsContainer]
  | object members =>
      rw [document_eq, Document.tree] at read
      simp [Document.tree, ofJson?, read, Document.IsContainer]
  | null => simp [Document.tree, ofJson?, Document.IsContainer]
  | boolean value => simp [Document.tree, ofJson?, Document.IsContainer]
  | number value => simp [Document.tree, ofJson?, Document.IsContainer]
  | text value => simp [Document.tree, ofJson?, Document.IsContainer]

theorem ofJson?_tree (value : Value) :
    ofJson? value.toDocument.tree = some value ↔ value.Faithful := by
  cases value with
  | number value =>
      by_cases finite : value.isFinite = true
      · simp [toDocument, Document.float, Json.Number.ofFloat?, finite, Document.tree, ofJson?,
          Json.Number.float?_numeral_real, Faithful]
      · simp [toDocument, Document.float, Json.Number.ofFloat?, finite, Document.tree, ofJson?,
          Faithful]
  | boolean value => simp [toDocument, Document.tree, ofJson?, Faithful]
  | text value => simp [toDocument, Document.tree, ofJson?, Faithful]
  | undefined => simp [toDocument, Document.tree, ofJson?, Faithful]
  | structured data => exact ofJson?_tree_structured data

theorem reads (value : Value) (nesting : ℕ) :
    Decoder.Reads decode nesting value.toDocument value value.Faithful :=
  Decoder.readAhead_reads value.ofJson?_tree

end Value

theorem Severity.find?_byName (severity : Severity) :
    Bindings.find? severity.name Severity.byName = some severity := by
  cases severity <;> rfl

end EconModel
