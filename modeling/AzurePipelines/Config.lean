/-!
# Configuration

How documents are laid out, and what publishing does with files that are out of date.
-/

namespace AzurePipelines

/-- The layout of documents. -/
structure SerializerConfig where
  /-- Entries of sequences that are mappings have an empty line between them. -/
  blankLinesBetweenItems : Bool := true
  /-- Lines of the comment above a document. -/
  header : List String := []
deriving DecidableEq, Repr

/-- The settings of a publisher. -/
structure PublishConfig where
  serializer : SerializerConfig := {}
  /-- A file that is out of date is reported instead of written. -/
  failIfChanged : Bool := false
deriving DecidableEq, Repr

end AzurePipelines
