import PinnedBench.Dataset.Descriptor
import PinnedBench.Proofs.Json.Records

/-!
# Descriptors as documents

A descriptor that has been written is loaded unchanged (`Descriptor.decodeText_document`), whatever
its texts and numbers are.
-/

namespace PinnedBench

/-- Sizes are read back from their tree. -/
theorem Sizes.decode_tree (s : Sizes) (levels : Nat) :
    decode (levels + 1) s.toJson.tree = .ok s := by
  rw [decode, toJson, Json.Tree.fields_object (by simp [fieldNames]) (by simp)]
  simp [bind, Except.bind, Json.Fields.required, List.lookup_cons]

/-- A shape is read back from its tree. -/
theorem ArrayShape.decode_tree (s : ArrayShape) (levels : Nat) :
    Json.Decoder.pair .word (levels + 1) s.toJson.tree = .ok s :=
  Json.Decoder.pair_tree s.1 s.2 levels

namespace Descriptor

/-- A descriptor is read back from its tree. -/
theorem decode_tree (x : Descriptor) (levels : Nat) :
    decode (levels + 2) x.toJson.tree = .ok x := by
  rw [decode, toJson, Json.Tree.fields_object (by simp [fieldNames]) (by simp)]
  simp [bind, Except.bind, Json.Fields.required, List.lookup_cons, Sizes.decode_tree,
    ArrayShape.decode_tree]

/-- **A descriptor** is read back from its document. -/
theorem decodeText_document (x : Descriptor) : Json.decodeText decode x.document = .ok x := by
  rw [document, Json.decodeText_pretty]
  exact decode_tree x 125

end Descriptor

end PinnedBench
