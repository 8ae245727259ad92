import PinnedBench.Dataset.Content
import PinnedBench.Json.Decoder
import PinnedBench.Json.Printer

/-!
# Dataset descriptors

A descriptor tells what a dataset is made of: its counts and seed, its files with their shapes and
sizes, and the digest of its content. It is kept beside the arrays as a JSON document.

`Descriptor.toJson` writes a descriptor and `Descriptor.decode` reads one; the two agree on the
names of the fields and on their order.
-/

namespace PinnedBench

/-- The number of rows of an array and the length of each. -/
abbrev ArrayShape := UInt64 × UInt64

/-- What a dataset is made of. -/
structure Descriptor where
  /-- The digest of the content. -/
  hash : String
  /-- The number of embeddings. -/
  n : UInt64
  /-- The number of axes. -/
  m : UInt64
  /-- The length of every row. -/
  d : UInt64
  /-- The seed of the generator. -/
  seed : UInt64
  /-- The name of the file of the embeddings. -/
  embeddingsFile : String
  /-- The name of the file of the axes. -/
  axesFile : String
  /-- The shape of the embeddings. -/
  embeddingsShape : ArrayShape
  /-- The shape of the axes. -/
  axesShape : ArrayShape
  /-- The type of the numbers. -/
  elementType : String
  /-- The bytes of the arrays. -/
  sizes : Sizes
  deriving DecidableEq, Repr

/-! ### Sizes and shapes -/

namespace Sizes

/-- The names of the fields. -/
def fieldNames : List String := ["embeddings", "axes", "total"]

/-- The sizes as a JSON value. -/
def toJson (s : Sizes) : Json :=
  .object [("embeddings", .ofWord s.embeddings), ("axes", .ofWord s.axes),
    ("total", .ofWord s.total)]

/-- Reads sizes. -/
def decode : Json.Decoder Sizes := fun levels t => do
  let f ← Json.Tree.fields fieldNames levels t
  .ok { embeddings := ← f.required "embeddings" .word
        axes := ← f.required "axes" .word
        total := ← f.required "total" .word }

end Sizes

/-- A shape as a JSON value. -/
def ArrayShape.toJson (s : ArrayShape) : Json := .array [.ofWord s.1, .ofWord s.2]

/-! ### Descriptors -/

namespace Descriptor

/-- The file of the embeddings. -/
def embeddingsName : String := "embeddings.f64"

/-- The file of the axes. -/
def axesName : String := "axes.f64"

/-- The descriptor of a dataset with a content. -/
def of (p : Parameters) (s : Sizes) (c : Content) : Descriptor :=
  let n := p.n.toNat.toUInt64
  let m := p.m.toNat.toUInt64
  let d := p.d.toNat.toUInt64
  { hash := c.hash
    n := n
    m := m
    d := d
    seed := p.seed
    embeddingsFile := embeddingsName
    axesFile := axesName
    embeddingsShape := (n, d)
    axesShape := (m, d)
    elementType := "float64"
    sizes := s }

/-- The names of the fields. -/
def fieldNames : List String :=
  ["hash_sha256", "N", "M", "D", "seed", "embeddings_file", "axes_file", "embeddings_shape",
    "axes_shape", "dtype", "size_bytes"]

/-- The descriptor as a JSON value. -/
def toJson (x : Descriptor) : Json :=
  .object [("hash_sha256", .string x.hash), ("N", .ofWord x.n), ("M", .ofWord x.m),
    ("D", .ofWord x.d), ("seed", .ofWord x.seed), ("embeddings_file", .string x.embeddingsFile),
    ("axes_file", .string x.axesFile), ("embeddings_shape", x.embeddingsShape.toJson),
    ("axes_shape", x.axesShape.toJson), ("dtype", .string x.elementType),
    ("size_bytes", x.sizes.toJson)]

/-- Reads a descriptor. -/
def decode : Json.Decoder Descriptor := fun levels t => do
  let f ← Json.Tree.fields fieldNames levels t
  .ok { hash := ← f.required "hash_sha256" .string
        n := ← f.required "N" .word
        m := ← f.required "M" .word
        d := ← f.required "D" .word
        seed := ← f.required "seed" .word
        embeddingsFile := ← f.required "embeddings_file" .string
        axesFile := ← f.required "axes_file" .string
        embeddingsShape := ← f.required "embeddings_shape" (.pair .word)
        axesShape := ← f.required "axes_shape" (.pair .word)
        elementType := ← f.required "dtype" .string
        sizes := ← f.required "size_bytes" Sizes.decode }

/-- The document of a descriptor. -/
def document (x : Descriptor) : String := x.toJson.pretty

end Descriptor

/-! ### Identities -/

/-- What a report keeps of a descriptor. -/
structure DatasetIdentity where
  /-- The digest of the content. -/
  hash : String
  /-- The number of embeddings. -/
  n : UInt64
  /-- The number of axes. -/
  m : UInt64
  /-- The length of every row. -/
  d : UInt64
  /-- The seed of the generator. -/
  seed : UInt64
  deriving DecidableEq, Repr

/-- What a report keeps of a descriptor. -/
def Descriptor.identity (x : Descriptor) : DatasetIdentity := ⟨x.hash, x.n, x.m, x.d, x.seed⟩

namespace DatasetIdentity

/-- The names of the fields. -/
def fieldNames : List String := ["hash_sha256", "N", "M", "D", "seed"]

/-- The identity as a JSON value. -/
def toJson (x : DatasetIdentity) : Json :=
  .object [("hash_sha256", .string x.hash), ("N", .ofWord x.n), ("M", .ofWord x.m),
    ("D", .ofWord x.d), ("seed", .ofWord x.seed)]

/-- Reads an identity. -/
def decode : Json.Decoder DatasetIdentity := fun levels t => do
  let f ← Json.Tree.fields fieldNames levels t
  .ok { hash := ← f.required "hash_sha256" .string
        n := ← f.required "N" .word
        m := ← f.required "M" .word
        d := ← f.required "D" .word
        seed := ← f.required "seed" .word }

end DatasetIdentity

end PinnedBench
