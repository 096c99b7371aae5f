import Lexicon.Dictionary.Record

/-! Term stores: rows looked up by their exact term. One store keeps all rows in insertion order; the
other keeps byte strings in a trie, each of them the four bytes of an id followed by a blob. -/
namespace Lexicon

/-- A term, the id of a dictionary, and what the dictionary holds for the term. -/
structure TermRow (β : Type) where
  term : Text
  id : Int
  blob : β
  deriving DecidableEq

/-- A row of a store that is searched. -/
abbrev Row := TermRow Blob

/-- Rows in the order in which they were added. -/
abbrev RowStore (β : Type) := List (TermRow β)

namespace RowStore

variable {β : Type}

def add (store : RowStore β) (row : TermRow β) : RowStore β := store ++ [row]

/-- The rows of a term as pairs of id and blob. -/
def lookup (store : RowStore β) (term : Text) : List (Int × β) :=
  (store.filter fun row => row.term = term).map fun row => (row.id, row.blob)

end RowStore

/-- The four bytes of a 32-bit id, lowest first. -/
structure IdBytes where
  b0 : UInt8
  b1 : UInt8
  b2 : UInt8
  b3 : UInt8
  deriving DecidableEq

namespace IdBytes

/-- The two's complement form of an id that fits in 32 bits. -/
def pack? (id : Int) : Option IdBytes :=
  if -0x80000000 ≤ id ∧ id < 0x80000000 then
    let n := (id % 0x100000000).toNat
    some ⟨UInt8.ofNat n, UInt8.ofNat (n / 0x100), UInt8.ofNat (n / 0x10000),
      UInt8.ofNat (n / 0x1000000)⟩
  else none

/-- The id in four bytes, the highest bit being its sign. -/
def unpack (b : IdBytes) : Int :=
  let n : Nat :=
    b.b0.toNat + b.b1.toNat * 0x100 + b.b2.toNat * 0x10000 + b.b3.toNat * 0x1000000
  if n < 0x80000000 then (n : Int) else (n : Int) - 0x100000000

def toBytes (b : IdBytes) : Bytes := [b.b0, b.b1, b.b2, b.b3]

/-- The four bytes that a byte string starts with, and what follows them. -/
def split? : Bytes → Option (IdBytes × Bytes)
  | b0 :: b1 :: b2 :: b3 :: rest => some (⟨b0, b1, b2, b3⟩, rest)
  | _ => none

end IdBytes

namespace TermRow

/-- The byte string that is kept for a row, unless its id does not fit. -/
def value? (row : TermRow Bytes) : Option Bytes :=
  (IdBytes.pack? row.id).map fun id => id.toBytes ++ row.blob

/-- The id and the blob in a byte string, unless it is too short for an id. -/
def ofValue? (value : Bytes) : Option (Int × Bytes) :=
  (IdBytes.split? value).map fun (id, blob) => (id.unpack, blob)

/-- The key and the byte string of a row. -/
def item? (row : TermRow Bytes) : Option (Text × Bytes) :=
  row.value?.map fun value => (row.term, value)

end TermRow

/-- Why a store cannot be built. -/
inductive BuildError where
  | idOutOfRange
  deriving DecidableEq

/-- The word for the kind of cause. -/
def BuildError.label : BuildError → Text
  | idOutOfRange => "error".toList

/-- A way to keep byte strings under keys: what is got under a key are the byte strings that were given
for it, each once. -/
structure Trie where
  Kept : Type
  ofItems : List (Text × Bytes) → Kept
  get : Kept → Text → List Bytes
  mem_get_ofItems : ∀ items key value, value ∈ get (ofItems items) key ↔ (key, value) ∈ items
  nodup_get_ofItems : ∀ items key, (get (ofItems items) key).Nodup

namespace Trie

/-- Builds the store of some rows in the place of another one. Returned are what stands there then and the
number of rows; nothing is written when an id does not fit. -/
def build (trie : Trie) (rows : List (TermRow Bytes)) (old : Option trie.Kept) :
    Option trie.Kept × Except BuildError Nat :=
  match rows.mapM TermRow.item? with
  | none => (old, .error .idOutOfRange)
  | some items => (some (trie.ofItems items), .ok items.length)

/-- The rows of a term as pairs of id and blob, unless something too short for an id is kept. -/
def lookup (trie : Trie) (store : trie.Kept) (term : Text) : Option (List (Int × Bytes)) :=
  (trie.get store term).mapM TermRow.ofValue?

/-- Keys with byte strings, in the order in which they were given first. -/
def listed : Trie where
  Kept := List (Text × Bytes)
  ofItems := distinct
  get items key := (items.filter fun item => item.1 = key).map (·.2)
  mem_get_ofItems items key value := by simp
  nodup_get_ofItems items key := by
    refine List.pairwise_map.2 (((nodup_distinct items).filter _).imp_of_mem ?_)
    intro a b ha hb hne hvalue
    have hkey : a.1 = b.1 := by simp_all
    exact hne (Prod.ext hkey hvalue)

end Trie

namespace Blob

/-- The bytes that a store keeps for a blob. Compression is left out, so what it produced is marked. -/
def toBytes : Blob → Bytes
  | compressed content => 1 :: content
  | plain bytes => 0 :: bytes

def ofBytes : Bytes → Blob
  | 1 :: content => compressed content
  | _ :: bytes => plain bytes
  | [] => plain []

@[simp] theorem ofBytes_toBytes (b : Blob) : ofBytes b.toBytes = b := by
  cases b <;> rfl

end Blob

/-- The store that is searched. -/
abbrev PackedStore := List (Text × Bytes)

namespace PackedStore

/-- The store of some rows, unless an id does not fit. -/
def build? (rows : List Row) : Option PackedStore :=
  (Trie.listed.build (rows.map fun row => ⟨row.term, row.id, row.blob.toBytes⟩) none).1

/-- The rows of a term, unless they cannot be taken apart. -/
def lookup (store : PackedStore) (term : Text) : Option (List (Int × Blob)) :=
  (Trie.listed.lookup store term).map fun rows => rows.map fun row => (row.1, .ofBytes row.2)

end PackedStore
namespace Row

/-- The row that a value describes: a term, the id of its dictionary, a record, and what is known about
the term. -/
def ofJson? : Json → Option Row
  | .object fields =>
    let optional (key : String) : Json := (Table.get? fields key).getD .null
    match optional "term", optional "id", optional "record" with
    | .str term, .int id, .object record => do
      return ⟨← term.text?, id, ← StoredRecord.encode
        ⟨id, record, optional "headword", optional "reading", optional "term_tags"⟩⟩
    | _, _, _ => none
  | _ => none

end Row

/-- The store that a text describes, unless a row is malformed or its id does not fit. -/
def PackedStore.ofText? (s : Text) : Option PackedStore :=
  match Json.read s.raw with
  | .ok (.array rows) => (rows.mapM Row.ofJson?).bind PackedStore.build?
  | _ => none

end Lexicon
