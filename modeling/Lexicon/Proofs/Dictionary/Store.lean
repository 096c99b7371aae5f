import Lexicon.Dictionary.Store
import Lexicon.Proofs.Basic
import Mathlib.Algebra.Group.Int.Defs

/-! The two stores side by side. An id that fits in 32 bits is read back from its four bytes, and what
follows them is the blob, whatever bytes it has; so a trie holds under a term the rows of the term, and
only rows that agree in both parts become one. -/
namespace Lexicon

namespace IdBytes

variable {id : Int} {b : IdBytes}

/-- The ids that four bytes can hold. -/
def Fits (id : Int) : Prop := -2 ^ 31 ≤ id ∧ id < 2 ^ 31

instance : DecidablePred Fits := fun _ => inferInstanceAs (Decidable (_ ∧ _))

theorem exists_pack?_iff : (∃ b, pack? id = some b) ↔ Fits id := by
  unfold pack? Fits
  split <;> simp <;> omega

/-- The bytes of an id that fits spell the id. -/
theorem unpack_of_pack? (h : pack? id = some b) : b.unpack = id := by
  unfold pack? at h
  split at h
  · next hfits =>
    cases h
    simp only [unpack, UInt8.toNat_ofNat']
    split <;> omega
  · cases h

theorem split?_append (b : IdBytes) (rest : Bytes) : split? (b.toBytes ++ rest) = some (b, rest) :=
  rfl

end IdBytes

namespace TermRow

variable {row : TermRow Bytes} {value : Bytes} {item : Text × Bytes}

/-- A row is read back from its byte string. -/
theorem ofValue?_of_value? (h : row.value? = some value) :
    ofValue? value = some (row.id, row.blob) := by
  obtain ⟨b, hb, rfl⟩ := Option.map_eq_some_iff.1 h
  simp only [ofValue?, IdBytes.split?_append, Option.map_some, IdBytes.unpack_of_pack? hb]

theorem item?_eq_some_iff :
    row.item? = some item ↔ item.1 = row.term ∧ row.value? = some item.2 := by
  obtain ⟨key, value⟩ := item
  simp only [item?, Option.map_eq_some_iff, Prod.mk.injEq]
  constructor
  · rintro ⟨v, hv, rfl, rfl⟩
    exact ⟨rfl, hv⟩
  · rintro ⟨rfl, hv⟩
    exact ⟨value, hv, rfl, rfl⟩

theorem exists_item?_iff : (∃ item, row.item? = some item) ↔ IdBytes.Fits row.id := by
  simp [← IdBytes.exists_pack?_iff, item?, value?]

end TermRow

namespace RowStore

variable {β : Type}

theorem foldl_add (store rows : RowStore β) : rows.foldl add store = store ++ rows := by
  induction rows generalizing store with
  | nil => exact (List.append_nil store).symm
  | cons row rows ih => rw [List.foldl_cons, ih, add, List.append_assoc, List.singleton_append]

theorem mem_lookup_iff {store : RowStore β} {term : Text} {pair : Int × β} :
    pair ∈ store.lookup term ↔ ∃ row ∈ store, row.term = term ∧ (row.id, row.blob) = pair := by
  simp [lookup, and_assoc]

end RowStore

namespace Trie

variable {trie : Trie} {rows : List (TermRow Bytes)} {items : List (Text × Bytes)} {term : Text}

/-- Under a term stand the byte strings of its rows. -/
theorem mem_get_iff (hitems : rows.mapM TermRow.item? = some items) {value : Bytes} :
    value ∈ trie.get (trie.ofItems items) term ↔
      ∃ row ∈ rows, row.term = term ∧ row.value? = some value := by
  rw [trie.mem_get_ofItems, mem_iff_of_mapM_eq_some hitems]
  simp only [TermRow.item?_eq_some_iff, eq_comm (a := term)]

/-- The rows of a term are read back from their byte strings, each once. -/
theorem exists_lookup (hitems : rows.mapM TermRow.item? = some items) (term : Text) :
    ∃ found, trie.lookup (trie.ofItems items) term = some found ∧ found.Nodup ∧
      ∀ pair, pair ∈ found ↔ pair ∈ RowStore.lookup rows term := by
  obtain ⟨found, hfound⟩ : ∃ found, trie.lookup (trie.ofItems items) term = some found := by
    refine exists_mapM_eq_some_iff.2 fun value hvalue => ?_
    obtain ⟨row, -, -, hrow⟩ := (mem_get_iff hitems).1 hvalue
    exact ⟨_, TermRow.ofValue?_of_value? hrow⟩
  refine ⟨found, hfound, ?_, fun pair => ?_⟩
  · -- two byte strings that are read as one row are the byte string of that row
    have hmap := mapM_eq_some_iff.1 hfound
    refine List.Nodup.of_map some ?_
    rw [← hmap]
    refine (trie.nodup_get_ofItems items term).map_on fun v hv w hw hvw => ?_
    obtain ⟨row, -, -, hrow⟩ := (mem_get_iff hitems).1 hv
    obtain ⟨other, -, -, hother⟩ := (mem_get_iff hitems).1 hw
    rw [TermRow.ofValue?_of_value? hrow, TermRow.ofValue?_of_value? hother, Option.some.injEq,
      Prod.mk.injEq] at hvw
    rw [TermRow.value?, hvw.1, hvw.2] at hrow
    exact Option.some.inj (hrow.symm.trans hother)
  · rw [mem_iff_of_mapM_eq_some hfound, RowStore.mem_lookup_iff]
    constructor
    · rintro ⟨value, hvalue, hpair⟩
      obtain ⟨row, hmem, hterm, hrow⟩ := (mem_get_iff hitems).1 hvalue
      rw [TermRow.ofValue?_of_value? hrow] at hpair
      exact ⟨row, hmem, hterm, Option.some.inj hpair⟩
    · rintro ⟨row, hmem, hterm, rfl⟩
      obtain ⟨item, hitem⟩ := exists_mapM_eq_some_iff.1 ⟨items, hitems⟩ row hmem
      obtain ⟨-, hvalue⟩ := TermRow.item?_eq_some_iff.1 hitem
      exact ⟨item.2, (mem_get_iff hitems).2 ⟨row, hmem, hterm, hvalue⟩,
        TermRow.ofValue?_of_value? hvalue⟩

/-- Whatever keeps the byte strings: a store of rows whose ids fit is built and counts the rows, and under
every term it holds what the rows themselves hold, each pair of id and blob once. With an id that does
not fit nothing is built. -/
theorem build_agrees_with_rowStore (trie : Trie) (rows : List (TermRow Bytes))
    (old : Option trie.Kept) :
    ((∀ row ∈ rows, IdBytes.Fits row.id) →
      ∃ store, trie.build rows old = (some store, .ok rows.length) ∧
        ∀ term, ∃ found, trie.lookup store term = some found ∧ found.Nodup ∧
          ∀ pair, pair ∈ found ↔ pair ∈ RowStore.lookup (rows.foldl RowStore.add []) term) ∧
    ((∃ row ∈ rows, ¬ IdBytes.Fits row.id) →
      trie.build rows old = (old, .error .idOutOfRange)) := by
  have hbuilt : (∃ items, rows.mapM TermRow.item? = some items) ↔
      ∀ row ∈ rows, IdBytes.Fits row.id := by
    simp only [exists_mapM_eq_some_iff, TermRow.exists_item?_iff]
  constructor
  · intro hfits
    obtain ⟨items, hitems⟩ := hbuilt.2 hfits
    have hlength : items.length = rows.length := by
      simpa using (congrArg List.length (mapM_eq_some_iff.1 hitems)).symm
    refine ⟨trie.ofItems items, ?_, fun term => ?_⟩
    · rw [build, hitems, ← hlength]
    · rw [RowStore.foldl_add, List.nil_append]
      exact exists_lookup hitems term
  · rintro ⟨row, hrow, hfits⟩
    cases hitems : rows.mapM TermRow.item? with
    | none => rw [build, hitems]
    | some items => exact absurd (hbuilt.1 ⟨items, hitems⟩ row hrow) hfits

/-- Rows of one term with the least and the greatest id, one of them twice, and a blob that looks like an
id. -/
def extremeRows : List (TermRow Bytes) :=
  [⟨['a'], -2 ^ 31, []⟩, ⟨['a'], 2 ^ 31 - 1, [255, 255, 255, 255]⟩, ⟨['b'], -1, [0]⟩,
    ⟨['a'], -2 ^ 31, []⟩]

theorem build_agrees_with_rowStore_extremeRows :
    (∀ row ∈ extremeRows, IdBytes.Fits row.id) ∧
      (∃ store, listed.build extremeRows none = (some store, .ok 4) ∧
        ∃ found, listed.lookup store ['a'] = some found ∧ found.Nodup ∧
          (2 ^ 31 - 1, [255, 255, 255, 255]) ∈ found) ∧
      (∃ row ∈ ⟨['a'], 2 ^ 31, []⟩ :: extremeRows, ¬ IdBytes.Fits row.id) ∧
      listed.build (⟨['a'], 2 ^ 31, []⟩ :: extremeRows) none = (none, .error .idOutOfRange) := by
  have hfits : ∀ row ∈ extremeRows, IdBytes.Fits row.id := by decide
  have hlarge : ∃ row ∈ ⟨['a'], 2 ^ 31, []⟩ :: extremeRows, ¬ IdBytes.Fits row.id :=
    ⟨_, List.mem_cons_self .., by decide⟩
  obtain ⟨store, hbuild, hlookup⟩ := (build_agrees_with_rowStore listed extremeRows none).1 hfits
  obtain ⟨found, hfound, hnodup, hmem⟩ := hlookup ['a']
  exact ⟨hfits, ⟨store, hbuild, found, hfound, hnodup, (hmem _).2 (by decide)⟩, hlarge,
    (build_agrees_with_rowStore listed _ none).2 hlarge⟩

end Trie
end Lexicon
