import Lexicon.Deinflection.Condition
import Lexicon.Proofs.Basic
import Lexicon.Proofs.Table
import Mathlib.Data.Fintype.Pigeonhole
import Mathlib.Data.Set.Finite.Basic
import Mathlib.Logic.Relation

/-! What the flags of conditions are. A composite refers to the conditions it lists; the passes over
a table give every condition the bits of the leaves it leads to, and those that lead to a cycle of
references, and no others, are left when a pass makes no progress. -/
namespace Lexicon

open Relation

/-- In a finite set in which every member has a successor, every member leads to a cycle. -/
theorem exists_cycle_of_forall_exists {α : Type*} {r : α → α → Prop} {members : List α}
    (h : ∀ a ∈ members, ∃ b ∈ members, r a b) {a : α} (ha : a ∈ members) :
    ∃ b, ReflTransGen r a b ∧ TransGen r b b := by
  choose f hf using fun a : {a // a ∈ members} => h a.1 a.2
  let next (a : {a // a ∈ members}) : {a // a ∈ members} := ⟨f a, (hf a).1⟩
  have hnext (b : {a // a ∈ members}) (n : ℕ) : ReflTransGen r b.1 (next^[n] b).1 := by
    induction n with
    | zero => exact .refl
    | succ n ih =>
      rw [Function.iterate_succ_apply']
      exact ih.tail (hf _).2
  have : Finite {a // a ∈ members} := members.finite_toSet.to_subtype
  obtain ⟨m, n, hne, heq⟩ := Finite.exists_ne_map_eq_of_infinite fun n : ℕ => next^[n] ⟨a, ha⟩
  wlog hlt : m < n generalizing m n
  · exact this n m hne.symm heq.symm (by omega)
  obtain ⟨k, rfl⟩ : ∃ k, n = k + 1 + m := ⟨n - m - 1, by omega⟩
  have hback := hnext (next (next^[m] ⟨a, ha⟩)) k
  rw [← Function.iterate_succ_apply, ← Function.iterate_add_apply, ← heq] at hback
  exact ⟨_, hnext ⟨a, ha⟩ m, TransGen.head' (hf _).2 hback⟩

namespace ConditionTable

/-- A composite lists a name. -/
def Refers (table : ConditionTable) (name sub : RawText) : Prop :=
  ∃ names, (name, some names) ∈ table ∧ sub ∈ names

/-- A condition leads to another one by any number of references. -/
def Reaches (table : ConditionTable) : RawText → RawText → Prop := ReflTransGen table.Refers

/-- A condition leads to one that leads back to itself. -/
def ReachesCycle (table : ConditionTable) (name : RawText) : Prop :=
  ∃ sub, table.Reaches name sub ∧ TransGen table.Refers sub sub

/-- Everything that is listed is in the table. -/
def IsClosed (table : ConditionTable) : Prop := ∀ name sub, table.Refers name sub → sub ∈ table.keys

/-- The leaves in table order. -/
def leafNames (table : ConditionTable) : List RawText :=
  Table.keys (table.filter fun entry => entry.2.isNone)

/-- A mask has exactly the bits of the leaves that a condition leads to. -/
def IsMaskOf (table : ConditionTable) (mask : Mask) (name : RawText) : Prop :=
  ∀ i, mask.testBit i = true ↔ ∃ leaf, table.leafNames[i]? = some leaf ∧ table.Reaches name leaf

section Graph

variable {table : ConditionTable} {name sub : RawText} {names : List RawText} {mask mask' : Mask}

theorem IsMaskOf.unique (h : table.IsMaskOf mask name) (h' : table.IsMaskOf mask' name) :
    mask = mask' :=
  Nat.eq_of_testBit_eq fun i => Bool.eq_iff_iff.2 ((h i).trans (h' i).symm)

theorem reachesCycle_iff :
    table.ReachesCycle name ↔ ∃ sub, table.Refers name sub ∧ table.ReachesCycle sub := by
  constructor
  · rintro ⟨cycle, hreach, hcycle⟩
    rcases hreach.cases_head with rfl | ⟨sub, hsub, hrest⟩
    · obtain ⟨sub, hsub, hback⟩ := TransGen.head'_iff.1 hcycle
      exact ⟨sub, hsub, name, hback, hcycle⟩
    · exact ⟨sub, hsub, cycle, hrest, hcycle⟩
  · rintro ⟨sub, hsub, cycle, hreach, hcycle⟩
    exact ⟨cycle, .head hsub hreach, hcycle⟩

theorem mem_keys_of_reachesCycle (h : table.ReachesCycle name) : name ∈ table.keys := by
  obtain ⟨sub, ⟨names, hmem, -⟩, -⟩ := reachesCycle_iff.1 h
  exact Table.mem_keys_of_mem hmem

/-- A table is closed when every entry lists names of the table. -/
theorem isClosed_iff :
    table.IsClosed ↔ ∀ entry ∈ table, ∀ sub ∈ entry.2.getD [], sub ∈ table.keys := by
  constructor
  · rintro h ⟨name, _ | names⟩ hentry sub hsub
    · cases hsub
    · exact h name sub ⟨names, hentry, hsub⟩
  · rintro h name sub ⟨names, hentry, hsub⟩
    exact h _ hentry sub hsub

section
variable (hkeys : table.keys.Nodup)

include hkeys

theorem refers_iff (hname : (name, some names) ∈ table) : table.Refers name sub ↔ sub ∈ names := by
  constructor
  · rintro ⟨names', hname', hsub⟩
    rwa [Option.some.inj (Table.eq_of_mem_of_mem hkeys hname hname')]
  · exact fun hsub => ⟨names, hname, hsub⟩

theorem not_refers_of_leaf (hname : (name, none) ∈ table) : ¬ table.Refers name sub := by
  rintro ⟨names, hname', -⟩
  exact absurd (Table.eq_of_mem_of_mem hkeys hname hname') (by simp)

theorem reaches_leaf_iff (hname : (name, none) ∈ table) : table.Reaches name sub ↔ sub = name := by
  constructor
  · intro h
    rcases h.cases_head with rfl | ⟨next, hnext, -⟩
    · rfl
    · exact absurd hnext (not_refers_of_leaf hkeys hname)
  · rintro rfl
    exact .refl

theorem reaches_composite_iff (hname : (name, some names) ∈ table) {leaf : RawText}
    (hleaf : (leaf, none) ∈ table) :
    table.Reaches name leaf ↔ ∃ sub ∈ names, table.Reaches sub leaf := by
  constructor
  · intro h
    rcases h.cases_head with rfl | ⟨sub, hsub, hrest⟩
    · exact absurd (Table.eq_of_mem_of_mem hkeys hname hleaf) (by simp)
    · exact ⟨sub, (refers_iff hkeys hname).1 hsub, hrest⟩
  · rintro ⟨sub, hsub, hrest⟩
    exact .head ((refers_iff hkeys hname).2 hsub) hrest

omit hkeys in
theorem mem_of_getElem?_leafNames {i : ℕ} (h : table.leafNames[i]? = some name) :
    (name, none) ∈ table := by
  obtain ⟨⟨k, v⟩, hmem, rfl⟩ := List.mem_map.1 (List.mem_of_getElem? h)
  obtain ⟨hmem, hv⟩ := List.mem_filter.1 hmem
  obtain rfl : v = none := Option.isNone_iff_eq_none.1 hv
  exact hmem

/-- A leaf has its own bit. -/
theorem isMaskOf_leaf {k : ℕ} (h : table.leafNames[k]? = some name) :
    table.IsMaskOf (1 <<< k) name := by
  intro i
  have hbit : (1 <<< k).testBit i = true ↔ i = k := by
    rw [Nat.one_shiftLeft, Nat.testBit_two_pow, decide_eq_true_iff, eq_comm]
  have hnodup : table.leafNames.Nodup := hkeys.sublist (List.filter_sublist.map _)
  rw [hbit]
  constructor
  · rintro rfl
    exact ⟨name, h, .refl⟩
  · rintro ⟨leaf, hleaf, hreach⟩
    rw [reaches_leaf_iff hkeys (mem_of_getElem?_leafNames h)] at hreach
    subst hreach
    obtain ⟨hi, hget⟩ := List.getElem?_eq_some_iff.1 hleaf
    obtain ⟨hk, hget'⟩ := List.getElem?_eq_some_iff.1 h
    exact (hnodup.getElem_inj_iff).1 (hget.trans hget'.symm)

end

end Graph

end ConditionTable

namespace FlagTable

variable {flags : FlagTable} {names : List RawText} {mask : Mask}

theorem union?_eq_none_iff :
    flags.union? names = none ↔ ∃ name ∈ names, flags.get? name = none := by
  induction names with
  | nil => simp [union?]
  | cons name rest ih =>
    cases hname : flags.get? name with
    | none => simp [union?, hname]
    | some mask =>
      cases hrest : flags.union? rest with
      | none => simpa [union?, hname, hrest] using ih.1 hrest
      | some mask' =>
        have hno : ¬ ∃ name ∈ rest, flags.get? name = none := fun h => by simp [ih.2 h] at hrest
        simp only [union?, hname, hrest, List.mem_cons, exists_eq_or_imp, reduceCtorEq, false_or,
          Option.bind_eq_bind, Option.bind_some, Option.pure_def, false_iff]
        exact hno

/-- A union has the bits of all its parts. -/
theorem testBit_union? (h : flags.union? names = some mask) (i : ℕ) :
    mask.testBit i = true ↔
      ∃ name ∈ names, ∃ part, flags.get? name = some part ∧ part.testBit i = true := by
  induction names generalizing mask with
  | nil =>
    obtain rfl : 0 = mask := by simpa [union?] using h
    simp
  | cons name rest ih =>
    cases hname : flags.get? name with
    | none => simp [union?, hname] at h
    | some part =>
      cases hrest : flags.union? rest with
      | none => simp [union?, hname, hrest] at h
      | some mask' =>
        obtain rfl : part ||| mask' = mask := by simpa [union?, hname, hrest] using h
        simp [Nat.testBit_or, ih hrest, hname]

end FlagTable

namespace ConditionTable

/-- What holds while the entries of a pass are taken one by one, `rest` being those to come. Flags
that are given stay right, nothing is lost, and the leaves met so far come first. -/
structure Progress (table : ConditionTable) (sweep : Sweep) (rest : ConditionTable) : Prop where
  isMaskOf : ∀ name mask, (name, mask) ∈ sweep.flags → table.IsMaskOf mask name
  acyclic : ∀ name ∈ Table.keys sweep.flags, ¬ table.ReachesCycle name
  known : ∀ name ∈ Table.keys sweep.flags, name ∈ table.keys
  covers : ∀ name ∈ table.keys,
    name ∈ Table.keys sweep.flags ∨ name ∈ Table.keys (sweep.waiting ++ rest)
  sublist : (sweep.waiting ++ rest).Sublist table
  composite : ∀ entry ∈ sweep.waiting, entry.2.isSome = true
  leaves : ∃ front, table.leafNames = front ++ leafNames rest ∧ front.length = sweep.leaves
  leaves_le : sweep.leaves ≤ maxLeaves

section Sweep

variable {table rest : ConditionTable} {sweep next : Sweep} {entry : RawText × Option (List RawText)}

theorem leafNames_cons_leaf (name : RawText) (rest : ConditionTable) :
    leafNames ((name, none) :: rest) = name :: leafNames rest := rfl

/-- The entry next in turn is given a flag. -/
theorem Progress.of_flag {mask : Mask} {leaves : ℕ} (h : table.Progress sweep (entry :: rest))
    (hmask : table.IsMaskOf mask entry.1) (hacyclic : ¬ table.ReachesCycle entry.1)
    (hleaves : ∃ front, table.leafNames = front ++ leafNames rest ∧ front.length = leaves)
    (hle : leaves ≤ maxLeaves) :
    table.Progress ⟨sweep.flags ++ [(entry.1, mask)], leaves, sweep.waiting⟩ rest := by
  have hkeys : ∀ name ∈ Table.keys (sweep.flags ++ [(entry.1, mask)]),
      name ∈ Table.keys sweep.flags ∨ name = entry.1 := by
    intro name hname
    simpa [Table.keys] using hname
  refine ⟨?_, ?_, ?_, ?_, ?_, h.composite, hleaves, hle⟩
  · intro name mask' hname
    rcases List.mem_append.1 hname with hname | hname
    · exact h.isMaskOf name mask' hname
    · cases List.mem_singleton.1 hname
      exact hmask
  · intro name hname
    rcases hkeys name hname with hname | rfl
    · exact h.acyclic name hname
    · exact hacyclic
  · intro name hname
    rcases hkeys name hname with hname | rfl
    · exact h.known name hname
    · exact List.mem_map_of_mem (h.sublist.subset (by simp))
  · intro name hname
    have := h.covers name hname
    simp only [Table.keys_append, Table.keys_cons, List.mem_append, List.mem_cons] at this ⊢
    tauto
  · exact (List.Sublist.append_left (List.sublist_cons_self _ _) _).trans h.sublist

theorem Progress.of_leaf (hkeys : table.keys.Nodup) {name : RawText}
    (h : table.Progress sweep ((name, none) :: rest)) (hlt : sweep.leaves < maxLeaves) :
    table.Progress { sweep with
      flags := sweep.flags ++ [(name, 1 <<< sweep.leaves)], leaves := sweep.leaves + 1 } rest := by
  obtain ⟨front, hleaves, hfront⟩ := h.leaves
  have hname : table.leafNames[sweep.leaves]? = some name := by
    rw [hleaves, leafNames_cons_leaf, ← hfront]
    simp
  refine h.of_flag (isMaskOf_leaf hkeys hname) ?_ ⟨front ++ [name], ?_, by simp [hfront]⟩ hlt
  · rw [reachesCycle_iff]
    rintro ⟨sub, hsub, -⟩
    exact not_refers_of_leaf hkeys (mem_of_getElem?_leafNames hname) hsub
  · rw [hleaves, leafNames_cons_leaf, List.append_assoc, List.singleton_append]

theorem Progress.of_union (hkeys : table.keys.Nodup) {name : RawText} {names : List RawText} {mask : Mask}
    (h : table.Progress sweep ((name, some names) :: rest))
    (hunion : sweep.flags.union? names = some mask) :
    table.Progress { sweep with flags := sweep.flags ++ [(name, mask)] } rest := by
  have hmem : (name, some names) ∈ table := h.sublist.subset (by simp)
  have hflag : ∀ sub ∈ names, ∃ part, sweep.flags.get? sub = some part := by
    intro sub hsub
    by_contra hnone
    have hget : sweep.flags.get? sub = none := by
      simpa [Option.eq_none_iff_forall_ne_some] using hnone
    have hmissing := FlagTable.union?_eq_none_iff.2 ⟨sub, hsub, hget⟩
    exact absurd (hmissing.symm.trans hunion) (by simp)
  refine h.of_flag ?_ ?_ h.leaves h.leaves_le
  · intro i
    rw [FlagTable.testBit_union? hunion]
    constructor
    · rintro ⟨sub, hsub, part, hget, hbit⟩
      obtain ⟨leaf, hleaf, hreach⟩ := (h.isMaskOf _ _ (Table.mem_of_get?_eq_some hget) i).1 hbit
      exact ⟨leaf, hleaf, .head ⟨names, hmem, hsub⟩ hreach⟩
    · rintro ⟨leaf, hleaf, hreach⟩
      obtain ⟨sub, hsub, hrest⟩ :=
        (reaches_composite_iff hkeys hmem (mem_of_getElem?_leafNames hleaf)).1 hreach
      obtain ⟨part, hget⟩ := hflag sub hsub
      exact ⟨sub, hsub, part, hget,
        (h.isMaskOf _ _ (Table.mem_of_get?_eq_some hget) i).2 ⟨leaf, hleaf, hrest⟩⟩
  · rw [reachesCycle_iff]
    rintro ⟨sub, hsub, hcycle⟩
    have hknown := Table.exists_get?_eq_some_iff.1 (hflag sub ((refers_iff hkeys hmem).1 hsub))
    exact h.acyclic sub hknown hcycle

theorem Progress.of_waiting {name : RawText} {names : List RawText}
    (h : table.Progress sweep ((name, some names) :: rest)) :
    table.Progress { sweep with waiting := sweep.waiting ++ [(name, some names)] } rest := by
  refine ⟨h.isMaskOf, h.acyclic, h.known, ?_, ?_, ?_, h.leaves, h.leaves_le⟩
  · simpa using h.covers
  · simpa using h.sublist
  · intro entry hentry
    rcases List.mem_append.1 hentry with hentry | hentry
    · exact h.composite entry hentry
    · rw [List.mem_singleton.1 hentry]
      rfl

/-- Taking an entry keeps what holds; it fails only at a leaf too many. -/
theorem Progress.step (hkeys : table.keys.Nodup) (h : table.Progress sweep (entry :: rest)) :
    (∃ next, sweepEntry sweep entry = .ok next ∧ table.Progress next rest) ∨
      sweepEntry sweep entry = .error .limit ∧ maxLeaves < table.leafNames.length := by
  obtain ⟨name, names?⟩ := entry
  cases names? with
  | none =>
    by_cases hle : maxLeaves ≤ sweep.leaves
    · obtain ⟨front, hleaves, hfront⟩ := h.leaves
      refine .inr ⟨by rw [sweepEntry, if_pos hle], ?_⟩
      rw [hleaves, leafNames_cons_leaf, List.length_append, List.length_cons]
      omega
    · exact .inl ⟨_, by rw [sweepEntry, if_neg hle], h.of_leaf hkeys (by omega)⟩
  | some names =>
    cases hunion : sweep.flags.union? names with
    | none => exact .inl ⟨_, by simp only [sweepEntry, hunion], h.of_waiting⟩
    | some mask => exact .inl ⟨_, by simp only [sweepEntry, hunion], h.of_union hkeys hunion⟩

/-- Taking entries one after the other keeps what holds. -/
theorem Progress.foldlM (hkeys : table.keys.Nodup) {entries : ConditionTable}
    (h : table.Progress sweep entries) :
    (∃ next, entries.foldlM sweepEntry sweep = .ok next ∧ table.Progress next []) ∨
      entries.foldlM sweepEntry sweep = .error .limit ∧ maxLeaves < table.leafNames.length := by
  induction entries generalizing sweep with
  | nil => exact .inl ⟨sweep, rfl, h⟩
  | cons entry rest ih =>
    rw [List.foldlM_cons]
    rcases h.step hkeys with ⟨next, hnext, hprogress⟩ | ⟨herror, hmany⟩
    · rw [hnext]
      exact ih hprogress
    · rw [herror]
      exact .inr ⟨rfl, hmany⟩

/-- What waits after one pass is taken up by the next one. -/
theorem Progress.again (h : table.Progress sweep []) :
    table.Progress ⟨sweep.flags, sweep.leaves, []⟩ sweep.waiting := by
  refine ⟨h.isMaskOf, h.acyclic, h.known, ?_, ?_, by simp, ?_, h.leaves_le⟩
  · simpa using h.covers
  · simpa using h.sublist
  · obtain ⟨front, hleaves, hfront⟩ := h.leaves
    have hnone : sweep.waiting.filter (fun entry => entry.2.isNone) = [] := by
      rw [List.filter_eq_nil_iff]
      intro entry hentry
      simpa using Option.isSome_iff_ne_none.1 (h.composite entry hentry)
    exact ⟨front, by rw [hleaves, leafNames, leafNames, hnone, List.filter_nil], hfront⟩

/-- When a pass makes no progress, every entry in it lists a name without a flag. -/
theorem stuck_of_foldlM {entries : ConditionTable}
    (h : entries.foldlM sweepEntry sweep = .ok next)
    (hlength : next.waiting.length = sweep.waiting.length + entries.length) :
    next.flags = sweep.flags ∧ next.waiting = sweep.waiting ++ entries ∧
      ∀ entry ∈ entries, ∃ names, entry.2 = some names ∧ sweep.flags.union? names = none := by
  induction entries generalizing sweep with
  | nil =>
    obtain rfl : sweep = next := by simpa [pure, Except.pure] using h
    simp
  | cons entry rest ih =>
    rw [List.foldlM_cons] at h
    obtain ⟨mid, hmid, h⟩ := bind_eq_ok_iff.1 h
    have hle := length_waiting_of_foldlM h
    rw [List.length_cons] at hlength
    obtain ⟨name, names?⟩ := entry
    -- An entry that is given a flag leaves too few to wait.
    have hwaits : ∃ names, names? = some names ∧ sweep.flags.union? names = none ∧
        mid = { sweep with waiting := sweep.waiting ++ [(name, names?)] } := by
      cases names? with
      | none =>
        by_cases hfull : maxLeaves ≤ sweep.leaves
        · simp [sweepEntry, hfull] at hmid
        · obtain rfl : _ = mid := by
            simpa only [sweepEntry, if_neg hfull, Except.ok.injEq] using hmid
          simp only at hle
          omega
      | some names =>
        cases hunion : sweep.flags.union? names with
        | none =>
          obtain rfl : _ = mid := by simpa only [sweepEntry, hunion, Except.ok.injEq] using hmid
          exact ⟨names, rfl, hunion, rfl⟩
        | some mask =>
          obtain rfl : _ = mid := by simpa only [sweepEntry, hunion, Except.ok.injEq] using hmid
          simp only at hle
          omega
    obtain ⟨names, rfl, hunion, rfl⟩ := hwaits
    obtain ⟨hflags, hwaiting, hrest⟩ := ih h (by
      rw [List.length_append, List.length_singleton]
      omega)
    refine ⟨hflags, by simp [hwaiting], ?_⟩
    intro entry hentry
    rcases List.mem_cons.1 hentry with rfl | hentry
    · exact ⟨names, rfl, hunion⟩
    · exact hrest entry hentry

end Sweep

/-- Right answers of the passes over a table: flags for all conditions, or what is wrong with it. -/
def IsAnswer (table : ConditionTable) : Except ConditionError FlagTable → Prop
  | .ok flags =>
    table.leafNames.length ≤ maxLeaves ∧ (∀ name, ¬ table.ReachesCycle name) ∧
      (∀ name, name ∈ Table.keys flags ↔ name ∈ table.keys) ∧
        ∀ name mask, (name, mask) ∈ flags → table.IsMaskOf mask name
  | .error .limit => maxLeaves < table.leafNames.length
  | .error (.cycle names) =>
    table.leafNames.length ≤ maxLeaves ∧ names ≠ [] ∧ names.Sublist table.keys ∧
      ∀ name, name ∈ names ↔ table.ReachesCycle name
  | .error (.unknown _ _) => False

section Settle

variable {table waiting : ConditionTable} {sweep : Sweep} {flags : FlagTable} {leaves : ℕ}

/-- Leaves never wait, so after a pass all of them have been counted. -/
theorem Progress.length_leafNames_le (h : table.Progress sweep []) :
    table.leafNames.length ≤ maxLeaves := by
  obtain ⟨front, hleaves, hfront⟩ := h.leaves
  have hle := h.leaves_le
  rw [hleaves, List.length_append, hfront]
  exact hle

/-- When nothing waits any more, every condition has its flag. -/
theorem Progress.isAnswer (h : table.Progress ⟨flags, leaves, []⟩ []) :
    table.IsAnswer (.ok flags) := by
  have hkeys : ∀ name, name ∈ Table.keys flags ↔ name ∈ table.keys := by
    intro name
    refine ⟨h.known name, fun hname => ?_⟩
    rcases h.covers name hname with hflag | hwaiting
    · exact hflag
    · exact absurd hwaiting List.not_mem_nil
  refine ⟨h.length_leafNames_le, ?_, hkeys, h.isMaskOf⟩
  intro name hcycle
  exact h.acyclic name ((hkeys name).2 (mem_keys_of_reachesCycle hcycle)) hcycle

/-- When a pass makes no progress, exactly the conditions that lead to a cycle are left. -/
theorem Progress.isAnswer_of_stuck (hclosed : table.IsClosed)
    (h : table.Progress ⟨flags, leaves, []⟩ waiting) (hne : waiting ≠ [])
    (hsweep : sweepAll flags leaves waiting = .ok sweep) (hnext : table.Progress sweep [])
    (hlength : sweep.waiting.length = waiting.length) :
    table.IsAnswer (.error (.cycle (Table.keys sweep.waiting))) := by
  obtain ⟨-, hwaiting, hstuck⟩ := stuck_of_foldlM hsweep (by simpa using hlength)
  obtain rfl : sweep.waiting = waiting := by simpa using hwaiting
  have hsub : sweep.waiting.Sublist table := by simpa using h.sublist
  have hsuccessor : ∀ name ∈ Table.keys sweep.waiting,
      ∃ sub ∈ Table.keys sweep.waiting, table.Refers name sub := by
    intro name hname
    obtain ⟨⟨name, names?⟩, hentry, rfl⟩ := List.mem_map.1 hname
    obtain ⟨names, rfl, hunion⟩ := hstuck _ hentry
    obtain ⟨sub, hsubmem, hget⟩ := FlagTable.union?_eq_none_iff.1 hunion
    have hrefers : table.Refers name sub := ⟨names, hsub.subset hentry, hsubmem⟩
    have hunflagged : sub ∉ Table.keys flags := fun hmem => by
      obtain ⟨mask, hmask⟩ := Table.exists_get?_eq_some_iff.2 hmem
      exact absurd (hget.symm.trans hmask) (by simp)
    rcases h.covers sub (hclosed name sub hrefers) with hflag | hwaits
    · exact absurd hflag hunflagged
    · exact ⟨sub, by simpa using hwaits, hrefers⟩
  refine ⟨hnext.length_leafNames_le, ?_, hsub.map _, fun name => ⟨?_, ?_⟩⟩
  · simpa [Table.keys] using hne
  · exact exists_cycle_of_forall_exists hsuccessor
  · intro hcycle
    rcases h.covers name (mem_keys_of_reachesCycle hcycle) with hflag | hwaits
    · exact absurd hcycle (h.acyclic name hflag)
    · simpa using hwaits

/-- The passes from one of them on. -/
theorem settle_of_sweepAll {flags : FlagTable} {leaves : ℕ} {waiting : ConditionTable}
    (hne : waiting.isEmpty = false) (h : sweepAll flags leaves waiting = .ok next) :
    settle flags leaves waiting =
      if next.waiting.length = waiting.length then .error (.cycle next.waiting.keys)
      else settle next.flags next.leaves next.waiting := by
  rw [settle, if_neg (by simp [hne])]
  split
  · next herror => exact absurd (herror.symm.trans h) (by simp)
  · next sweep hsweep =>
    obtain rfl : sweep = next := Except.ok.inj (hsweep.symm.trans h)
    exact dite_eq_ite

/-- The passes end with a right answer. -/
theorem Progress.settle (hkeys : table.keys.Nodup) (hclosed : table.IsClosed)
    (h : table.Progress ⟨flags, leaves, []⟩ waiting) :
    table.IsAnswer (settle flags leaves waiting) := by
  fun_induction ConditionTable.settle flags leaves waiting with
  | case1 flags leaves waiting hempty =>
    obtain rfl : waiting = [] := List.isEmpty_iff.1 hempty
    exact h.isAnswer
  | case2 flags leaves waiting hne error herror =>
    rcases h.foldlM hkeys with ⟨next, hnext, -⟩ | ⟨hlimit, hmany⟩
    · exact absurd (herror.symm.trans hnext) (by simp)
    · obtain rfl : error = .limit := Except.error.inj (herror.symm.trans hlimit)
      exact hmany
  | case3 flags leaves waiting hne sweep hsweep hlength =>
    rcases h.foldlM hkeys with ⟨next, hnext, hprogress⟩ | ⟨hlimit, -⟩
    · obtain rfl : next = sweep := Except.ok.inj (hnext.symm.trans hsweep)
      exact h.isAnswer_of_stuck hclosed (by simpa using hne) hsweep hprogress hlength
    · exact absurd (hsweep.symm.trans hlimit) (by simp)
  | case4 flags leaves waiting hne sweep hsweep hlength ih =>
    rcases h.foldlM hkeys with ⟨next, hnext, hprogress⟩ | ⟨hlimit, -⟩
    · obtain rfl : next = sweep := Except.ok.inj (hnext.symm.trans hsweep)
      exact ih hprogress.again
    · exact absurd (hsweep.symm.trans hlimit) (by simp)

/-- Before the first pass nothing has a flag. -/
theorem Progress.start (table : ConditionTable) : table.Progress ⟨[], 0, []⟩ table :=
  ⟨by simp, by simp [Table.keys], by simp [Table.keys], fun _ h => .inr h, List.Sublist.refl _,
    by simp, ⟨[], rfl, rfl⟩, Nat.zero_le _⟩

end Settle

section Flags

variable {table : ConditionTable}

theorem any_eq_true_iff {sub : RawText} :
    table.any (fun entry => entry.1 = sub) = true ↔ sub ∈ table.keys := by
  simp only [List.any_eq_true, decide_eq_true_iff, Table.keys, List.mem_map]

/-- What is found first is a name that is listed and missing. -/
theorem refers_of_firstUnknown?_eq_some {name sub : RawText}
    (h : table.firstUnknown? = some (name, sub)) :
    table.Refers name sub ∧ sub ∉ table.keys := by
  obtain ⟨⟨name', names?⟩, hentry, hsub⟩ := List.exists_of_findSome?_eq_some h
  obtain ⟨sub', hfind, heq⟩ := Option.map_eq_some_iff.1 hsub
  cases heq
  have hmissing : sub ∉ table.keys := fun hmem => by
    simpa [any_eq_true_iff.2 hmem] using List.find?_some hfind
  cases names? with
  | none => simp at hfind
  | some names => exact ⟨⟨names, hentry, List.mem_of_find?_eq_some hfind⟩, hmissing⟩

theorem isClosed_of_firstUnknown?_eq_none (h : table.firstUnknown? = none) : table.IsClosed := by
  rintro name sub ⟨names, hentry, hsub⟩
  have hnone := List.findSome?_eq_none_iff.1 h _ hentry
  have hfind := List.find?_eq_none.1 (Option.map_eq_none_iff.1 hnone) sub hsub
  rw [← any_eq_true_iff]
  simpa using hfind

/-- The flags of all conditions: a bit for each leaf, in table order, and for a composite the bits
of all leaves it leads to. -/
structure HasFlags (table : ConditionTable) (fs : FlagTable) : Prop where
  exists_iff : ∀ name, (∃ mask, fs.get? name = some mask) ↔ name ∈ table.keys
  leaf : ∀ k name, table.leafNames[k]? = some name → fs.get? name = some (1 <<< k)
  isMaskOf : ∀ name mask, fs.get? name = some mask → table.IsMaskOf mask name

theorem hasFlags_of_isAnswer (hkeys : table.keys.Nodup) {fs : FlagTable}
    (h : table.IsAnswer (.ok fs)) :
    table.HasFlags fs := by
  obtain ⟨-, -, hknown, hmask⟩ := h
  have hexists : ∀ name, (∃ mask, fs.get? name = some mask) ↔ name ∈ table.keys := by
    intro name
    rw [← hknown]
    exact Table.exists_get?_eq_some_iff
  refine ⟨hexists, ?_, fun name mask hget => hmask name mask (Table.mem_of_get?_eq_some hget)⟩
  intro k name hname
  obtain ⟨mask, hget⟩ := (hexists name).2 (Table.mem_keys_of_mem (mem_of_getElem?_leafNames hname))
  have hown := hmask name mask (Table.mem_of_get?_eq_some hget)
  rw [hget, hown.unique (isMaskOf_leaf hkeys hname)]

/-- The passes give a right answer for every table with distinct names and nothing unknown. -/
theorem isAnswer_flags (hkeys : table.keys.Nodup) (hclosed : table.IsClosed) :
    table.IsAnswer table.flags := by
  cases hunknown : table.firstUnknown? with
  | none =>
    rw [flags, hunknown]
    exact (Progress.start table).settle hkeys hclosed
  | some unknown =>
    obtain ⟨hrefers, hmissing⟩ := refers_of_firstUnknown?_eq_some hunknown
    exact absurd (hclosed _ _ hrefers) hmissing

theorem flags_of_not_isClosed (h : ¬ table.IsClosed) :
    ∃ name sub, table.flags = .error (.unknown name sub) ∧
      table.Refers name sub ∧ sub ∉ table.keys := by
  cases hunknown : table.firstUnknown? with
  | none => exact absurd (isClosed_of_firstUnknown?_eq_none hunknown) h
  | some unknown =>
    exact ⟨_, _, by rw [flags, hunknown], refers_of_firstUnknown?_eq_some hunknown⟩

theorem flags_eq_limit (hkeys : table.keys.Nodup) (hclosed : table.IsClosed)
    (hmany : maxLeaves < table.leafNames.length) : table.flags = .error .limit := by
  have hanswer := isAnswer_flags hkeys hclosed
  generalize table.flags = answer at hanswer ⊢
  match answer with
  | .ok _ => exact absurd hmany (Nat.not_lt.2 hanswer.1)
  | .error .limit => rfl
  | .error (.cycle _) => exact absurd hmany (Nat.not_lt.2 hanswer.1)
  | .error (.unknown _ _) => exact hanswer.elim

theorem exists_flags_eq_cycle (hkeys : table.keys.Nodup) (hclosed : table.IsClosed)
    (hle : table.leafNames.length ≤ maxLeaves) {name : RawText} (hcycle : table.ReachesCycle name) :
    ∃ names, table.flags = .error (.cycle names) := by
  have hanswer := isAnswer_flags hkeys hclosed
  generalize table.flags = answer at hanswer ⊢
  match answer with
  | .ok _ => exact absurd hcycle (hanswer.2.1 name)
  | .error .limit => exact absurd hle (Nat.not_le.2 hanswer)
  | .error (.cycle names) => exact ⟨names, rfl⟩
  | .error (.unknown _ _) => exact hanswer.elim

theorem exists_hasFlags (hkeys : table.keys.Nodup) (hclosed : table.IsClosed)
    (hle : table.leafNames.length ≤ maxLeaves) (hacyclic : ∀ name, ¬ table.ReachesCycle name) :
    ∃ fs, table.flags = .ok fs ∧ table.HasFlags fs := by
  have hanswer := isAnswer_flags hkeys hclosed
  generalize table.flags = answer at hanswer ⊢
  match answer with
  | .ok fs => exact ⟨fs, rfl, hasFlags_of_isAnswer hkeys hanswer⟩
  | .error .limit => exact absurd hle (Nat.not_le.2 hanswer)
  | .error (.cycle names) =>
    obtain ⟨-, hne, -, hcycle⟩ := hanswer
    obtain ⟨name, hname⟩ := List.exists_mem_of_ne_nil names hne
    exact absurd ((hcycle name).1 hname) (hacyclic name)
  | .error (.unknown _ _) => exact hanswer.elim

/-- The flags of a table with distinct names. A name that is listed and missing is reported first,
then more than 32 leaves, then cycles: exactly the conditions that lead to one, in table order.
Without a fault every condition has its flag. -/
theorem flags_decided (hkeys : table.keys.Nodup) :
    ((∃ name sub, table.flags = .error (.unknown name sub)) ↔
        ∃ name sub, table.Refers name sub ∧ sub ∉ table.keys) ∧
      (table.IsClosed →
        (table.flags = .error .limit ↔ maxLeaves < table.leafNames.length) ∧
        (table.leafNames.length ≤ maxLeaves →
          ((∃ names, table.flags = .error (.cycle names)) ↔ ∃ name, table.ReachesCycle name) ∧
          (∀ names, table.flags = .error (.cycle names) →
            names.Sublist table.keys ∧ ∀ name, name ∈ names ↔ table.ReachesCycle name) ∧
          ((∀ name, ¬ table.ReachesCycle name) →
            ∃ fs, table.flags = .ok fs ∧ table.HasFlags fs))) := by
  refine ⟨⟨?_, ?_⟩, fun hclosed => ?_⟩
  · rintro ⟨name, sub, h⟩
    by_contra hno
    have hclosed : table.IsClosed := fun name sub hrefers =>
      not_not.1 fun hmissing => hno ⟨name, sub, hrefers, hmissing⟩
    have hanswer := isAnswer_flags hkeys hclosed
    rw [h] at hanswer
    exact hanswer
  · rintro ⟨name, sub, hrefers, hmissing⟩
    obtain ⟨name, sub, h, -⟩ :=
      flags_of_not_isClosed fun hclosed => hmissing (hclosed name sub hrefers)
    exact ⟨name, sub, h⟩
  · have hanswer := isAnswer_flags hkeys hclosed
    generalize table.flags = answer at hanswer ⊢
    match answer with
    | .error (.unknown _ _) => exact hanswer.elim
    | .error .limit =>
      refine ⟨iff_of_true rfl hanswer, fun hle => ?_⟩
      exact absurd hle (Nat.not_le.2 hanswer)
    | .error (.cycle names) =>
      obtain ⟨hle, hne, hsub, hcycle⟩ := hanswer
      obtain ⟨name, hname⟩ := List.exists_mem_of_ne_nil names hne
      refine ⟨by simpa using hle, fun _ => ⟨?_, ?_, ?_⟩⟩
      · exact iff_of_true ⟨names, rfl⟩ ⟨name, (hcycle name).1 hname⟩
      · rintro _ ⟨⟩
        exact ⟨hsub, hcycle⟩
      · exact fun hno => absurd ((hcycle name).1 hname) (hno name)
    | .ok fs =>
      refine ⟨by simpa using hanswer.1, fun _ => ⟨?_, ?_, ?_⟩⟩
      · simpa using hanswer.2.1
      · simp
      · exact fun _ => ⟨fs, rfl, hasFlags_of_isAnswer hkeys hanswer⟩

/-- A table in which `c` refers to itself and `a`, which stands before its parts, comes to it by way
of `b`. -/
def waitingForCycle : ConditionTable := [
  (['a'], some [['b'], ['l']]), (['l'], none), (['b'], some [['c']]), (['c'], some [['c']]),
  (['d'], some [])]

/-- What is left of the table after the first pass. -/
def waitingEntries : ConditionTable :=
  [(['a'], some [['b'], ['l']]), (['b'], some [['c']]), (['c'], some [['c']])]

theorem flags_decided_waitingForCycle :
    waitingForCycle.keys.Nodup ∧ waitingForCycle.IsClosed ∧
      waitingForCycle.leafNames.length ≤ maxLeaves ∧
      waitingForCycle.flags = .error (.cycle [['a'], ['b'], ['c']]) ∧
      ∀ name, name ∈ ([['a'], ['b'], ['c']] : List RawText) ↔
        waitingForCycle.ReachesCycle name := by
  have hkeys : waitingForCycle.keys.Nodup := by decide
  have hunknown : waitingForCycle.firstUnknown? = none := by decide
  have hclosed : waitingForCycle.IsClosed := isClosed_of_firstUnknown?_eq_none hunknown
  have hleaves : waitingForCycle.leafNames.length ≤ maxLeaves := by decide
  have hflags : waitingForCycle.flags = .error (.cycle [['a'], ['b'], ['c']]) := by
    have hfirst : sweepAll [] 0 waitingForCycle =
        .ok ⟨[(['l'], 1), (['d'], 0)], 1, waitingEntries⟩ := rfl
    have hsecond : sweepAll [(['l'], 1), (['d'], 0)] 1 waitingEntries =
        .ok ⟨[(['l'], 1), (['d'], 0)], 1, waitingEntries⟩ := rfl
    rw [flags, hunknown]
    simp only [settle_of_sweepAll rfl hfirst]
    rw [if_neg (by decide), settle_of_sweepAll rfl hsecond, if_pos rfl]
    rfl
  obtain ⟨-, hcycle, -⟩ := ((flags_decided hkeys).2 hclosed).2 hleaves
  exact ⟨hkeys, hclosed, hleaves, hflags, (hcycle _ hflags).2⟩

end Flags

end ConditionTable
end Lexicon
