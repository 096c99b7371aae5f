import Lexicon.Proofs.Dictionary.Collection
import Lexicon.Proofs.Language.Shipped

/-! Faults of the store during a search. A word whose lookup fails gives nothing, and so does a row that
holds no record; each is reported once, and what is found for everything else does not depend on it. -/
namespace Lexicon

namespace Source

/-- The source without its faults: a term whose lookup fails has no rows, and rows that hold no record
are gone. -/
def repaired (source : Source) : Source where
  __ := source
  lookup w := some (((source.lookup w).getD []).filter fun row => (source.decode row.2).isOk)

/-- What is reported of a row of a word: that it cannot be read, unless its dictionary is switched
off. -/
def rowFault? (source : Source) (w : Text) (row : Int × Blob) : Option SearchWarning :=
  match source.decode row.2 with
  | .ok _ => none
  | .error e => if source.snapshot.isEnabled row.1 then some (.unreadable w row.1 e) else none

/-- What is reported of a word that is looked up. -/
def faults (source : Source) (w : Text) : List SearchWarning :=
  match source.lookup w with
  | none => [.lookupFailed w]
  | some rows => rows.filterMap (source.rowFault? w)

end Source

namespace Search

variable {source : Source} {l : Language} {window : Text}

/-- Words in the order of a search: all that some front of the window gives, each once, those of longer
fronts first and those of one front in their order there. -/
structure LookupOrder (source : Source) (l : Language) (window : Text) (ws : List Text) : Prop where
  nodup : ws.Nodup
  mem_iff : ∀ w, w ∈ ws ↔ ∃ n, 1 ≤ n ∧ n ≤ window.length ∧ w ∈ words source l (window.take n)
  ordered : ws.Pairwise fun v w => ∀ m n, Spans source l window v m → Spans source l window w n →
    n < m ∨ m = n ∧ place source l window v m < place source l window w n

/-- The words looked up are in the order of the search. -/
theorem lookupOrder_lookedUp (source : Source) (l : Language) (window : Text) :
    LookupOrder source l window ((lookedUp source l window).map (·.word)) := by
  have hsorted := @pairwise_lookedUp source l window
  refine ⟨?_, fun w => ?_, ?_⟩
  · refine List.pairwise_map.2 (hsorted.imp_of_mem ?_)
    intro c d hc hd hcd hword
    have hlength : c.sourceLength = d.sourceLength :=
      (spans_of_mem_lookedUp hc).unique (hword ▸ spans_of_mem_lookedUp hd)
    rw [hword, hlength] at hcd
    omega
  · rw [List.mem_map]
    constructor
    · rintro ⟨c, hc, rfl⟩
      have hspans := spans_of_mem_lookedUp hc
      exact ⟨_, hspans.pos, hspans.le, hspans.mem⟩
    · rintro ⟨n, hpos, hle, hw⟩
      exact exists_mem_lookedUp hpos hle hw
  · refine List.pairwise_map.2 (hsorted.imp_of_mem ?_)
    intro c d hc hd hcd m n hm hn
    rw [hm.unique (spans_of_mem_lookedUp hc), hn.unique (spans_of_mem_lookedUp hd)]
    exact hcd

section Fetch

variable (source) (c : Candidate) (row : Int × Blob)

theorem entryOfRow?_bind_warningOf? :
    (entryOfRow? source c row).bind warningOf? = source.rowFault? c.word row := by
  unfold entryOfRow? Source.rowFault?
  split <;> cases source.decode row.2 <;> rfl

/-- A row that holds no record gives no entry. -/
theorem entryOfRow?_bind_entryOf?_eq_none (h : (source.decode row.2).isOk = false) :
    (entryOfRow? source c row).bind entryOf? = none := by
  unfold entryOfRow?
  split
  · cases hr : source.decode row.2 with
    | error e => rfl
    | ok r =>
      rw [hr] at h
      cases h
  · rfl

theorem rowFault?_eq_none (w : Text) (h : (source.decode row.2).isOk = true) :
    source.rowFault? w row = none := by
  unfold Source.rowFault?
  cases hr : source.decode row.2 with
  | ok r => rfl
  | error e =>
    rw [hr] at h
    cases h

theorem warnings_fetch : (fetch source c).filterMap warningOf? = source.faults c.word := by
  unfold fetch Source.faults
  cases source.lookup c.word with
  | none => rfl
  | some rows =>
    simp only [List.filterMap_filterMap, entryOfRow?_bind_warningOf?]

theorem faults_repaired (w : Text) : source.repaired.faults w = [] := by
  refine List.filterMap_eq_nil_iff.2 fun row hrow => ?_
  exact rowFault?_eq_none source row w (List.mem_filter.1 hrow).2

/-- Faults of a word cost no entry of it. -/
theorem entries_fetch_repaired :
    (fetch source.repaired c).filterMap entryOf? = (fetch source c).filterMap entryOf? := by
  have hkept (rows : List (Int × Blob)) :
      (rows.filter fun row => (source.decode row.2).isOk).filterMap
          (fun row => (entryOfRow? source c row).bind entryOf?) =
        rows.filterMap fun row => (entryOfRow? source c row).bind entryOf? := by
    rw [List.filterMap_filter]
    refine List.filterMap_congr fun row _ => ?_
    split
    · rfl
    · next h =>
      exact (entryOfRow?_bind_entryOf?_eq_none source c row (Bool.eq_false_iff.2 h)).symm
  have hrepaired : fetch source.repaired c =
      (((source.lookup c.word).getD []).filter fun row => (source.decode row.2).isOk).filterMap
        (entryOfRow? source c) := rfl
  rw [hrepaired, List.filterMap_filterMap, hkept]
  unfold fetch
  cases source.lookup c.word with
  | none => rfl
  | some rows => rw [List.filterMap_filterMap, Option.getD_some]

end Fetch

theorem warnings_ofWindow (source : Source) (l : Language) (window : Text) :
    (ofWindow source l window).warnings =
      ((lookedUp source l window).map (·.word)).flatMap source.faults := by
  have hfound : (ofWindow source l window).warnings =
      (collected source l window).filterMap warningOf? := rfl
  rw [hfound, collected_eq, List.filterMap_flatMap, List.flatMap_map]
  exact List.flatMap_congr fun c _ => warnings_fetch source c

theorem entries_ofWindow_repaired (source : Source) (l : Language) (window : Text) :
    (ofWindow source.repaired l window).entries = (ofWindow source l window).entries := by
  have hlookedUp : lookedUp source.repaired l window = lookedUp source l window := rfl
  have hfound : (collected source.repaired l window).filterMap entryOf? =
      (collected source l window).filterMap entryOf? := by
    rw [collected_eq, collected_eq, hlookedUp, List.filterMap_flatMap, List.filterMap_flatMap]
    exact List.flatMap_congr fun c _ => entries_fetch_repaired source c
  exact congrArg (rankEntries source.snapshot) hfound

/-- Faults of the store stay local. Deinflection returns for every text, so a search always ends with a
result; whichever lookups fail and whichever rows hold no record, its entries are those of the store
without the faults, where nothing is reported. With the faults, a search reports each once: for one
word after the other, as they are looked up, that the lookup failed or which of its rows cannot be
read, rows of a dictionary that is switched off left out. -/
theorem run_contains_faults (source : Source) (s : Text) (offset : Int) (l : Language)
    (maxLength : Int) :
    (∀ t, l.deinflections t = .ok (l.deinflect t)) ∧
      (run source s offset l maxLength).entries =
        (run source.repaired s offset l maxLength).entries ∧
      (run source.repaired s offset l maxLength).warnings = [] ∧
      ∃ ws, LookupOrder source l (Search.window s offset maxLength) ws ∧
        (run source s offset l maxLength).warnings = ws.flatMap source.faults := by
  refine ⟨l.deinflections_eq_ok, (entries_ofWindow_repaired source l _).symm, ?_,
    _, lookupOrder_lookedUp source l _, warnings_ofWindow source l _⟩
  refine (warnings_ofWindow source.repaired l _).trans (List.flatMap_eq_nil_iff.2 ?_)
  exact fun w _ => faults_repaired source w

/-- A store that fails for one word and holds an unreadable row under every other one. -/
def flaky : Source where
  lookup w := if w = ['a', 'b'] then none else some [(1, .plain [0]), (2, .plain [])]
  decode blob := match blob with
    | .plain [] => .ok ⟨2, [], .null, .null, .null⟩
    | _ => .error .notCompressed
  deinflect _ _ := []
  snapshot := []

example : (run flaky ['a', 'b'] 0 .korean 24).warnings =
    [.lookupFailed ['a', 'b'], .unreadable ['a'] 1 .notCompressed] := by decide

end Search
end Lexicon
