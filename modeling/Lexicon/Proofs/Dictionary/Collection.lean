import Lexicon.Dictionary.Search
import Mathlib.Data.List.Basic

/-! What a search looks up: every word that a front of the window may come from, once, in the order of
the longest fronts that give it. -/
namespace Lexicon.Search

/-- The first candidate of every word that was not seen before. -/
def fresh (seen : List Text) : List Candidate → List Candidate
  | [] => []
  | c :: cs => if c.word ∈ seen then fresh seen cs else c :: fresh (c.word :: seen) cs

section Fresh

variable {seen : List Text} {c : Candidate} {cs : List Candidate}

theorem fresh_cons_of_mem (h : c.word ∈ seen) : fresh seen (c :: cs) = fresh seen cs := by
  rw [fresh, if_pos h]

theorem fresh_cons_of_not_mem (h : c.word ∉ seen) :
    fresh seen (c :: cs) = c :: fresh (c.word :: seen) cs := by
  rw [fresh, if_neg h]

theorem fresh_sublist (seen : List Text) (cs : List Candidate) : (fresh seen cs).Sublist cs := by
  induction cs generalizing seen with
  | nil => exact .slnil
  | cons c cs ih =>
    by_cases h : c.word ∈ seen
    · rw [fresh_cons_of_mem h]
      exact (ih seen).cons c
    · rw [fresh_cons_of_not_mem h]
      exact (ih _).cons_cons c

theorem not_mem_seen_of_mem_fresh (h : c ∈ fresh seen cs) : c.word ∉ seen := by
  induction cs generalizing seen with
  | nil => exact absurd h List.not_mem_nil
  | cons d cs ih =>
    by_cases hd : d.word ∈ seen
    · rw [fresh_cons_of_mem hd] at h
      exact ih h
    · rw [fresh_cons_of_not_mem hd, List.mem_cons] at h
      rcases h with rfl | h
      · exact hd
      · exact fun hseen => ih h (List.mem_cons_of_mem _ hseen)

/-- Every word that was not seen is given once more. -/
theorem exists_mem_fresh (hc : c ∈ cs) (h : c.word ∉ seen) :
    ∃ d ∈ fresh seen cs, d.word = c.word := by
  induction cs generalizing seen with
  | nil => exact absurd hc List.not_mem_nil
  | cons d cs ih =>
    by_cases hd : d.word ∈ seen
    · rw [fresh_cons_of_mem hd]
      rcases List.mem_cons.1 hc with rfl | hc
      · exact absurd hd h
      · exact ih hc h
    · rw [fresh_cons_of_not_mem hd]
      by_cases hword : d.word = c.word
      · exact ⟨d, List.mem_cons_self, hword⟩
      · have hc : c ∈ cs := (List.mem_cons.1 hc).resolve_left fun heq => hword (heq ▸ rfl)
        have h' : c.word ∉ d.word :: seen := by
          rw [List.mem_cons, not_or]
          exact ⟨fun heq => hword heq.symm, h⟩
        obtain ⟨e, he, heq⟩ := ih hc h'
        exact ⟨e, List.mem_cons_of_mem _ he, heq⟩

/-- Of all candidates of a word the first is kept. -/
theorem rel_of_mem_fresh {r : Candidate → Candidate → Prop} (hcs : cs.Pairwise r)
    (hc : c ∈ fresh seen cs) {d : Candidate} (hd : d ∈ cs) (hword : d.word = c.word) :
    d = c ∨ r c d := by
  induction cs generalizing seen with
  | nil => exact absurd hd List.not_mem_nil
  | cons e cs ih =>
    obtain ⟨he, hcs⟩ := List.pairwise_cons.1 hcs
    have hseen := not_mem_seen_of_mem_fresh hc
    by_cases hmem : e.word ∈ seen
    · rw [fresh_cons_of_mem hmem] at hc
      rcases List.mem_cons.1 hd with rfl | hd
      · exact absurd (hword ▸ hmem) hseen
      · exact ih hcs hc hd
    · rw [fresh_cons_of_not_mem hmem, List.mem_cons] at hc
      rcases hc with rfl | hc
      · exact (List.mem_cons.1 hd).imp_right (he d)
      · rcases List.mem_cons.1 hd with rfl | hd
        · exact absurd (hword ▸ List.mem_cons_self) (not_mem_seen_of_mem_fresh hc)
        · exact ih hcs hc hd

/-- Words are given in the order in which they first occur. -/
theorem pairwise_idxOf_fresh (seen : List Text) (cs : List Candidate) :
    (fresh seen cs).Pairwise fun c d =>
      (cs.map (·.word)).idxOf c.word < (cs.map (·.word)).idxOf d.word := by
  induction cs generalizing seen with
  | nil => exact .nil
  | cons e cs ih =>
    have hlater : ∀ seen : List Text, e.word ∈ seen → (fresh seen cs).Pairwise fun c d =>
        ((e :: cs).map (·.word)).idxOf c.word < ((e :: cs).map (·.word)).idxOf d.word := by
      intro seen he
      refine (ih seen).imp_of_mem ?_
      intro c d hc hd hcd
      have hce : e.word ≠ c.word := fun h => not_mem_seen_of_mem_fresh hc (h ▸ he)
      have hde : e.word ≠ d.word := fun h => not_mem_seen_of_mem_fresh hd (h ▸ he)
      rw [List.map_cons, List.idxOf_cons_ne _ hce, List.idxOf_cons_ne _ hde]
      exact Nat.succ_lt_succ hcd
    by_cases hmem : e.word ∈ seen
    · rw [fresh_cons_of_mem hmem]
      exact hlater seen hmem
    · rw [fresh_cons_of_not_mem hmem, List.pairwise_cons]
      refine ⟨?_, hlater _ List.mem_cons_self⟩
      intro d hd
      have hde : e.word ≠ d.word :=
        fun h => not_mem_seen_of_mem_fresh hd (h ▸ List.mem_cons_self)
      rw [List.map_cons, List.idxOf_cons_self, List.idxOf_cons_ne _ hde]
      exact Nat.succ_pos _

theorem exists_fresh_append (seen : List Text) (cs ds : List Candidate) :
    ∃ seen', fresh seen (cs ++ ds) = fresh seen cs ++ fresh seen' ds := by
  induction cs generalizing seen with
  | nil => exact ⟨seen, rfl⟩
  | cons c cs ih =>
    by_cases h : c.word ∈ seen
    · obtain ⟨seen', hrest⟩ := ih seen
      exact ⟨seen', by rw [List.cons_append, fresh_cons_of_mem h, fresh_cons_of_mem h, hrest]⟩
    · obtain ⟨seen', hrest⟩ := ih (c.word :: seen)
      refine ⟨seen', ?_⟩
      rw [List.cons_append, fresh_cons_of_not_mem h, fresh_cons_of_not_mem h, hrest,
        List.cons_append]

end Fresh

/-- The candidates of a front that may be looked up. -/
def admitted (source : Source) (l : Language) (s : Text) : List Candidate :=
  if skips l s then [] else (candidates source.deinflect l s).filter fun c => isValid l s c.word

/-- The words of a front that may be looked up. -/
def words (source : Source) (l : Language) (s : Text) : List Text :=
  (admitted source l s).map (·.word)

section Admitted

variable {source : Source} {l : Language} {s window : Text}

theorem sourceLength_of_mem_admitted {c : Candidate} (h : c ∈ admitted source l s) :
    c.sourceLength = s.length := by
  unfold admitted at h
  split at h
  · exact absurd h List.not_mem_nil
  · have hc := List.mem_of_mem_filter h
    simp only [candidates, List.mem_cons, List.mem_flatMap, List.mem_map] at hc
    rcases hc with rfl | ⟨variant, -, word, -, rfl⟩ <;> rfl

theorem sourceLength_eq {c : Candidate} {n : ℕ} (hle : n ≤ window.length)
    (h : c ∈ admitted source l (window.take n)) : c.sourceLength = n := by
  rw [sourceLength_of_mem_admitted h, List.length_take_of_le hle]

/-- The step for a front takes its admitted candidates one by one. -/
theorem scan_eq (p : Progress) :
    p.scan source l s = (admitted source l s).foldl (Progress.take source) p := by
  unfold Progress.scan admitted
  split
  · rfl
  · rw [List.foldl_filter]

/-- What taking candidates adds is what the fresh ones among them give. -/
theorem found_foldl_take (p : Progress) (cs : List Candidate) :
    (cs.foldl (Progress.take source) p).found =
      p.found ++ (fresh p.seen cs).flatMap (fetch source) := by
  induction cs generalizing p with
  | nil => simp [fresh]
  | cons c cs ih =>
    rw [List.foldl_cons, ih]
    by_cases h : c.word ∈ p.seen
    · rw [fresh_cons_of_mem h, Progress.take, if_pos (TextOf.isAmong_iff.2 h)]
    · rw [fresh_cons_of_not_mem h, Progress.take, if_neg (mt TextOf.isAmong_iff.1 h),
        List.flatMap_cons, List.append_assoc]

theorem foldl_scan (p : Progress) (texts : List Text) :
    texts.foldl (Progress.scan source l) p =
      (texts.flatMap (admitted source l)).foldl (Progress.take source) p := by
  induction texts generalizing p with
  | nil => rfl
  | cons s rest ih => rw [List.foldl_cons, ih, scan_eq, List.flatMap_cons, List.foldl_append]

/-- The admitted candidates of all fronts. -/
def scanned (source : Source) (l : Language) (window : Text) : List Candidate :=
  (fronts window).flatMap (admitted source l)

/-- The candidates that are looked up. -/
def lookedUp (source : Source) (l : Language) (window : Text) : List Candidate :=
  fresh [] (scanned source l window)

theorem collected_eq :
    collected source l window = (lookedUp source l window).flatMap (fetch source) := by
  rw [collected, foldl_scan, found_foldl_take]
  rfl

theorem mem_lengthsDown {n k : ℕ} : n ∈ lengthsDown k ↔ 1 ≤ n ∧ n ≤ k := by
  induction k with
  | zero =>
    simp only [lengthsDown, List.not_mem_nil, false_iff]
    omega
  | succ k ih =>
    rw [lengthsDown, List.mem_cons, ih]
    omega

theorem pairwise_lengthsDown (k : ℕ) : (lengthsDown k).Pairwise fun m n => n < m := by
  induction k with
  | zero => exact .nil
  | succ k ih =>
    refine List.pairwise_cons.2 ⟨?_, ih⟩
    intro n hn
    exact Nat.lt_succ_of_le (mem_lengthsDown.1 hn).2

theorem mem_fronts : s ∈ fronts window ↔ ∃ n, 1 ≤ n ∧ n ≤ window.length ∧ window.take n = s := by
  simp only [fronts, List.mem_map, mem_lengthsDown, and_assoc]

theorem pairwise_fronts (window : Text) :
    (fronts window).Pairwise fun s t => t.length < s.length := by
  refine List.pairwise_map.2 ((pairwise_lengthsDown window.length).imp_of_mem ?_)
  intro m n hm hn hlt
  rw [List.length_take_of_le (mem_lengthsDown.1 hm).2, List.length_take_of_le (mem_lengthsDown.1 hn).2]
  exact hlt

end Admitted

/-- The longest front that gives a word has so many characters. -/
structure Spans (source : Source) (l : Language) (window w : Text) (n : ℕ) : Prop where
  pos : 1 ≤ n
  le : n ≤ window.length
  mem : w ∈ words source l (window.take n)
  longest : ∀ m, n < m → m ≤ window.length → w ∉ words source l (window.take m)

section LookedUp

variable {source : Source} {l : Language} {window : Text} {c : Candidate}

theorem Spans.unique {w : Text} {m n : ℕ} (hm : Spans source l window w m)
    (hn : Spans source l window w n) : m = n := by
  rcases Nat.lt_trichotomy m n with h | h | h
  · exact absurd hn.mem (hm.longest n h hn.le)
  · exact h
  · exact absurd hm.mem (hn.longest m h hm.le)

theorem mem_scanned :
    c ∈ scanned source l window ↔
      1 ≤ c.sourceLength ∧ c.sourceLength ≤ window.length ∧
        c ∈ admitted source l (window.take c.sourceLength) := by
  simp only [scanned, List.mem_flatMap, mem_fronts]
  constructor
  · rintro ⟨s, ⟨n, hpos, hle, rfl⟩, hc⟩
    obtain rfl := sourceLength_eq hle hc
    exact ⟨hpos, hle, hc⟩
  · rintro ⟨hpos, hle, hc⟩
    exact ⟨_, ⟨c.sourceLength, hpos, hle, rfl⟩, hc⟩

theorem exists_of_mem_words {w : Text} {n : ℕ} (hpos : 1 ≤ n) (hle : n ≤ window.length)
    (hw : w ∈ words source l (window.take n)) :
    ∃ c ∈ scanned source l window, c.word = w ∧ c.sourceLength = n := by
  obtain ⟨c, hc, rfl⟩ := List.mem_map.1 hw
  obtain rfl := sourceLength_eq hle hc
  exact ⟨c, mem_scanned.2 ⟨hpos, hle, hc⟩, rfl, rfl⟩

/-- Candidates of longer fronts come first. -/
theorem pairwise_scanned (window : Text) :
    (scanned source l window).Pairwise fun c d => d.sourceLength ≤ c.sourceLength := by
  rw [scanned, List.pairwise_flatMap]
  refine ⟨?_, (pairwise_fronts window).imp ?_⟩
  · intro s _
    refine List.pairwise_of_forall_mem_list ?_
    intro c hc d hd
    exact Nat.le_of_eq
      ((sourceLength_of_mem_admitted hd).trans (sourceLength_of_mem_admitted hc).symm)
  · intro s t hst c hc d hd
    rw [sourceLength_of_mem_admitted hc, sourceLength_of_mem_admitted hd]
    exact Nat.le_of_lt hst

/-- A word is looked up with its longest front. -/
theorem spans_of_mem_lookedUp (h : c ∈ lookedUp source l window) :
    Spans source l window c.word c.sourceLength := by
  obtain ⟨hpos, hle, hc⟩ := mem_scanned.1 ((fresh_sublist _ _).mem h)
  refine ⟨hpos, hle, List.mem_map_of_mem hc, ?_⟩
  intro m hlt hm hmem
  obtain ⟨d, hd, hword, rfl⟩ := exists_of_mem_words (by omega) hm hmem
  rcases rel_of_mem_fresh (pairwise_scanned window) h hd hword with rfl | hcd
  · exact Nat.lt_irrefl _ hlt
  · omega

theorem exists_mem_lookedUp {w : Text} {n : ℕ} (hpos : 1 ≤ n) (hle : n ≤ window.length)
    (hw : w ∈ words source l (window.take n)) : ∃ c ∈ lookedUp source l window, c.word = w := by
  obtain ⟨c, hc, rfl, -⟩ := exists_of_mem_words hpos hle hw
  exact exists_mem_fresh hc List.not_mem_nil

/-- The words looked up are those that some front gives. -/
theorem exists_mem_lookedUp_iff {w : Text} {n : ℕ} :
    (∃ c ∈ lookedUp source l window, c.word = w ∧ c.sourceLength = n) ↔
      Spans source l window w n := by
  constructor
  · rintro ⟨c, hc, rfl, rfl⟩
    exact spans_of_mem_lookedUp hc
  · intro h
    obtain ⟨c, hc, rfl⟩ := exists_mem_lookedUp h.pos h.le h.mem
    exact ⟨c, hc, rfl, (spans_of_mem_lookedUp hc).unique h⟩

/-- The place of a word among those of a front. -/
def place (source : Source) (l : Language) (window w : Text) (n : ℕ) : ℕ :=
  (words source l (window.take n)).idxOf w

/-- Words of longer fronts are looked up first, those of one front in their order there. -/
theorem pairwise_lookedUp (window : Text) :
    (lookedUp source l window).Pairwise fun c d =>
      d.sourceLength < c.sourceLength ∨ c.sourceLength = d.sourceLength ∧
        place source l window c.word c.sourceLength <
          place source l window d.word d.sourceLength := by
  have hfronts : ∀ s ∈ fronts window, window.take s.length = s := by
    intro s hs
    obtain ⟨n, -, hle, rfl⟩ := mem_fronts.1 hs
    rw [List.length_take_of_le hle]
  have hlengths := pairwise_fronts window
  unfold lookedUp scanned
  generalize fronts window = texts at hfronts hlengths ⊢
  generalize ([] : List Text) = seen
  induction texts generalizing seen with
  | nil => exact .nil
  | cons s rest ih =>
    obtain ⟨hs, hrest⟩ := List.pairwise_cons.1 hlengths
    rw [List.flatMap_cons]
    obtain ⟨seen', happend⟩ :=
      exists_fresh_append seen (admitted source l s) (rest.flatMap (admitted source l))
    rw [happend, List.pairwise_append]
    refine ⟨?_, ih (fun t ht => hfronts t (List.mem_cons_of_mem _ ht)) hrest seen', ?_⟩
    · refine (pairwise_idxOf_fresh seen (admitted source l s)).imp_of_mem ?_
      intro c d hc hd hcd
      have hclen := sourceLength_of_mem_admitted ((fresh_sublist _ _).mem hc)
      have hdlen := sourceLength_of_mem_admitted ((fresh_sublist _ _).mem hd)
      refine .inr ⟨hclen.trans hdlen.symm, ?_⟩
      rw [place, place, hclen, hdlen, hfronts s List.mem_cons_self]
      exact hcd
    · intro c hc d hd
      have hclen := sourceLength_of_mem_admitted ((fresh_sublist _ _).mem hc)
      obtain ⟨t, ht, hdt⟩ := List.mem_flatMap.1 ((fresh_sublist _ _).mem hd)
      have hdlen := sourceLength_of_mem_admitted hdt
      exact .inl (hclen ▸ hdlen ▸ hs t ht)

end LookedUp
end Lexicon.Search
