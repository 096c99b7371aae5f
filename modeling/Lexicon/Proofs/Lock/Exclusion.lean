import Lexicon.Proofs.Lock.Threads

/-! What a lock promises the threads that use it, whatever their number and the order of their turns. A writer
is alone inside, and no reader goes in while a writer waits. Nobody is forgotten: who waits without having
been woken has a reason to, and when nobody is inside, one of those who wait is let in at its next turn. -/
namespace Lexicon.Lock.Crowd

variable {c c' : Crowd} {i j : ℕ} {m wanted : LockMode}

section Exclusion

theorem IsSound.writer_iff (h : c.IsSound) :
    c.lock.writer = true ↔ .inside .write ∈ c.threads := by
  rw [← List.count_pos_iff, ← h.writers]
  cases c.lock.writer <;> simp

/-- A thread that another one is inside with is no writer. -/
theorem IsSound.not_inside_of_writer (h : c.IsSound) (hi : c.threads[i]? = some (.inside .write))
    (hij : i ≠ j) (m : LockMode) : c.threads[j]? ≠ some (.inside m) := by
  intro hj
  have hwriter := h.writer_iff.2 (List.mem_of_getElem? hi)
  cases m with
  | read =>
    have hreader : 0 < c.threads.count (.inside .read) := List.count_pos_iff.2 (List.mem_of_getElem? hj)
    have hzero := h.alone hwriter
    have hreaders := h.readers
    omega
  | write =>
    -- the other writer would be left when this one comes out
    have hcount := count_set_add (.inside .write) hi .outside
    have hleft : (c.threads.set i .outside)[j]? = some (.inside .write) := by
      rwa [List.getElem?_set_ne hij]
    have hpos := List.count_pos_iff.2 (List.mem_of_getElem? hleft)
    have hone := h.writers
    rw [hwriter] at hone
    simp at hcount hone
    omega

/-- Only a reader that is let in comes to be inside by looking. -/
theorem admits_of_look (hj : c.threads[j]? ≠ some (.inside .read))
    (hj' : (c.look i m).threads[j]? = some (.inside .read)) : c.lock.admits .read = true := by
  rw [look] at hj'
  split at hj' <;> rw [List.getElem?_set] at hj' <;> split at hj'
  · next hadmitted _ =>
    obtain rfl : m = .read := by simp_all
    exact hadmitted
  · exact absurd hj' hj
  · simp at hj'
  · exact absurd hj' hj

/-- Nobody comes to be inside when a thread comes out. -/
theorem inside_of_leave (hj' : (c.leave i m).threads[j]? = some (.inside .read)) :
    c.threads[j]? = some (.inside .read) := by
  have hset : (c.threads.set i .outside)[j]? = some (.inside .read) := by
    rw [leave] at hj'
    simp only at hj'
    split at hj'
    · rw [List.getElem?_map, Option.map_eq_some_iff] at hj'
      obtain ⟨t, ht, hwake⟩ := hj'
      cases t <;> simp [Thread.wake] at hwake
      rwa [hwake] at ht
    · exact hj'
  rw [List.getElem?_set] at hset
  split at hset
  · simp at hset
  · exact hset

theorem IsSound.not_awaits_of_admits (h : c.IsSound) (hadmits : c.lock.admits .read = true) :
    ∀ t ∈ c.threads, t.awaits .write = false := by
  obtain ⟨-, hzero⟩ := admits_read_iff.1 hadmits
  have hwaiting := h.waiting
  rw [hzero, eq_comm, Int.natCast_eq_zero, List.countP_eq_zero] at hwaiting
  exact fun t ht => by simpa using hwaiting t ht

/-- A reader goes in only when no writer waits. -/
theorem IsSound.not_awaits_of_turn (h : c.IsSound) (hturn : c.turn? i wanted = some c')
    (hj : c.threads[j]? ≠ some (.inside .read)) (hj' : c'.threads[j]? = some (.inside .read)) :
    ∀ t ∈ c.threads, t.awaits .write = false := by
  rcases turn?_eq_some_iff.1 hturn with ⟨-, rfl⟩ | ⟨m, -, rfl⟩ | ⟨m, -, rfl⟩
  · have harrived : (c.arrive i wanted).threads[j]? ≠ some (.inside .read) := by
      rw [Crowd.arrive, List.getElem?_set]
      split
      · simp
      · exact hj
    have hwaiting : 0 ≤ c.lock.waiting := by
      rw [h.waiting]
      exact Int.natCast_nonneg _
    exact h.not_awaits_of_admits (admits_of_admits_arrive hwaiting (admits_of_look harrived hj'))
  · exact h.not_awaits_of_admits (admits_of_look hj hj')
  · exact absurd (inside_of_leave hj') hj

/-- At any time a writer is alone inside, the lock counts the threads inside and the writers that wait as they
are, and while a writer waits no reader goes in. -/
theorem writer_alone_and_first (c : Crowd) (h : c.IsReachable) :
    (∀ i j : ℕ, i ≠ j → c.threads[i]? = some (.inside .write) →
      ∀ m, c.threads[j]? ≠ some (.inside m)) ∧
    c.lock.readers = c.threads.count (.inside .read) ∧
    (c.lock.writer = true ↔ .inside .write ∈ c.threads) ∧
    c.lock.waiting = c.threads.countP (·.awaits .write) ∧
    ∀ i wanted c', c.turn? i wanted = some c' → ∀ j : ℕ, c.threads[j]? ≠ some (.inside .read) →
      c'.threads[j]? = some (.inside .read) → ∀ t ∈ c.threads, t.awaits .write = false := by
  have hsound := h.isSound
  refine ⟨?_, hsound.readers, hsound.writer_iff, hsound.waiting, ?_⟩
  · intro i j hij hi m
    exact hsound.not_inside_of_writer hi hij m
  · intro i wanted c' hturn j hj hj'
    exact hsound.not_awaits_of_turn hturn hj hj'

/-- A writer that went in when a reader had come out, and a reader that came meanwhile. -/
def handedOver : Crowd := ⟨⟨0, true, 0⟩, [.outside, .inside .write, .waiting .read true]⟩

theorem isReachable_handedOver : handedOver.IsReachable :=
  ⟨3, [(0, .read), (1, .write), (2, .read), (0, .read), (1, .write)], by decide⟩

theorem writer_alone_and_first_handedOver : handedOver.IsReachable ∧
    (∀ m, handedOver.threads[2]? ≠ some (.inside m)) ∧
    handedOver.lock.readers = handedOver.threads.count (.inside .read) ∧
    (handedOver.lock.writer = true ↔ .inside .write ∈ handedOver.threads) ∧
    handedOver.lock.waiting = handedOver.threads.countP (·.awaits .write) := by
  obtain ⟨halone, hreaders, hwriter, hwaiting, -⟩ :=
    writer_alone_and_first handedOver isReachable_handedOver
  exact ⟨isReachable_handedOver, halone 1 2 (by decide) rfl, hreaders, hwriter, hwaiting⟩

end Exclusion

section Waking

/-- A reader sleeps for a writer's sake. -/
theorem IsSound.of_reader_asleep (h : c.IsSound) (hmem : .waiting .read false ∈ c.threads) :
    c.lock.writer = true ∨ 0 < c.lock.waiting := by
  have hrefused := mt (h.asleep .read) (not_not_intro hmem)
  rw [admits_read_iff] at hrefused
  have hwaiting := h.waiting
  cases hwriter : c.lock.writer with
  | true => exact .inl rfl
  | false =>
    right
    have hne : c.lock.waiting ≠ 0 := fun hzero => hrefused ⟨hwriter, hzero⟩
    omega

/-- A writer sleeps for the sake of those inside. -/
theorem IsSound.of_writer_asleep (h : c.IsSound) (hmem : .waiting .write false ∈ c.threads) :
    c.lock.writer = true ∨ 0 < c.lock.readers := by
  have hrefused := mt (h.asleep .write) (not_not_intro hmem)
  rw [admits_write_iff] at hrefused
  have hreaders := h.readers
  cases hwriter : c.lock.writer with
  | true => exact .inl rfl
  | false =>
    right
    have hne : c.lock.readers ≠ 0 := fun hzero => hrefused ⟨hwriter, hzero⟩
    omega

/-- When nobody is inside, one of those who wait has been woken and would be let in. -/
theorem IsSound.exists_admitted (h : c.IsSound) (hnobody : ∀ m, .inside m ∉ c.threads)
    (hwaits : ∃ m woken, .waiting m woken ∈ c.threads) :
    ∃ m, .waiting m true ∈ c.threads ∧ c.lock.admits m = true := by
  have hwriter : c.lock.writer = false := by
    rw [← Bool.not_eq_true, h.writer_iff]
    exact hnobody .write
  have hreaders : c.lock.readers = 0 := by
    rw [h.readers, List.count_eq_zero.2 (hnobody .read)]
    rfl
  have hwrite : c.lock.admits .write = true := admits_write_iff.2 ⟨hwriter, hreaders⟩
  by_cases hwriters : .waiting .write true ∈ c.threads
  · exact ⟨.write, hwriters, hwrite⟩
  · -- no writer waits, so the lock is open to readers
    have hnone : ∀ woken, .waiting .write woken ∉ c.threads := by
      intro woken
      cases woken with
      | true => exact hwriters
      | false => exact h.asleep .write hwrite
    have hread : c.lock.admits .read = true := by
      refine admits_read_iff.2 ⟨hwriter, ?_⟩
      rw [h.waiting, List.countP_eq_zero.2]
      · rfl
      · intro t ht
        cases t with
        | outside => simp
        | waiting m woken =>
          cases m with
          | read => simp
          | write => exact absurd ht (hnone woken)
        | inside m => simp
    obtain ⟨m, woken, hmem⟩ := hwaits
    cases m with
    | write => exact absurd hmem (hnone woken)
    | read =>
      cases woken with
      | true => exact ⟨.read, hmem, hread⟩
      | false => exact absurd hmem (h.asleep .read hread)

/-- When nobody is inside and somebody waits, there is a thread whose next turn takes it inside. -/
theorem exists_turn_inside (h : c.IsReachable) (hnobody : ∀ m, .inside m ∉ c.threads)
    (hwaits : ∃ m woken, .waiting m woken ∈ c.threads) :
    ∃ i m c', c.threads[i]? = some (.waiting m true) ∧ (∀ wanted, c.turn? i wanted = some c') ∧
      c'.threads[i]? = some (.inside m) := by
  obtain ⟨m, hmem, hadmits⟩ := h.isSound.exists_admitted hnobody hwaits
  obtain ⟨i, hi⟩ := List.mem_iff_getElem?.1 hmem
  refine ⟨i, m, c.look i m, hi, fun wanted => turn?_eq_some_iff.2 (.inr (.inl ⟨m, hi, rfl⟩)), ?_⟩
  rw [look, if_pos hadmits]
  exact List.getElem?_set_self (List.getElem?_eq_some_iff.1 hi).1

/-- Nobody is inside, somebody waits, and nobody who waits has been woken. -/
structure IsStranded (c : Crowd) : Prop where
  nobody : ∀ m, .inside m ∉ c.threads
  waits : ∃ m, .waiting m false ∈ c.threads
  asleep : ∀ m, .waiting m true ∉ c.threads

/-- At any time a thread that waits without having been woken has a reason to: a reader that a writer is
inside or waits, a writer that somebody is inside. So the threads are never stranded. -/
theorem no_wakeup_lost (c : Crowd) (h : c.IsReachable) :
    (.waiting .read false ∈ c.threads → c.lock.writer = true ∨ 0 < c.lock.waiting) ∧
    (.waiting .write false ∈ c.threads → c.lock.writer = true ∨ 0 < c.lock.readers) ∧
    ¬ c.IsStranded := by
  refine ⟨h.isSound.of_reader_asleep, h.isSound.of_writer_asleep, ?_⟩
  rintro ⟨hnobody, ⟨m, hwaits⟩, hasleep⟩
  obtain ⟨i, m', -, hi, -⟩ := exists_turn_inside h hnobody ⟨m, false, hwaits⟩
  exact hasleep m' (List.mem_of_getElem? hi)

/-- A writer that waits for a reader, and a reader that came after the writer. -/
def queued : Crowd :=
  ⟨⟨1, false, 1⟩, [.inside .read, .waiting .write false, .waiting .read false]⟩

theorem isReachable_queued : queued.IsReachable :=
  ⟨3, [(0, .read), (1, .write), (2, .read)], by decide⟩

theorem no_wakeup_lost_queued : queued.IsReachable ∧
    .waiting .read false ∈ queued.threads ∧ .waiting .write false ∈ queued.threads ∧
    (queued.lock.writer = true ∨ 0 < queued.lock.waiting) ∧
    (queued.lock.writer = true ∨ 0 < queued.lock.readers) ∧ ¬ queued.IsStranded := by
  obtain ⟨hread, hwrite, hstranded⟩ := no_wakeup_lost queued isReachable_queued
  exact ⟨isReachable_queued, by decide, by decide, hread (by decide), hwrite (by decide), hstranded⟩

end Waking

end Lexicon.Lock.Crowd
