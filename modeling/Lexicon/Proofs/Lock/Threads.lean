import Lexicon.Lock.Script
import Lexicon.Lock.Threads
import Mathlib.Data.List.Basic

/-! What holds of a lock and its threads at any time. The lock counts its threads rightly, a writer is alone
inside, and a thread that waits and has not been woken would not be let in. One turn keeps this, and so does
any number of turns. What a script does to the lock when it lets an operation through, a thread does in its
turns. -/
namespace Lexicon.Lock

section Admission

variable {lock : Lock} {m m' : LockMode}

theorem admits_read_iff : lock.admits .read = true ↔ lock.writer = false ∧ lock.waiting = 0 := by
  simp [admits]

theorem admits_write_iff : lock.admits .write = true ↔ lock.writer = false ∧ lock.readers = 0 := by
  simp [admits]

/-- A thread that comes to the lock opens it to no other. -/
theorem admits_of_admits_arrive (hwaiting : 0 ≤ lock.waiting)
    (h : (lock.arrive m').admits m = true) : lock.admits m = true := by
  cases m' with
  | read => exact h
  | write =>
    cases m with
    | read =>
      obtain ⟨-, hzero⟩ := admits_read_iff.1 h
      simp only [arrive] at hzero
      omega
    | write => exact h

/-- A thread that goes in opens the lock to no other. -/
theorem admits_of_admits_enter (hreaders : 0 ≤ lock.readers)
    (h : (lock.enter m').admits m = true) : lock.admits m = true := by
  cases m' with
  | read =>
    cases m with
    | read => exact h
    | write =>
      obtain ⟨-, hzero⟩ := admits_write_iff.1 h
      simp only [enter] at hzero
      omega
  | write => cases m <;> simp [enter, admits] at h

/-- A thread that comes out opens the lock to no other, unless it wakes those who wait. -/
theorem admits_of_admits_release (hwakes : (lock.release m').wakes m' = false)
    (h : (lock.release m').admits m = true) : lock.admits m = true := by
  cases m' with
  | read =>
    cases m with
    | read => exact h
    | write =>
      obtain ⟨-, hzero⟩ := admits_write_iff.1 h
      simp [wakes, hzero] at hwakes
  | write => simp [wakes] at hwakes

end Admission

section Counting

variable {threads : List Thread} {i : ℕ} {t : Thread}

/-- When a thread moves, a count changes by that thread alone. -/
theorem countP_set_add (p : Thread → Bool) (h : threads[i]? = some t) (t' : Thread) :
    (threads.set i t').countP p + (if p t then 1 else 0) =
      threads.countP p + if p t' then 1 else 0 := by
  obtain ⟨hi, rfl⟩ := List.getElem?_eq_some_iff.1 h
  obtain ⟨front, back, hsplit, -, hset⟩ :
      ∃ front back, threads = front ++ threads[i] :: back ∧ front.length = i ∧
        threads.set i t' = front ++ t' :: back := List.exists_of_set hi
  rw [hset]
  generalize threads[i] = t at hsplit ⊢
  subst hsplit
  simp only [List.countP_append, List.countP_cons]
  omega

theorem count_set_add (u : Thread) (h : threads[i]? = some t) (t' : Thread) :
    (threads.set i t').count u + (if t = u then 1 else 0) =
      threads.count u + if t' = u then 1 else 0 := by
  simpa [List.count] using countP_set_add (· == u) h t'

/-- Waking moves nobody. -/
theorem count_inside_map_wake (threads : List Thread) (m : LockMode) :
    (threads.map Thread.wake).count (.inside m) = threads.count (.inside m) := by
  rw [List.count_eq_countP, List.countP_map, List.count_eq_countP]
  refine List.countP_congr fun t _ => ?_
  cases t <;> simp [Thread.wake]

theorem countP_awaits_map_wake (threads : List Thread) (m : LockMode) :
    (threads.map Thread.wake).countP (·.awaits m) = threads.countP (·.awaits m) := by
  rw [List.countP_map]
  refine List.countP_congr fun t _ => ?_
  cases t <;> simp [Thread.wake]

theorem not_mem_map_wake (threads : List Thread) (m : LockMode) :
    Thread.waiting m false ∉ threads.map Thread.wake := by
  rw [List.mem_map]
  rintro ⟨t, -, ht⟩
  cases t <;> simp [Thread.wake] at ht

/-- A thread that moves brings in no thread but itself. -/
theorem not_mem_set {u t' : Thread} (h : u ∉ threads) (hne : u ≠ t') : u ∉ threads.set i t' := by
  intro hmem
  rcases List.mem_or_eq_of_mem_set hmem with hold | hnew
  · exact h hold
  · exact hne hnew

end Counting

namespace Crowd

variable {c c' : Crowd} {i j : ℕ} {m wanted : LockMode} {turns : List (ℕ × LockMode)}

/-- A lock in step with its threads: it counts them rightly, a writer is alone inside, and a thread that
has not been woken would not be let in. -/
structure IsSound (c : Crowd) : Prop where
  readers : c.lock.readers = c.threads.count (.inside .read)
  writers : c.lock.writer.toNat = c.threads.count (.inside .write)
  waiting : c.lock.waiting = c.threads.countP (·.awaits .write)
  alone : c.lock.writer = true → c.lock.readers = 0
  asleep : ∀ m, c.lock.admits m = true → .waiting m false ∉ c.threads

theorem isSound_start (n : ℕ) : (start n).IsSound where
  readers := by simp [start, free, List.count_replicate]
  writers := by simp [start, free, List.count_replicate]
  waiting := by simp [start, free, List.countP_replicate]
  alone := by simp [start, free]
  asleep m _ := by simp [start]

theorem IsSound.arrive (h : c.IsSound) (hi : c.threads[i]? = some .outside) (m : LockMode) :
    (c.arrive i m).IsSound := by
  obtain ⟨hreaders, hwriters, hwaiting, halone, hasleep⟩ := h
  have hread := count_set_add (.inside .read) hi (.waiting m true)
  have hwrite := count_set_add (.inside .write) hi (.waiting m true)
  have hwait := countP_set_add (·.awaits .write) hi (.waiting m true)
  refine ⟨?_, ?_, ?_, ?_, fun m' hadmits => ?_⟩
  · cases m <;> simp_all [Crowd.arrive, Lock.arrive]
  · cases m <;> simp_all [Crowd.arrive, Lock.arrive]
  · cases m <;> simp_all [Crowd.arrive, Lock.arrive]
  · cases m <;> exact halone
  · exact not_mem_set (hasleep m' (admits_of_admits_arrive (by omega) hadmits)) (by simp)

theorem IsSound.look (h : c.IsSound) (hi : c.threads[i]? = some (.waiting m true)) :
    (c.look i m).IsSound := by
  obtain ⟨hreaders, hwriters, hwaiting, halone, hasleep⟩ := h
  rw [Crowd.look]
  split
  · next hadmitted =>
    have hread := count_set_add (.inside .read) hi (.inside m)
    have hwrite := count_set_add (.inside .write) hi (.inside m)
    have hwait := countP_set_add (·.awaits .write) hi (.inside m)
    refine ⟨?_, ?_, ?_, ?_, fun m' hadmits => ?_⟩
    · cases m <;> simp_all [enter]
    · cases m <;> simp_all [enter, admits]
    · cases m <;> simp_all [enter]; omega
    · cases m <;> simp_all [enter, admits]
    · exact not_mem_set (hasleep m' (admits_of_admits_enter (by omega) hadmits)) (by simp)
  · next hrefused =>
    have hread := count_set_add (.inside .read) hi (.waiting m false)
    have hwrite := count_set_add (.inside .write) hi (.waiting m false)
    have hwait := countP_set_add (·.awaits .write) hi (.waiting m false)
    refine ⟨?_, ?_, ?_, halone, fun m' hadmits => ?_⟩
    · simp_all
    · simp_all
    · simp_all
    · refine not_mem_set (hasleep m' hadmits) fun heq => hrefused ?_
      cases heq
      exact hadmits

theorem IsSound.leave (h : c.IsSound) (hi : c.threads[i]? = some (.inside m)) :
    (c.leave i m).IsSound := by
  obtain ⟨hreaders, hwriters, hwaiting, halone, hasleep⟩ := h
  have hread := count_set_add (.inside .read) hi .outside
  have hwrite := count_set_add (.inside .write) hi .outside
  have hwait := countP_set_add (·.awaits .write) hi .outside
  have hin : 0 < c.threads.count (.inside m) := List.count_pos_iff.2 (List.mem_of_getElem? hi)
  have hreaders' : (c.lock.release m).readers = (c.threads.set i .outside).count (.inside .read) := by
    cases m <;> simp_all [release]; omega
  have hwriters' : (c.lock.release m).writer.toNat =
      (c.threads.set i .outside).count (.inside .write) := by
    have hone := Bool.toNat_le c.lock.writer
    cases m with
    | read => simp_all [release]
    | write => simp_all [release]; omega
  have hwaiting' : (c.lock.release m).waiting =
      (c.threads.set i .outside).countP (·.awaits .write) := by
    cases m <;> simp_all [release]
  have halone' : (c.lock.release m).writer = true → (c.lock.release m).readers = 0 := by
    cases m with
    | read =>
      intro hwriter
      have hzero := halone hwriter
      omega
    | write => simp [release]
  rw [Crowd.leave]
  split
  · refine ⟨?_, ?_, ?_, halone', fun m' _ => not_mem_map_wake _ m'⟩
    · rwa [count_inside_map_wake]
    · rwa [count_inside_map_wake]
    · rwa [countP_awaits_map_wake]
  · next hwakes =>
    refine ⟨hreaders', hwriters', hwaiting', halone', fun m' hadmits => ?_⟩
    exact not_mem_set (hasleep m' (admits_of_admits_release (by simpa using hwakes) hadmits)) (by simp)

/-- What a turn can be. -/
theorem turn?_eq_some_iff : c.turn? i wanted = some c' ↔
    (c.threads[i]? = some .outside ∧ (c.arrive i wanted).look i wanted = c') ∨
    (∃ m, c.threads[i]? = some (.waiting m true) ∧ c.look i m = c') ∨
    ∃ m, c.threads[i]? = some (.inside m) ∧ c.leave i m = c' := by
  rw [turn?]
  cases hi : c.threads[i]? with
  | none => simp
  | some t =>
    cases t with
    | outside => simp
    | waiting m woken => cases woken <;> simp
    | inside m => simp

theorem IsSound.turn (h : c.IsSound) (hturn : c.turn? i wanted = some c') : c'.IsSound := by
  rcases turn?_eq_some_iff.1 hturn with ⟨hi, rfl⟩ | ⟨m, hi, rfl⟩ | ⟨m, hi, rfl⟩
  · refine (h.arrive hi wanted).look ?_
    rw [Crowd.arrive, List.getElem?_set_self (List.getElem?_eq_some_iff.1 hi).1]
  · exact h.look hi
  · exact h.leave hi

theorem IsSound.run (h : c.IsSound) (hrun : c.run? turns = some c') : c'.IsSound := by
  induction turns generalizing c with
  | nil =>
    cases hrun
    exact h
  | cons turn turns ih =>
    rw [run?, List.foldlM_cons] at hrun
    obtain ⟨next, hturn, hrest⟩ := Option.bind_eq_some_iff.1 hrun
    exact ih (h.turn hturn) hrest

/-- At any time the lock is in step with its threads. -/
theorem IsReachable.isSound (h : c.IsReachable) : c.IsSound := by
  obtain ⟨n, turns, hrun⟩ := h
  exact (isSound_start n).run hrun

section Scripts

variable {during body : List Step} {fails : Bool}

/-- A scripted acquire that is let in at once is one turn of a thread from outside. -/
theorem turn?_eq_run_acquire (hi : c.threads[i]? = some .outside)
    (hadmits : (c.lock.arrive m).admits m = true) : c.turn? i m =
      some ⟨(Lock.run c.lock (.mk (.acquire m) during body fails)).1, c.threads.set i (.inside m)⟩ := by
  have hrun : (Lock.run c.lock (.mk (.acquire m) during body fails)).1
      = (c.lock.arrive m).enter m := by
    simp [Lock.run, hadmits]
  rw [hrun, turn?_eq_some_iff]
  refine .inl ⟨hi, ?_⟩
  rw [look, Crowd.arrive, if_pos hadmits, List.set_set]

/-- One that has to wait is two turns: a thread comes to the lock and falls asleep, and when it has been woken
by what happens meanwhile, it looks again. -/
theorem exists_turns_run_acquire (hi : c.threads[i]? = some .outside)
    (hrefused : (c.lock.arrive m).admits m = false) :
    ∃ asleep : Crowd, c.turn? i m = some asleep ∧ asleep.threads[i]? = some (.waiting m false) ∧
      ∀ woken : Crowd, woken.lock = (runAll asleep.lock during).1 →
        woken.threads[i]? = some (.waiting m true) → woken.lock.admits m = true →
          woken.turn? i wanted = some ⟨(Lock.run c.lock (.mk (.acquire m) during body fails)).1,
            woken.threads.set i (.inside m)⟩ := by
  refine ⟨⟨c.lock.arrive m, c.threads.set i (.waiting m false)⟩, ?_, ?_, ?_⟩
  · rw [turn?_eq_some_iff]
    refine .inl ⟨hi, ?_⟩
    rw [look, Crowd.arrive, if_neg (Bool.eq_false_iff.1 hrefused), List.set_set]
  · exact List.getElem?_set_self (List.getElem?_eq_some_iff.1 hi).1
  · intro woken hlock hwoken hadmits
    have hrun : (Lock.run c.lock (.mk (.acquire m) during body fails)).1 = woken.lock.enter m := by
      rw [hlock] at hadmits ⊢
      simp [Lock.run, hrefused, hadmits]
    rw [hrun, turn?_eq_some_iff]
    exact .inr (.inl ⟨m, hwoken, by rw [look, if_pos hadmits]⟩)

/-- A scripted release is the turn of a thread inside. -/
theorem lock_turn?_eq_run_release (hi : c.threads[i]? = some (.inside m)) :
    (c.turn? i wanted).map lock
      = some (Lock.run c.lock (.mk (.release m) during body fails)).1 := by
  have hturn : c.turn? i wanted = some (c.leave i m) := turn?_eq_some_iff.2 (.inr (.inr ⟨m, hi, rfl⟩))
  rw [hturn, Option.map_some, Lock.run]
  rfl

end Scripts

end Crowd
end Lexicon.Lock
