import Lexicon.Lock.Basic

/-! Threads that share a lock, in any number and in any order of their turns. A thread comes to the lock,
goes in, or waits until it is woken and looks again, and comes out before it comes back. What a thread does in
one turn is not interrupted: only while it waits, is inside or is away can others have theirs. -/
namespace Lexicon.Lock

/-- Where a thread is with regard to the lock. -/
inductive Thread where
  | outside
  | waiting (mode : LockMode) (woken : Bool)
  | inside (mode : LockMode)
  deriving DecidableEq

namespace Thread

/-- Whether the thread waits to be let in, woken or not. -/
def awaits : Thread → LockMode → Bool
  | waiting m _, mode => m = mode
  | _, _ => false

@[simp] theorem awaits_outside (mode : LockMode) : outside.awaits mode = false := rfl

@[simp] theorem awaits_waiting (m : LockMode) (woken : Bool) (mode : LockMode) :
    (waiting m woken).awaits mode = decide (m = mode) := rfl

@[simp] theorem awaits_inside (m mode : LockMode) : (inside m).awaits mode = false := rfl

/-- Wakes a thread that waits. -/
def wake : Thread → Thread
  | waiting mode _ => waiting mode true
  | thread => thread

end Thread

/-- Whether those who wait are woken when a thread has come out: the writer and the last reader wake
them. -/
def wakes (lock : Lock) : LockMode → Bool
  | .read => lock.readers = 0
  | .write => true

/-- A lock with the threads that use it. -/
structure Crowd where
  lock : Lock
  threads : List Thread
  deriving DecidableEq

namespace Crowd

/-- A free lock with some threads, all of them outside. -/
def start (n : Nat) : Crowd := ⟨.free, List.replicate n .outside⟩

/-- A thread comes to the lock and is about to look. -/
def arrive (c : Crowd) (i : Nat) (mode : LockMode) : Crowd :=
  ⟨c.lock.arrive mode, c.threads.set i (.waiting mode true)⟩

/-- A thread looks whether it is let in; if not, it waits until it is woken. -/
def look (c : Crowd) (i : Nat) (mode : LockMode) : Crowd :=
  if c.lock.admits mode then ⟨c.lock.enter mode, c.threads.set i (.inside mode)⟩
  else { c with threads := c.threads.set i (.waiting mode false) }

/-- A thread comes out. -/
def leave (c : Crowd) (i : Nat) (mode : LockMode) : Crowd :=
  let lock := c.lock.release mode
  let threads := c.threads.set i .outside
  ⟨lock, if lock.wakes mode then threads.map .wake else threads⟩

/-- One turn of a thread: from outside it comes to the lock, for what it wants; woken, it looks again; from
inside it comes out. A thread that waits and has not been woken has no turn. -/
def turn? (c : Crowd) (i : Nat) (wanted : LockMode) : Option Crowd :=
  match c.threads[i]? with
  | some .outside => some ((c.arrive i wanted).look i wanted)
  | some (.waiting mode true) => some (c.look i mode)
  | some (.inside mode) => some (c.leave i mode)
  | _ => none

/-- Turns taken one after the other. -/
def run? (c : Crowd) (turns : List (Nat × LockMode)) : Option Crowd :=
  turns.foldlM (fun c turn => c.turn? turn.1 turn.2) c

/-- A state that some turns lead to, from some number of threads outside a free lock. -/
def IsReachable (c : Crowd) : Prop := ∃ n turns, (start n).run? turns = some c

end Crowd
end Lexicon.Lock
