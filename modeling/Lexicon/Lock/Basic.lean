/-! A lock that many readers share or one writer holds. A writer that waits keeps new readers
out. -/
namespace Lexicon

inductive LockMode where
  | read
  | write
  deriving DecidableEq

/-- The readers and the writer inside, and the writers that wait. Releases are not checked, so the
number of readers may fall below zero. -/
structure Lock where
  readers : Int
  writer : Bool
  waiting : Int
  deriving DecidableEq

namespace Lock

def free : Lock := ⟨0, false, 0⟩

/-- Comes to the lock: from now on a writer counts as waiting. -/
def arrive (lock : Lock) : LockMode → Lock
  | .read => lock
  | .write => { lock with waiting := lock.waiting + 1 }

/-- Whether the lock can be entered. -/
def admits (lock : Lock) : LockMode → Bool
  | .read => !lock.writer && lock.waiting = 0
  | .write => !lock.writer && lock.readers = 0

/-- Goes in: a writer no longer waits. -/
def enter (lock : Lock) : LockMode → Lock
  | .read => { lock with readers := lock.readers + 1 }
  | .write => { lock with writer := true, waiting := lock.waiting - 1 }

/-- Goes away without having been let in. -/
def giveUp (lock : Lock) : LockMode → Lock
  | .read => lock
  | .write => { lock with waiting := lock.waiting - 1 }

/-- Comes out again. -/
def release (lock : Lock) : LockMode → Lock
  | .read => { lock with readers := lock.readers - 1 }
  | .write => { lock with writer := false }

@[simp] theorem giveUp_arrive (lock : Lock) (m : LockMode) : (lock.arrive m).giveUp m = lock := by
  cases m <;> simp [arrive, giveUp]

end Lock
end Lexicon
