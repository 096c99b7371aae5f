import Lexicon.Lock.Basic

/-! Scripts of lock operations, run one after the other. A script can say what happens while an
operation waits: that is run once, and an operation that is still not let in gives up. -/
namespace Lexicon.Lock

inductive Action where
  | acquire (mode : LockMode)
  | release (mode : LockMode)
  | block (mode : LockMode)
  deriving DecidableEq

/-- An operation with what happens while it waits, and for a block what is done inside and whether
it ends in a fault. -/
inductive Step where
  | mk (action : Action) (during body : List Step) (fails : Bool)

inductive Outcome where
  | done
  | blocked
  | failed
  deriving DecidableEq

/-- The lock after an operation and how the operation ended. What happened while it waited is
reported if the script says anything about that, and the body of a block if it was run. -/
inductive Report where
  | mk (action : Action) (outcome : Outcome) (lock : Lock) (during body : Option (List Report))

mutual

def run (lock : Lock) : Step → Lock × Report
  | .mk (.release mode) during _ _ =>
    let lock := lock.release mode
    (lock, .mk (.release mode) .done lock (if during.isEmpty then none else some []) none)
  | .mk (.acquire mode) during _ _ =>
    let arrived := lock.arrive mode
    let (waited, reports) := if arrived.admits mode then (arrived, []) else runAll arrived during
    let (lock, outcome) :=
      if waited.admits mode then (waited.enter mode, .done) else (waited.giveUp mode, .blocked)
    (lock, .mk (.acquire mode) outcome lock (if during.isEmpty then none else some reports) none)
  | .mk (.block mode) during body fails =>
    let arrived := lock.arrive mode
    let (waited, reports) := if arrived.admits mode then (arrived, []) else runAll arrived during
    let during := if during.isEmpty then none else some reports
    if waited.admits mode then
      let (inside, reports) := runAll (waited.enter mode) body
      let lock := inside.release mode
      (lock, .mk (.block mode) (if fails then .failed else .done) lock during (some reports))
    else
      let lock := waited.giveUp mode
      (lock, .mk (.block mode) .blocked lock during none)

def runAll (lock : Lock) : List Step → Lock × List Report
  | [] => (lock, [])
  | step :: rest =>
    let (lock, report) := run lock step
    let (lock, reports) := runAll lock rest
    (lock, report :: reports)

end

end Lexicon.Lock
