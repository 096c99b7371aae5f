import Lexicon.Deinflection.Rule

/-! The search for derivations. The forms found stand in one list, which grows while it is read from
front to back; each remembers the place of the form it came from, so the steps to it are found by
going back from place to place. -/
namespace Lexicon

/-- A form that was found, with the place of the form it came from and the rule between the two. The
source comes from nothing. -/
structure Node (α : Type) where
  text : α
  conditions : Mask
  origin : Option (Nat × Rule α)

/-- Forms in the order in which they were found. Each comes from one that stands before it. -/
structure Arena (α : Type) where
  nodes : Array (Node α)
  origin_lt : ∀ i (h : i < nodes.size) p r, nodes[i].origin = some (p, r) → p < i

namespace Arena

section
variable {α : Type}

/-- The source alone. -/
def source (s : α) : Arena α where
  nodes := #[⟨s, 0, none⟩]
  origin_lt i h p r ho := by
    obtain rfl : i = 0 := by simp at h; omega
    simp at ho

/-- One more form, found by applying a rule to the form at a place. -/
def add (a : Arena α) (i : Nat) (h : i < a.nodes.size) (r : Rule α) (t : α) : Arena α where
  nodes := a.nodes.push ⟨t, r.conditionsOut, some (i, r)⟩
  origin_lt j hj p q ho := by
    rw [Array.getElem_push] at ho
    split at ho
    · exact a.origin_lt j _ p q ho
    · simp only [Array.size_push] at hj
      simp only [Option.some.injEq, Prod.mk.injEq] at ho
      omega

/-- The steps to the form at a place, newest first. -/
def trace (a : Arena α) (i : Nat) (h : i < a.nodes.size) : List (Frame α) :=
  match ho : a.nodes[i].origin with
  | none => []
  | some (p, r) =>
    have hp : p < i := a.origin_lt i h p r ho
    r.frame a.nodes[p].text :: a.trace p (by omega)
termination_by i

/-- The form at a place with the steps to it. -/
def derivation (a : Arena α) (i : Nat) (h : i < a.nodes.size) : Derivation α :=
  ⟨a.nodes[i].text, a.nodes[i].conditions, a.trace i h⟩

def derivations (a : Arena α) : List (Derivation α) :=
  List.ofFn fun i : Fin a.nodes.size => a.derivation i i.isLt

end

section
variable {α : Type} [WordForm α]

/-- Whether a step was taken on the way to the form at a place. -/
def hasTaken (a : Arena α) (step : Frame α) (i : Nat) (h : i < a.nodes.size) : Bool :=
  match ho : a.nodes[i].origin with
  | none => false
  | some (p, r) =>
    have hp : p < i := a.origin_lt i h p r ho
    (r.frame a.nodes[p].text).same step || a.hasTaken step p (by omega)
termination_by i

/-- What a rule makes of the form at a place: nothing if its demand is not met, if the form does not
carry the inflection, or if the step was taken before. -/
def result? (a : Arena α) (i : Nat) (h : i < a.nodes.size) (r : Rule α) :
    Except FormFault (Option α) :=
  if r.admits a.nodes[i].conditions then
    match WordForm.fault? r.kind a.nodes[i].text with
    | some fault => .error fault
    | none =>
      match WordForm.deinflect r.kind a.nodes[i].text with
      | none => .ok none
      | some t => .ok (if a.hasTaken (r.frame a.nodes[i].text) i h then none else some t)
  else .ok none

/-- Puts the rules to the form at a place in turn; what they give goes to the end. -/
def visit (i : Nat) : List (Rule α) → (a : Arena α) → i < a.nodes.size →
    Except FormFault (Arena α)
  | [], a, _ => .ok a
  | r :: rest, a, h =>
    match a.result? i h r with
    | .error fault => .error fault
    | .ok none => visit i rest a h
    | .ok (some t) => visit i rest (a.add i h r t) (by simp only [add, Array.size_push]; omega)

/-- Visits the forms from a place on, those found meanwhile included, until none is left. -/
def scan (rules : List (Rule α)) (a : Arena α) (i : Nat) : Option (Except FormFault (Arena α)) :=
  if h : i < a.nodes.size then
    match visit i rules a h with
    | .error fault => some (.error fault)
    | .ok grown => grown |>.scan rules (i + 1)
  else some (.ok a)
partial_fixpoint

end
end Arena
end Lexicon
