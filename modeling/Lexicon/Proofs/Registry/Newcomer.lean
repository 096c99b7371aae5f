import Lexicon.Proofs.Registry.Edit
import Lexicon.Registry.History
import Mathlib.Data.List.Perm.Basic

/-! Where an added dictionary is listed. Its priority is the number of dictionaries, so it goes behind those
whose priority is not above that number. A deletion lowers the number and leaves the priorities, so there
has to be room: histories that add a dictionary between two deletions keep it. -/
namespace Lexicon

namespace Registry

variable {r : Registry} {info : DictionaryInfo} {name : Text} {enabled : Bool} {spare : ℕ}

section Place

theorem newcomer_id_not_mem (r : Registry) (name : Text) (enabled : Bool) :
    (r.newcomer name enabled).id ∉ r.ids :=
  r.not_mem_ids_maxId_add_one

theorem infos_add (r : Registry) (name : Text) (enabled : Bool) :
    (r.add name enabled).infos = r.infos ++ [r.newcomer name enabled] :=
  DictionaryInfo.putInto_of_not_mem (newcomer_id_not_mem r name enabled)

theorem sortPriority_newcomer (r : Registry) (name : Text) (enabled : Bool) :
    (r.newcomer name enabled).sortPriority = r.infos.length :=
  rfl

theorem le_newcomer_iff (hinfo : info ∈ r.infos) :
    info.le (r.newcomer name enabled) = true ↔ info.sortPriority ≤ r.infos.length := by
  have hid : info.id < (r.newcomer name enabled).id :=
    Int.lt_add_one_of_le (le_maxId (List.mem_map_of_mem hinfo))
  simp only [DictionaryInfo.le, sortPriority_newcomer]
  grind

theorem newcomer_le_of_lt (hinfo : (r.infos.length : ℤ) < info.sortPriority) :
    (r.newcomer name enabled).le info = true := by
  simp only [DictionaryInfo.le, sortPriority_newcomer]
  grind

/-- Whether a dictionary is listed before one that is added. -/
def precedes (r : Registry) (info : DictionaryInfo) : Bool := info.sortPriority ≤ r.infos.length

/-- An added dictionary is listed between those that precede it and the others. -/
theorem sorted_add (r : Registry) (name : Text) (enabled : Bool) :
    (r.add name enabled).sorted =
      r.sorted.filter r.precedes ++ r.newcomer name enabled :: r.sorted.filter (!r.precedes ·) := by
  have before {a : DictionaryInfo} (ha : a ∈ r.sorted.filter r.precedes) :
      a.le (r.newcomer name enabled) = true := by
    obtain ⟨hmem, hprecedes⟩ := List.mem_filter.1 ha
    exact (le_newcomer_iff (r.sorted_perm.mem_iff.1 hmem)).2 (of_decide_eq_true hprecedes)
  have behind {b : DictionaryInfo} (hb : b ∈ r.sorted.filter (!r.precedes ·)) :
      (r.newcomer name enabled).le b = true := by
    have hnot := (List.mem_filter.1 hb).2
    rw [Bool.not_eq_true', precedes, decide_eq_false_iff_not] at hnot
    exact newcomer_le_of_lt (Int.not_le.1 hnot)
  refine sorted_eq_of_pairwise ?_ ?_
  · rw [infos_add]
    have hsplit : (r.sorted.filter r.precedes ++ r.sorted.filter (!r.precedes ·)).Perm r.infos :=
      (List.filter_append_perm r.precedes r.sorted).trans r.sorted_perm
    exact List.perm_middle.trans ((hsplit.cons _).trans (List.perm_append_singleton _ _).symm)
  · refine List.pairwise_append.2 ⟨r.pairwise_sorted.filter _, List.pairwise_cons.2
      ⟨fun b hb => behind hb, r.pairwise_sorted.filter _⟩, fun a ha b hb => ?_⟩
    rcases List.mem_cons.1 hb with rfl | hb
    · exact before ha
    · exact DictionaryInfo.le_trans (before ha) (behind hb)

/-- An added dictionary is listed last if all others precede it, and only then. -/
theorem getLast?_sorted_add_iff (r : Registry) (name : Text) (enabled : Bool) :
    (r.add name enabled).sorted.getLast? = some (r.newcomer name enabled) ↔
      ∀ info ∈ r.infos, info.sortPriority ≤ r.infos.length := by
  have hnil : r.sorted.filter (!r.precedes ·) = [] ↔
      ∀ info ∈ r.infos, info.sortPriority ≤ r.infos.length := by
    simp [List.filter_eq_nil_iff, precedes, r.sorted_perm.mem_iff]
  rw [sorted_add, ← hnil]
  constructor
  · intro hlast
    by_contra hne
    have hmem : r.newcomer name enabled ∈ r.sorted.filter (!r.precedes ·) := by
      rw [List.getLast?_append_of_ne_nil _ (List.cons_ne_nil _ _), List.getLast?_cons_of_ne_nil hne]
        at hlast
      exact List.mem_of_getLast? hlast
    exact newcomer_id_not_mem r name enabled
      (List.mem_map_of_mem (r.sorted_perm.mem_iff.1 (List.mem_of_mem_filter hmem)))
  · intro hnil
    rw [hnil, List.getLast?_concat]

end Place

section Room

/-- All priorities are at least so much below the number of dictionaries. -/
def HasRoom (spare : ℕ) (r : Registry) : Prop :=
  ∀ info ∈ r.infos, info.sortPriority + spare ≤ r.infos.length

theorem HasRoom.add (h : r.HasRoom spare) (name : Text) (enabled : Bool) :
    (r.add name enabled).HasRoom 1 := by
  intro info hinfo
  rw [infos_add] at hinfo ⊢
  rw [List.length_append, List.length_singleton, Int.natCast_add, Int.natCast_one]
  rcases List.mem_append.1 hinfo with hinfo | hinfo
  · have hroom := h info hinfo
    omega
  · have hpriority := sortPriority_newcomer r name enabled
    rw [List.mem_singleton.1 hinfo]
    omega

theorem length_modify (r : Registry) (id : ℤ) (f : DictionaryState → DictionaryState) :
    (r.modify id f).infos.length = r.infos.length :=
  List.length_map _

theorem HasRoom.toggle (h : r.HasRoom spare) (id : ℤ) (enabled : Bool) :
    (r.toggle id enabled).HasRoom spare := by
  rw [HasRoom, Registry.toggle, length_modify]
  refine List.forall_mem_map.2 fun info hinfo => ?_
  split <;> exact h info hinfo

theorem length_le_length_delete_add_one (r : Registry) (id : ℤ) :
    r.infos.length ≤ (r.delete id).infos.length + 1 := by
  have hids : (r.delete id).ids = r.ids.erase id := by
    rw [ids_delete, ids, List.Nodup.erase_eq_filter r.nodup]
    exact List.filter_congr fun other _ => by rw [Bool.eq_iff_iff, decide_eq_true_iff, bne_iff_ne]
  have hlength := congrArg List.length hids
  have herase : r.ids.length - 1 ≤ (r.ids.erase id).length := List.le_length_erase
  simp only [ids, List.length_map] at hlength herase
  omega

theorem HasRoom.delete (h : r.HasRoom (spare + 1)) (id : ℤ) : (r.delete id).HasRoom spare := by
  intro info hinfo
  have hroom := h info (List.mem_of_mem_filter hinfo)
  have hlength := r.length_le_length_delete_add_one id
  omega

/-- An order makes room for the dictionaries that it lists, so that only the others need to have it. -/
theorem hasRoom_reorderFrom {position : ℕ} {order : List ℤ}
    (h : ∀ info ∈ r.infos, info.id ∈ order ∨ info.sortPriority + spare ≤ r.infos.length)
    (horder : position + order.length + spare ≤ r.infos.length + 1) :
    (r.reorderFrom position order).HasRoom spare := by
  induction order generalizing r position with
  | nil => exact fun info hinfo => (h info hinfo).resolve_left List.not_mem_nil
  | cons id rest ih =>
    rw [List.length_cons] at horder
    refine ih ?_ (by rw [setPriority, length_modify]; omega)
    rw [setPriority, length_modify]
    refine List.forall_mem_map.2 fun info hinfo => ?_
    split
    case isTrue hid =>
      have hpriority : (DictionaryInfo.mk info.id info.name
          { info.state with priority := some (position : ℤ) }).sortPriority = position := rfl
      rw [hpriority]
      exact .inr (by omega)
    case isFalse hid => exact (h info hinfo).imp_left fun hmem => List.mem_of_ne_of_mem hid hmem

end Room

end Registry

namespace RegistryStep

variable {r : Registry} {spare : ℕ} {step : RegistryStep} {steps : List RegistryStep}

/-- The room that is left after a step. An order of all dictionaries makes room again. -/
def spareAfter (r : Registry) (spare : ℕ) : RegistryStep → ℕ
  | add .. | clear => 1
  | edit (.toggle ..) => spare
  | edit (.delete _) => spare - 1
  | edit (.reorder order) => if r.ids ⊆ order then 1 else spare

/-- A step that there is room for: a deletion takes of it, and the positions in an order stay below it. -/
def LeavesRoom (r : Registry) (spare : ℕ) : RegistryStep → Prop
  | edit (.delete _) => 0 < spare
  | edit (.reorder order) =>
    order.length + (edit (.reorder order)).spareAfter r spare ≤ r.infos.length + 1
  | _ => True

theorem hasRoom_apply (h : r.HasRoom spare) (hstep : step.LeavesRoom r spare) :
    (step.apply r).HasRoom (step.spareAfter r spare) := by
  cases step with
  | add name enabled => exact h.add name enabled
  | clear => exact List.forall_mem_nil _
  | edit change =>
    cases change with
    | toggle id enabled => exact h.toggle id enabled
    | delete id =>
      cases spare with
      | zero => exact absurd hstep (Nat.lt_irrefl 0)
      | succ left => exact h.delete id
    | reorder order =>
      refine Registry.hasRoom_reorderFrom (fun info hinfo => ?_) (by rw [Nat.zero_add]; exact hstep)
      rw [spareAfter]
      split
      case isTrue hall => exact .inl (hall (List.mem_map_of_mem hinfo))
      case isFalse => exact .inr (h info hinfo)

/-- A history with room for each of its steps. -/
def AllLeaveRoom (r : Registry) (spare : ℕ) : List RegistryStep → Prop
  | [] => True
  | step :: rest =>
    step.LeavesRoom r spare ∧ AllLeaveRoom (step.apply r) (step.spareAfter r spare) rest

instance decidableLeavesRoom (r : Registry) (spare : ℕ) :
    (step : RegistryStep) → Decidable (step.LeavesRoom r spare)
  | add .. | clear | edit (.toggle ..) => inferInstanceAs (Decidable True)
  | edit (.delete _) => inferInstanceAs (Decidable (0 < spare))
  | edit (.reorder _) => inferInstanceAs (Decidable (_ ≤ _))

instance decidableAllLeaveRoom (r : Registry) (spare : ℕ) :
    (steps : List RegistryStep) → Decidable (AllLeaveRoom r spare steps)
  | [] => inferInstanceAs (Decidable True)
  | step :: rest =>
    have := decidableAllLeaveRoom (step.apply r) (step.spareAfter r spare) rest
    inferInstanceAs (Decidable (_ ∧ _))

theorem exists_hasRoom_foldl (h : r.HasRoom spare) (hsteps : AllLeaveRoom r spare steps) :
    ∃ left : ℕ, (steps.foldl apply r).HasRoom left := by
  induction steps generalizing r spare with
  | nil => exact ⟨spare, h⟩
  | cons step rest ih => exact ih (hasRoom_apply h hsteps.1) hsteps.2

end RegistryStep

namespace Registry

open RegistryStep

/-- Where an added dictionary is listed. Its id is always a new one, but its priority, the number of
dictionaries, may be below that of another, which is then listed behind it. So it is the last exactly when
no priority is above that number, as after any history with room for each of its steps. -/
theorem newcomer_last_iff (r : Registry) (name : Text) (enabled : Bool) :
    (r.newcomer name enabled).id ∉ r.ids ∧
    (r.add name enabled).sorted =
      r.sorted.filter r.precedes ++ r.newcomer name enabled :: r.sorted.filter (!r.precedes ·) ∧
    ((r.add name enabled).sorted.getLast? = some (r.newcomer name enabled) ↔
      ∀ info ∈ r.infos, info.sortPriority ≤ r.infos.length) ∧
    ∀ steps, AllLeaveRoom empty 1 steps → after steps = r →
      (r.add name enabled).sorted.getLast? = some (r.newcomer name enabled) := by
  refine ⟨newcomer_id_not_mem r name enabled, sorted_add r name enabled,
    getLast?_sorted_add_iff r name enabled, ?_⟩
  rintro steps hsteps rfl
  have hempty : empty.HasRoom 1 := List.forall_mem_nil _
  obtain ⟨left, hleft⟩ := exists_hasRoom_foldl hempty hsteps
  refine (getLast?_sorted_add_iff _ name enabled).2 fun info hinfo => ?_
  have hroom := hleft info hinfo
  rw [after]
  omega

/-- Three dictionaries are added, and then changed. -/
def threeThen (changes : List RegistryEdit) : List RegistryStep :=
  ["a", "b", "c"].map (fun name => .add name.toList true) ++ changes.map .edit

/-- After a deletion, an order of all dictionaries and another deletion an added dictionary is the last. -/
theorem newcomer_last_iff_orderedBetween :
    ((after (threeThen [.delete 1, .reorder [3, 2], .delete 2])).add "d".toList true).sorted.getLast? =
      some ⟨4, "d".toList, ⟨true, some 1⟩⟩ :=
  (newcomer_last_iff _ _ _).2.2.2 (threeThen [.delete 1, .reorder [3, 2], .delete 2]) (by decide) rfl

/-- After two deletions the third dictionary has a priority above the number of dictionaries, and a fourth
is listed before it. -/
theorem not_newcomer_last_twoDeleted :
    ((after (threeThen [.delete 1, .delete 2])).add "d".toList true).sorted.map (·.id) = [4, 3] ∧
      ¬ ∀ steps (name : Text) (enabled : Bool),
        ((after steps).add name enabled).sorted.getLast? =
          some ((after steps).newcomer name enabled) := by
  have hsorted : ((after (threeThen [.delete 1, .delete 2])).add "d".toList true).sorted =
      [⟨4, "d".toList, ⟨true, some 1⟩⟩, ⟨3, "c".toList, ⟨true, some 2⟩⟩] :=
    sorted_eq_of_pairwise (List.Perm.swap _ _ []) (by decide)
  refine ⟨by rw [hsorted]; rfl, fun h => ?_⟩
  have hlast := h (threeThen [.delete 1, .delete 2]) "d".toList true
  rw [hsorted] at hlast
  exact absurd hlast (by decide)

end Registry
end Lexicon
