import Lexicon.Ini.Reference
import Lexicon.Proofs.Basic
import Lexicon.Proofs.Ini.Reader
import Mathlib.Data.List.Count

/-! Values with their references followed. What comes out does not depend on how deep one is ready to
follow, and every doubled percent sign of a value leaves one. So where no value is left with fewer percent
signs than it had, there were none. -/
namespace Lexicon.Ini

variable {lookup : Text → Option Text} {levels more : ℕ} {s t part : Text} {piece : Piece}

/-- A part of a value with its reference followed. -/
def expandPiece (lookup : Text → Option Text) (levels : ℕ) : Piece → Except ReferenceError Text
  | .char c => pure [c]
  | .stray => throw .malformed
  | .reference name =>
    match lookup (Text.lowercase name) with
    | none => throw .missing
    | some value => if '%' ∈ value then expand lookup levels value else pure value

theorem expand_succ (lookup : Text → Option Text) (levels : ℕ) (s : Text) :
    expand lookup (levels + 1) s
      = (pieces s).mapM (expandPiece lookup levels) >>= fun parts => pure parts.flatten := by
  rw [expand]
  refine congrArg (· >>= _) (congrArg (List.mapM · (pieces s)) (funext fun piece => ?_))
  cases piece <;> rfl

/-- A value is expanded part by part. -/
theorem expand_eq_ok_iff : expand lookup (levels + 1) s = .ok t ↔
    ∃ parts, List.Forall₂ (fun piece part => expandPiece lookup levels piece = .ok part)
      (pieces s) parts ∧ parts.flatten = t := by
  rw [expand_succ, bind_eq_ok_iff]
  simp only [mapM_eq_ok_iff, pure, Except.pure, Except.ok.injEq]

/-- What comes of a part: a character itself, and for a reference the value that it stands for, expanded
if there is anything to expand. -/
theorem expandPiece_eq_ok_iff : expandPiece lookup levels piece = .ok part ↔
    (∃ c, piece = .char c ∧ part = [c]) ∨
    ∃ name value, piece = .reference name ∧ lookup (Text.lowercase name) = some value ∧
      ('%' ∈ value ∧ expand lookup levels value = .ok part ∨ '%' ∉ value ∧ part = value) := by
  cases piece with
  | char c => simp [expandPiece, pure, Except.pure, eq_comm]
  | stray => simp [expandPiece, throw, throwThe, MonadExceptOf.throw]
  | reference name =>
    cases hvalue : lookup (Text.lowercase name) with
    | none => simp [expandPiece, hvalue, throw, throwThe, MonadExceptOf.throw]
    | some value =>
      by_cases hpercent : '%' ∈ value
      · simp [expandPiece, hvalue, hpercent]
      · simp [expandPiece, hvalue, hpercent, pure, Except.pure, eq_comm]

/-- A value without percent signs is left as it is. -/
theorem expand_of_not_mem (h : '%' ∉ s) (lookup : Text → Option Text) (levels : ℕ) :
    expand lookup (levels + 1) s = .ok s := by
  refine expand_eq_ok_iff.2 ⟨s.map fun c => [c], ?_, List.flatMap_singleton' s⟩
  rw [pieces_eq_map h, List.forall₂_map_left_iff, List.forall₂_map_right_iff]
  exact List.forall₂_same.2 fun c _ => expandPiece_eq_ok_iff.2 (.inl ⟨c, rfl, rfl⟩)

/-- Being ready to follow references deeper changes no result. -/
theorem expand_mono (hle : levels ≤ more) (h : expand lookup levels s = .ok t) :
    expand lookup more s = .ok t := by
  induction levels generalizing more s t with
  | zero => cases h
  | succ levels ih =>
    obtain ⟨more, rfl⟩ : ∃ m, more = m + 1 := ⟨more - 1, by omega⟩
    obtain ⟨parts, hparts, ht⟩ := expand_eq_ok_iff.1 h
    refine expand_eq_ok_iff.2 ⟨parts, hparts.imp fun piece part hpart => ?_, ht⟩
    rw [expandPiece_eq_ok_iff] at hpart ⊢
    refine hpart.imp_right ?_
    rintro ⟨name, value, rfl, hvalue, hpart⟩
    exact ⟨name, value, rfl, hvalue, hpart.imp_left fun ⟨hpercent, hexpand⟩ =>
      ⟨hpercent, ih (Nat.le_of_succ_le_succ hle) hexpand⟩⟩

theorem sublist_of_reference? {name rest : Text} (h : reference? s = some (name, rest)) :
    rest.Sublist s := by
  unfold reference? at h
  split at h
  · next hafter =>
    cases h
    have hsuffix : (s.dropWhile (· ≠ ')')).Sublist s := List.dropWhile_sublist _
    rw [hafter] at hsuffix
    exact (((List.sublist_cons_self ..).trans (List.sublist_cons_self ..)).trans hsuffix)
  · cases h

theorem mem_of_char_mem_pieces {c : Char} (h : .char c ∈ pieces s) : c ∈ s := by
  fun_induction pieces s with
  | case1 => cases h
  | case2 s ih =>
    rcases List.mem_cons.1 h with h | h
    · cases h
      exact List.mem_cons_self ..
    · exact List.mem_cons_of_mem _ (List.mem_cons_of_mem _ (ih h))
  | case3 s name rest href ih =>
    rcases List.mem_cons.1 h with h | h
    · cases h
    · have hrest := (sublist_of_reference? href).subset (ih h)
      exact List.mem_cons_of_mem _ (List.mem_cons_of_mem _ hrest)
  | case4 s href => cases List.mem_singleton.1 h
  | case5 => cases List.mem_singleton.1 h
  | case6 d s _ _ hd ih =>
    rcases List.mem_cons.1 h with h | h
    · cases h
      exact List.mem_cons_self ..
    · exact List.mem_cons_of_mem _ (ih h)

/-- Whatever holds for the characters of all values holds for those of an expanded one. -/
theorem forall_mem_of_expand {p : Char → Prop}
    (hlookup : ∀ name value, lookup name = some value → ∀ c ∈ value, p c) (hs : ∀ c ∈ s, p c)
    (h : expand lookup levels s = .ok t) : ∀ c ∈ t, p c := by
  induction levels generalizing s t with
  | zero => cases h
  | succ levels ih =>
    obtain ⟨parts, hparts, rfl⟩ := expand_eq_ok_iff.1 h
    intro c hc
    obtain ⟨part, hpart, hc⟩ := List.mem_flatten.1 hc
    obtain ⟨piece, hpiece, hexpand⟩ := exists_mem_of_forall₂ hparts hpart
    rcases expandPiece_eq_ok_iff.1 hexpand with ⟨d, rfl, rfl⟩ | ⟨name, value, rfl, hvalue, h⟩
    · rw [List.mem_singleton.1 hc]
      exact hs d (mem_of_char_mem_pieces hpiece)
    · rcases h with ⟨-, h⟩ | ⟨-, rfl⟩
      · exact ih (hlookup _ _ hvalue) h c hc
      · exact hlookup _ _ hvalue c hc

section Entries

variable {doc : Ini} {part name value : Text}

theorem expanded_eq_ok_iff : doc.expanded part name = .ok t ↔
    ∃ value, doc.get? part name = some value ∧ expand (doc.get? part) maxLevels value = .ok t := by
  unfold expanded
  cases doc.get? part name with
  | none => simp
  | some value => simp

/-- Whatever holds for the characters of all values of a document holds for those of an entry, followed. -/
theorem Holds.forall_mem_of_expanded {p : Char → Prop} (h : doc.Holds fun value => ∀ c ∈ value, p c)
    (hexpanded : doc.expanded part name = .ok t) : ∀ c ∈ t, p c := by
  obtain ⟨value, hvalue, hexpand⟩ := expanded_eq_ok_iff.1 hexpanded
  exact forall_mem_of_expand (fun _ _ hother => h.of_get? hother) (h.of_get? hvalue) hexpand

/-- An entry without percent signs is taken as it stands. -/
theorem expanded_eq_ok_of_not_mem (hvalue : doc.get? part name = some value) (h : '%' ∉ value) :
    doc.expanded part name = .ok value :=
  expanded_eq_ok_iff.2 ⟨value, hvalue, expand_of_not_mem h _ _⟩

end Entries

/-- A percent sign among the parts of a value is one that was doubled. -/
theorem count_pieces_le (s : Text) : 2 * (pieces s).count (.char '%') ≤ s.count '%' := by
  fun_induction pieces s with
  | case1 => exact Nat.le_refl _
  | case2 s ih =>
    rw [List.count_cons_self, List.count_cons_self, List.count_cons_self]
    omega
  | case3 s name rest href ih =>
    have hrest := (sublist_of_reference? href).count_le '%'
    rw [List.count_cons_of_ne (by simp), List.count_cons_self, List.count_cons_of_ne (by decide)]
    omega
  | case4 s href => exact Nat.zero_le _
  | case5 => exact Nat.zero_le _
  | case6 d s _ _ hd ih =>
    rwa [List.count_cons_of_ne (by simpa using hd), List.count_cons_of_ne hd]

/-- Where references stand for nothing with a percent sign in it, each one that is left was doubled. -/
theorem count_flatten_eq {ps : List Piece} {parts : List Text}
    (hplain : ∀ name value, .reference name ∈ ps → lookup (Text.lowercase name) = some value →
      '%' ∉ value)
    (h : List.Forall₂ (fun piece part => expandPiece lookup levels piece = .ok part) ps parts) :
    parts.flatten.count '%' = ps.count (.char '%') := by
  induction h with
  | nil => rfl
  | @cons piece part ps parts hpart _ ih =>
    have hrest := ih fun name value hname => hplain name value (List.mem_cons_of_mem _ hname)
    rw [List.flatten_cons, List.count_append, hrest, List.count_cons, Nat.add_comm]
    rcases expandPiece_eq_ok_iff.1 hpart with ⟨c, rfl, rfl⟩ | ⟨name, value, rfl, hvalue, h⟩
    · simp [List.count_singleton]
    · have hvalue := hplain name value (List.mem_cons_self ..) hvalue
      rcases h with ⟨hpercent, -⟩ | ⟨-, rfl⟩
      · exact absurd hpercent hvalue
      · simp [List.count_eq_zero.2 hvalue]

/-- Where no value is left with fewer percent signs than it has, a value has none at all: by induction on
the levels there are none in what it refers to, and of its own ones at most half are left. -/
theorem not_mem_of_expand
    (hlookup : ∀ name value, lookup name = some value → '%' ∈ value →
      ∃ t, expand lookup more value = .ok t ∧ value.count '%' ≤ t.count '%')
    (hle : levels ≤ more) (h : expand lookup levels s = .ok t)
    (hcount : s.count '%' ≤ t.count '%') : '%' ∉ s := by
  induction levels generalizing s t with
  | zero => cases h
  | succ levels ih =>
    obtain ⟨parts, hparts, rfl⟩ := expand_eq_ok_iff.1 h
    have hplain : ∀ name value, .reference name ∈ pieces s →
        lookup (Text.lowercase name) = some value → '%' ∉ value := by
      intro name value hname hvalue hpercent
      obtain ⟨part, hpart⟩ := exists_mapM_eq_ok_iff.1 ⟨_, mapM_eq_ok_iff.2 hparts⟩ _ hname
      rcases expandPiece_eq_ok_iff.1 hpart with ⟨_, ⟨⟩, -⟩ | ⟨_, other, ⟨⟩, hother, h⟩
      obtain rfl : other = value := Option.some.inj (hother.symm.trans hvalue)
      rcases h with ⟨-, h⟩ | ⟨hother, -⟩
      · obtain ⟨whole, hwhole, hmore⟩ := hlookup _ _ hvalue hpercent
        have hpart : expand lookup more other = .ok part := expand_mono (Nat.le_of_succ_le hle) h
        obtain rfl : whole = part := Except.ok.inj (hwhole.symm.trans hpart)
        exact ih (Nat.le_of_succ_le hle) h hmore hpercent
      · exact hother hpercent
    have hleft := count_flatten_eq hplain hparts
    have hdoubled := count_pieces_le s
    exact List.count_eq_zero.1 (by omega)

/-- A value without percent signs may be written. -/
theorem isWritable_of_not_mem (h : '%' ∉ s) : isWritable s = true := by
  have hdrop : dropDoubled s = s := by
    fun_induction dropDoubled s with
    | case1 => rfl
    | case2 s ih => exact absurd (List.mem_cons_self ..) h
    | case3 c s _ ih => rw [ih (fun hmem => h (List.mem_cons_of_mem _ hmem))]
  rw [isWritable, hdrop, pieces_eq_map h]
  simp

theorem not_mem_switchText (b : Bool) : '%' ∉ switchText b := by
  cases b <;> decide

end Lexicon.Ini
