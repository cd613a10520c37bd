import Harmony.Lib.Sorted

/-! A log that admits an event by judging it once, against the stored events that
sort before it. What converges is a *verified* log, one whose every event is still
accepted where it stands: two verified logs over one set of candidates to which
nothing more can be added hold the same events. -/

namespace Harmony.Lib

/-- Events with an id, a sort key that determines the id, and a verdict on a
candidate given the events that sort before it. -/
structure LogPolicy (α ι κ : Type) where
  id : α → ι
  key : α → κ
  accepts : List α → α → Bool
  id_of_key : ∀ {a b : α}, key a = key b → id a = id b
  /-- The verdict does not depend on the order the prior events are handed over in. -/
  accepts_perm : ∀ {l l' : List α} (a : α), (l.map id).Nodup → l'.Perm l →
    accepts l' a = accepts l a

namespace LogPolicy

variable {α ι κ : Type} [LinearOrder κ] {P : LogPolicy α ι κ}

/-- A key at or past `b` adds nothing to what sorts before `b`. -/
theorem before_snoc_of_le {l : List α} {a b : α} (h : P.key b ≤ P.key a) :
    before P.key (l ++ [a]) b = before P.key l b := by
  simp [before, List.filter_append, not_lt.mpr h]

theorem before_length_lt {s : List α} {a b : α} (hb : b ∈ s) (hlt : P.key b < P.key a) :
    (before P.key s b).length < (before P.key s a).length := by
  have hsub : before P.key s b = (before P.key s a).filter fun c => decide (P.key c < P.key b) := by
    simp only [before, List.filter_filter]
    refine List.filter_congr fun c _ => ?_
    simpa using fun hcb => lt_trans hcb hlt
  rw [hsub, List.length_filter_lt_length_iff_exists]
  exact ⟨b, by simpa [before] using ⟨hb, hlt⟩, by simp⟩

variable [DecidableEq ι] (P)

/-- Dedup by id, judge against what sorts strictly before, keep what is accepted. -/
def insert (l : List α) (a : α) : List α :=
  if P.id a ∈ l.map P.id then l
  else if P.accepts (before P.key l a) a then l ++ [a] else l

def run (deliveries : List α) : List α := deliveries.foldl P.insert []

def Verified (l : List α) : Prop :=
  (l.map P.id).Nodup ∧ ∀ a ∈ l, P.accepts (before P.key l a) a = true

/-- No candidate can be inserted any more. -/
def Saturated (s l : List α) : Prop := ∀ a ∈ s, P.insert l a = l

/-- Inserting `a` leaves every stored event that sorts after it acceptable. -/
def Harmless (l : List α) (a : α) : Prop :=
  P.id a ∉ l.map P.id → P.accepts (before P.key l a) a = true →
    ∀ b ∈ l, P.key a < P.key b → P.accepts (before P.key (l ++ [a]) b) b = true

/-- Every insertion of the run is harmless. -/
def HarmlessRun : List α → List α → Prop
  | _, [] => True
  | l, a :: rest => P.Harmless l a ∧ HarmlessRun (P.insert l a) rest

instance (l : List α) : Decidable (P.Verified l) :=
  inferInstanceAs (Decidable (_ ∧ ∀ a ∈ l, _))

instance (l : List α) (a : α) : Decidable (P.Harmless l a) :=
  inferInstanceAs (Decidable (_ → _ → ∀ b ∈ l, _ → _))

instance decidableHarmlessRun : ∀ l deliveries, Decidable (P.HarmlessRun l deliveries)
  | _, [] => isTrue trivial
  | l, a :: rest =>
    haveI := decidableHarmlessRun (P.insert l a) rest
    inferInstanceAs (Decidable (P.Harmless l a ∧ P.HarmlessRun (P.insert l a) rest))

variable {P}

theorem insert_cases (l : List α) (a : α) :
    P.insert l a = l ∨
      P.id a ∉ l.map P.id ∧ P.accepts (before P.key l a) a = true ∧ P.insert l a = l ++ [a] := by
  unfold LogPolicy.insert
  split_ifs with hid hacc
  · exact Or.inl rfl
  · exact Or.inr ⟨hid, hacc, rfl⟩
  · exact Or.inl rfl

theorem insert_subset {s l : List α} {a : α} (hl : l ⊆ s) (ha : a ∈ s) : P.insert l a ⊆ s := by
  rcases insert_cases (P := P) l a with h | ⟨-, -, h⟩
  · rwa [h]
  · rw [h]
    exact List.append_subset.mpr ⟨hl, by simpa using ha⟩

theorem run_subset {s deliveries : List α} (hs : deliveries ⊆ s) : P.run deliveries ⊆ s := by
  refine List.foldlRecOn (motive := fun l => l ⊆ s) deliveries P.insert (List.nil_subset s) ?_
  exact fun l hl a ha => insert_subset hl (hs ha)

theorem verified_insert {l : List α} {a : α} (hv : P.Verified l) (hh : P.Harmless l a) :
    P.Verified (P.insert l a) := by
  rcases insert_cases (P := P) l a with h | ⟨hid, hacc, h⟩
  · rwa [h]
  · rw [h]
    refine ⟨?_, fun b hb => ?_⟩
    · rw [List.map_append, List.map_singleton, ← List.concat_eq_append]
      exact hv.1.concat hid
    · rcases List.mem_append.mp hb with hb | hb
      · rcases lt_or_ge (P.key a) (P.key b) with hlt | hge
        · exact hh hid hacc b hb hlt
        · rw [before_snoc_of_le hge]
          exact hv.2 b hb
      · rw [List.mem_singleton.mp hb, before_snoc_of_le le_rfl]
        exact hacc

theorem verified_run {deliveries : List α} (hh : P.HarmlessRun [] deliveries) :
    P.Verified (P.run deliveries) := by
  have gen : ∀ (rest l : List α), P.Verified l → P.HarmlessRun l rest →
      P.Verified (rest.foldl P.insert l) := by
    intro rest
    induction rest with
    | nil => intro l hv _; exact hv
    | cons a rest ih => intro l hv hr; exact ih _ (verified_insert hv hr.1) hr.2
  exact gen deliveries [] ⟨List.nodup_nil, by simp⟩ hh

/-- In a saturated log, a candidate that is accepted where it stands is stored. -/
theorem mem_of_saturated {s l : List α} (hids : (s.map P.id).Nodup) (hl : l ⊆ s)
    (hs : P.Saturated s l) {a : α} (ha : a ∈ s)
    (hacc : P.accepts (before P.key l a) a = true) : a ∈ l := by
  rcases insert_cases (P := P) l a with h | ⟨-, -, h⟩
  · unfold LogPolicy.insert at h
    split_ifs at h with hid
    · obtain ⟨b, hb, hba⟩ := List.mem_map.mp hid
      exact List.inj_on_of_nodup_map hids (hl hb) ha hba ▸ hb
    · simp at h
  · rw [hs a ha] at h
    simp at h

/-- Verified saturated logs over one candidate set agree, by induction along the
sort order: both judge an event against the same earlier events. -/
theorem mem_iff_of_saturated {s l l' : List α} (hids : (s.map P.id).Nodup)
    (hl : l ⊆ s) (hl' : l' ⊆ s) (hv : P.Verified l) (hv' : P.Verified l')
    (hs : P.Saturated s l) (hs' : P.Saturated s l') {a : α} (ha : a ∈ s) : a ∈ l ↔ a ∈ l' := by
  induction hn : (before P.key s a).length using Nat.strong_induction_on generalizing a with
  | _ n ih =>
    have hperm : (before P.key l a).Perm (before P.key l' a) := by
      refine (List.perm_ext_iff_of_nodup (hv.1.of_map.filter _) (hv'.1.of_map.filter _)).mpr ?_
      intro b
      simp only [List.mem_filter, decide_eq_true_eq, and_congr_left_iff]
      intro hlt
      constructor
      · exact fun hb => (ih _ (hn ▸ before_length_lt (hl hb) hlt) (hl hb) rfl).mp hb
      · exact fun hb => (ih _ (hn ▸ before_length_lt (hl' hb) hlt) (hl' hb) rfl).mpr hb
    have hids' : ((before P.key l' a).map P.id).Nodup :=
      hv'.1.sublist (List.filter_sublist.map P.id)
    have hacc : P.accepts (before P.key l a) a = P.accepts (before P.key l' a) a :=
      P.accepts_perm a hids' hperm
    exact ⟨fun h => mem_of_saturated hids hl' hs' ha (hacc ▸ hv.2 a h),
      fun h => mem_of_saturated hids hl hs ha (hacc ▸ hv'.2 a h)⟩

theorem perm_of_saturated {s l l' : List α} (hids : (s.map P.id).Nodup)
    (hl : l ⊆ s) (hl' : l' ⊆ s) (hv : P.Verified l) (hv' : P.Verified l')
    (hs : P.Saturated s l) (hs' : P.Saturated s l') : l.Perm l' :=
  (List.perm_ext_iff_of_nodup hv.1.of_map hv'.1.of_map).mpr fun _ =>
    ⟨fun h => (mem_iff_of_saturated hids hl hl' hv hv' hs hs' (hl h)).mp h,
      fun h => (mem_iff_of_saturated hids hl hl' hv hv' hs hs' (hl' h)).mpr h⟩

end LogPolicy
end Harmony.Lib
