import Mathlib

/-! Ordered maps read through lookups. `BTreeMap` is the extensional tree map at
the order of its keys; the lemmas restate the lookup laws with the key test as
an equation, which is the form the simp set of a replayed state needs. -/

namespace Harmony.Lib

open Std

abbrev BTreeMap (κ υ : Type) [Ord κ] := ExtTreeMap κ υ compare

/-- Pairs compare equal only if their components do. -/
instance lawfulEqOrd_lex {α β : Type} [Ord α] [Ord β] [LawfulEqOrd α] [LawfulEqOrd β] :
    LawfulEqOrd (α ×ₗ β) where
  eq_of_compare {a b} h := by
    have h' : (compare (ofLex a).1 (ofLex b).1).then (compare (ofLex a).2 (ofLex b).2) = .eq := h
    rw [Ordering.then_eq_eq] at h'
    exact ofLex_inj.mp
      (Prod.ext (LawfulEqOrd.eq_of_compare h'.1) (LawfulEqOrd.eq_of_compare h'.2))
  compare_self {a} := by
    change (compare (ofLex a).1 (ofLex a).1).then (compare (ofLex a).2 (ofLex a).2) = .eq
    rw [Ordering.then_eq_eq]
    exact ⟨ReflOrd.compare_self, ReflOrd.compare_self⟩

namespace BTreeMap

variable {κ υ : Type} [Ord κ] [TransOrd κ]

def ofEntries {α : Type} (id : α → κ) (entry : α → Option υ) (l : List α) : BTreeMap κ υ :=
  l.foldl (fun t a => (entry a).elim t (t.insert (id a))) ∅

theorem ofEntries_snoc {α : Type} {id : α → κ} {entry : α → Option υ} (l : List α) (a : α) :
    ofEntries id entry (l ++ [a]) =
      (entry a).elim (ofEntries id entry l) ((ofEntries id entry l).insert (id a)) := by
  simp only [ofEntries, List.foldl_append, List.foldl_cons, List.foldl_nil]

variable [LawfulEqOrd κ] [DecidableEq κ]

theorem get_insert (t : BTreeMap κ υ) (k a : κ) (v : υ) :
    (t.insert k v)[a]? = if k = a then some v else t[a]? := by
  rw [ExtTreeMap.getElem?_insert]
  simp only [Std.compare_eq_iff_eq]

theorem get_alter (t : BTreeMap κ υ) (k a : κ) (f : Option υ → Option υ) :
    (t.alter k f)[a]? = if k = a then f t[a]? else t[a]? := by
  rw [ExtTreeMap.getElem?_alter]
  simp only [Std.compare_eq_iff_eq]
  split_ifs with h
  · rw [h]
  · rfl

theorem alter_eq_self (t : BTreeMap κ υ) {k : κ} {f : Option υ → Option υ} (h : f t[k]? = t[k]?) :
    t.alter k f = t := by
  refine ExtTreeMap.ext_getElem? fun a => ?_
  rw [get_alter]
  split_ifs with hk
  · rw [← hk, h]
  · rfl

theorem alter_eq_insert (t : BTreeMap κ υ) {k : κ} {f : Option υ → Option υ} {v : υ}
    (h : f t[k]? = some v) : t.alter k f = t.insert k v := by
  refine ExtTreeMap.ext_getElem? fun a => ?_
  rw [get_alter, get_insert]
  split_ifs with hk
  · rw [← hk, h]
  · rfl

theorem get_erase (t : BTreeMap κ υ) (k a : κ) :
    (t.erase k)[a]? = if k = a then none else t[a]? := by
  rw [ExtTreeMap.getElem?_erase]
  simp only [Std.compare_eq_iff_eq]

theorem get_foldl_erase (l : List κ) (t : BTreeMap κ υ) (k : κ) :
    (l.foldl (fun t k => t.erase k) t)[k]? = if k ∈ l then none else t[k]? := by
  induction l generalizing t with
  | nil => simp
  | cons a l ih =>
    rw [List.foldl_cons, ih, get_erase]
    by_cases ha : a = k
    · simp [ha]
    · simp [ha, Ne.symm ha]

omit [DecidableEq κ] in
theorem size_foldl_erase {l : List κ} (hnd : l.Nodup) {t : BTreeMap κ υ}
    (hmem : ∀ k ∈ l, k ∈ t) : (l.foldl (fun t k => t.erase k) t).size + l.length = t.size := by
  induction l generalizing t with
  | nil => rfl
  | cons a l ih =>
    obtain ⟨ha, hl⟩ := List.nodup_cons.mp hnd
    have hat : t.contains a = true := ExtTreeMap.mem_iff_contains.mp (hmem a (.head _))
    have hpos : t.size ≠ 0 := by
      intro hzero
      rw [ExtTreeMap.eq_empty_iff_size_eq_zero.mpr hzero] at hat
      simp at hat
    have hrest : ∀ k ∈ l, k ∈ t.erase a := by
      intro k hk
      refine ExtTreeMap.mem_erase.mpr ⟨fun heq => ha ?_, hmem k (.tail _ hk)⟩
      rwa [LawfulEqOrd.eq_of_compare heq]
    have ih := ih hl hrest
    rw [ExtTreeMap.size_erase, if_pos hat] at ih
    rw [List.foldl_cons, List.length_cons]
    omega

section OfEntries

variable {α : Type} {id : α → κ} {entry : α → Option υ} {l : List α}

theorem get_ofEntries_of_notMem {k : κ} (hk : k ∉ l.map id) : (ofEntries id entry l)[k]? = none := by
  induction l using List.reverseRecOn with
  | nil => simp [ofEntries]
  | append_singleton l b ih =>
    simp only [List.map_append, List.mem_append, not_or, List.map_cons, List.map_nil,
      List.mem_singleton] at hk
    rw [ofEntries_snoc]
    cases entry b with
    | none => exact ih hk.1
    | some v => simpa [get_insert, Ne.symm hk.2] using ih hk.1

/-- With distinct keys, a lookup finds the entry of the element that carries the key. -/
theorem get_ofEntries (id : α → κ) (entry : α → Option υ) (hnd : (l.map id).Nodup) {a : α} (ha : a ∈ l) :
    (ofEntries id entry l)[id a]? = entry a := by
  induction l using List.reverseRecOn with
  | nil => simp at ha
  | append_singleton l b ih =>
    rw [List.map_append, List.nodup_append] at hnd
    rw [ofEntries_snoc]
    have hfresh : ∀ c ∈ l, id c ≠ id b := fun c hc h =>
      hnd.2.2 _ (List.mem_map_of_mem hc) _ (by simp) h
    rcases List.mem_append.mp ha with ha | ha
    · have := ih hnd.1 ha
      cases entry b <;> simp [get_insert, (hfresh a ha).symm, this]
    · obtain rfl := List.mem_singleton.mp ha
      cases hb : entry a with
      | none =>
        refine get_ofEntries_of_notMem fun h => ?_
        obtain ⟨c, hc, hca⟩ := List.mem_map.mp h
        exact hfresh c hc hca
      | some v => simp

theorem exists_of_get_ofEntries {k : κ} {v : υ} (h : (ofEntries id entry l)[k]? = some v) :
    ∃ a ∈ l, id a = k ∧ entry a = some v := by
  induction l using List.reverseRecOn with
  | nil => simp [ofEntries] at h
  | append_singleton l b ih =>
    have hold : (ofEntries id entry l)[k]? = some v →
        ∃ a ∈ l ++ [b], id a = k ∧ entry a = some v := by
      intro hl
      obtain ⟨a, ha, hk, hv⟩ := ih hl
      exact ⟨a, by simp [ha], hk, hv⟩
    rw [ofEntries_snoc] at h
    cases hb : entry b with
    | none =>
      rw [hb] at h
      exact hold h
    | some u =>
      rw [hb, Option.elim_some, get_insert] at h
      split_ifs at h with hk
      · exact ⟨b, by simp, hk, hb.trans h⟩
      · exact hold h

theorem ofEntries_perm {l' : List α} (hnd : (l.map id).Nodup) (hp : l'.Perm l) :
    ofEntries id entry l' = ofEntries id entry l := by
  have hnd' : (l'.map id).Nodup := (hp.map id).nodup_iff.mpr hnd
  refine Std.ExtTreeMap.ext_getElem? fun k => ?_
  by_cases hk : k ∈ l.map id
  · obtain ⟨a, ha, rfl⟩ := List.mem_map.mp hk
    rw [get_ofEntries id entry hnd ha, get_ofEntries id entry hnd' (hp.mem_iff.mpr ha)]
  · rw [get_ofEntries_of_notMem hk,
      get_ofEntries_of_notMem fun h => hk ((hp.map id).mem_iff.mp h)]

end OfEntries

section LeastBy

variable {α ρ : Type} [LinearOrder ρ] {group : α → κ} {rank : α → ρ}

def leastBy (group : α → κ) (rank : α → ρ) (l : List α) : BTreeMap κ ρ :=
  l.foldl (fun t a => t.alter (group a) fun best => some (best.elim (rank a) (min (rank a)))) ∅

theorem get_leastBy_snoc (l : List α) (a : α) (k : κ) :
    (leastBy group rank (l ++ [a]))[k]? =
      if group a = k then some ((leastBy group rank l)[k]?.elim (rank a) (min (rank a)))
      else (leastBy group rank l)[k]? := by
  simp only [leastBy, List.foldl_append, List.foldl_cons, List.foldl_nil, get_alter]

theorem exists_of_get_leastBy {l : List α} {k : κ} {r : ρ}
    (h : (leastBy group rank l)[k]? = some r) : ∃ a ∈ l, group a = k ∧ rank a = r := by
  induction l using List.reverseRecOn with
  | nil => simp [leastBy] at h
  | append_singleton l b ih =>
    have hold : (leastBy group rank l)[k]? = some r →
        ∃ a ∈ l ++ [b], group a = k ∧ rank a = r := by
      intro hl
      obtain ⟨a, ha, hk, hr⟩ := ih hl
      exact ⟨a, by simp [ha], hk, hr⟩
    rw [get_leastBy_snoc] at h
    split_ifs at h with hb
    · cases hl : (leastBy group rank l)[k]? with
      | none =>
        rw [hl] at h
        exact ⟨b, by simp, hb, Option.some.inj h⟩
      | some best =>
        rw [hl, Option.elim_some, Option.some.injEq] at h
        rcases min_choice (rank b) best with hm | hm
        · exact ⟨b, by simp, hb, hm.symm.trans h⟩
        · exact hold (by rw [hl, ← hm, h])
    · exact hold h

theorem get_leastBy_le (group : α → κ) (rank : α → ρ) {l : List α} {a : α} (ha : a ∈ l) :
    ∃ r, (leastBy group rank l)[group a]? = some r ∧ r ≤ rank a := by
  induction l using List.reverseRecOn with
  | nil => simp at ha
  | append_singleton l b ih =>
    rw [get_leastBy_snoc]
    rcases List.mem_append.mp ha with ha | ha
    · obtain ⟨r, hr, hle⟩ := ih ha
      rw [hr]
      split_ifs
      · exact ⟨_, rfl, (min_le_right _ _).trans hle⟩
      · exact ⟨r, rfl, hle⟩
    · obtain rfl := List.mem_singleton.mp ha
      rw [if_pos rfl]
      refine ⟨_, rfl, ?_⟩
      cases (leastBy group rank l)[group a]? with
      | none => exact le_rfl
      | some best => exact min_le_left _ _

end LeastBy

end BTreeMap
end Harmony.Lib
