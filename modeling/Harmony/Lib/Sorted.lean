import Mathlib

/-! Logs replayed in key order. `sortBy key` is the sorted copy of a list; when
keys tell the elements apart it depends only on the set of elements, and it splits
at any element into what sorts before it and what sorts after it. -/

namespace Harmony.Lib

variable {α κ : Type} {key : α → κ}

def KeyNodup (key : α → κ) (l : List α) : Prop := (l.map key).Nodup

instance [DecidableEq κ] (l : List α) : Decidable (KeyNodup key l) :=
  inferInstanceAs (Decidable (l.map key).Nodup)

theorem KeyNodup.inj {l : List α} (h : KeyNodup key l) {a b : α} (ha : a ∈ l) (hb : b ∈ l)
    (hk : key a = key b) : a = b := List.inj_on_of_nodup_map h ha hb hk

theorem KeyNodup.perm {l l' : List α} (h : KeyNodup key l) (hp : l'.Perm l) : KeyNodup key l' :=
  (hp.map key).nodup_iff.mpr h

theorem KeyNodup.filter {l : List α} (h : KeyNodup key l) (p : α → Bool) :
    KeyNodup key (l.filter p) := h.sublist (List.filter_sublist.map key)

theorem KeyNodup.of_append {l r : List α} (h : KeyNodup key (l ++ r)) : KeyNodup key l :=
  h.sublist ((List.sublist_append_left l r).map key)

theorem KeyNodup.ne_of_append {l r : List α} (h : KeyNodup key (l ++ r)) {a b : α} (ha : a ∈ l)
    (hb : b ∈ r) : key a ≠ key b := by
  rw [KeyNodup, List.map_append, List.nodup_append] at h
  exact h.2.2 _ (List.mem_map_of_mem ha) _ (List.mem_map_of_mem hb)

/-- Keys that determine a duplicate-free attribute are duplicate-free. -/
theorem KeyNodup.of_finer {ι : Type} {id : α → ι} {l : List α} (h : KeyNodup id l)
    (hid : ∀ {a b : α}, key a = key b → id a = id b) : KeyNodup key l :=
  (List.nodup_map_iff_inj_on h.of_map).mpr fun _ ha _ hb hk => h.inj ha hb (hid hk)

variable [LinearOrder κ]

def sortBy (key : α → κ) (l : List α) : List α := l.insertionSort fun a b => key a ≤ key b

def before (key : α → κ) (l : List α) (a : α) : List α := l.filter fun b => decide (key b < key a)

def after (key : α → κ) (l : List α) (a : α) : List α := l.filter fun b => decide (key a < key b)

theorem sortBy_perm (l : List α) : (sortBy key l).Perm l := List.perm_insertionSort _ l

@[simp] theorem mem_sortBy {l : List α} {a : α} : a ∈ sortBy key l ↔ a ∈ l :=
  (sortBy_perm l).mem_iff

theorem sortBy_sorted (l : List α) : (sortBy key l).Pairwise fun a b => key a ≤ key b :=
  haveI : Std.Total fun a b : α => key a ≤ key b := ⟨fun a b => le_total (key a) (key b)⟩
  haveI : IsTrans α fun a b => key a ≤ key b := ⟨fun _ _ _ => le_trans⟩
  List.pairwise_insertionSort _ l

/-- A sorted list is determined by its elements when their keys differ. -/
theorem eq_sortBy {l s : List α} (h : KeyNodup key l) (hp : s.Perm l)
    (hs : s.Pairwise fun a b => key a ≤ key b) : s = sortBy key l :=
  List.Perm.eq_of_pairwise
    (fun _ _ ha hb hab hba => h.inj (hp.mem_iff.mp ha) ((sortBy_perm l).mem_iff.mp hb)
      (le_antisymm hab hba))
    hs (sortBy_sorted l) (hp.trans (sortBy_perm l).symm)

theorem sortBy_eq_of_perm {l l' : List α} (h : KeyNodup key l) (hp : l'.Perm l) :
    sortBy key l' = sortBy key l :=
  eq_sortBy h ((sortBy_perm l').trans hp) (sortBy_sorted l')

theorem sortBy_filter {l : List α} (h : KeyNodup key l) (p : α → Bool) :
    sortBy key (l.filter p) = (sortBy key l).filter p :=
  (eq_sortBy (h.filter p) ((sortBy_perm l).filter p) ((sortBy_sorted l).filter p)).symm

theorem sortBy_append {l r : List α} (h : KeyNodup key (l ++ r))
    (hlt : ∀ a ∈ l, ∀ b ∈ r, key a ≤ key b) :
    sortBy key (l ++ r) = sortBy key l ++ sortBy key r := by
  refine (eq_sortBy h ((sortBy_perm l).append (sortBy_perm r)) ?_).symm
  rw [List.pairwise_append]
  exact ⟨sortBy_sorted l, sortBy_sorted r, fun a ha b hb =>
    hlt a (mem_sortBy.mp ha) b (mem_sortBy.mp hb)⟩

theorem sortBy_snoc {l : List α} {a : α} (h : KeyNodup key (l ++ [a]))
    (hlt : ∀ b ∈ l, key b ≤ key a) : sortBy key (l ++ [a]) = sortBy key l ++ [a] :=
  sortBy_append h (by simpa using hlt)

theorem perm_before_after {l : List α} (h : KeyNodup key l) {a : α} (ha : a ∈ l) :
    (before key l a ++ ([a] ++ after key l a)).Perm l := by
  have hn : l.Nodup := h.of_map
  have hd : (before key l a ++ ([a] ++ after key l a)).Nodup := by
    simp only [before, after, List.nodup_append, List.mem_filter, decide_eq_true_eq,
      List.singleton_append, List.nodup_cons, List.mem_cons]
    refine ⟨hn.filter _, ⟨fun hx => lt_irrefl _ hx.2, hn.filter _⟩, ?_⟩
    rintro b ⟨-, hb⟩ c (rfl | ⟨-, hc⟩) rfl
    · exact lt_irrefl _ hb
    · exact lt_asymm hb hc
  refine (List.perm_ext_iff_of_nodup hd hn).mpr fun b => ?_
  simp only [before, after, List.mem_append, List.mem_filter, decide_eq_true_eq, List.mem_cons,
    List.not_mem_nil, or_false]
  constructor
  · rintro (hb | rfl | hb)
    · exact hb.1
    · exact ha
    · exact hb.1
  · intro hb
    rcases lt_trichotomy (key b) (key a) with hlt | heq | hgt
    · exact Or.inl ⟨hb, hlt⟩
    · exact Or.inr (Or.inl (h.inj hb ha heq))
    · exact Or.inr (Or.inr ⟨hb, hgt⟩)

/-- The sorted list splits at each of its elements. -/
theorem sortBy_split {l : List α} (h : KeyNodup key l) {a : α} (ha : a ∈ l) :
    sortBy key l = sortBy key (before key l a) ++ ([a] ++ sortBy key (after key l a)) := by
  have hp := perm_before_after h ha
  have hn := h.perm hp
  rw [← sortBy_eq_of_perm h hp, sortBy_append hn, sortBy_append (List.Nodup.of_append_right (by
    simpa [KeyNodup] using hn))]
  · rfl
  · simp only [after, List.mem_filter, decide_eq_true_eq, List.mem_singleton]
    rintro b rfl c ⟨-, hc⟩
    exact hc.le
  · simp only [before, after, List.mem_filter, decide_eq_true_eq, List.mem_append,
      List.mem_singleton]
    rintro b ⟨-, hb⟩ c (rfl | ⟨-, hc⟩)
    · exact hb.le
    · exact (hb.trans hc).le

/-- Around an element of the sorted list stand what is smaller and what is greater. -/
theorem sortBy_split_lt {l pre post : List α} {a : α} (h : KeyNodup key l)
    (hs : sortBy key l = pre ++ a :: post) :
    (∀ b ∈ pre, key b < key a) ∧ ∀ b ∈ post, key a < key b := by
  have hsorted : (sortBy key l).Pairwise fun a b => key a ≤ key b := sortBy_sorted l
  have hnd : KeyNodup key (pre ++ a :: post) := hs ▸ h.perm (sortBy_perm l)
  rw [hs, List.pairwise_append, List.pairwise_cons] at hsorted
  rw [KeyNodup, List.map_append, List.nodup_append, List.map_cons, List.nodup_cons] at hnd
  constructor
  · intro b hb
    refine lt_of_le_of_ne (hsorted.2.2 b hb a (by simp)) ?_
    exact hnd.2.2 _ (List.mem_map_of_mem hb) _ (by simp)
  · intro b hb
    refine lt_of_le_of_ne (hsorted.2.1.1 b hb) fun heq => ?_
    exact hnd.2.1.1 (heq ▸ List.mem_map_of_mem hb)

/-- The elements met before `a` in sorted order are those that sort before it. -/
theorem sortBy_before_eq {l pre post : List α} {a : α} (h : KeyNodup key l)
    (hs : sortBy key l = pre ++ a :: post) : sortBy key (before key l a) = pre := by
  obtain ⟨hpre, hpost⟩ := sortBy_split_lt h hs
  have hpost' : ∀ b ∈ a :: post, ¬key b < key a := by
    intro b hb
    rcases List.mem_cons.mp hb with rfl | hb
    · exact lt_irrefl _
    · exact (hpost b hb).asymm
  rw [before, sortBy_filter h, hs, List.filter_append,
    List.filter_eq_self.mpr fun b hb => by simpa using hpre b hb,
    List.filter_eq_nil_iff.mpr fun b hb => by simpa using hpost' b hb, List.append_nil]

end Harmony.Lib
