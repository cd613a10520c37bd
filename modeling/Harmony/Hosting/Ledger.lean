import Harmony.Lib.Attribution
import Harmony.Lib.Keyed
import Harmony.Lib.Sorted

/-! The storage ledger: which objects are pinned on behalf of which buddy. Saving to disk
writes nothing that the ledger reads back and is left out; byte sums are taken without
overflow. -/

namespace Harmony.Hosting

open Harmony.Lib

inductive ReleaseOutcome where
  | notHeld
  | stillReferenced
  | lastReference
deriving DecidableEq

structure LedgerEntry where
  cid : String
  size : ℕ
  pinnedAtMs : ℕ
deriving DecidableEq

structure StorageLedger where
  perBuddy : BTreeMap String (List LedgerEntry)
  sealedFault : Bool

/-- `(pinned_at_ms, owner, cid)`, compared in this order. -/
abbrev Attribution := ℕ ×ₗ String ×ₗ String

namespace Attribution

def owner (a : Attribution) : String := (ofLex (ofLex a).2).1

def cid (a : Attribution) : String := (ofLex (ofLex a).2).2

end Attribution

namespace StorageLedger

def entriesOf (s : StorageLedger) (buddy : String) : List LedgerEntry :=
  s.perBuddy[buddy]?.getD []

def allEntries (s : StorageLedger) : List LedgerEntry := s.perBuddy.toList.flatMap Prod.snd

def holds (s : StorageLedger) (buddy cid : String) : Bool :=
  (s.entriesOf buddy).any (·.cid = cid)

def heldAnywhere (s : StorageLedger) (cid : String) : Option ℕ :=
  (s.allEntries.find? (·.cid = cid)).map LedgerEntry.size

def bytesForBuddy (s : StorageLedger) (buddy : String) : ℕ :=
  ((s.entriesOf buddy).map LedgerEntry.size).sum

/-- The first entry of each object. -/
def firstSeen : List String → List LedgerEntry → List LedgerEntry
  | _, [] => []
  | seen, e :: entries =>
    if e.cid ∈ seen then firstSeen seen entries
    else e :: firstSeen (e.cid :: seen) entries

def distinctPinnedBytes (s : StorageLedger) : ℕ :=
  ((firstSeen [] s.allEntries).map LedgerEntry.size).sum

def buddies (s : StorageLedger) : List String := s.perBuddy.keys

def cidsForBuddy (s : StorageLedger) (buddy : String) : List String :=
  (s.entriesOf buddy).map LedgerEntry.cid

def refcount (s : StorageLedger) (cid : String) : ℕ :=
  (s.perBuddy.toList.filter fun p => p.2.any (·.cid = cid)).length

def recordPin (s : StorageLedger) (buddy cid : String) (size nowMs : ℕ) : StorageLedger × Bool :=
  if s.sealedFault then (s, false)
  else if s.holds buddy cid then (s, false)
  else ({ s with perBuddy :=
    s.perBuddy.insert buddy (s.entriesOf buddy ++ [⟨cid, size, nowMs⟩]) }, true)

def releaseInner (s : StorageLedger) (buddy cid : String) : StorageLedger × ReleaseOutcome :=
  match s.perBuddy[buddy]? with
  | none => (s, .notHeld)
  | some entries =>
    let kept := entries.filter (·.cid ≠ cid)
    if kept.length = entries.length then (s, .notHeld)
    else
      let s' : StorageLedger := { s with perBuddy :=
        if kept.isEmpty then s.perBuddy.erase buddy else s.perBuddy.insert buddy kept }
      (s', if s'.refcount cid = 0 then .lastReference else .stillReferenced)

def release (s : StorageLedger) (buddy cid : String) : StorageLedger × ReleaseOutcome :=
  if s.sealedFault then (s, .notHeld) else s.releaseInner buddy cid

def releaseBuddy (s : StorageLedger) (buddy : String) : StorageLedger × List String :=
  if s.sealedFault then (s, [])
  else
    match s.perBuddy[buddy]? with
    | none => (s, [])
    | some entries =>
      let s' : StorageLedger := { s with perBuddy := s.perBuddy.erase buddy }
      (s', (entries.filter fun e => s'.refcount e.cid = 0).map LedgerEntry.cid)

def dropCidEverywhere (s : StorageLedger) (cid : String) : StorageLedger :=
  if s.sealedFault then s
  else { s with perBuddy := s.perBuddy.filterMap fun _ entries =>
    let kept := entries.filter (·.cid ≠ cid)
    if kept.isEmpty then none else some kept }

def attributions (s : StorageLedger) : List Attribution :=
  s.perBuddy.toList.flatMap fun p => p.2.map fun e => toLex (e.pinnedAtMs, toLex (p.1, e.cid))

def newest (s : StorageLedger) : Option Attribution := s.attributions.argmax id

/-! ### Who holds what -/

/-- The pairs of a buddy and an object pinned for it. -/
def pairs (s : StorageLedger) : Set (String × String) := {p | s.holds p.1 p.2 = true}

def Held (s : StorageLedger) (cid : String) : Prop := cid ∈ objects s.pairs

variable {s : StorageLedger} {buddy cid : String}

theorem mem_pairs {p : String × String} :
    p ∈ s.pairs ↔ ∃ e ∈ s.entriesOf p.1, e.cid = p.2 := by
  simp [pairs, holds]

theorem mem_toList_entriesOf {entries : List LedgerEntry} (h : (buddy, entries) ∈ s.perBuddy.toList) :
    s.entriesOf buddy = entries := by
  rw [entriesOf, mem_toList_iff.mp h, Option.getD_some]

theorem exists_toList {e : LedgerEntry} (h : e ∈ s.entriesOf buddy) :
    (buddy, s.entriesOf buddy) ∈ s.perBuddy.toList := by
  rw [mem_toList_iff]
  unfold entriesOf at h ⊢
  cases hb : s.perBuddy[buddy]? with
  | none => simp [hb] at h
  | some entries => rfl

theorem mem_allEntries {e : LedgerEntry} : e ∈ s.allEntries ↔ ∃ buddy, e ∈ s.entriesOf buddy := by
  rw [allEntries, List.mem_flatMap]
  constructor
  · rintro ⟨⟨buddy, entries⟩, hp, he⟩
    exact ⟨buddy, (mem_toList_entriesOf hp).symm ▸ he⟩
  · rintro ⟨buddy, he⟩
    exact ⟨_, exists_toList he, he⟩

theorem held_iff : s.Held cid ↔ ∃ e ∈ s.allEntries, e.cid = cid := by
  constructor
  · rintro ⟨buddy, hp⟩
    obtain ⟨e, he, hcid⟩ := mem_pairs.mp hp
    exact ⟨e, mem_allEntries.mpr ⟨buddy, he⟩, hcid⟩
  · rintro ⟨e, he, hcid⟩
    obtain ⟨buddy, hb⟩ := mem_allEntries.mp he
    exact ⟨buddy, mem_pairs.mpr ⟨e, hb, hcid⟩⟩

theorem heldAnywhere_eq_none : s.heldAnywhere cid = none ↔ ¬s.Held cid := by
  rw [held_iff, heldAnywhere, Option.map_eq_none_iff, List.find?_eq_none]
  simp

theorem refcount_eq_zero : s.refcount cid = 0 ↔ ¬s.Held cid := by
  rw [refcount, List.length_eq_zero_iff, List.filter_eq_nil_iff, held_iff]
  constructor
  · rintro h ⟨e, he, hcid⟩
    obtain ⟨p, hp, hep⟩ := List.mem_flatMap.mp he
    exact h p hp (List.any_eq_true.mpr ⟨e, hep, by simpa using hcid⟩)
  · intro h p hp hany
    obtain ⟨e, he, hcid⟩ := List.any_eq_true.mp hany
    exact h ⟨e, List.mem_flatMap.mpr ⟨p, hp, he⟩, by simpa using hcid⟩

theorem mem_attributions {a : Attribution} :
    a ∈ s.attributions ↔ ∃ e ∈ s.entriesOf a.owner, e.cid = a.cid ∧ e.pinnedAtMs = (ofLex a).1 := by
  rw [attributions, List.mem_flatMap]
  constructor
  · rintro ⟨⟨buddy, entries⟩, hp, ha⟩
    obtain ⟨e, he, rfl⟩ := List.mem_map.mp ha
    exact ⟨e, (mem_toList_entriesOf hp).symm ▸ he, rfl, rfl⟩
  · rintro ⟨e, he, hcid, htime⟩
    refine ⟨_, exists_toList he, List.mem_map.mpr ⟨e, he, ?_⟩⟩
    rw [hcid, htime]
    rfl

/-! ### What the mutators leave -/

theorem entriesOf_insert (buddy o : String) (entries : List LedgerEntry) (fault : Bool) :
    (⟨s.perBuddy.insert buddy entries, fault⟩ : StorageLedger).entriesOf o =
      if buddy = o then entries else s.entriesOf o := by
  simp only [entriesOf, BTreeMap.get_insert]
  split_ifs <;> rfl

theorem entriesOf_erase (buddy o : String) (fault : Bool) :
    (⟨s.perBuddy.erase buddy, fault⟩ : StorageLedger).entriesOf o =
      if buddy = o then [] else s.entriesOf o := by
  simp only [entriesOf, BTreeMap.get_erase]
  split_ifs <;> rfl

/-- A release changes nothing or leaves the buddy the entries of other objects. -/
theorem releaseInner_cases (s : StorageLedger) (buddy cid : String) :
    (s.releaseInner buddy cid).1 = s ∧ (∀ e ∈ s.entriesOf buddy, e.cid ≠ cid) ∨
      (s.releaseInner buddy cid).1 = ⟨if ((s.entriesOf buddy).filter (·.cid ≠ cid)).isEmpty then
        s.perBuddy.erase buddy
        else s.perBuddy.insert buddy ((s.entriesOf buddy).filter (·.cid ≠ cid)),
          s.sealedFault⟩ := by
  unfold releaseInner
  cases hb : s.perBuddy[buddy]? with
  | none => exact .inl ⟨rfl, by simp [entriesOf, hb]⟩
  | some entries =>
    have hentries : s.entriesOf buddy = entries := by rw [entriesOf, hb, Option.getD_some]
    rw [hentries]
    dsimp only
    by_cases hlen : (entries.filter (·.cid ≠ cid)).length = entries.length
    · rw [if_pos hlen]
      exact .inl ⟨rfl, by simpa using List.length_filter_eq_length_iff.mp hlen⟩
    · rw [if_neg hlen]
      exact .inr rfl

theorem entriesOf_releaseInner (buddy cid o : String) :
    (s.releaseInner buddy cid).1.entriesOf o =
      if buddy = o then (s.entriesOf o).filter (·.cid ≠ cid) else s.entriesOf o := by
  rcases s.releaseInner_cases buddy cid with ⟨hsame, hothers⟩ | hkept
  · rw [hsame]
    split_ifs with ho
    · subst ho
      exact (List.filter_eq_self.mpr (by simpa using hothers)).symm
    · rfl
  · rw [hkept]
    by_cases hempty : ((s.entriesOf buddy).filter (·.cid ≠ cid)).isEmpty
    · rw [if_pos hempty, entriesOf_erase]
      split_ifs with ho
      · subst ho
        exact (List.isEmpty_iff.mp hempty).symm
      · rfl
    · rw [if_neg hempty, entriesOf_insert]
      split_ifs with ho
      · subst ho
        rfl
      · rfl

theorem mem_pairs_releaseInner {p : String × String} :
    p ∈ (s.releaseInner buddy cid).1.pairs ↔ p ∈ s.pairs ∧ p ≠ (buddy, cid) := by
  obtain ⟨o, c⟩ := p
  rw [mem_pairs, mem_pairs, entriesOf_releaseInner]
  by_cases ho : buddy = o
  · subst ho
    rw [if_pos rfl]
    constructor
    · rintro ⟨e, he, rfl⟩
      obtain ⟨hmem, hne⟩ := List.mem_filter.mp he
      exact ⟨⟨e, hmem, rfl⟩, fun h => by simp_all⟩
    · rintro ⟨⟨e, he, rfl⟩, hne⟩
      refine ⟨e, List.mem_filter.mpr ⟨he, ?_⟩, rfl⟩
      simpa using hne
  · rw [if_neg ho]
    exact ⟨fun h => ⟨h, fun heq => ho (congrArg Prod.fst heq).symm⟩, fun h => h.1⟩

theorem releaseInner_sealedFault : (s.releaseInner buddy cid).1.sealedFault = s.sealedFault := by
  rcases s.releaseInner_cases buddy cid with ⟨hsame, -⟩ | hkept
  · rw [hsame]
  · rw [hkept]

theorem releaseInner_outcome (hheld : (buddy, cid) ∈ s.pairs) :
    (s.releaseInner buddy cid).2 =
      if (s.releaseInner buddy cid).1.refcount cid = 0 then .lastReference
      else .stillReferenced := by
  obtain ⟨e, he, hcid⟩ := mem_pairs.mp hheld
  unfold releaseInner
  cases hb : s.perBuddy[buddy]? with
  | none =>
    rw [entriesOf, hb] at he
    simp at he
  | some entries =>
    rw [entriesOf, hb, Option.getD_some] at he
    have hlen : (entries.filter (·.cid ≠ cid)).length ≠ entries.length := by
      intro hlen
      have hkeeps := List.length_filter_eq_length_iff.mp hlen e he
      simp [hcid] at hkeeps
    simp only [if_neg hlen]

def freedBy (cid : String) : ReleaseOutcome → List String
  | .lastReference => [cid]
  | _ => []

theorem frees_releaseInner (hheld : (buddy, cid) ∈ s.pairs) :
    Frees s.pairs (s.releaseInner buddy cid).1.pairs (freedBy cid (s.releaseInner buddy cid).2) := by
  rw [releaseInner_outcome hheld]
  rcases Frees.of_remove hheld (fun p => mem_pairs_releaseInner) with ⟨h, hcid⟩ | h
  · have hcount : (s.releaseInner buddy cid).1.refcount cid ≠ 0 :=
      fun h0 => refcount_eq_zero.mp h0 hcid
    rw [if_neg hcount]
    exact h
  · have hcount : (s.releaseInner buddy cid).1.refcount cid = 0 :=
      refcount_eq_zero.mpr ((h.mem cid).mp (List.mem_singleton_self cid)).2
    rw [if_pos hcount]
    exact h

theorem releaseInner_notHeld (hheld : (buddy, cid) ∉ s.pairs) :
    s.releaseInner buddy cid = (s, .notHeld) := by
  unfold releaseInner
  cases hb : s.perBuddy[buddy]? with
  | none => rfl
  | some entries =>
    have hlen : (entries.filter (·.cid ≠ cid)).length = entries.length := by
      rw [List.length_filter_eq_length_iff]
      intro e he
      simp only [ne_eq, decide_not, Bool.not_eq_eq_eq_not, Bool.not_true, decide_eq_false_iff_not]
      intro hcid
      refine hheld (mem_pairs.mpr ⟨e, ?_, hcid⟩)
      rwa [entriesOf, hb, Option.getD_some]
    dsimp only
    rw [if_pos hlen]

theorem frees_release (hfault : s.sealedFault = false) :
    Frees s.pairs (s.release buddy cid).1.pairs (freedBy cid (s.release buddy cid).2) := by
  rw [release, hfault, if_neg (by simp)]
  by_cases hheld : (buddy, cid) ∈ s.pairs
  · exact frees_releaseInner hheld
  · rw [releaseInner_notHeld hheld]
    exact .refl _

theorem mem_pairs_releaseBuddy (hfault : s.sealedFault = false) {p : String × String} :
    p ∈ (s.releaseBuddy buddy).1.pairs ↔ p ∈ s.pairs ∧ p.1 ≠ buddy := by
  unfold releaseBuddy
  rw [hfault, if_neg (by simp)]
  cases hb : s.perBuddy[buddy]? with
  | none =>
    refine ⟨fun hp => ⟨hp, fun ho => ?_⟩, fun hp => hp.1⟩
    obtain ⟨e, he, -⟩ := mem_pairs.mp hp
    rw [entriesOf, ho, hb] at he
    simp at he
  | some entries =>
    dsimp only
    rw [mem_pairs, mem_pairs, entriesOf_erase]
    by_cases ho : buddy = p.1
    · simp [ho]
    · simp [ho, Ne.symm ho]

theorem frees_releaseBuddy (hfault : s.sealedFault = false) :
    Frees s.pairs (s.releaseBuddy buddy).1.pairs (s.releaseBuddy buddy).2 := by
  refine ⟨fun p hp => ((mem_pairs_releaseBuddy hfault).mp hp).1, fun c => ?_⟩
  have hpairs := @mem_pairs_releaseBuddy s buddy hfault
  unfold releaseBuddy at hpairs ⊢
  rw [hfault, if_neg (by simp)] at hpairs ⊢
  cases hb : s.perBuddy[buddy]? with
  | none => simp
  | some entries =>
    have hentries : s.entriesOf buddy = entries := by rw [entriesOf, hb, Option.getD_some]
    rw [hb] at hpairs
    dsimp only at hpairs ⊢
    simp only [List.mem_map, List.mem_filter, decide_eq_true_eq, refcount_eq_zero]
    constructor
    · rintro ⟨e, ⟨he, hgone⟩, rfl⟩
      exact ⟨⟨buddy, mem_pairs.mpr ⟨e, hentries.symm ▸ he, rfl⟩⟩, hgone⟩
    · rintro ⟨⟨o, ho⟩, hgone⟩
      have howner : o = buddy := by
        by_contra hne
        exact hgone ⟨o, (@hpairs (o, c)).mpr ⟨ho, hne⟩⟩
      subst howner
      obtain ⟨e, he, hcid⟩ := mem_pairs.mp ho
      refine ⟨e, ⟨hentries ▸ he, ?_⟩, hcid⟩
      rw [show e.cid = c from hcid]
      exact hgone

theorem pairs_recordPin {size nowMs : ℕ} (hfault : s.sealedFault = false) (p : String × String) :
    p ∈ (s.recordPin buddy cid size nowMs).1.pairs ↔ p ∈ s.pairs ∨ p = (buddy, cid) := by
  obtain ⟨o, c⟩ := p
  unfold recordPin
  rw [hfault, if_neg (by simp)]
  split_ifs with hheld
  · refine ⟨.inl, fun h => h.elim id ?_⟩
    rintro ⟨rfl, rfl⟩
    exact hheld
  · rw [mem_pairs, mem_pairs, entriesOf_insert]
    by_cases ho : buddy = o
    · subst ho
      simp only [if_true, List.mem_append, List.mem_singleton, Prod.mk.injEq, true_and]
      constructor
      · rintro ⟨e, he | rfl, rfl⟩
        · exact .inl ⟨e, he, rfl⟩
        · exact .inr rfl
      · rintro (⟨e, he, rfl⟩ | rfl)
        · exact ⟨e, .inl he, rfl⟩
        · exact ⟨_, .inr rfl, rfl⟩
    · simp [ho, Ne.symm ho]

theorem entriesOf_dropCidEverywhere (hfault : s.sealedFault = false) (cid o : String) :
    (s.dropCidEverywhere cid).entriesOf o = (s.entriesOf o).filter (·.cid ≠ cid) := by
  unfold dropCidEverywhere
  rw [hfault, if_neg (by simp)]
  simp only [entriesOf, Std.ExtTreeMap.getElem?_filterMap']
  cases s.perBuddy[o]? with
  | none => rfl
  | some entries =>
    dsimp only [Option.bind_some, Option.getD_some]
    by_cases hempty : (entries.filter (·.cid ≠ cid)).isEmpty
    · rw [if_pos hempty, Option.getD_none]
      exact (List.isEmpty_iff.mp hempty).symm
    · rw [if_neg hempty, Option.getD_some]

end StorageLedger
end Harmony.Hosting
