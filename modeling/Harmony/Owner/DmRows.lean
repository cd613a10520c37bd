import Harmony.Lib.Smallest
import Harmony.Owner.SpaceTable

/-! The row that is left of duplicate direct-message rows. Two devices that open a
conversation on their own give it two ids; `apply_space` folds one row into the
other, and the folded rows meet again on every later sync. Whatever the order and
the grouping of these merges, the surviving row depends on the set of rows that went
into it alone. -/

namespace Harmony.Owner

open Harmony.Lib
open Harmony.Membership (OwnerAddr SpaceId Hlc)

variable {ι : Type} {p q : OwnerAddr} {family : ι → Space}
  {key : ι → DmContentKey} {I J : Finset ι} {a b row : Space}

/-- Rows of one conversation between two members as their devices create them, with
nothing superseded yet. -/
structure DuplicateDms (p q : OwnerAddr) (family : ι → Space) (key : ι → DmContentKey) : Prop where
  valid : ∀ i, (family i).validateInvariants = .ok ()
  kind : ∀ i, (family i).kind = .dm
  members : ∀ i, (family i).members = [p, q]
  contentKey : ∀ i, (family i).contentKey = some (key i)
  noPrior : ∀ i, (family i).priorContentKeys = []
  ids : Function.Injective fun i => (family i).id
  keys : Function.Injective key
  updated : Function.Injective fun i => (family i).updatedAt
  created : Function.Injective fun i => (family i).createdAt

/-- The rows that `apply_space` makes of a family: its members, and what a store that
holds one such row keeps when it is handed another, under the smaller of two ids or
under the one id of both. -/
inductive Combined [DecidableEq ι] (family : ι → Space) : Finset ι → Space → Prop
  | row (i : ι) : Combined family {i} (family i)
  | collapsed {I J : Finset ι} {a b c : Space} {s s' : OwnerState} {loser : SpaceId}
      (ha : Combined family I a) (hb : Combined family J b)
      (fresh : s.spaces[b.id]? = none)
      (held : findDedupe s.spaces b.dedupeKey = some (a.id, a))
      (applied : s.applySpace b = (s', .merged (some loser)))
      (kept : s'.spaces[min a.id b.id]? = some c) : Combined family (I ∪ J) c
  | updated {I J : Finset ι} {a b c : Space} {s s' : OwnerState}
      (ha : Combined family I a) (hb : Combined family J b)
      (held : s.spaces[b.id]? = some a) (same : a.id = b.id)
      (applied : s.applySpace b = (s', .merged none))
      (kept : s'.spaces[b.id]? = some c) : Combined family (I ∪ J) c

def otherKeys (key : ι → DmContentKey) (I : Finset ι) (least : ι) : Finset DmContentKey :=
  (I.image key).erase (key least)

/-- The row `latest` under the id and the content key of `least`, with the other keys
superseded and the creation stamp of `earliest`. -/
def survivor (family : ι → Space) (key : ι → DmContentKey) (I : Finset ι)
    (least latest earliest : ι) : Space :=
  { family latest with
    id := (family least).id
    createdAt := (family earliest).createdAt
    contentKey := some (key least)
    priorContentKeys := smallest maxPriorContentKeys (otherKeys key I least) }

/-- The row is what the rows in `I` leave: least id, latest update, earliest creation. -/
def Survives (family : ι → Space) (key : ι → DmContentKey) (I : Finset ι) (row : Space) : Prop :=
  ∃ least ∈ I, ∃ latest ∈ I, ∃ earliest ∈ I,
    (∀ i ∈ I, (family least).id ≤ (family i).id) ∧
      (∀ i ∈ I, (family i).updatedAt ≤ (family latest).updatedAt) ∧
        (∀ i ∈ I, (family earliest).createdAt ≤ (family i).createdAt) ∧
          row = survivor family key I least latest earliest

section Keys

variable [DecidableEq ι]

/-- The superseded keys of a merge are the smallest of all that are not current. -/
theorem mergePriorContentKeys_eq (winner loser : DmContentKey) (ps qs : List DmContentKey) :
    mergePriorContentKeys winner ps loser qs =
      smallest maxPriorContentKeys
        (ps.toFinset.erase winner ∪ (insert loser qs.toFinset).erase winner) := by
  simp only [mergePriorContentKeys, sortDedup_eq_sort, smallest]
  congr 2
  ext k
  simp only [List.mem_toFinset, List.mem_filter, List.mem_append, List.mem_cons, decide_eq_true_eq,
    Finset.mem_union, Finset.mem_erase, Finset.mem_insert]
  tauto

/-- Keys cut off before a merge are cut off after it: the surviving row is no row of
the other side, so the other side has not counted its key. -/
theorem mergePriorContentKeys_otherKeys (hkey : Function.Injective key) {l l' : ι}
    (hother : l ∈ J → l = l') (hl' : l' ∈ J) :
    mergePriorContentKeys (key l) (smallest maxPriorContentKeys (otherKeys key I l)) (key l')
        (smallest maxPriorContentKeys (otherKeys key J l')) =
      smallest maxPriorContentKeys (otherKeys key (I ∪ J) l) := by
  have hsplit : otherKeys key (I ∪ J) l = otherKeys key I l ∪ (J.image key).erase (key l) := by
    rw [otherKeys, otherKeys, Finset.image_union, Finset.erase_union_distrib]
  have hsub : otherKeys key J l' ⊆ (J.image key).erase (key l) := by
    intro k hk
    obtain ⟨hne, hmem⟩ := Finset.mem_erase.mp hk
    obtain ⟨j, hj, rfl⟩ := Finset.mem_image.mp hmem
    refine Finset.mem_erase.mpr ⟨fun heq => hne ?_, hmem⟩
    have hjl := hkey heq
    subst hjl
    rw [hother hj]
  rw [mergePriorContentKeys_eq, hsplit]
  refine smallest_union ?_ ?_ ?_ ?_
  · intro k hk
    exact mem_of_mem_smallest (List.mem_toFinset.mp (Finset.mem_of_mem_erase hk))
  · intro k hk
    obtain ⟨hne, hk⟩ := Finset.mem_erase.mp hk
    refine Finset.mem_erase.mpr ⟨hne, ?_⟩
    rcases Finset.mem_insert.mp hk with rfl | hk
    · exact Finset.mem_image_of_mem key hl'
    · exact Finset.mem_of_mem_erase (mem_of_mem_smallest (List.mem_toFinset.mp hk))
  · intro k hk
    exact Finset.mem_erase.mpr
      ⟨Finset.ne_of_mem_erase (mem_of_mem_smallest hk), List.mem_toFinset.mpr hk⟩
  · intro k hk
    obtain ⟨hne, hmem⟩ := Finset.mem_erase.mp (mem_of_mem_smallest hk)
    refine Finset.mem_erase.mpr ⟨hne, ?_⟩
    by_cases hkl : k = key l'
    · exact Finset.mem_insert.mpr (Or.inl hkl)
    · have hin : k ∈ otherKeys key J l' := Finset.mem_erase.mpr ⟨hkl, hmem⟩
      exact Finset.mem_insert_of_mem
        (List.mem_toFinset.mpr (mem_smallest_of_subset hsub hk hin))

end Keys

section Survivor

/-- The creation fields of a community are at their defaults. -/
structure Plain (sp : Space) : Prop where
  currentEpoch : sp.currentEpoch = none
  currentEpochKey : sp.currentEpochKey = none
  oldEpochKeys : sp.oldEpochKeys = ∅
  adminAddr : sp.adminAddr = none
  isInviteOnly : sp.isInviteOnly = none

/-- Between plain rows the creation stamp is all that the creator's side decides. -/
theorem graft_of_plain {newer creator : Space} (hn : Plain newer) (hc : Plain creator)
    (ck : Option DmContentKey) (prior : List DmContentKey) :
    newer.graft creator ck prior =
      { newer with
        createdAt := creator.createdAt, contentKey := ck, priorContentKeys := prior } := by
  obtain ⟨h1, h2, h3, h4, h5⟩ := hn
  obtain ⟨g1, g2, g3, g4, g5⟩ := hc
  cases newer
  simp_all [Space.graft]

variable (h : DuplicateDms p q family key)

include h

theorem DuplicateDms.plain (i : ι) : Plain (family i) := by
  have hfields := (Space.validateInvariants_eq_ok.mp (h.valid i)).1 (by simp [h.kind i])
  obtain ⟨-, he, hk, ho, ha, hi, -⟩ := Space.validateCommunityFields_eq_ok.mp hfields
  exact ⟨he, hk, by simpa using ho, ha, hi⟩

theorem DuplicateDms.survives_row (i : ι) : Survives family key {i} (family i) := by
  refine ⟨i, by simp, i, by simp, i, by simp, by simp, by simp, by simp, ?_⟩
  have hkeys : smallest maxPriorContentKeys (otherKeys key {i} i) = [] := by
    simp [otherKeys, smallest]
  rw [survivor, hkeys, ← h.contentKey i, ← h.noPrior i]

theorem DuplicateDms.plain_survivor (K : Finset ι) (l t e : ι) :
    Plain (survivor family key K l t e) := by
  obtain ⟨h1, h2, h3, h4, h5⟩ := h.plain t
  exact ⟨h1, h2, h3, h4, h5⟩

theorem DuplicateDms.survives_unique {row' : Space} (hr : Survives family key I row)
    (hr' : Survives family key I row') : row = row' := by
  obtain ⟨l, hl, t, ht, e, he, hleast, hlatest, hearliest, rfl⟩ := hr
  obtain ⟨l', hl', t', ht', e', he', hleast', hlatest', hearliest', rfl⟩ := hr'
  have h1 : l = l' := h.ids (le_antisymm (hleast l' hl') (hleast' l hl))
  have h2 : t = t' := h.updated (le_antisymm (hlatest' t ht) (hlatest t' ht'))
  have h3 : e = e' := h.created (le_antisymm (hearliest e' he') (hearliest' e he))
  rw [h1, h2, h3]

/-- A surviving row is well formed and about the same conversation, so that it can be
handed to any store again. -/
theorem DuplicateDms.survives_valid (hr : Survives family key I row) :
    row.validateInvariants = .ok () ∧ row.dedupeKey = .sortedMembers (sortBy (fun m => m) [p, q]) := by
  obtain ⟨l, -, t, -, e, -, -, -, -, rfl⟩ := hr
  have hfit : Space.KeysFit (family t).kind (some (key l))
      (smallest maxPriorContentKeys (otherKeys key I l)) := by
    refine ⟨by simp, fun hdm => absurd (h.kind t) hdm, List.length_take_le _ _, ?_, ?_⟩
    · exact (Finset.sortedLT_sort _).pairwise.sublist (List.take_sublist _ _)
    · intro ck hck hmem
      obtain rfl := Option.some.inj hck
      exact Finset.notMem_erase _ _ (mem_of_mem_smallest hmem)
  have hvalid := Space.graft_valid (h.valid t) (h.valid t) rfl hfit
  constructor
  · exact hvalid
  · simp [Space.dedupeKey, survivor, h.kind t, h.members t]

variable [DecidableEq ι]

/-- The row that wins a merge by its id gives the key, and the rest is superseded. -/
theorem DuplicateDms.mergeContentKeys_survivor {l l' : ι} (t e t' e' : ι) (hl : l ∈ I) (hl' : l' ∈ J)
    (hleast : ∀ i ∈ I, (family l).id ≤ (family i).id)
    (hleast' : ∀ i ∈ J, (family l').id ≤ (family i).id) :
    ∃ w ∈ I ∪ J, (family w).id = min (family l).id (family l').id ∧
      mergeContentKeys (survivor family key I l t e) (survivor family key J l' t' e') =
        (some (key w), smallest maxPriorContentKeys (otherKeys key (I ∪ J) w)) := by
  by_cases hle : (family l).id ≤ (family l').id
  · refine ⟨l, Finset.mem_union_left _ hl, (min_eq_left hle).symm, ?_⟩
    have hother : l ∈ J → l = l' := fun hlJ => h.ids (le_antisymm hle (hleast' l hlJ))
    have hkeys := mergePriorContentKeys_otherKeys (I := I) h.keys hother hl'
    simp only [mergeContentKeys, survivor, if_pos hle, hkeys]
  · refine ⟨l', Finset.mem_union_right _ hl', (min_eq_right (le_of_not_ge hle)).symm, ?_⟩
    have hother : l' ∈ I → l' = l := fun hlI => absurd (hleast l' hlI) hle
    have hkeys := mergePriorContentKeys_otherKeys (I := J) h.keys hother hl
    rw [Finset.union_comm J I] at hkeys
    simp only [mergeContentKeys, survivor, if_neg hle, hkeys]

omit h in
variable (key) in
/-- The mutable fields of a merge are those of the latest update on either side. -/
theorem newerRow_survivor {t t' : ι} (l e l' e' : ι) (ht : t ∈ I) (ht' : t' ∈ J)
    (hlatest : ∀ i ∈ I, (family i).updatedAt ≤ (family t).updatedAt)
    (hlatest' : ∀ i ∈ J, (family i).updatedAt ≤ (family t').updatedAt) :
    ∃ u ∈ I ∪ J, (∀ i ∈ I ∪ J, (family i).updatedAt ≤ (family u).updatedAt) ∧
      ∃ I' l'' e'', newerRow (survivor family key I l t e) (survivor family key J l' t' e') =
        survivor family key I' l'' u e'' := by
  by_cases hlt : (family t).updatedAt < (family t').updatedAt
  · refine ⟨t', Finset.mem_union_right _ ht', ?_, J, l', e', if_pos (isStrictlyNewerThan_iff.mpr hlt)⟩
    intro i hi
    rcases Finset.mem_union.mp hi with hi | hi
    · exact (hlatest i hi).trans hlt.le
    · exact hlatest' i hi
  · refine ⟨t, Finset.mem_union_left _ ht, ?_, I, l, e,
      if_neg fun hn => hlt (isStrictlyNewerThan_iff.mp hn)⟩
    intro i hi
    rcases Finset.mem_union.mp hi with hi | hi
    · exact hlatest i hi
    · exact (hlatest' i hi).trans (not_lt.mp hlt)

omit h in
/-- A stamp of either side that is the least of all. -/
theorem exists_min_createdAt {e e' : ι} (he : e ∈ I) (he' : e' ∈ J)
    (hearliest : ∀ i ∈ I, (family e).createdAt ≤ (family i).createdAt)
    (hearliest' : ∀ i ∈ J, (family e').createdAt ≤ (family i).createdAt) :
    ∃ v ∈ I ∪ J, (∀ i ∈ I ∪ J, (family v).createdAt ≤ (family i).createdAt) ∧
      (family v).createdAt = min (family e).createdAt (family e').createdAt := by
  have hall : ∀ i ∈ I ∪ J, min (family e).createdAt (family e').createdAt ≤ (family i).createdAt := by
    intro i hi
    rcases Finset.mem_union.mp hi with hi | hi
    · exact (min_le_left _ _).trans (hearliest i hi)
    · exact (min_le_right _ _).trans (hearliest' i hi)
  rcases min_choice (family e).createdAt (family e').createdAt with hm | hm
  · exact ⟨e, Finset.mem_union_left _ he, fun i hi => hm ▸ hall i hi, hm.symm⟩
  · exact ⟨e', Finset.mem_union_right _ he', fun i hi => hm ▸ hall i hi, hm.symm⟩

theorem DuplicateDms.survives_lwwMergeSpace (ha : Survives family key I a)
    (hb : Survives family key J b) :
    Survives family key (I ∪ J) { lwwMergeSpace a b with id := min a.id b.id } := by
  obtain ⟨l, hl, t, ht, e, he, hleast, hlatest, hearliest, rfl⟩ := ha
  obtain ⟨l', hl', t', ht', e', he', hleast', hlatest', hearliest', rfl⟩ := hb
  obtain ⟨w, hw, hwid, hkeys⟩ :=
    h.mergeContentKeys_survivor t e t' e' hl hl' hleast hleast'
  obtain ⟨u, hu, hlatestu, I', l'', e'', hnew⟩ := newerRow_survivor key l e l' e' ht ht'
    hlatest hlatest'
  obtain ⟨v, hv, hearliestv, hcreated⟩ := exists_min_createdAt he he' hearliest hearliest'
  have hleastw : ∀ i ∈ I ∪ J, (family w).id ≤ (family i).id := by
    intro i hi
    rw [hwid]
    rcases Finset.mem_union.mp hi with hi | hi
    · exact (min_le_left _ _).trans (hleast i hi)
    · exact (min_le_right _ _).trans (hleast' i hi)
  refine ⟨w, hw, u, hu, v, hv, hleastw, hlatestu, hearliestv, ?_⟩
  have hcreator : Plain (creatorRow (survivor family key I l t e) (survivor family key J l' t' e')) := by
    rcases creatorRow_choice (survivor family key I l t e) (survivor family key J l' t' e')
      with hc | hc <;> rw [hc]
    · exact h.plain_survivor I l t e
    · exact h.plain_survivor J l' t' e'
  have hid : min (survivor family key I l t e).id (survivor family key J l' t' e').id =
      (family w).id := hwid.symm
  have hstamp : min (survivor family key I l t e).createdAt
      (survivor family key J l' t' e').createdAt = (family v).createdAt := hcreated.symm
  have hmin := lwwMergeSpace_createdAt (survivor family key I l t e) (survivor family key J l' t' e')
  rw [lwwMergeSpace_eq_graft, hkeys, hnew,
    graft_of_plain (h.plain_survivor I' l'' u e'') hcreator] at hmin ⊢
  rw [hid, hmin.trans hstamp]
  rfl

theorem DuplicateDms.combined_survives (hr : Combined family I row) : Survives family key I row := by
  induction hr with
  | row i => exact h.survives_row i
  | @collapsed I J a b c s s' loser _ _ fresh held applied kept iha ihb =>
    rcases s.applySpace_cases b with
      ⟨r, heq⟩ | ⟨-, ⟨x, hx, -⟩ | ⟨-, hnone, -⟩ | ⟨id, x, -, hfind, heq⟩⟩
    · simp [heq] at applied
    · simp [fresh] at hx
    · simp [held] at hnone
    · rw [held] at hfind
      obtain ⟨rfl, rfl⟩ := Prod.mk.inj (Option.some.inj hfind)
      rw [heq] at applied
      obtain ⟨rfl, -⟩ := Prod.mk.inj applied
      rw [BTreeMap.get_insert, if_pos rfl] at kept
      obtain rfl := Option.some.inj kept
      exact h.survives_lwwMergeSpace iha ihb
  | @updated I J a b c s s' _ _ held same applied kept iha ihb =>
    rcases s.applySpace_cases b with
      ⟨r, heq⟩ | ⟨-, ⟨x, hx, -, heq⟩ | ⟨hnone, -⟩ | ⟨id, x, hnone, -⟩⟩
    · simp [heq] at applied
    · rw [held] at hx
      obtain rfl := Option.some.inj hx
      rw [heq] at applied
      obtain ⟨rfl, -⟩ := Prod.mk.inj applied
      rw [BTreeMap.get_insert, if_pos rfl] at kept
      obtain rfl := Option.some.inj kept
      have hmerged := h.survives_lwwMergeSpace iha ihb
      have hid : (lwwMergeSpace a b).id = min a.id b.id := by
        change (newerRow a b).id = _
        rcases newerRow_choice a b with hn | hn <;> simp [hn, same]
      rwa [← hid] at hmerged
    · simp [held] at hnone
    · simp [held] at hnone

/-- A store that holds one combination merges any other that it has not deleted. -/
theorem DuplicateDms.combined_accepted {s : OwnerState} (ha : Combined family I a)
    (hb : Combined family J b) (fresh : s.spaces[b.id]? = none)
    (held : findDedupe s.spaces b.dedupeKey = some (a.id, a)) (hid : b.id ∉ s.tombstones)
    (hkey : s.dominated b = false) :
    ∃ c, Combined family (I ∪ J) c ∧
      (s.applySpace b).1.spaces[min a.id b.id]? = some c ∧
        (s.applySpace b).2 = .merged (some (max a.id b.id)) := by
  have hgate : s.gateSpace b = .ok () :=
    OwnerState.gateSpace_eq_ok.mpr ⟨(h.survives_valid (h.combined_survives hb)).1, hid, hkey⟩
  rcases s.applySpace_cases b with
    ⟨r, heq⟩ | ⟨-, ⟨x, hx, -⟩ | ⟨-, hnone, -⟩ | ⟨id, x, -, hfind, heq⟩⟩
  · simp [OwnerState.applySpace, hgate, fresh, held] at heq
  · simp [fresh] at hx
  · simp [held] at hnone
  · rw [held] at hfind
    obtain ⟨rfl, rfl⟩ := Prod.mk.inj (Option.some.inj hfind)
    have hget : (s.applySpace b).1.spaces[min a.id b.id]? =
        some { lwwMergeSpace a b with id := min a.id b.id } := by
      rw [heq, BTreeMap.get_insert, if_pos rfl]
    have hout : (s.applySpace b).2 = .merged (some (max a.id b.id)) := by rw [heq]
    exact ⟨_, .collapsed ha hb fresh held (Prod.ext rfl hout) hget, hget, hout⟩

theorem DuplicateDms.exists_combined (hI : I.Nonempty) : ∃ c, Combined family I c := by
  induction hI using Finset.Nonempty.cons_induction with
  | singleton i => exact ⟨_, .row i⟩
  | cons i I hi hI ih =>
    obtain ⟨a, ha⟩ := ih
    have hvalid := h.survives_valid (h.combined_survives ha)
    have hkey : (family i).dedupeKey = a.dedupeKey := by
      rw [hvalid.2, (h.survives_valid (h.survives_row i)).2]
    have hne : a.id ≠ (family i).id := by
      obtain ⟨l, hl, t, -, e, -, -, -, -, rfl⟩ := h.combined_survives ha
      intro heq
      exact hi (h.ids heq ▸ hl)
    let s : OwnerState := { spaces := (∅ : BTreeMap SpaceId Space).insert a.id a }
    have hget : ∀ id : SpaceId, s.spaces[id]? = if a.id = id then some a else none := fun id => by
      rw [BTreeMap.get_insert, Std.ExtTreeMap.getElem?_empty]
    have hheld : findDedupe s.spaces (family i).dedupeKey = some (a.id, a) := by
      cases hfind : findDedupe s.spaces (family i).dedupeKey with
      | none =>
        have hnone : (family i).dedupeKey ≠ .none := by simp [hkey, hvalid.2]
        have hget' : s.spaces[a.id]? = some a := by rw [hget, if_pos rfl]
        exact absurd hkey.symm (OwnerState.findDedupe_eq_none hfind hnone hget')
      | some r =>
        have hr := (OwnerState.findDedupe_eq_some hfind).2.1
        rw [hget] at hr
        split_ifs at hr with hid
        rw [hid, Option.some.inj hr]
    obtain ⟨c, hc, -⟩ := h.combined_accepted ha (.row i) (s := s)
      (by rw [hget, if_neg hne]) hheld (by simp [s]) (by simp [OwnerState.dominated, s])
    rw [Finset.union_comm, ← Finset.insert_eq, ← Finset.cons_eq_insert _ _ hi] at hc
    exact ⟨c, hc⟩

/-- Duplicate rows of one conversation collapse to one row, whatever the order and
the grouping of the merges. -/
theorem combined_unique (hr : Combined family I row) :
    Survives family key I row ∧ ∀ row', Combined family I row' → row' = row :=
  ⟨h.combined_survives hr, fun _ hr' =>
    h.survives_unique (h.combined_survives hr') (h.combined_survives hr)⟩

end Survivor

/-- A conversation opened on eighteen devices: the smaller the id of a row, the younger it is. -/
def twinDm (device : Fin 18) : Space where
  id := device + 3
  kind := .dm
  members := [1, 2]
  createdAt := ⟨100 - device, 0, "phone"⟩
  updatedAt := ⟨200 - device, 0, "phone"⟩
  contentKey := some (50 + device)

theorem twinDm_dms : DuplicateDms 1 2 twinDm fun device => 50 + device where
  valid := by decide
  kind := by decide
  members := by decide
  contentKey := by decide
  noPrior := by decide
  ids := by decide
  keys := by decide
  updated := by decide
  created := by decide

/-- The youngest row gives its id and key, and sixteen of the other seventeen keys are kept. -/
theorem combined_unique_twins : ∃ c, Combined twinDm Finset.univ c ∧
    (∀ row', Combined twinDm Finset.univ row' → row' = c) ∧
      c = survivor twinDm (fun device => 50 + device) Finset.univ 0 0 17 ∧
        c.priorContentKeys = (List.range 16).map (51 + ·) := by
  obtain ⟨c, hc⟩ := twinDm_dms.exists_combined Finset.univ_nonempty
  obtain ⟨hsurvives, hunique⟩ := combined_unique twinDm_dms hc
  have hrow : c = survivor twinDm (fun device => 50 + device) Finset.univ 0 0 17 := by
    refine twinDm_dms.survives_unique hsurvives ⟨0, by simp, 0, by simp, 17, by simp, ?_, ?_, ?_, rfl⟩
    · decide
    · decide
    · decide
  have hkeys : otherKeys (fun device : Fin 18 => 50 + (device : ℕ)) Finset.univ 0 =
      ((List.range 17).map (51 + ·)).toFinset := by decide
  have hsort : ((List.range 17).map (51 + ·)).toFinset.sort (· ≤ ·) =
      (List.range 17).map (51 + ·) := (List.toFinset_sort _ (by decide)).mpr (by decide)
  refine ⟨c, hc, hunique, hrow, ?_⟩
  rw [hrow, survivor, hkeys, smallest, hsort]
  rfl

end Harmony.Owner
