import Harmony.Owner.Rows

/-! What merging a snapshot does to live conversations. The snapshot's rows are
folded into the local rows before its deletions are, so a row that re-creates a
deleted conversation can be folded into the very row that the deletion is about.
Where no row is received by such a host, the merge loses no conversation and a
second merge of the snapshot changes nothing. -/

namespace Harmony.Owner

open Harmony.Lib
open Harmony.Membership (SpaceId Hlc)

section Absorb

variable {a m sp : Space}

theorem mergePriorContentKeys_absorb {w l q : DmContentKey} {ps ls qs : List DmContentKey}
    (hq : ∀ k ∈ q :: qs, k ≠ w → k ∈ ps ++ l :: ls) :
    mergePriorContentKeys w (mergePriorContentKeys w ps l ls) q qs =
      mergePriorContentKeys w ps l ls := by
  have htake : ∀ k ∈ mergePriorContentKeys w ps l ls, k ∈ (ps ++ l :: ls).filter (· ≠ w) :=
    fun k hk => mem_sortBy.mp ((sortDedup_sublist _).subset (List.mem_of_mem_take hk))
  refine take_sortDedup_between (fun a _ b _ h => h) ?_ ?_
  · intro k hk
    rw [List.mem_filter, List.mem_append] at hk
    rcases hk with ⟨hk | hk, hne⟩
    · exact htake k hk
    · exact List.mem_filter.mpr ⟨hq k hk (by simpa using hne), hne⟩
  · intro k hk
    have hne : k ≠ w := by simpa using (List.mem_filter.mp (htake k hk)).2
    exact List.mem_filter.mpr ⟨List.mem_append_left _ hk, by simpa using hne⟩

theorem mergePriorContentKeys_self {ck : DmContentKey} {ps : List DmContentKey}
    (hfew : ps.length ≤ maxPriorContentKeys) (hasc : ps.Pairwise (· < ·)) (hfresh : ck ∉ ps) :
    mergePriorContentKeys ck ps ck ps = ps := by
  have hsorted : sortDedup (fun k => k) ((ps ++ ck :: ps).filter (· ≠ ck)) = ps := by
    refine (sortDedup_ascending _).ext hasc fun k => ?_
    rw [mem_sortDedup fun _ _ _ _ h => h]
    simp only [List.mem_filter, List.mem_append, List.mem_cons, decide_eq_true_eq]
    constructor
    · rintro ⟨hk | rfl | hk, hne⟩
      · exact hk
      · exact absurd rfl hne
      · exact hk
    · intro hk
      exact ⟨Or.inl hk, fun h => hfresh (h ▸ hk)⟩
  dsimp only [mergePriorContentKeys]
  rw [hsorted, List.take_of_length_le hfew]

theorem lwwMergeSpace_eq_left (hup : sp.updatedAt ≤ m.updatedAt) (hcr : m.createdAt ≤ sp.createdAt)
    (hkeys : mergeContentKeys m sp = (m.contentKey, m.priorContentKeys)) :
    lwwMergeSpace m sp = m := by
  have hn : newerRow m sp = m := by
    unfold newerRow
    rw [if_neg]
    simpa [isStrictlyNewerThan_iff] using hup
  have hc : creatorRow m sp = m := by
    unfold creatorRow
    rw [if_neg]
    simpa [isStrictlyNewerThan_iff] using hcr
  rw [lwwMergeSpace_eq_graft, hn, hc, hkeys]
  rfl

theorem lwwMergeSpace_self (hv : sp.validateInvariants = .ok ()) : lwwMergeSpace sp sp = sp := by
  have hfit := Space.keysFit_of_valid hv
  refine lwwMergeSpace_eq_left le_rfl le_rfl ?_
  unfold mergeContentKeys
  cases hck : sp.contentKey with
  | none =>
    have hdm : sp.kind ≠ .dm := fun h => hfit.direct (Or.inl h) hck
    have hgd : sp.kind ≠ .groupDm := fun h => hfit.direct (Or.inr h) hck
    simp [(hfit.other hdm hgd).2]
  | some ck =>
    simp only [le_refl, if_true]
    rw [mergePriorContentKeys_self hfit.few hfit.ascending (hfit.fresh ck hck)]

theorem lwwMergeSpace_updatedAt (a b : Space) :
    (lwwMergeSpace a b).updatedAt = max a.updatedAt b.updatedAt := by
  change (newerRow a b).updatedAt = _
  unfold newerRow
  split_ifs with h
  · exact (max_eq_right (isStrictlyNewerThan_iff.mp h).le).symm
  · exact (max_eq_left (by simpa using h)).symm

theorem lwwMergeSpace_absorb (ha : a.validateInvariants = .ok ())
    (hsp : sp.validateInvariants = .ok ()) (hkind : a.kind = sp.kind) :
    lwwMergeSpace { lwwMergeSpace a sp with id := min a.id sp.id } sp =
      { lwwMergeSpace a sp with id := min a.id sp.id } := by
  have hfa := Space.keysFit_of_valid ha
  have hfs := Space.keysFit_of_valid hsp
  refine lwwMergeSpace_eq_left ?_ ?_ ?_
  · change _ ≤ (lwwMergeSpace a sp).updatedAt
    rw [lwwMergeSpace_updatedAt]
    exact le_max_right _ _
  · change (lwwMergeSpace a sp).createdAt ≤ _
    rw [lwwMergeSpace_createdAt]
    exact min_le_right _ _
  · change mergeContentKeys { lwwMergeSpace a sp with id := min a.id sp.id } sp =
      ((mergeContentKeys a sp).1, (mergeContentKeys a sp).2)
    have hck : (lwwMergeSpace a sp).contentKey = (mergeContentKeys a sp).1 := rfl
    have hprior : (lwwMergeSpace a sp).priorContentKeys = (mergeContentKeys a sp).2 := rfl
    by_cases hdirect : a.kind = .dm ∨ a.kind = .groupDm
    · obtain ⟨ack, hack⟩ := Option.ne_none_iff_exists'.mp (hfa.direct hdirect)
      obtain ⟨sck, hsck⟩ := Option.ne_none_iff_exists'.mp (hfs.direct (hkind ▸ hdirect))
      by_cases hle : a.id ≤ sp.id
      · simp only [mergeContentKeys, hack, hsck, if_pos hle] at hck hprior ⊢
        simp only [hck, hprior, min_eq_left hle, if_pos hle]
        rw [mergePriorContentKeys_absorb]
        intro k hk _
        exact List.mem_append_right _ hk
      · have hmin : min a.id sp.id = sp.id := min_eq_right (le_of_not_ge hle)
        simp only [mergeContentKeys, hack, hsck, if_neg hle] at hck hprior ⊢
        simp only [hck, hprior, hmin, le_refl, if_true]
        rw [mergePriorContentKeys_absorb]
        intro k hk hne
        rcases List.mem_cons.mp hk with rfl | hk
        · exact absurd rfl hne
        · exact List.mem_append_left _ hk
    · obtain ⟨hdm, hgd⟩ := not_or.mp hdirect
      have hack := (hfa.other hdm hgd).1
      have hsck := (hfs.other (hkind ▸ hdm) (hkind ▸ hgd)).1
      simp only [mergeContentKeys, hack, hsck] at hck hprior ⊢
      simp only [hck]

theorem sameIdChecks_iff {a b : Space} :
    sameIdChecks a b = .ok () ↔
      a.kind = b.kind ∧ b.dedupeKey = a.dedupeKey ∧ a.contentKey = b.contentKey ∧
        (a.kind = .community → a.currentEpochKey = b.currentEpochKey ∧
          a.currentEpoch = b.currentEpoch ∧ a.oldEpochKeys = b.oldEpochKeys ∧
            a.adminAddr = b.adminAddr ∧ a.isInviteOnly = b.isInviteOnly ∧
              a.createdAt = b.createdAt) := by
  unfold sameIdChecks
  by_cases hk : a.kind = .community <;> simp [hk]

theorem sameIdChecks_lwwMergeSpace (h : sameIdChecks a sp = .ok ()) :
    sameIdChecks (lwwMergeSpace a sp) sp = .ok () := by
  obtain ⟨hkind, hkey, hck, hpin⟩ := sameIdChecks_iff.mp h
  have hmk := lwwMergeSpace_dedupeKey hkey.symm
  have hk : (lwwMergeSpace a sp).kind = sp.kind := by
    change (newerRow a sp).kind = _
    rcases newerRow_choice a sp with hn | hn <;> simp [hn, hkind]
  refine sameIdChecks_iff.mpr ⟨hk, hmk.symm, ?_, fun hcom => ?_⟩
  · change (mergeContentKeys a sp).1 = _
    unfold mergeContentKeys
    rw [hck]
    cases hsp : sp.contentKey with
    | none => rfl
    | some ck => split_ifs <;> rfl
  · obtain ⟨h1, h2, h3, h4, h5, h6⟩ := hpin (hkind.trans (hk.symm.trans hcom))
    change (creatorRow a sp).currentEpochKey = _ ∧ (creatorRow a sp).currentEpoch = _ ∧
      (creatorRow a sp).oldEpochKeys = _ ∧ (creatorRow a sp).adminAddr = _ ∧
        (creatorRow a sp).isInviteOnly = _ ∧ (creatorRow a sp).createdAt = _
    rcases creatorRow_choice a sp with hc | hc <;> rw [hc]
    · exact ⟨h1, h2, h3, h4, h5, h6⟩
    · exact ⟨rfl, rfl, rfl, rfl, rfl, rfl⟩

theorem sameIdChecks_collapsed (hkey : a.dedupeKey = sp.dedupeKey) (hlt : sp.id < a.id)
    (ha : a.validateInvariants = .ok ()) (hv : sp.validateInvariants = .ok ()) :
    sameIdChecks { lwwMergeSpace a sp with id := sp.id } sp = .ok () := by
  have hnotid := OwnerState.dedupeKey_not_id hkey hlt.ne'
  have hkind := Space.kind_eq_of_dedupeKey hkey hnotid
  have hmk := lwwMergeSpace_dedupeKey hkey
  have hk : (lwwMergeSpace a sp).kind = sp.kind := by
    change (newerRow a sp).kind = _
    rcases newerRow_choice a sp with hn | hn <;> simp [hn, hkind]
  have hrow := Space.dedupeKey_with_id (fun i => (hmk.trans hkey.symm).symm ▸ hnotid i) sp.id
  have hfa := Space.keysFit_of_valid ha
  have hfs := Space.keysFit_of_valid hv
  refine sameIdChecks_iff.mpr ⟨hk, (hrow.trans hmk).symm, ?_, fun hcom => ?_⟩
  · change (mergeContentKeys a sp).1 = _
    by_cases hdirect : a.kind = .dm ∨ a.kind = .groupDm
    · obtain ⟨ack, hack⟩ := Option.ne_none_iff_exists'.mp (hfa.direct hdirect)
      obtain ⟨sck, hsck⟩ := Option.ne_none_iff_exists'.mp (hfs.direct (hkind ▸ hdirect))
      simp only [mergeContentKeys, hack, hsck, if_neg (not_le_of_gt hlt)]
    · obtain ⟨hdm, hgd⟩ := not_or.mp hdirect
      simp only [mergeContentKeys, (hfa.other hdm hgd).1,
        (hfs.other (hkind ▸ hdm) (hkind ▸ hgd)).1]
  · have hspk : sp.dedupeKey = .id sp.id := by
      unfold Space.dedupeKey
      rw [show sp.kind = .community from hk.symm.trans hcom]
    exact absurd (hkey.trans hspk) (hnotid sp.id)

theorem meet_meet {old : Option Space} (hv : sp.validateInvariants = .ok ())
    (hold : ∀ a, old = some a → a.conversation = sp.conversation ∧ a.validateInvariants = .ok ()) :
    meet (some (meet old sp)) sp = meet old sp := by
  cases old with
  | none =>
    have hself : sameIdChecks sp sp = .ok () :=
      sameIdChecks_iff.mpr ⟨rfl, rfl, rfl, fun _ => ⟨rfl, rfl, rfl, rfl, rfl, rfl⟩⟩
    simp [meet, hself, lwwMergeSpace_self hv]
  | some a =>
    obtain ⟨hconv, ha⟩ := hold a rfl
    have hkey := Space.dedupeKey_eq_of_conversation hconv
    by_cases hid : a.id = sp.id
    · cases hchk : sameIdChecks a sp with
      | error e =>
        have hmeet : meet (some a) sp = a := by simp [meet, hid, hchk]
        rw [hmeet, hmeet]
      | ok =>
        have hmeet : meet (some a) sp = lwwMergeSpace a sp := by simp [meet, hid, hchk]
        have hmid := OwnerState.meet_id (some a) sp
        rw [hmeet, Option.elim_some, hid, min_self] at hmid
        have hagain := sameIdChecks_lwwMergeSpace hchk
        have habsorb := lwwMergeSpace_absorb ha hv (sameIdChecks_iff.mp hchk).1
        have heta : { lwwMergeSpace a sp with id := min a.id sp.id } = lwwMergeSpace a sp := by
          rw [hid, min_self, ← hmid]
        rw [heta] at habsorb
        rw [hmeet]
        simp [meet, hmid, hagain, habsorb]
    · have hkind := Space.kind_eq_of_dedupeKey hkey (OwnerState.dedupeKey_not_id hkey hid)
      have habsorb := lwwMergeSpace_absorb ha hv hkind
      have hcollapse : ∀ b : Space, b.id ≠ sp.id →
          meet (some b) sp = { lwwMergeSpace b sp with id := min b.id sp.id } := fun b hb => by
        simp only [meet]
        rw [if_neg hb]
      rw [hcollapse a hid]
      rcases lt_or_gt_of_ne hid with hlt | hlt
      · -- the old row's id is the smaller one: a second collapse into it
        rw [min_eq_left hlt.le] at habsorb ⊢
        generalize hm : ({ lwwMergeSpace a sp with id := a.id } : Space) = m at habsorb ⊢
        have hmid : m.id = a.id := by rw [← hm]
        rw [hcollapse m (hmid ▸ hid), habsorb, hmid, min_eq_left hlt.le, ← hmid]
      · -- the incoming id is the smaller one: an update of the collapsed row
        have hchk := sameIdChecks_collapsed hkey hlt ha hv
        rw [min_eq_right hlt.le] at habsorb ⊢
        generalize hm : ({ lwwMergeSpace a sp with id := sp.id } : Space) = m at habsorb hchk ⊢
        have hmid : m.id = sp.id := by rw [← hm]
        simp only [meet]
        rw [if_pos hmid, hchk, habsorb]

end Absorb

namespace OwnerState

def tableOnly (s : OwnerState) : OwnerState :=
  { spaces := s.spaces, tombstones := s.tombstones, dedupeTombstones := s.dedupeTombstones }

def Bare (s : OwnerState) : Prop := s.tableOnly = s

section Bare

variable {keys : IdentityKeys} {now : Option ℕ} {s t remote : OwnerState}

theorem Bare.ext (hs : Bare s) (ht : Bare t) (h1 : s.spaces = t.spaces)
    (h2 : s.tombstones = t.tombstones) (h3 : s.dedupeTombstones = t.dedupeTombstones) : s = t := by
  rw [← hs, ← ht]
  simp only [tableOnly, h1, h2, h3]

theorem Bare.applySpace (h : Bare s) (sp : Space) : Bare (s.applySpace sp).1 := by
  rcases s.applySpace_cases sp with
    ⟨r, hr⟩ | ⟨-, ⟨_, _, _, hr⟩ | ⟨_, _, hr⟩ | ⟨_, _, _, _, hr⟩⟩ <;> rw [hr]
  · exact h
  all_goals
    rw [← h]
    rfl

theorem Bare.applySpaceWithCanonicalization_eq (h : Bare s) (sp : Space) :
    (s.applySpaceWithCanonicalization sp).1 = (s.applySpace sp).1 := by
  have hnone : ∀ (t : OwnerState) (i j : SpaceId), Bare t → t.canonicalizeDependentSpaceIds i j = t := by
    intro t i j ht
    rw [← ht]
    rfl
  simp only [applySpaceWithCanonicalization]
  split
  · exact hnone _ _ _ (h.applySpace sp)
  · rfl

theorem Bare.mergeSpaces (h : Bare s) (now : Option ℕ) (remote : OwnerState) :
    Bare (s.mergeSpaces now remote) := by
  refine foldl_induction (P := Bare) remote.spaces h ?_
  intro t _ sp _ ht
  unfold mergeSpace
  split_ifs
  · exact ht
  · rw [ht.applySpaceWithCanonicalization_eq]
    exact ht.applySpace sp

theorem Bare.foldl_tombstoneSpace (h : Bare s) (ids : List SpaceId) :
    Bare (ids.foldl tombstoneSpace s) := by
  induction ids generalizing s with
  | nil => exact h
  | cons id ids ih =>
    refine ih ?_
    rw [← h]
    rfl

def mergeTable (now : Option ℕ) (s remote : OwnerState) : OwnerState :=
  let offered := s.mergeSpaces now remote
  let deleted := (remote.tombstones.sort (· ≤ ·)).foldl tombstoneSpace offered
  let stamped := { deleted with
    dedupeTombstones :=
      remote.dedupeTombstones.foldl (mergeDedupeTombstone now) deleted.dedupeTombstones }
  stamped.dedupeDominated.foldl tombstoneSpace stamped

theorem Bare.mergeTable (h : Bare s) (now : Option ℕ) (remote : OwnerState) :
    Bare (s.mergeTable now remote) := by
  refine Bare.foldl_tombstoneSpace ?_ _
  have hdel := (h.mergeSpaces now remote).foldl_tombstoneSpace (remote.tombstones.sort (· ≤ ·))
  rw [← hdel]
  rfl

theorem mergeConversations_bare (now : Option ℕ) (hr : Bare remote) :
    s.mergeConversations now remote = s.mergeTable now remote := by
  rw [← hr]
  rfl

theorem mergeRemoteIntoLocal_bare (keys : IdentityKeys) (now : Option ℕ) (hs : Bare s)
    (hr : Bare remote) : s.mergeRemoteIntoLocal keys now remote = s.mergeTable now remote := by
  have hpeers : ∀ t : OwnerState, Bare t →
      (t.mergePeers keys now remote).mergeFiles now remote = t := by
    intro t ht
    rw [← ht, ← hr]
    rfl
  unfold mergeRemoteIntoLocal
  rw [mergeConversations_bare now hr]
  exact hpeers _ (hs.mergeTable now remote)

end Bare

structure WithinSkew (now : Option ℕ) (remote : OwnerState) : Prop where
  rows : ∀ (id : SpaceId) (sp : Space), remote.spaces[id]? = some sp →
    wallExceedsForwardSkew sp.updatedAt.wallMs now = false
  deletions : ∀ (dk : DedupeKey) (deletedAt : Hlc), remote.dedupeTombstones[dk]? = some deletedAt →
    wallExceedsForwardSkew deletedAt.wallMs now = false

/-- What a merge needs to lose no conversation. Every row that the snapshot's row of its
conversation is folded into outlives the snapshot's deletions, and so does the id that
the two end up under; and a row that is refused for its id is about a conversation that
stands elsewhere as well. -/
structure HostsStand (now : Option ℕ) (s remote : OwnerState) : Prop where
  hosts : ∀ (i j : SpaceId) (a sp : Space), s.spaces[i]? = some a → remote.spaces[j]? = some sp →
    a.dedupeKey = sp.dedupeKey → sp.dedupeKey ≠ .none → ¬Clash now s remote j →
      j ∉ s.tombstones → s.dominated sp = false →
        remote.dominated a = false ∧ min i j ∉ remote.tombstones
  refused : ∀ (j : SpaceId) (sp : Space), remote.spaces[j]? = some sp → Clash now s remote j →
    s.dominated sp = false → ∃ (i : SpaceId) (r : Space), r.dedupeKey = sp.dedupeKey ∧
      (s.spaces[i]? = some r ∧ i ∉ remote.tombstones ∧ remote.dominated r = false ∨
        remote.spaces[i]? = some r ∧ ¬Clash now s remote i ∧ i ∉ s.tombstones)

section Dominated

variable {s remote t : OwnerState} {a sp : Space} {now : Option ℕ}

theorem dominated_eq_true_iff :
    s.dominated sp = true ↔ sp.dedupeKey ≠ .none ∧
      ∃ deletedAt, s.dedupeTombstones[sp.dedupeKey]? = some deletedAt ∧ sp.createdAt ≤ deletedAt := by
  have hle : ∀ d, isStrictlyNewerThan sp.createdAt d = false ↔ sp.createdAt ≤ d := fun d => by
    rw [← Bool.not_eq_true, isStrictlyNewerThan_iff, not_lt]
  simp only [dominated, Option.any_eq_true, Bool.decide_and, Bool.and_eq_true, decide_eq_true_eq,
    Bool.not_eq_true', hle]

theorem dominated_of_none (h : sp.dedupeKey = .none) : s.dominated sp = false := by
  simp [dominated, h]

theorem dominated_mono (hk : a.dedupeKey = sp.dedupeKey) (hc : sp.createdAt ≤ a.createdAt)
    (h : s.dominated a = true) : s.dominated sp = true := by
  obtain ⟨hne, d, hd, hle⟩ := dominated_eq_true_iff.mp h
  exact dominated_eq_true_iff.mpr ⟨hk ▸ hne, d, hk ▸ hd, hc.trans hle⟩

theorem stepsAtKey_mergeDedupeTombstone (now : Option ℕ) :
    StepsAtKey (fun (m : BTreeMap DedupeKey Hlc) k => m[k]?) (mergeDedupeTombstone now)
      fun _ v w => if wallExceedsForwardSkew v.wallMs now then w else some (w.elim v (max v)) := by
  intro m k v a
  cases hskew : wallExceedsForwardSkew v.wallMs now with
  | true => simp [mergeDedupeTombstone, hskew]
  | false =>
    simp only [mergeDedupeTombstone, hskew, Bool.false_eq_true, if_false]
    unfold putDedupeTombstone
    by_cases hka : k = a
    · subst hka
      rw [if_pos rfl]
      cases hm : m[k]? with
      | none => simp
      | some d =>
        by_cases hnew : isStrictlyNewerThan v d = true
        · simp [hnew, max_eq_left (isStrictlyNewerThan_iff.mp hnew).le]
        · have hle : v ≤ d := not_lt.mp fun hlt => hnew (isStrictlyNewerThan_iff.mpr hlt)
          simp [hnew, hm, max_eq_right hle]
    · rw [if_neg hka]
      split
      · rw [BTreeMap.get_insert, if_neg hka]
      · split_ifs
        · rw [BTreeMap.get_insert, if_neg hka]
        · rfl

theorem mergedDeletions_get (hskew : WithinSkew now remote) (m : BTreeMap DedupeKey Hlc)
    (k : DedupeKey) :
    (remote.dedupeTombstones.foldl (mergeDedupeTombstone now) m)[k]? =
      remote.dedupeTombstones[k]?.elim m[k]? fun v => some (m[k]?.elim v (max v)) := by
  have h := (stepsAtKey_mergeDedupeTombstone now).foldl remote.dedupeTombstones m k
  rw [h]
  cases hv : remote.dedupeTombstones[k]? with
  | none => rfl
  | some v => simp [hskew.deletions k v hv]

theorem dominated_merged (hskew : WithinSkew now remote)
    (ht : t.dedupeTombstones =
      remote.dedupeTombstones.foldl (mergeDedupeTombstone now) s.dedupeTombstones) (sp : Space) :
    t.dominated sp = (s.dominated sp || remote.dominated sp) := by
  have hget := mergedDeletions_get hskew s.dedupeTombstones sp.dedupeKey
  rw [← ht] at hget
  rw [Bool.eq_iff_iff, Bool.or_eq_true, dominated_eq_true_iff, dominated_eq_true_iff,
    dominated_eq_true_iff, hget]
  cases hs : s.dedupeTombstones[sp.dedupeKey]? <;>
    cases hr : remote.dedupeTombstones[sp.dedupeKey]?
  all_goals
    simp
    try tauto

theorem dominated_meet (hk : a.dedupeKey = sp.dedupeKey) (hm : (meet (some a) sp).dedupeKey = sp.dedupeKey)
    (ha : s.dominated a = false) (hsp : s.dominated sp = false) :
    s.dominated (meet (some a) sp) = false := by
  have hcreated : (meet (some a) sp).createdAt = a.createdAt ∨
      (meet (some a) sp).createdAt = min a.createdAt sp.createdAt := by
    unfold meet
    dsimp only
    split_ifs
    · split
      · exact Or.inr (lwwMergeSpace_createdAt a sp)
      · exact Or.inl rfl
    · exact Or.inr (lwwMergeSpace_createdAt a sp)
  rcases hcreated with hc | hc
  · exact (dominated_congr rfl (hm.trans hk.symm) hc).trans ha
  · exact dominated_lwwMergeSpace ha hsp hk hm hc

theorem meet_createdAt_le (a sp : Space) : (meet (some a) sp).createdAt ≤ a.createdAt := by
  unfold meet
  dsimp only
  split_ifs
  · split
    · exact (lwwMergeSpace_createdAt a sp).trans_le (min_le_left _ _)
    · exact le_rfl
  · exact (lwwMergeSpace_createdAt a sp).trans_le (min_le_left _ _)

end Dominated

section MergeTable

variable {now now' : Option ℕ} {s remote : OwnerState} {c : DedupeKey × Option SpaceId}

/-- Two tables of rows that can be merged: each keeps its invariant, and the snapshot is
not ahead of the clock. -/
structure Mergeable (now : Option ℕ) (s remote : OwnerState) : Prop where
  left : SpaceTable s
  right : SpaceTable remote
  bare : Bare remote
  skew : WithinSkew now remote

theorem Mergeable.offering (h : Mergeable now s remote) :
    Offering now s remote remote.spaces.toList (s.mergeSpaces now remote) :=
  offering_mergeSpaces now h.left h.right.toTableShape

theorem WithinSkew.accepts_iff (h : WithinSkew now remote) {id : SpaceId} {sp : Space}
    (hsp : remote.spaces[id]? = some sp) : Accepts now s sp ↔ s.gateSpace sp = .ok () :=
  and_iff_right (h.rows id sp hsp)

theorem Mergeable.table (h : Mergeable now s remote) : SpaceTable (s.mergeTable now remote) := by
  rw [← mergeConversations_bare now h.bare]
  exact h.left.mergeConversations now remote

theorem Mergeable.dedupeTombstones (h : Mergeable now s remote) :
    (s.mergeTable now remote).dedupeTombstones =
      remote.dedupeTombstones.foldl (mergeDedupeTombstone now) s.dedupeTombstones := by
  unfold mergeTable
  rw [foldl_tombstoneSpace_dedupe]
  dsimp only
  rw [foldl_tombstoneSpace_dedupe, h.offering.dedupeTombstones]

theorem Mergeable.dominated (h : Mergeable now s remote) (sp : Space) :
    (s.mergeTable now remote).dominated sp = (s.dominated sp || remote.dominated sp) :=
  dominated_merged h.skew h.dedupeTombstones sp

theorem Mergeable.tombstones_subset (h : Mergeable now s remote) :
    s.tombstones ∪ remote.tombstones ⊆ (s.mergeTable now remote).tombstones := by
  intro id hid
  unfold mergeTable
  rw [mem_foldl_tombstoneSpace]
  dsimp only
  rw [mem_foldl_tombstoneSpace, h.offering.tombstones, Finset.mem_sort]
  exact Or.inr ((Finset.mem_union.mp hid).symm)

theorem Mergeable.row (h : Mergeable now s remote) (c : DedupeKey × Option SpaceId) :
    (s.mergeTable now remote).row c =
      ((remote.row c).elim (s.row c) (taken now s remote (s.row c))).filter fun m =>
        m.id ∉ remote.tombstones ∧ s.dominated m = false ∧ remote.dominated m = false := by
  have hrow := row_mergeConversations now h.left h.right.toTableShape c
  rw [mergeConversations_bare now h.bare] at hrow
  simp only [h.dominated, Bool.or_eq_false_iff] at hrow
  exact hrow

/-- The row of a conversation that the snapshot leaves alone: it stays unless the
snapshot's deletions reach it. -/
theorem Mergeable.row_kept (h : Mergeable now s remote) {a : Space} (ha : s.row c = some a)
    (hkept : ∀ sp, remote.row c = some sp → Clash now s remote sp.id ∨ ¬Accepts now s sp) :
    (s.mergeTable now remote).row c =
      if a.id ∉ remote.tombstones ∧ remote.dominated a = false then some a else none := by
  have htaken : (remote.row c).elim (s.row c) (taken now s remote (s.row c)) = some a := by
    rw [ha]
    cases hr : remote.row c with
    | none => rfl
    | some sp =>
      rw [Option.elim_some]
      by_cases hclash : Clash now s remote sp.id
      · exact taken_of_clash hclash _
      · rw [taken_of_not_clash hclash]
        exact met_of_not_accepts ((hkept sp hr).resolve_left hclash) _
  have hget := ((row_eq_some h.left.toTableShape).mp ha).1
  rw [h.row, htaken, Option.filter_some]
  simp [h.left.undominated a.id a hget]

/-- A row of the snapshot that passes the gate, and whose host stands, is live after
the merge. -/
theorem Mergeable.row_of_gate (h : Mergeable now s remote) (hosts : HostsStand now s remote)
    {sp : Space} (hr : remote.row c = some sp) (hclash : ¬Clash now s remote sp.id)
    (hgate : s.gateSpace sp = .ok ()) :
    (s.mergeTable now remote).row c = some (meet (s.row c) sp) := by
  obtain ⟨hsp, rfl⟩ := (row_eq_some h.right.toTableShape).mp hr
  obtain ⟨-, hlive, hdom⟩ := gateSpace_eq_ok.mp hgate
  have hlive' := h.right.live sp.id sp hsp
  have hdom' := h.right.undominated sp.id sp hsp
  rw [h.row, hr, Option.elim_some, taken_of_not_clash hclash,
    met_of_accepts ((h.skew.accepts_iff hsp).mpr hgate), Option.filter_some, if_pos]
  have hmid := meet_id (s.row sp.conversation) sp
  cases ha : s.row sp.conversation with
  | none => exact decide_eq_true ⟨hlive', hdom, hdom'⟩
  | some a =>
    obtain ⟨hga, hconv⟩ := (row_eq_some h.left.toTableShape).mp ha
    have hk := Space.dedupeKey_eq_of_conversation hconv
    have hmc : (meet (some a) sp).conversation = sp.conversation :=
      meet_conversation fun b hb => Option.some.inj hb ▸ hconv
    have hmk := Space.dedupeKey_eq_of_conversation hmc
    rw [ha, Option.elim_some] at hmid
    -- a folder has no dedupe identity, so only a row with its own id can be its host
    have hhost : remote.dominated a = false ∧ min a.id sp.id ∉ remote.tombstones := by
      by_cases hnone : sp.dedupeKey = .none
      · have hid : a.id = sp.id := by
          simp only [Space.conversation, hk, hnone, if_true, Prod.mk.injEq, Option.some.injEq,
            true_and] at hconv
          exact hconv
        rw [hid, min_self]
        exact ⟨dominated_of_none (hk.trans hnone), hlive'⟩
      · exact hosts.hosts a.id sp.id a sp hga hsp hk hnone hclash hlive hdom
    exact decide_eq_true ⟨hmid ▸ hhost.2, dominated_meet hk hmk (h.left.undominated a.id a hga) hdom,
      dominated_meet hk hmk hhost.1 hdom'⟩

theorem gateSpace_of_merged (h : Mergeable now s remote) {sp : Space}
    (hgate : (s.mergeTable now remote).gateSpace sp = .ok ()) : s.gateSpace sp = .ok () := by
  obtain ⟨hv, hlive, hdom⟩ := gateSpace_eq_ok.mp hgate
  rw [h.dominated, Bool.or_eq_false_iff] at hdom
  exact gateSpace_eq_ok.mpr
    ⟨hv, fun hmem => hlive (h.tombstones_subset (Finset.mem_union_left _ hmem)), hdom.1⟩

/-- A row that clashed does so again when the merged state does not reject it: what
stood under its id stands there still, or was swept. -/
theorem Mergeable.clash_again (h : Mergeable now s remote) (hskew' : WithinSkew now' remote)
    {j : SpaceId} (hclash : Clash now s remote j)
    (hgate : ∀ sp, remote.spaces[j]? = some sp →
      (s.mergeTable now remote).gateSpace sp = .ok ()) :
    Clash now' (s.mergeTable now remote) remote j := by
  induction hclash with
  | @intro j a sp held incoming differ stays ih =>
    obtain ⟨a', m, sp', ha', hsp', -, hm, hconv⟩ :=
      (Clash.intro held incoming differ stays).held_beforeDeletions h.left h.right.toTableShape
    obtain rfl := Option.some.inj (held.symm.trans ha')
    have hk := Space.dedupeKey_eq_of_conversation hconv
    have hlive := (gateSpace_eq_ok.mp (hgate sp incoming)).2.1
    rw [h.right.ownId j sp incoming] at hlive
    have hstands : (s.mergeTable now remote).spaces[j]? = some m := by
      have hgone := mem_tombstones_mergeConversations now s remote hm
      have hget := mergeConversations_get now s remote j
      rw [mergeConversations_bare now h.bare] at hgone hget
      rw [hm, Option.filter_some] at hget
      split_ifs at hget
      · exact hget
      · exact absurd (hgone hget) hlive
    refine .intro hstands incoming (hk ▸ differ) fun i r hi hr hkey hne hacc => ?_
    have hgate' := (hskew'.accepts_iff hr).mp hacc
    exact ih i r hi hr (hkey.trans hk) (hk ▸ hne)
      ((h.skew.accepts_iff hr).mpr (gateSpace_of_merged h hgate')) fun r' hr' => by
        rw [← Option.some.inj (hr.symm.trans hr')]
        exact hgate'

theorem Mergeable.mergeSpaces_again (h : Mergeable now s remote) (hs : Bare s)
    (hosts : HostsStand now s remote) (hskew' : WithinSkew now' remote) :
    (s.mergeTable now remote).mergeSpaces now' remote = s.mergeTable now remote := by
  have hoff := offering_mergeSpaces now' h.table h.right.toTableShape
  have hbare := hs.mergeTable now remote
  refine (hbare.mergeSpaces now' remote).ext hbare ?_ hoff.tombstones hoff.dedupeTombstones
  refine spaces_ext hoff.table.toTableShape h.table.toTableShape fun c => ?_
  rw [row_mergeSpaces now' h.table h.right.toTableShape]
  cases hr : remote.row c with
  | none => rfl
  | some sp =>
    obtain ⟨hsp, hconv⟩ := (row_eq_some h.right.toTableShape).mp hr
    rw [Option.elim_some]
    by_cases hclash' : Clash now' (s.mergeTable now remote) remote sp.id
    · exact taken_of_clash hclash' _
    rw [taken_of_not_clash hclash']
    by_cases hacc : Accepts now' (s.mergeTable now remote) sp
    · have hgate' := (hskew'.accepts_iff hsp).mp hacc
      have hclash : ¬Clash now s remote sp.id := fun hclash =>
        hclash' (h.clash_again hskew' hclash fun r hr' => by
          rw [← Option.some.inj (hsp.symm.trans hr')]
          exact hgate')
      rw [met_of_accepts hacc, h.row_of_gate hosts hr hclash (gateSpace_of_merged h hgate')]
      refine congrArg some (meet_meet (h.right.valid sp.id sp hsp) fun a ha => ?_)
      obtain ⟨hga, hca⟩ := (row_eq_some h.left.toTableShape).mp ha
      exact ⟨hca.trans hconv.symm, h.left.valid a.id a hga⟩
    · exact met_of_not_accepts hacc _

theorem SpaceTable.foldl_tombstoneSpace_eq (h : SpaceTable s) (hs : Bare s) {ids : List SpaceId}
    (hids : ∀ id ∈ ids, id ∈ s.tombstones) : ids.foldl tombstoneSpace s = s := by
  refine (hs.foldl_tombstoneSpace ids).ext hs ?_ ?_ (foldl_tombstoneSpace_dedupe ids s)
  · refine Std.ExtTreeMap.ext_getElem? fun id => ?_
    rw [foldl_tombstoneSpace_get]
    split_ifs with hid
    · cases hsp : s.spaces[id]? with
      | none => rfl
      | some sp => exact absurd (hids id hid) (h.live id sp hsp)
    · rfl
  · ext id
    rw [mem_foldl_tombstoneSpace]
    exact ⟨fun hid => hid.elim (hids id) fun h => h, Or.inr⟩

theorem mergeTable_eq_self (hrows : s.mergeSpaces now remote = s)
    (hdeleted : (remote.tombstones.sort (· ≤ ·)).foldl tombstoneSpace s = s)
    (hstamped : remote.dedupeTombstones.foldl (mergeDedupeTombstone now) s.dedupeTombstones =
      s.dedupeTombstones)
    (hswept : s.dedupeDominated = []) : s.mergeTable now remote = s := by
  simp only [mergeTable, hrows, hdeleted, hstamped]
  change s.dedupeDominated.foldl tombstoneSpace s = s
  rw [hswept]
  rfl

/-- A second merge of the snapshot changes nothing. -/
theorem Mergeable.mergeTable_again (h : Mergeable now s remote) (hs : Bare s)
    (hosts : HostsStand now s remote) (hskew' : WithinSkew now' remote) :
    (s.mergeTable now remote).mergeTable now' remote = s.mergeTable now remote := by
  have htable := h.table
  have hbare := hs.mergeTable now remote
  have hdeleted : (remote.tombstones.sort (· ≤ ·)).foldl tombstoneSpace (s.mergeTable now remote) =
      s.mergeTable now remote :=
    htable.foldl_tombstoneSpace_eq hbare fun id hid =>
      h.tombstones_subset (Finset.mem_union_right _ ((Finset.mem_sort _).mp hid))
  have hstamped : remote.dedupeTombstones.foldl (mergeDedupeTombstone now')
      (s.mergeTable now remote).dedupeTombstones = (s.mergeTable now remote).dedupeTombstones := by
    refine Std.ExtTreeMap.ext_getElem? fun k => ?_
    rw [mergedDeletions_get hskew', h.dedupeTombstones, mergedDeletions_get h.skew]
    cases remote.dedupeTombstones[k]? <;> simp
    cases s.dedupeTombstones[k]? <;> simp
  have hswept : (s.mergeTable now remote).dedupeDominated = [] := by
    rw [List.eq_nil_iff_forall_not_mem]
    intro id hid
    obtain ⟨sp, hsp, hdom⟩ := mem_dedupeDominated.mp hid
    rw [htable.undominated id sp hsp] at hdom
    cases hdom
  exact mergeTable_eq_self (h.mergeSpaces_again hs hosts hskew') hdeleted hstamped hswept

end MergeTable

/-- The states that a device reaches by applying rows, deleting rows and merging the
snapshots of such states. -/
inductive Reachable (keys : IdentityKeys) : OwnerState → Prop where
  | empty : Reachable keys {}
  | applySpace {s : OwnerState} (sp : Space) :
    Reachable keys s → Reachable keys (s.applySpaceWithCanonicalization sp).1
  | removeSpace {s : OwnerState} (id : SpaceId) (wallNowMs : ℕ) (deviceId : String) :
    Reachable keys s → Reachable keys (s.removeSpacePermanent id wallNowMs deviceId)
  | merge {s remote : OwnerState} (now : Option ℕ) :
    Reachable keys s → Reachable keys remote → Reachable keys (s.mergeRemoteIntoLocal keys now remote)

section Safety

variable {keys : IdentityKeys} {now now' : Option ℕ} {s remote : OwnerState}

theorem Reachable.table (h : Reachable keys s) : SpaceTable s := by
  induction h with
  | empty => exact SpaceTable.empty
  | applySpace sp _ ih => exact ih.applySpaceWithCanonicalization sp
  | removeSpace id wallNowMs deviceId _ ih => exact ih.removeSpacePermanent id wallNowMs deviceId
  | merge now _ _ ih _ => exact ih.mergeRemoteIntoLocal keys now _

theorem Reachable.bare (h : Reachable keys s) : Bare s := by
  induction h with
  | empty => rfl
  | applySpace sp _ ih =>
    rw [ih.applySpaceWithCanonicalization_eq]
    exact ih.applySpace sp
  | removeSpace id wallNowMs deviceId _ ih =>
    rw [← ih]
    simp only [removeSpacePermanent]
    split
    · split_ifs <;> rfl
    · rfl
  | merge now _ _ ihs ihr =>
    rw [mergeRemoteIntoLocal_bare keys now ihs ihr]
    exact ihs.mergeTable now _

/-- A second merge of the same snapshot changes nothing, and every conversation that
is live on one side, and newer than what either side knows of its deletion, is live
in the merged state. -/
structure MergeSafe (keys : IdentityKeys) (now now' : Option ℕ) (s remote : OwnerState) : Prop where
  idempotent : (s.mergeRemoteIntoLocal keys now remote).mergeRemoteIntoLocal keys now' remote =
    s.mergeRemoteIntoLocal keys now remote
  survives : ∀ (id : SpaceId) (sp : Space),
    s.spaces[id]? = some sp ∨ remote.spaces[id]? = some sp →
    id ∉ s.tombstones → id ∉ remote.tombstones →
    (∀ deletedAt, s.dedupeTombstones[sp.dedupeKey]? = some deletedAt ∨
      remote.dedupeTombstones[sp.dedupeKey]? = some deletedAt → deletedAt < sp.createdAt) →
    ∃ (id' : SpaceId) (sp' : Space),
      (s.mergeRemoteIntoLocal keys now remote).spaces[id']? = some sp' ∧
        sp'.dedupeKey = sp.dedupeKey

theorem Reachable.mergeable (hs : Reachable keys s) (hr : Reachable keys remote)
    (hskew : WithinSkew now remote) : Mergeable now s remote :=
  ⟨hs.table, hr.table, hr.bare, hskew⟩

theorem dominated_of_newer {sp : Space}
    (h : ∀ deletedAt, s.dedupeTombstones[sp.dedupeKey]? = some deletedAt → deletedAt < sp.createdAt) :
    s.dominated sp = false := by
  rw [← Bool.not_eq_true]
  intro hdom
  obtain ⟨-, d, hd, hle⟩ := dominated_eq_true_iff.mp hdom
  exact absurd (h d hd) (not_lt_of_ge hle)

/-- A local row that the snapshot's deletions do not reach leaves its conversation live. -/
theorem Mergeable.live_left (h : Mergeable now s remote) (hosts : HostsStand now s remote)
    {id : SpaceId} {a : Space} (ha : s.spaces[id]? = some a) (hr : id ∉ remote.tombstones)
    (hdr : remote.dominated a = false) :
    ∃ m, (s.mergeTable now remote).row a.conversation = some m := by
  have hid := h.left.ownId id a ha
  have hrow : s.row a.conversation = some a :=
    (row_eq_some h.left.toTableShape).mpr ⟨hid.symm ▸ ha, rfl⟩
  by_cases hkept : ∀ sp, remote.row a.conversation = some sp →
      Clash now s remote sp.id ∨ ¬Accepts now s sp
  · refine ⟨a, ?_⟩
    rw [h.row_kept hrow hkept, if_pos ⟨hid.symm ▸ hr, hdr⟩]
  · push Not at hkept
    obtain ⟨sp, hsp, hclash, hacc⟩ := hkept
    exact ⟨_, h.row_of_gate hosts hsp hclash hacc.2⟩

theorem Mergeable.live_right (h : Mergeable now s remote) (hosts : HostsStand now s remote)
    {id : SpaceId} {sp : Space} (hsp : remote.spaces[id]? = some sp)
    (hclash : ¬Clash now s remote id) (hs : id ∉ s.tombstones) (hds : s.dominated sp = false) :
    ∃ m, (s.mergeTable now remote).row sp.conversation = some m := by
  have hid := h.right.ownId id sp hsp
  have hrow : remote.row sp.conversation = some sp :=
    (row_eq_some h.right.toTableShape).mpr ⟨hid.symm ▸ hsp, rfl⟩
  have hgate := gateSpace_eq_ok.mpr ⟨h.right.valid id sp hsp, hid.symm ▸ hs, hds⟩
  exact ⟨_, h.row_of_gate hosts hrow (hid.symm ▸ hclash) hgate⟩

/-- Where the hosts stand, no live conversation is lost. -/
theorem Mergeable.live_of_hostsStand (h : Mergeable now s remote) (hosts : HostsStand now s remote)
    {id : SpaceId} {sp : Space} (hlive : s.spaces[id]? = some sp ∨ remote.spaces[id]? = some sp)
    (hs : id ∉ s.tombstones) (hr : id ∉ remote.tombstones) (hds : s.dominated sp = false)
    (hdr : remote.dominated sp = false) :
    ∃ c m, (s.mergeTable now remote).row c = some m ∧ m.dedupeKey = sp.dedupeKey := by
  have hkey : ∀ {r : Space}, r.dedupeKey = sp.dedupeKey →
      (∃ m, (s.mergeTable now remote).row r.conversation = some m) →
        ∃ c m, (s.mergeTable now remote).row c = some m ∧ m.dedupeKey = sp.dedupeKey := by
    rintro r hk ⟨m, hm⟩
    have hconv := ((row_eq_some h.table.toTableShape).mp hm).2
    exact ⟨_, m, hm, (Space.dedupeKey_eq_of_conversation hconv).trans hk⟩
  rcases hlive with ha | hsp
  · exact hkey rfl (h.live_left hosts ha hr hdr)
  · by_cases hclash : Clash now s remote id
    · obtain ⟨i, r, hk, ⟨hri, hit, hrd⟩ | ⟨hri, hic, hit⟩⟩ := hosts.refused id sp hsp hclash hds
      · exact hkey hk (h.live_left hosts hri hit hrd)
      · -- two rows of the snapshot share a key, so they are folders
        have hnone : r.dedupeKey = .none := by
          by_contra hne
          exact hic (h.right.distinct i id r sp hri hsp hk hne ▸ hclash)
        exact hkey hk (h.live_right hosts hri hic hit (dominated_of_none hnone))
    · exact hkey rfl (h.live_right hosts hsp hclash hs hds)

/-- A conversation that is live after the merge was held here beyond the snapshot's
deletions, or was taken in. -/
theorem Mergeable.source_of_live (h : Mergeable now s remote) {c : DedupeKey × Option SpaceId}
    {m : Space} (hm : (s.mergeTable now remote).row c = some m) :
    (∃ a, s.row c = some a ∧ a.id ∉ remote.tombstones ∧ remote.dominated a = false) ∨
      ∃ r, remote.row c = some r ∧ ¬Clash now s remote r.id ∧ Accepts now s r := by
  by_cases hkept : ∀ sp, remote.row c = some sp → Clash now s remote sp.id ∨ ¬Accepts now s sp
  · left
    cases ha : s.row c with
    | some a =>
      rw [h.row_kept ha hkept] at hm
      split_ifs at hm with hstays
      exact ⟨a, rfl, hstays⟩
    | none =>
      rw [h.row, ha, Option.filter_eq_some_iff] at hm
      cases hr : remote.row c with
      | none =>
        rw [hr] at hm
        cases hm.1
      | some sp =>
        rw [hr, Option.elim_some] at hm
        by_cases hclash : Clash now s remote sp.id
        · rw [taken_of_clash hclash] at hm
          cases hm.1
        · rw [taken_of_not_clash hclash,
            met_of_not_accepts ((hkept sp hr).resolve_left hclash)] at hm
          cases hm.1
  · push Not at hkept
    exact Or.inr hkept

/-- A conversation that is live after the merge had a host that stands. -/
theorem Mergeable.host_of_live (h : Mergeable now s remote) {a sp m : Space} {i j : SpaceId}
    (ha : s.spaces[i]? = some a) (hsp : remote.spaces[j]? = some sp)
    (hk : a.dedupeKey = sp.dedupeKey) (hne : sp.dedupeKey ≠ .none)
    (hclash : ¬Clash now s remote j) (hlive : j ∉ s.tombstones) (hdom : s.dominated sp = false)
    (hm : (s.mergeTable now remote).row sp.conversation = some m) :
    remote.dominated a = false ∧ min i j ∉ remote.tombstones := by
  obtain rfl := h.left.ownId i a ha
  obtain rfl := h.right.ownId j sp hsp
  have hconv : a.conversation = sp.conversation :=
    Space.conversation_eq hk fun hnone => absurd (hk ▸ hnone) hne
  have hrowa : s.row sp.conversation = some a := (row_eq_some h.left.toTableShape).mpr ⟨ha, hconv⟩
  have hrowsp : remote.row sp.conversation = some sp :=
    (row_eq_some h.right.toTableShape).mpr ⟨hsp, rfl⟩
  have hgate := gateSpace_eq_ok.mpr ⟨h.right.valid sp.id sp hsp, hlive, hdom⟩
  rw [h.row, hrowsp, Option.elim_some, taken_of_not_clash hclash,
    met_of_accepts ((h.skew.accepts_iff hsp).mpr hgate), hrowa, Option.filter_eq_some_iff] at hm
  simp only [Option.some.injEq, decide_eq_true_eq] at hm
  obtain ⟨rfl, hmid, -, hmdom⟩ := hm
  have hmc : (meet (some a) sp).conversation = sp.conversation :=
    meet_conversation fun b hb => Option.some.inj hb ▸ hconv
  refine ⟨?_, by simpa [meet_id] using hmid⟩
  rw [← Bool.not_eq_true]
  intro hda
  have hmk := hk.trans (Space.dedupeKey_eq_of_conversation hmc).symm
  rw [dominated_mono hmk (meet_createdAt_le a sp) hda] at hmdom
  cases hmdom

theorem removeSpacePermanent_folder (h : s.dedupeTombstones[DedupeKey.none]? = none) (id : SpaceId)
    (wallNowMs : ℕ) (deviceId : String) :
    (s.removeSpacePermanent id wallNowMs deviceId).dedupeTombstones[DedupeKey.none]? = none := by
  simp only [removeSpacePermanent]
  split
  · split_ifs with hk
    · simp only [tombstoneSpace, recordDedupeTombstone, putDedupeTombstone]
      split
      · rw [BTreeMap.get_insert, if_neg hk, h]
      · split_ifs
        · rw [BTreeMap.get_insert, if_neg hk, h]
        · exact h
    · exact h
  · exact h

theorem Reachable.no_folder_tombstone (h : Reachable keys s) :
    s.dedupeTombstones[DedupeKey.none]? = none := by
  induction h with
  | empty => simp
  | @applySpace s sp _ ih => rwa [(s.applySpaceWithCanonicalization_table sp).2.2]
  | removeSpace id wallNowMs deviceId _ ih => exact removeSpacePermanent_folder ih id wallNowMs deviceId
  | @merge s remote now hs hr ihs ihr =>
    rw [mergeRemoteIntoLocal_bare keys now hs.bare hr.bare]
    unfold mergeTable
    rw [foldl_tombstoneSpace_dedupe]
    dsimp only
    rw [foldl_tombstoneSpace_dedupe, (offering_mergeSpaces now hs.table
      hr.table.toTableShape).dedupeTombstones, (stepsAtKey_mergeDedupeTombstone now).foldl, ihr, ihs]
    rfl

theorem Reachable.newer_of_not_dominated (h : Reachable keys s) {sp : Space}
    (hdom : s.dominated sp = false) {deletedAt : Hlc}
    (hd : s.dedupeTombstones[sp.dedupeKey]? = some deletedAt) : deletedAt < sp.createdAt := by
  by_contra hle
  have hne : sp.dedupeKey ≠ .none := by
    intro hnone
    rw [hnone, h.no_folder_tombstone] at hd
    cases hd
  rw [dominated_eq_true_iff.mpr ⟨hne, deletedAt, hd, not_lt.mp hle⟩] at hdom
  cases hdom

/-- A row of the snapshot that the local deletions do not reject is found in a safe merge. -/
theorem Reachable.survives_right (hs : Reachable keys s) (hr : Reachable keys remote)
    (hskew : WithinSkew now remote) (hsafe : MergeSafe keys now now' s remote) {j : SpaceId}
    {sp : Space} (hsp : remote.spaces[j]? = some sp) (hlive : j ∉ s.tombstones)
    (hdom : s.dominated sp = false) :
    ∃ m, (s.mergeTable now remote).row m.conversation = some m ∧ m.dedupeKey = sp.dedupeKey := by
  have h := hs.mergeable hr hskew
  obtain ⟨id, m, hm, hmk⟩ := hsafe.survives j sp (Or.inr hsp) hlive (h.right.live j sp hsp)
    fun d hd => hd.elim (hs.newer_of_not_dominated hdom)
      (hr.newer_of_not_dominated (h.right.undominated j sp hsp))
  rw [mergeRemoteIntoLocal_bare keys now hs.bare hr.bare] at hm
  exact ⟨m, (row_eq_some h.table.toTableShape).mpr ⟨(h.table.ownId id m hm).symm ▸ hm, rfl⟩, hmk⟩

/-- The merge of two reachable states is safe exactly when no row of the snapshot is
folded into a row that the snapshot's own deletions reach, or refused with no other row
of its key to stand for it. -/
theorem mergeSafe_iff_hostsStand (hs : Reachable keys s) (hr : Reachable keys remote)
    (hskew : WithinSkew now remote) (hskew' : WithinSkew now' remote) :
    MergeSafe keys now now' s remote ↔ HostsStand now s remote := by
  have h := hs.mergeable hr hskew
  have hmerge := mergeRemoteIntoLocal_bare keys now hs.bare hr.bare
  have hbare := hs.bare.mergeTable now remote
  constructor
  · intro hsafe
    refine ⟨fun i j a sp ha hsp hk hne hclash hlive hdom => ?_, fun j sp hsp hclash hdom => ?_⟩
    · obtain ⟨m, hrow, hmk⟩ := hs.survives_right hr hskew hsafe hsp hlive hdom
      rw [Space.conversation_eq hmk fun hnone => absurd (hmk ▸ hnone) hne] at hrow
      exact h.host_of_live ha hsp hk hne hclash hlive hdom hrow
    · have hlive : j ∉ s.tombstones := by
        obtain ⟨held, -, -, -⟩ := hclash
        exact h.left.live j _ held
      obtain ⟨m, hrow, hmk⟩ := hs.survives_right hr hskew hsafe hsp hlive hdom
      rcases h.source_of_live hrow with ⟨a, ha, hat, had⟩ | ⟨r, hrr, hrc, hacc⟩
      · obtain ⟨hget, hconv⟩ := (row_eq_some h.left.toTableShape).mp ha
        exact ⟨a.id, a, (Space.dedupeKey_eq_of_conversation hconv).trans hmk,
          Or.inl ⟨hget, hat, had⟩⟩
      · obtain ⟨hget, hconv⟩ := (row_eq_some h.right.toTableShape).mp hrr
        exact ⟨r.id, r, (Space.dedupeKey_eq_of_conversation hconv).trans hmk,
          Or.inr ⟨hget, hrc, (gateSpace_eq_ok.mp hacc.2).2.1⟩⟩
  · intro hosts
    refine ⟨?_, ?_⟩
    · rw [hmerge, mergeRemoteIntoLocal_bare keys now' hbare hr.bare]
      exact h.mergeTable_again hs.bare hosts hskew'
    · intro id sp hlive hids hidr hnewer
      have hds := dominated_of_newer fun d hd => hnewer d (Or.inl hd)
      have hdr := dominated_of_newer fun d hd => hnewer d (Or.inr hd)
      obtain ⟨c, m, hm, hmk⟩ := h.live_of_hostsStand hosts hlive hids hidr hds hdr
      exact ⟨m.id, m, hmerge ▸ ((row_eq_some h.table.toTableShape).mp hm).1, hmk⟩

end Safety

section Decide

variable (now : Option ℕ) (s remote : OwnerState)

instance : Decidable (IdsAgree s remote) :=
  decidable_of_iff (∀ p ∈ s.spaces.toList, ∀ q ∈ remote.spaces.toList,
    p.1 = q.1 → p.2.dedupeKey = q.2.dedupeKey) <| by
      simp only [mem_toList_iff, Prod.forall]
      exact ⟨fun h id a b ha hb => h id a ha id b hb rfl, fun h i a ha j b hb hij =>
        h i a b ha (hij ▸ hb)⟩

instance : Decidable (WithinSkew now remote) :=
  decidable_of_iff ((∀ p ∈ remote.spaces.toList,
      wallExceedsForwardSkew p.2.updatedAt.wallMs now = false) ∧
    ∀ p ∈ remote.dedupeTombstones.toList, wallExceedsForwardSkew p.2.wallMs now = false) <| by
      simp only [mem_toList_iff, Prod.forall]
      exact ⟨fun h => ⟨h.1, h.2⟩, fun h => ⟨h.rows, h.deletions⟩⟩

end Decide

end OwnerState

def directMessage (id : SpaceId) (wallMs : ℕ) : Space where
  id := id
  kind := .dm
  members := [1, 2]
  contentKey := some id
  createdAt := ⟨wallMs, 0, "device"⟩
  updatedAt := ⟨wallMs, 0, "device"⟩

def heldState : OwnerState := (({} : OwnerState).applySpaceWithCanonicalization (directMessage 1 1)).1

def deletedState : OwnerState := heldState.removeSpacePermanent 1 10 "device"

def recreatedState : OwnerState :=
  (deletedState.applySpaceWithCanonicalization (directMessage 2 20)).1

def plainKeys : IdentityKeys := ⟨some, fun master => master⟩

theorem heldState_reachable : OwnerState.Reachable plainKeys heldState :=
  .applySpace (directMessage 1 1) .empty

theorem deletedState_reachable : OwnerState.Reachable plainKeys deletedState :=
  .removeSpace 1 10 "device" heldState_reachable

theorem recreatedState_reachable : OwnerState.Reachable plainKeys recreatedState :=
  .applySpace (directMessage 2 20) deletedState_reachable

theorem hostsStand_deleted :
    OwnerState.HostsStand (some 1000) deletedState recreatedState where
  hosts i j a sp ha := by
    have hempty : deletedState.spaces.isEmpty = true := by decide +kernel
    rw [Std.ExtTreeMap.isEmpty_iff.mp hempty] at ha
    simp at ha
  refused j sp hsp hclash :=
    absurd hclash (OwnerState.IdsAgree.not_clash (by decide +kernel))

/-- A device that holds two conversations, and one that holds the second of them under
the id that the first device gave to the first. -/
def bothState : OwnerState :=
  (heldState.applySpaceWithCanonicalization { directMessage 2 1 with members := [1, 3] }).1

def sharedState : OwnerState :=
  (({} : OwnerState).applySpaceWithCanonicalization { directMessage 1 1 with members := [1, 3] }).1

theorem bothState_reachable : OwnerState.Reachable plainKeys bothState :=
  .applySpace _ heldState_reachable

theorem sharedState_reachable : OwnerState.Reachable plainKeys sharedState :=
  .applySpace _ .empty

theorem sharedState_get {j : SpaceId} {sp : Space} (h : sharedState.spaces[j]? = some sp) :
    j = 1 ∧ sp = { directMessage 1 1 with members := [1, 3] } := by
  have hids : sharedState.spaces.toList.map Prod.fst = [1] := by decide +kernel
  have hmem : j ∈ sharedState.spaces.toList.map Prod.fst :=
    List.mem_map_of_mem (mem_toList_iff (p := (j, sp)).mpr h)
  rw [hids, List.mem_singleton] at hmem
  subst hmem
  have hrow : sharedState.spaces[1]? = some { directMessage 1 1 with members := [1, 3] } := rfl
  exact ⟨rfl, Option.some.inj (h.symm.trans hrow)⟩

theorem sharedState_clash : OwnerState.Clash (some 1000) bothState sharedState 1 := by
  refine .intro (a := directMessage 1 1) rfl rfl (by decide +kernel) fun i r hi hr => ?_
  exact absurd ((sharedState_get hr).1 ▸ hi) (lt_irrefl _)

theorem hostsStand_shared : OwnerState.HostsStand (some 1000) bothState sharedState where
  hosts i j a sp _ hsp _ _ hclash := absurd ((sharedState_get hsp).1 ▸ sharedState_clash) hclash
  refused j sp hsp _ _ := by
    obtain ⟨-, rfl⟩ := sharedState_get hsp
    exact ⟨2, { directMessage 2 1 with members := [1, 3] }, by decide +kernel,
      Or.inl ⟨rfl, by decide +kernel, by decide +kernel⟩⟩

/-- A device that knows of the deletion takes the new row and keeps it, and one that
holds a conversation already loses nothing when the snapshot's row of it is refused. -/
theorem mergeSafe_iff_hostsStand_deleted :
    OwnerState.MergeSafe plainKeys (some 1000) (some 2000) deletedState recreatedState ∧
      OwnerState.MergeSafe plainKeys (some 1000) (some 2000) bothState sharedState :=
  ⟨(OwnerState.mergeSafe_iff_hostsStand deletedState_reachable recreatedState_reachable
      (by decide +kernel) (by decide +kernel)).mpr hostsStand_deleted,
    (OwnerState.mergeSafe_iff_hostsStand bothState_reachable sharedState_reachable
      (by decide +kernel) (by decide +kernel)).mpr hostsStand_shared⟩

/-- A device that still holds the first row folds the new row into it, and the
deletion then takes both. -/
theorem recreated_conversation_lost :
    OwnerState.Reachable plainKeys heldState ∧ OwnerState.Reachable plainKeys recreatedState ∧
      OwnerState.IdsAgree heldState recreatedState ∧
      OwnerState.WithinSkew (some 1000) recreatedState ∧
      (heldState.mergeRemoteIntoLocal plainKeys (some 1000) recreatedState).spaces.isEmpty = true ∧
      ¬OwnerState.MergeSafe plainKeys (some 1000) (some 1000) heldState recreatedState := by
  have hempty :
      (heldState.mergeRemoteIntoLocal plainKeys (some 1000) recreatedState).spaces.isEmpty = true := by
    decide +kernel
  refine ⟨heldState_reachable, recreatedState_reachable, by decide +kernel, by decide +kernel,
    hempty, fun hsafe => ?_⟩
  have hlive : recreatedState.spaces[2]? = some (directMessage 2 20) := rfl
  have hnewer : ∀ d, heldState.dedupeTombstones[(directMessage 2 20).dedupeKey]? = some d ∨
      recreatedState.dedupeTombstones[(directMessage 2 20).dedupeKey]? = some d →
        d < (directMessage 2 20).createdAt := by
    have hnone : heldState.dedupeTombstones[(directMessage 2 20).dedupeKey]? = none := by
      decide +kernel
    have hsome : recreatedState.dedupeTombstones[(directMessage 2 20).dedupeKey]? =
        some ⟨10, 0, "device"⟩ := by decide +kernel
    rintro d (hd | hd)
    · rw [hnone] at hd
      cases hd
    · rw [hsome] at hd
      obtain rfl := Option.some.inj hd
      decide +kernel
  obtain ⟨id, sp, hsp, -⟩ :=
    hsafe.survives 2 (directMessage 2 20) (Or.inr hlive) (by decide +kernel) (by decide +kernel) hnewer
  rw [Std.ExtTreeMap.isEmpty_iff.mp hempty] at hsp
  simp at hsp

end Harmony.Owner
