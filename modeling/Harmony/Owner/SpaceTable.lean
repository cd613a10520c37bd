import Harmony.Owner.Merge

/-! The table of conversation rows. Every row stands under its own id, is well
formed, shares its dedupe key with no other row, and is deleted neither by id nor
by dedupe key; insertion, last-writer-wins merge, collapse, deletion and the merge
of an arbitrary snapshot keep this. -/

namespace Harmony.Owner

open Harmony.Lib
open Harmony.Membership (OwnerAddr SpaceId Hlc Bytes)

namespace Space

theorem validateInvariants_eq_ok {s : Space} :
    s.validateInvariants = .ok () ↔
      (s.kind ≠ .community → s.validateCommunityFields = .ok ()) ∧ s.validateKind = .ok () ∧
        s.validateContentKey = .ok () ∧ s.validatePriorContentKeys = .ok () := by
  have hseq : ∀ x y z : Except InvariantError Unit,
      (do x; y; z : Except InvariantError Unit) = .ok () ↔ x = .ok () ∧ y = .ok () ∧ z = .ok () := by
    intro x y z
    cases x <;> cases y <;> simp [bind, Except.bind]
  unfold validateInvariants
  by_cases hk : s.kind = .community
  · simpa [hk] using hseq _ _ _
  · cases hc : s.validateCommunityFields with
    | error e => simp [hk, bind, Except.bind]
    | ok => simpa [hk, hc] using hseq _ _ _

theorem validateCommunityFields_eq_ok {s : Space} :
    s.validateCommunityFields = .ok () ↔
      s.pendingJoinAt = none ∧ s.currentEpoch = none ∧ s.currentEpochKey = none ∧
        s.oldEpochKeys.isEmpty = true ∧ s.adminAddr = none ∧ s.isInviteOnly = none ∧
          s.sharedInProfile = false := by
  simp [validateCommunityFields]

def graft (newer creator : Space) (contentKey : Option DmContentKey)
    (priorContentKeys : List DmContentKey) : Space :=
  { newer with
    createdAt := creator.createdAt
    contentKey := contentKey
    priorContentKeys := priorContentKeys
    currentEpoch := creator.currentEpoch
    currentEpochKey := creator.currentEpochKey
    oldEpochKeys := creator.oldEpochKeys
    adminAddr := creator.adminAddr
    isInviteOnly := creator.isInviteOnly }

/-- The content keys are what a row of the kind may carry. -/
structure KeysFit (kind : SpaceKind) (contentKey : Option DmContentKey)
    (prior : List DmContentKey) : Prop where
  direct : kind = .dm ∨ kind = .groupDm → contentKey ≠ none
  other : kind ≠ .dm → kind ≠ .groupDm → contentKey = none ∧ prior = []
  few : prior.length ≤ maxPriorContentKeys
  ascending : prior.Pairwise (· < ·)
  fresh : ∀ ck, contentKey = some ck → ck ∉ prior

theorem keysFit_of_valid {s : Space} (h : s.validateInvariants = .ok ()) :
    KeysFit s.kind s.contentKey s.priorContentKeys := by
  obtain ⟨-, hkind, hck, hprior⟩ := validateInvariants_eq_ok.mp h
  simp only [validatePriorContentKeys, bind_eq_ok, ensure_eq_ok, decide_eq_true_eq,
    strictlyAscending, List.isChain_iff_pairwise] at hprior
  obtain ⟨-, hfew, -, hasc, hfresh⟩ := hprior
  refine ⟨?_, ?_, hfew, hasc, ?_⟩
  · rintro (hk | hk) <;>
      simpa [validateContentKey, hk, Option.isSome_iff_ne_none] using hck
  · intro hdm hgd
    cases hk : s.kind <;>
      simp_all [validateContentKey, validateKind, Option.isSome_iff_ne_none, List.isEmpty_iff]
  · intro ck hc
    simpa [hc] using hfresh

theorem graft_valid {newer creator : Space} {ck : Option DmContentKey} {prior : List DmContentKey}
    (hn : newer.validateInvariants = .ok ()) (hc : creator.validateInvariants = .ok ())
    (hkind : newer.kind = creator.kind) (hkeys : KeysFit newer.kind ck prior) :
    (graft newer creator ck prior).validateInvariants = .ok () := by
  obtain ⟨hnf, hnk, -, -⟩ := validateInvariants_eq_ok.mp hn
  obtain ⟨hcf, hck, -, -⟩ := validateInvariants_eq_ok.mp hc
  refine validateInvariants_eq_ok.mpr ⟨?_, ?_, ?_, ?_⟩
  · intro hne
    have hn' := validateCommunityFields_eq_ok.mp (hnf hne)
    have hc' := validateCommunityFields_eq_ok.mp (hcf (hkind ▸ hne))
    exact validateCommunityFields_eq_ok.mpr
      ⟨hn'.1, hc'.2.1, hc'.2.2.1, hc'.2.2.2.1, hc'.2.2.2.2.1, hc'.2.2.2.2.2.1, hn'.2.2.2.2.2.2⟩
  · have hother := hkeys.other
    clear hn hc hnf hcf hkeys
    cases hk : newer.kind <;> rw [hk] at hkind hother <;>
      simp [validateKind, graft, hk, hkind.symm] at hnk hck hother ⊢ <;> simp [*]
  · have hdirect := hkeys.direct
    have hother := hkeys.other
    cases hk : newer.kind <;> rw [hk] at hdirect hother <;>
      simp [validateContentKey, graft, hk, Option.isSome_iff_ne_none] at hdirect hother ⊢ <;>
      simp [*]
  · have hfresh := hkeys.fresh
    simp only [validatePriorContentKeys, bind_eq_ok, ensure_eq_ok, strictlyAscending,
      List.isChain_iff_pairwise, graft]
    refine ⟨(), decide_eq_true hkeys.few, (), decide_eq_true hkeys.ascending, ?_⟩
    rw [Option.all_eq_true]
    intro k hk
    exact decide_eq_true (hfresh k hk)

theorem validateInvariants_with_id (s : Space) (i : SpaceId) :
    { s with id := i }.validateInvariants = s.validateInvariants := rfl

theorem dedupeKey_eq_id {s : Space} {i : SpaceId} (h : s.dedupeKey = .id i) : s.id = i := by
  unfold dedupeKey at h
  split at h
  · cases h
  · exact DedupeKey.id.inj h
  · exact DedupeKey.id.inj h
  · exact DedupeKey.id.inj h
  · split at h
    · cases h
    · exact DedupeKey.id.inj h
  · cases h

theorem dedupeKey_with_id {s : Space} (h : ∀ i, s.dedupeKey ≠ .id i) (i : SpaceId) :
    { s with id := i }.dedupeKey = s.dedupeKey := by
  unfold dedupeKey at h ⊢
  cases hk : s.kind <;> simp only [hk] at h ⊢
  · exact absurd rfl (h s.id)
  · exact absurd rfl (h s.id)
  · cases ht : s.transport with
    | none => simp [ht] at h
    | some t => cases t; rfl
  · exact absurd rfl (h s.id)

theorem kind_eq_of_dedupeKey {a b : Space} (h : a.dedupeKey = b.dedupeKey)
    (hid : ∀ i, a.dedupeKey ≠ .id i) : a.kind = b.kind := by
  have hid' : ∀ i, b.dedupeKey ≠ .id i := fun i => h ▸ hid i
  have hof : ∀ s : Space, (∀ i, s.dedupeKey ≠ .id i) →
      (s.kind = .folder ∧ s.dedupeKey = .none) ∨
        (s.kind = .publicChannel ∧ ∃ t, s.dedupeKey = .topic t) ∨
          (s.kind = .dm ∧ ∃ ms, s.dedupeKey = .sortedMembers ms) := by
    intro s hs
    unfold dedupeKey at hs ⊢
    cases hk : s.kind <;> simp only [hk] at hs ⊢
    · simp
    · exact absurd rfl (hs s.id)
    · exact absurd rfl (hs s.id)
    · cases ht : s.transport with
      | none => simp [ht] at hs
      | some t => cases t; simp
    · simp
    · exact absurd rfl (hs s.id)
  rcases hof a hid with ⟨ha, hka⟩ | ⟨ha, _, hka⟩ | ⟨ha, _, hka⟩ <;>
    rcases hof b hid' with ⟨hb, hkb⟩ | ⟨hb, _, hkb⟩ | ⟨hb, _, hkb⟩ <;>
    first | exact ha.trans hb.symm | (rw [hka, hkb] at h; cases h)

end Space

/-! The row that two rows merge into. -/

section Merged

variable {a b : Space}

theorem mergePriorContentKeys_fit (winner loser : DmContentKey) (ps qs : List DmContentKey) :
    (mergePriorContentKeys winner ps loser qs).length ≤ maxPriorContentKeys ∧
      (mergePriorContentKeys winner ps loser qs).Pairwise (· < ·) ∧
        winner ∉ mergePriorContentKeys winner ps loser qs := by
  have hasc : Ascending (fun k : DmContentKey => k)
      (sortDedup (fun k => k) ((ps ++ loser :: qs).filter (· ≠ winner))) := sortDedup_ascending _
  refine ⟨List.length_take_le _ _, hasc.sublist (List.take_sublist _ _), fun hmem => ?_⟩
  have hin := (sortDedup_sublist _).subset (List.mem_of_mem_take hmem)
  simp at hin

theorem mergeContentKeys_fit (ha : a.validateInvariants = .ok ())
    (hb : b.validateInvariants = .ok ()) (hkind : a.kind = b.kind) :
    Space.KeysFit a.kind (mergeContentKeys a b).1 (mergeContentKeys a b).2 := by
  have hfa := Space.keysFit_of_valid ha
  have hfb := Space.keysFit_of_valid hb
  by_cases hdirect : a.kind = .dm ∨ a.kind = .groupDm
  · obtain ⟨ack, hack⟩ := Option.ne_none_iff_exists'.mp (hfa.direct hdirect)
    obtain ⟨bck, hbck⟩ := Option.ne_none_iff_exists'.mp (hfb.direct (hkind ▸ hdirect))
    have hother : a.kind ≠ .dm → a.kind ≠ .groupDm → ∀ p : Prop, p := fun h1 h2 =>
      (hdirect.elim h1 h2).elim
    by_cases hle : a.id ≤ b.id
    · obtain ⟨hfew, hasc, hfresh⟩ :=
        mergePriorContentKeys_fit ack bck a.priorContentKeys b.priorContentKeys
      simp only [mergeContentKeys, hack, hbck, if_pos hle]
      exact ⟨by simp, fun h1 h2 => hother h1 h2 _, hfew, hasc, by simpa using hfresh⟩
    · obtain ⟨hfew, hasc, hfresh⟩ :=
        mergePriorContentKeys_fit bck ack b.priorContentKeys a.priorContentKeys
      simp only [mergeContentKeys, hack, hbck, if_neg hle]
      exact ⟨by simp, fun h1 h2 => hother h1 h2 _, hfew, hasc, by simpa using hfresh⟩
  · obtain ⟨hdm, hgd⟩ := not_or.mp hdirect
    have hack := (hfa.other hdm hgd).1
    have hbck := (hfb.other (hkind ▸ hdm) (hkind ▸ hgd)).1
    simp only [mergeContentKeys, hack, hbck]
    exact ⟨fun h => absurd h hdirect, fun _ _ => ⟨rfl, rfl⟩, by simp, by simp, by simp⟩

/-- The row whose mutable fields stand after a merge, and the one whose creation
fields do. -/
def newerRow (a b : Space) : Space :=
  if isStrictlyNewerThan b.updatedAt a.updatedAt then b else a

def creatorRow (a b : Space) : Space :=
  if isStrictlyNewerThan a.createdAt b.createdAt then b else a

theorem newerRow_choice (a b : Space) : newerRow a b = a ∨ newerRow a b = b := by
  unfold newerRow
  split_ifs
  · exact Or.inr rfl
  · exact Or.inl rfl

theorem creatorRow_choice (a b : Space) : creatorRow a b = a ∨ creatorRow a b = b := by
  unfold creatorRow
  split_ifs
  · exact Or.inr rfl
  · exact Or.inl rfl

theorem lwwMergeSpace_eq_graft (a b : Space) :
    lwwMergeSpace a b =
      (newerRow a b).graft (creatorRow a b) (mergeContentKeys a b).1 (mergeContentKeys a b).2 := rfl

theorem lwwMergeSpace_createdAt (a b : Space) :
    (lwwMergeSpace a b).createdAt = min a.createdAt b.createdAt := by
  change (creatorRow a b).createdAt = _
  unfold creatorRow
  split_ifs with h
  · exact (min_eq_right (isStrictlyNewerThan_iff.mp h).le).symm
  · exact (min_eq_left (by simpa using h)).symm

theorem lwwMergeSpace_valid (ha : a.validateInvariants = .ok ())
    (hb : b.validateInvariants = .ok ()) (hkind : a.kind = b.kind) :
    (lwwMergeSpace a b).validateInvariants = .ok () := by
  rw [lwwMergeSpace_eq_graft]
  have hfit := mergeContentKeys_fit ha hb hkind
  have hnk : (newerRow a b).kind = a.kind := by
    rcases newerRow_choice a b with h | h <;> simp [h, hkind]
  have hck : (creatorRow a b).kind = a.kind := by
    rcases creatorRow_choice a b with h | h <;> simp [h, hkind]
  refine Space.graft_valid ?_ ?_ (hnk.trans hck.symm) (hnk ▸ hfit)
  · rcases newerRow_choice a b with h | h <;> simpa [h]
  · rcases creatorRow_choice a b with h | h <;> simpa [h]

theorem lwwMergeSpace_dedupeKey (h : a.dedupeKey = b.dedupeKey) :
    (lwwMergeSpace a b).dedupeKey = b.dedupeKey := by
  change (newerRow a b).dedupeKey = _
  rcases newerRow_choice a b with hn | hn <;> rw [hn]
  exact h

end Merged

namespace OwnerState

theorem gateSpace_eq_ok {s : OwnerState} {sp : Space} :
    s.gateSpace sp = .ok () ↔
      sp.validateInvariants = .ok () ∧ sp.id ∉ s.tombstones ∧ s.dominated sp = false := by
  unfold gateSpace
  cases hv : sp.validateInvariants with
  | error e => simp [bind, Except.bind]
  | ok =>
    cases ht : s.dedupeTombstones[sp.dedupeKey]? with
    | none => simp [dominated, ht]
    | some t => simp

theorem sameIdChecks_eq_ok {a b : Space} (h : sameIdChecks a b = .ok ()) :
    a.kind = b.kind ∧ b.dedupeKey = a.dedupeKey ∧ a.contentKey = b.contentKey := by
  unfold sameIdChecks at h
  simp only [bind_eq_ok, ensure_eq_ok, decide_eq_true_eq] at h
  obtain ⟨-, hk, -, hd, -, hc, -⟩ := h
  exact ⟨hk, hd, hc⟩

theorem findDedupe_eq_some {spaces : BTreeMap SpaceId Space} {dk : DedupeKey}
    {p : SpaceId × Space} (h : findDedupe spaces dk = some p) :
    dk ≠ .none ∧ spaces[p.1]? = some p.2 ∧ p.2.dedupeKey = dk := by
  unfold findDedupe at h
  split_ifs at h with hdk
  exact ⟨hdk, mem_toList_iff.mp (List.mem_of_find?_eq_some h), by simpa using List.find?_some h⟩

theorem findDedupe_eq_none {spaces : BTreeMap SpaceId Space} {dk : DedupeKey}
    (h : findDedupe spaces dk = none) (hdk : dk ≠ .none) {id : SpaceId} {sp : Space}
    (hsp : spaces[id]? = some sp) : sp.dedupeKey ≠ dk := by
  unfold findDedupe at h
  rw [if_neg hdk] at h
  have hmem : (id, sp) ∈ spaces.toList := mem_toList_iff.mpr hsp
  simpa using List.find?_eq_none.mp h _ hmem

/-- Everything that `apply_space` can do. -/
theorem applySpace_cases (s : OwnerState) (sp : Space) :
    (∃ r, s.applySpace sp = (s, .rejected r)) ∨
      s.gateSpace sp = .ok () ∧
        ((∃ existing, s.spaces[sp.id]? = some existing ∧ sameIdChecks existing sp = .ok () ∧
            s.applySpace sp =
              ({ s with spaces := s.spaces.insert sp.id (lwwMergeSpace existing sp) },
                .merged none)) ∨
          (s.spaces[sp.id]? = none ∧ findDedupe s.spaces sp.dedupeKey = none ∧
            s.applySpace sp = ({ s with spaces := s.spaces.insert sp.id sp }, .inserted)) ∨
          ∃ id existing, s.spaces[sp.id]? = none ∧
            findDedupe s.spaces sp.dedupeKey = some (id, existing) ∧
            s.applySpace sp =
              ({ s with
                  spaces := (s.spaces.erase (max id sp.id)).insert (min id sp.id)
                    { lwwMergeSpace existing sp with id := min id sp.id } },
                .merged (some (max id sp.id)))) := by
  unfold applySpace
  cases hg : s.gateSpace sp with
  | error r => exact Or.inl ⟨r, rfl⟩
  | ok =>
    cases hs : s.spaces[sp.id]? with
    | some existing =>
      cases hc : sameIdChecks existing sp with
      | error e => exact Or.inl ⟨.invariantFail e, by simp [hc]⟩
      | ok => exact Or.inr ⟨rfl, Or.inl ⟨existing, rfl, hc, by simp [hc]⟩⟩
    | none =>
      cases hf : findDedupe s.spaces sp.dedupeKey with
      | none => exact Or.inr ⟨rfl, Or.inr (Or.inl ⟨rfl, rfl, rfl⟩)⟩
      | some p => exact Or.inr ⟨rfl, Or.inr (Or.inr ⟨p.1, p.2, rfl, rfl, rfl⟩)⟩

theorem applySpace_tombstones (s : OwnerState) (sp : Space) :
    (s.applySpace sp).1.tombstones = s.tombstones ∧
      (s.applySpace sp).1.dedupeTombstones = s.dedupeTombstones := by
  rcases s.applySpace_cases sp with
    ⟨r, h⟩ | ⟨-, ⟨_, _, _, h⟩ | ⟨_, _, h⟩ | ⟨_, _, _, _, h⟩⟩ <;> rw [h] <;> exact ⟨rfl, rfl⟩

theorem applySpaceWithCanonicalization_table (s : OwnerState) (sp : Space) :
    (s.applySpaceWithCanonicalization sp).1.spaces = (s.applySpace sp).1.spaces ∧
      (s.applySpaceWithCanonicalization sp).1.tombstones = s.tombstones ∧
        (s.applySpaceWithCanonicalization sp).1.dedupeTombstones = s.dedupeTombstones := by
  have hother := s.applySpace_tombstones sp
  simp only [applySpaceWithCanonicalization]
  split
  · exact ⟨rfl, hother⟩
  · exact ⟨rfl, hother⟩

/-- The rows but for the deletions by dedupe key. -/
structure TableShape (s : OwnerState) : Prop where
  ownId : ∀ (id : SpaceId) (sp : Space), s.spaces[id]? = some sp → sp.id = id
  valid : ∀ (id : SpaceId) (sp : Space), s.spaces[id]? = some sp → sp.validateInvariants = .ok ()
  distinct : ∀ (id id' : SpaceId) (sp sp' : Space), s.spaces[id]? = some sp → s.spaces[id']? = some sp' →
    sp.dedupeKey = sp'.dedupeKey → sp.dedupeKey ≠ .none → id = id'
  live : ∀ (id : SpaceId) (sp : Space), s.spaces[id]? = some sp → id ∉ s.tombstones

/-- The representation invariant of the table of rows. -/
structure SpaceTable (s : OwnerState) : Prop extends TableShape s where
  undominated : ∀ (id : SpaceId) (sp : Space), s.spaces[id]? = some sp → s.dominated sp = false

theorem dominated_congr {s s' : OwnerState} {sp sp' : Space}
    (hs : s.dedupeTombstones = s'.dedupeTombstones) (hk : sp.dedupeKey = sp'.dedupeKey)
    (hc : sp.createdAt = sp'.createdAt) : s.dominated sp = s'.dominated sp' := by
  simp only [dominated, hs, hk, hc]

theorem TableShape.congr {s s' : OwnerState} (h : TableShape s) (hs : s'.spaces = s.spaces)
    (ht : s'.tombstones = s.tombstones) : TableShape s' := by
  constructor
  · rw [hs]; exact h.ownId
  · rw [hs]; exact h.valid
  · rw [hs]; exact h.distinct
  · rw [hs, ht]; exact h.live

theorem SpaceTable.congr {s s' : OwnerState} (h : SpaceTable s) (hs : s'.spaces = s.spaces)
    (ht : s'.tombstones = s.tombstones) (hd : s'.dedupeTombstones = s.dedupeTombstones) :
    SpaceTable s' := by
  refine ⟨h.toTableShape.congr hs ht, ?_⟩
  intro id sp hsp
  rw [hs] at hsp
  rw [dominated_congr hd rfl rfl]
  exact h.undominated id sp hsp

/-- A table stays one when rows with the dedupe key of a new row give way to it. -/
theorem SpaceTable.put {s : OwnerState} (h : SpaceTable s) {spaces : BTreeMap SpaceId Space}
    (id : SpaceId) (row : Space) (hget : spaces[id]? = some row)
    (hother : ∀ (id' : SpaceId) (sp : Space), spaces[id']? = some sp → id' ≠ id →
      s.spaces[id']? = some sp ∧ (row.dedupeKey ≠ .none → sp.dedupeKey ≠ row.dedupeKey))
    (hid : row.id = id) (hvalid : row.validateInvariants = .ok ()) (hlive : id ∉ s.tombstones)
    (hdom : s.dominated row = false) : SpaceTable { s with spaces := spaces } := by
  have hcase : ∀ (id' : SpaceId) (sp : Space), spaces[id']? = some sp →
      (id' = id ∧ sp = row) ∨ (id' ≠ id ∧ s.spaces[id']? = some sp ∧
        (row.dedupeKey ≠ .none → sp.dedupeKey ≠ row.dedupeKey)) := by
    intro id' sp hsp
    by_cases hne : id' = id
    · subst hne
      exact Or.inl ⟨rfl, Option.some.inj (hsp.symm.trans hget)⟩
    · exact Or.inr ⟨hne, hother id' sp hsp hne⟩
  refine ⟨⟨?_, ?_, ?_, ?_⟩, ?_⟩
  · intro id' sp hsp
    rcases hcase id' sp hsp with ⟨rfl, rfl⟩ | ⟨-, hs, -⟩
    · exact hid
    · exact h.ownId id' sp hs
  · intro id' sp hsp
    rcases hcase id' sp hsp with ⟨rfl, rfl⟩ | ⟨-, hs, -⟩
    · exact hvalid
    · exact h.valid id' sp hs
  · intro i j sp sp' hi hj hk hne
    rcases hcase i sp hi with ⟨rfl, rfl⟩ | ⟨-, hs, hd⟩ <;>
      rcases hcase j sp' hj with ⟨rfl, rfl⟩ | ⟨-, hs', hd'⟩
    · rfl
    · exact absurd hk.symm (hd' hne)
    · exact absurd hk (hd (hk ▸ hne))
    · exact h.distinct i j sp sp' hs hs' hk hne
  · intro id' sp hsp
    rcases hcase id' sp hsp with ⟨rfl, rfl⟩ | ⟨-, hs, -⟩
    · exact hlive
    · exact h.live id' sp hs
  · intro id' sp hsp
    rcases hcase id' sp hsp with ⟨rfl, rfl⟩ | ⟨-, hs, -⟩
    · exact hdom
    · exact h.undominated id' sp hs

theorem SpaceTable.empty : SpaceTable {} := by
  refine ⟨⟨?_, ?_, ?_, ?_⟩, ?_⟩ <;> intros <;> simp_all

/-- The created stamp of a merged row is one of the two, so no tombstone dominates it. -/
theorem dominated_lwwMergeSpace {s : OwnerState} {a b row : Space}
    (ha : s.dominated a = false) (hb : s.dominated b = false)
    (hkey : a.dedupeKey = b.dedupeKey) (hrow : row.dedupeKey = b.dedupeKey)
    (hcreated : row.createdAt = min a.createdAt b.createdAt) : s.dominated row = false := by
  rcases min_choice a.createdAt b.createdAt with h | h
  · exact (dominated_congr rfl (hrow.trans hkey.symm) (hcreated.trans h)).trans ha
  · exact (dominated_congr rfl hrow (hcreated.trans h)).trans hb

theorem SpaceTable.applySpace {s : OwnerState} (h : SpaceTable s) (sp : Space) :
    SpaceTable (s.applySpace sp).1 := by
  rcases s.applySpace_cases sp with ⟨r, hr⟩ | ⟨hgate, hcases⟩
  · rw [hr]
    exact h
  obtain ⟨hvalid, hlive, hdom⟩ := gateSpace_eq_ok.mp hgate
  rcases hcases with ⟨old, hold, hchecks, hr⟩ | ⟨-, hnone, hr⟩ | ⟨id, old, hfresh, hfind, hr⟩ <;>
    rw [hr]
  · -- an update of the row with the same id
    obtain ⟨hkind, hkey, -⟩ := sameIdChecks_eq_ok hchecks
    have hoid := h.ownId _ _ hold
    have hdk := lwwMergeSpace_dedupeKey hkey.symm
    refine h.put sp.id (lwwMergeSpace old sp) (by simp) ?_ ?_
      (lwwMergeSpace_valid (h.valid _ _ hold) hvalid hkind) hlive
      (dominated_lwwMergeSpace (h.undominated _ _ hold) hdom hkey.symm hdk
        (lwwMergeSpace_createdAt old sp))
    · intro id' sp' hsp' hne
      rw [BTreeMap.get_insert, if_neg (Ne.symm hne)] at hsp'
      refine ⟨hsp', fun hnone hsame => hne ?_⟩
      exact h.distinct id' sp.id sp' old hsp' hold (hsame.trans (hdk.trans hkey))
        (hsame ▸ hnone)
    · change (newerRow old sp).id = sp.id
      rcases newerRow_choice old sp with hn | hn <;> simp [hn, hoid]
  · -- a row of a new identity
    refine h.put sp.id sp (by simp) ?_ rfl hvalid hlive hdom
    intro id' sp' hsp' hne
    rw [BTreeMap.get_insert, if_neg (Ne.symm hne)] at hsp'
    exact ⟨hsp', fun hk => findDedupe_eq_none hnone hk hsp'⟩
  · -- a second id of one identity: the smaller id takes the merged row
    obtain ⟨hdk, hold, hkey⟩ := findDedupe_eq_some hfind
    have hoid := h.ownId id old hold
    have hnotid : ∀ i, old.dedupeKey ≠ .id i := by
      intro i hi
      have h1 : old.id = i := Space.dedupeKey_eq_id hi
      have h2 : sp.id = i := Space.dedupeKey_eq_id (hkey ▸ hi)
      have hsame : id = sp.id := by rw [← hoid, h1, h2]
      rw [← hsame, hold] at hfresh
      cases hfresh
    have hmk := lwwMergeSpace_dedupeKey hkey
    have hmid : ∀ i, (lwwMergeSpace old sp).dedupeKey ≠ .id i := fun i => by
      rw [hmk, ← hkey]
      exact hnotid i
    have hrow := (Space.dedupeKey_with_id hmid (min id sp.id)).trans hmk
    have hne : id ≠ sp.id := fun he => by rw [← he, hold] at hfresh; cases hfresh
    refine h.put (min id sp.id) _ (by simp) ?_ rfl ?_ ?_
      (dominated_lwwMergeSpace (h.undominated id old hold) hdom hkey hrow
        (lwwMergeSpace_createdAt old sp))
    · intro id' sp' hsp' hne'
      rw [BTreeMap.get_insert, if_neg (Ne.symm hne'), BTreeMap.get_erase] at hsp'
      split_ifs at hsp' with hmax
      refine ⟨hsp', fun hk hsame => ?_⟩
      -- the only row of this identity was the old one, and its id is the winner or the loser
      have hid : id' = id := h.distinct id' id sp' old hsp' hold
        (hsame.trans (hrow.trans hkey.symm)) (hsame ▸ hk)
      rcases le_total id sp.id with hle | hle
      · exact hne' (hid.trans (min_eq_left hle).symm)
      · exact hmax ((max_eq_left hle).trans hid.symm)
    · rw [Space.validateInvariants_with_id]
      exact lwwMergeSpace_valid (h.valid id old hold) hvalid
        (Space.kind_eq_of_dedupeKey hkey hnotid)
    · rcases min_choice id sp.id with hm | hm <;> rw [hm]
      · exact h.live id old hold
      · exact hlive

theorem SpaceTable.applySpaceWithCanonicalization {s : OwnerState} (h : SpaceTable s) (sp : Space) :
    SpaceTable (s.applySpaceWithCanonicalization sp).1 := by
  obtain ⟨hs, ht, hd⟩ := s.applySpaceWithCanonicalization_table sp
  obtain ⟨ht', hd'⟩ := s.applySpace_tombstones sp
  exact (h.applySpace sp).congr hs (ht.trans ht'.symm) (hd.trans hd'.symm)

section Deletion

variable {s : OwnerState}

theorem foldl_tombstoneSpace_get (ids : List SpaceId) (s : OwnerState) (id : SpaceId) :
    (ids.foldl tombstoneSpace s).spaces[id]? = if id ∈ ids then none else s.spaces[id]? := by
  induction ids generalizing s with
  | nil => simp
  | cons i ids ih =>
    rw [List.foldl_cons, ih, tombstoneSpace, BTreeMap.get_erase]
    rcases eq_or_ne i id with rfl | hi
    · simp
    · simp [hi, hi.symm]

theorem mem_foldl_tombstoneSpace (ids : List SpaceId) (s : OwnerState) (id : SpaceId) :
    id ∈ (ids.foldl tombstoneSpace s).tombstones ↔ id ∈ ids ∨ id ∈ s.tombstones := by
  induction ids generalizing s with
  | nil => simp
  | cons i ids ih =>
    rw [List.foldl_cons, ih, tombstoneSpace, Finset.mem_insert, List.mem_cons]
    tauto

theorem foldl_tombstoneSpace_dedupe (ids : List SpaceId) (s : OwnerState) :
    (ids.foldl tombstoneSpace s).dedupeTombstones = s.dedupeTombstones := by
  induction ids generalizing s with
  | nil => rfl
  | cons i ids ih => exact ih _

theorem TableShape.foldl_tombstoneSpace (h : TableShape s) (ids : List SpaceId) :
    TableShape (ids.foldl tombstoneSpace s) := by
  have hget : ∀ (id : SpaceId) (sp : Space), (ids.foldl tombstoneSpace s).spaces[id]? = some sp →
      id ∉ ids ∧ s.spaces[id]? = some sp := by
    intro id sp hsp
    rw [foldl_tombstoneSpace_get] at hsp
    split_ifs at hsp with hmem
    exact ⟨hmem, hsp⟩
  refine ⟨?_, ?_, ?_, ?_⟩
  · intro id sp hsp
    exact h.ownId id sp (hget id sp hsp).2
  · intro id sp hsp
    exact h.valid id sp (hget id sp hsp).2
  · intro i j sp sp' hi hj
    exact h.distinct i j sp sp' (hget i sp hi).2 (hget j sp' hj).2
  · intro id sp hsp
    rw [mem_foldl_tombstoneSpace, not_or]
    exact ⟨(hget id sp hsp).1, h.live id sp (hget id sp hsp).2⟩

theorem SpaceTable.foldl_tombstoneSpace (h : SpaceTable s) (ids : List SpaceId) :
    SpaceTable (ids.foldl tombstoneSpace s) := by
  refine ⟨h.toTableShape.foldl_tombstoneSpace ids, ?_⟩
  intro id sp hsp
  rw [dominated_congr (foldl_tombstoneSpace_dedupe ids s) rfl rfl]
  rw [foldl_tombstoneSpace_get] at hsp
  split_ifs at hsp
  exact h.undominated id sp hsp

theorem TableShape.sweep (h : TableShape s) :
    SpaceTable (s.dedupeDominated.foldl tombstoneSpace s) := by
  refine ⟨h.foldl_tombstoneSpace _, ?_⟩
  intro id sp hsp
  rw [dominated_congr (foldl_tombstoneSpace_dedupe _ s) rfl rfl]
  rw [foldl_tombstoneSpace_get] at hsp
  split_ifs at hsp with hmem
  by_contra hdom
  refine hmem (List.mem_map.mpr ⟨(id, sp), List.mem_filter.mpr ⟨mem_toList_iff.mpr hsp, ?_⟩, rfl⟩)
  simpa using hdom

theorem SpaceTable.removeSpacePermanent (h : SpaceTable s) (id : SpaceId) (wallNowMs : ℕ)
    (deviceId : String) : SpaceTable (s.removeSpacePermanent id wallNowMs deviceId) := by
  have hdel := h.foldl_tombstoneSpace [id]
  refine ⟨?_, ?_⟩
  · refine hdel.toTableShape.congr ?_ ?_ <;>
      simp only [OwnerState.removeSpacePermanent, recordDedupeTombstone, List.foldl_cons,
        List.foldl_nil] <;> (repeat' split) <;> rfl
  · intro i sp hsp
    have hi : i ≠ id ∧ s.spaces[i]? = some sp := by
      have hspaces : (s.removeSpacePermanent id wallNowMs deviceId).spaces = s.spaces.erase id := by
        simp only [OwnerState.removeSpacePermanent, recordDedupeTombstone]
        (repeat' split) <;> rfl
      rw [hspaces, BTreeMap.get_erase] at hsp
      split_ifs at hsp with hne
      exact ⟨Ne.symm hne, hsp⟩
    have hsame : (s.removeSpacePermanent id wallNowMs deviceId).dedupeTombstones[sp.dedupeKey]? =
        s.dedupeTombstones[sp.dedupeKey]? ∨ sp.dedupeKey = .none := by
      by_cases hnone : sp.dedupeKey = .none
      · exact Or.inr hnone
      left
      simp only [OwnerState.removeSpacePermanent]
      split
      · next space hspace =>
        split_ifs with hk
        · have hne : space.dedupeKey ≠ sp.dedupeKey := fun heq =>
            hi.1 (h.distinct i id sp space hi.2 hspace heq.symm hnone)
          simp only [tombstoneSpace, recordDedupeTombstone, putDedupeTombstone]
          repeat' split
          all_goals simp [BTreeMap.get_insert, hne]
        · rfl
      · rfl
    have hdom := h.undominated i sp hi.2
    unfold dominated at hdom ⊢
    rcases hsame with hsame | hnone
    · rw [hsame]
      exact hdom
    · simp [hnone]

theorem SpaceTable.setReadReceiptPref (h : SpaceTable s) (id : SpaceId) (pref : ReadReceiptPref)
    (newHlc : Hlc) : SpaceTable (s.setReadReceiptPref id pref newHlc).1 := by
  unfold OwnerState.setReadReceiptPref
  cases hsp : s.spaces[id]? with
  | none => exact h
  | some sp =>
    dsimp only
    split_ifs
    · exact h
    · exact h
    · refine h.put id { sp with readReceiptPref := pref.stored, updatedAt := newHlc }
        (by simp) ?_ (h.ownId id sp hsp) (h.valid id sp hsp) (h.live id sp hsp)
        (h.undominated id sp hsp)
      intro i sp' hsp' hne
      rw [BTreeMap.get_insert, if_neg (Ne.symm hne)] at hsp'
      exact ⟨hsp', fun hk heq => hne (h.distinct i id sp' sp hsp' hsp heq (heq ▸ hk))⟩

theorem SpaceTable.mergeSpace (h : SpaceTable s) (now : Option ℕ) (sp : Space) :
    SpaceTable (s.mergeSpace now sp) := by
  unfold OwnerState.mergeSpace
  split_ifs
  · exact h
  · exact h.applySpaceWithCanonicalization sp

/-- The merge of any snapshot keeps the table, whatever the snapshot holds. -/
theorem SpaceTable.mergeConversations (h : SpaceTable s) (now : Option ℕ) (remote : OwnerState) :
    SpaceTable (s.mergeConversations now remote) := by
  unfold OwnerState.mergeConversations
  refine TableShape.sweep ?_
  refine TableShape.congr (SpaceTable.foldl_tombstoneSpace ?_ _).toTableShape rfl rfl
  refine SpaceTable.congr (foldl_induction (P := SpaceTable) remote.spaces ?_ ?_) rfl rfl rfl
  · exact h.congr rfl rfl rfl
  · intro t _ sp _ ht
    exact ht.mergeSpace now sp

theorem SpaceTable.mergeRemoteIntoLocal (h : SpaceTable s) (keys : IdentityKeys) (now : Option ℕ)
    (remote : OwnerState) : SpaceTable (s.mergeRemoteIntoLocal keys now remote) :=
  (h.mergeConversations now remote).congr rfl rfl rfl

end Deletion

end OwnerState

/-- The calls that write the table of rows. -/
inductive TableCall where
  | applySpace (sp : Space)
  | tombstoneSpace (id : SpaceId)
  | removeSpacePermanent (id : SpaceId) (wallNowMs : ℕ) (deviceId : String)
  | setReadReceiptPref (id : SpaceId) (pref : ReadReceiptPref) (newHlc : Hlc)
  | mergeRemote (now : Option ℕ) (remote : OwnerState)

def tableCall (keys : IdentityKeys) (s : OwnerState) : TableCall → OwnerState
  | .applySpace sp => (s.applySpaceWithCanonicalization sp).1
  | .tombstoneSpace id => s.tombstoneSpace id
  | .removeSpacePermanent id wallNowMs deviceId => s.removeSpacePermanent id wallNowMs deviceId
  | .setReadReceiptPref id pref newHlc => (s.setReadReceiptPref id pref newHlc).1
  | .mergeRemote now remote => s.mergeRemoteIntoLocal keys now remote

def tableRun (keys : IdentityKeys) (calls : List TableCall) : OwnerState :=
  calls.foldl (tableCall keys) {}

theorem spaceTable_tableCall (keys : IdentityKeys) {s : OwnerState} (h : s.SpaceTable)
    (call : TableCall) : (tableCall keys s call).SpaceTable := by
  cases call with
  | applySpace sp => exact h.applySpaceWithCanonicalization sp
  | tombstoneSpace id => exact h.foldl_tombstoneSpace [id]
  | removeSpacePermanent id wallNowMs deviceId => exact h.removeSpacePermanent id wallNowMs deviceId
  | setReadReceiptPref id pref newHlc => exact h.setReadReceiptPref id pref newHlc
  | mergeRemote now remote => exact h.mergeRemoteIntoLocal keys now remote

theorem spaceTable_tableRun (keys : IdentityKeys) (calls : List TableCall) :
    (tableRun keys calls).SpaceTable :=
  List.foldlRecOn calls _ OwnerState.SpaceTable.empty fun _ h call _ =>
    spaceTable_tableCall keys h call

/-- A rejected call leaves the whole state as it was. -/
structure RejectionsAtomic (keys : IdentityKeys) (s : OwnerState) : Prop where
  space : ∀ sp r, (s.applySpace sp).2 = .rejected r → (s.applySpace sp).1 = s
  outbox : ∀ e r, (s.applyOutbox e).2 = .rejected r → (s.applyOutbox e).1 = s
  inbox : ∀ e r, (s.applyInbox e).2 = .rejected r → (s.applyInbox e).1 = s
  marker : ∀ m r, (s.applyMarker m).2 = .rejected r → (s.applyMarker m).1 = s
  devices : ∀ addr u r, (s.applyOwnerDeviceUpdate keys addr u).2 = .rejected r →
    (s.applyOwnerDeviceUpdate keys addr u).1 = s
  friend : ∀ addr e r, (s.applyFriendUpdate keys addr e).2 = .rejected r →
    (s.applyFriendUpdate keys addr e).1 = s

theorem putOutbox_rejected (tombs) (outbox : BTreeMap OutboxEntryId OutboxEntry)
    (e : OutboxEntry) {r} (h : (putOutbox tombs outbox e).2 = .rejected r) :
    (putOutbox tombs outbox e).1 = outbox := by
  revert h
  unfold putOutbox
  repeat' split
  all_goals
    intro h
    first | rfl | cases h

theorem putMarker_rejected (markers : BTreeMap SpaceId ReadMarker) (m : ReadMarker) {r}
    (h : (putMarker markers m).2 = .rejected r) : (putMarker markers m).1 = markers := by
  revert h
  unfold putMarker
  repeat' split
  all_goals
    intro h
    first | rfl | cases h

theorem putDevices_rejected (keys : IdentityKeys) (cache) (addr) (u : DeviceUpdate) {r}
    (h : (putDevices keys cache addr u).2 = .rejected r) :
    (putDevices keys cache addr u).1 = cache := by
  revert h
  unfold putDevices
  repeat' split
  all_goals
    intro h
    first | rfl | cases h

theorem putFriend_rejected (keys : IdentityKeys) (graph) (addr) (e : FriendEntry) {r}
    (h : (putFriend keys graph addr e).2 = .rejected r) :
    (putFriend keys graph addr e).1 = graph := by
  revert h
  unfold putFriend
  repeat' split
  all_goals
    intro h
    first | rfl | cases h

theorem rejectionsAtomic (keys : IdentityKeys) (s : OwnerState) : RejectionsAtomic keys s where
  space sp r h := by
    rcases s.applySpace_cases sp with
      ⟨_, hr⟩ | ⟨-, ⟨_, _, _, hr⟩ | ⟨_, _, hr⟩ | ⟨_, _, _, _, hr⟩⟩ <;> rw [hr] at h ⊢ <;> cases h
  outbox e r h := by
    have hsame := putOutbox_rejected s.outboxTombstones s.outbox e h
    simp only [OwnerState.applyOutbox, hsame]
  inbox e r h := by
    change (putInbox s.inbox e).2 = .rejected r at h
    unfold putInbox at h
    split at h <;> cases h
  marker m r h := by
    have hsame := putMarker_rejected s.markers m h
    simp only [OwnerState.applyMarker, hsame]
  devices addr u r h := by
    have hsame := putDevices_rejected keys s.ownerDeviceCache addr u h
    simp only [OwnerState.applyOwnerDeviceUpdate, hsame]
  friend addr e r h := by
    have hsame := putFriend_rejected keys s.friendGraph addr e h
    simp only [OwnerState.applyFriendUpdate, hsame]

/-- The table keeps its invariant over every sequence of calls, and whatever an
apply function rejects changes nothing. -/
theorem spaceTable_and_rejectionsAtomic (keys : IdentityKeys) (calls : List TableCall) :
    (tableRun keys calls).SpaceTable ∧ ∀ s, RejectionsAtomic keys s :=
  ⟨spaceTable_tableRun keys calls, rejectionsAtomic keys⟩

end Harmony.Owner
