import Harmony.Owner.SpaceTable

/-! Snapshots with records that are stamped too far ahead of the receiver's clock. The
merge skips such records, and what it leaves should be what the rest of the snapshot
leaves. The loop over file grants opens, and sorts, the receiver's list before it looks
at the records, so a list that holds nothing else still leaves its mark. -/

namespace Harmony.Owner

open Harmony.Lib
open Harmony.Membership (OwnerAddr SpaceId Hlc)

namespace OwnerState

variable (keys : IdentityKeys) (now : Option ℕ)

def grantInTime (g : GrantEntry) : Bool :=
  !(wallExceedsForwardSkew g.grantedAt now || wallExceedsForwardSkew g.revokedAt now)

/-- A snapshot without the records that the merge guards against; a grant list that
becomes empty goes with its records. -/
def withoutSkewed (remote : OwnerState) : OwnerState :=
  { remote with
    spaces := remote.spaces.filter fun _ sp => !wallExceedsForwardSkew sp.updatedAt.wallMs now
    markers := remote.markers.filter fun _ m => !wallExceedsForwardSkew m.lastReadAt.wallMs now
    dedupeTombstones :=
      remote.dedupeTombstones.filter fun _ t => !wallExceedsForwardSkew t.wallMs now
    ownerDeviceCache :=
      remote.ownerDeviceCache.filter fun _ e => !wallExceedsForwardSkew e.learnedAt.wallMs now
    libraries := remote.libraries.filter fun _ e =>
      !(wallExceedsForwardSkew e.addedAt.wallMs now ||
        e.removedAt.any fun rm => wallExceedsForwardSkew rm.wallMs now)
    friendGraph :=
      remote.friendGraph.filter fun _ e => !wallExceedsForwardSkew e.learnedAt.wallMs now
    fileGrants := remote.fileGrants.filterMap fun _ grants =>
      if grants ≠ [] ∧ grants.filter (grantInTime now) = [] then none
      else some (grants.filter (grantInTime now))
    dismissedReceivedGrants :=
      remote.dismissedReceivedGrants.filter fun _ d => !wallExceedsForwardSkew d now
    receivedFileGrants :=
      remote.receivedFileGrants.filter fun _ g => !wallExceedsForwardSkew g.receivedAt now }

/-- The sweeps of a merge find nothing to remove in the state. -/
structure Settled (s : OwnerState) : Prop where
  spaces : ∀ (id : SpaceId) (sp : Space), s.spaces[id]? = some sp → s.dominated sp = false
  revoked : ∀ (owner : OwnerAddr) (set : Finset ℕ), s.revokedDmDevices[owner]? = some set →
    isRevokedFriend s.friendGraph owner = false
  fileDeks : ∀ (cid : ContentId) (dek), s.fileDeks[cid]? = some dek → cid ∉ s.burnedContent
  fileGrants : ∀ (cid : ContentId) (grants), s.fileGrants[cid]? = some grants →
    cid ∉ s.burnedContent
  received : ∀ (cid : ContentId) (g : ReceivedFileGrant), s.receivedFileGrants[cid]? = some g →
    activeAt s.dismissedReceivedGrants[cid]? g.receivedAt = true

/-- Under every content id whose grants are all ahead of the clock the receiver holds a
sorted list, or the content is burned on either side. -/
def SkewedGrantsHeld (s remote : OwnerState) : Prop :=
  ∀ (cid : ContentId) (grants : List GrantEntry), remote.fileGrants[cid]? = some grants →
    grants ≠ [] → grants.filter (grantInTime now) = [] →
      cid ∈ s.burnedContent ∪ remote.burnedContent ∨
        ∃ held, s.fileGrants[cid]? = some held ∧ sortBy GrantEntry.sortKey held = held

/-- Merging a snapshot merges it without its skewed records; a snapshot of nothing else
leaves the state as it was. -/
structure SkewedLeaveNoTrace (s remote : OwnerState) : Prop where
  merge : s.mergeRemoteIntoLocal keys now remote =
    s.mergeRemoteIntoLocal keys now (remote.withoutSkewed now)
  only : remote.withoutSkewed now = {} → s.mergeRemoteIntoLocal keys now remote = s

section Loops

variable {keys now}

theorem mergeConversations_withoutSkewed (s remote : OwnerState) :
    s.mergeConversations now (remote.withoutSkewed now) = s.mergeConversations now remote := by
  have hspaces := foldl_filter_skip (f := fun s _ sp => mergeSpace now s sp)
    (p := fun _ sp => !wallExceedsForwardSkew sp.updatedAt.wallMs now) remote.spaces
    fun s _ sp hp => by simp_all [mergeSpace]
  have hmarkers := foldl_filter_skip (f := fun t _ m => mergeMarker now t m)
    (p := fun _ m => !wallExceedsForwardSkew m.lastReadAt.wallMs now) remote.markers
    fun s _ m hp => by simp_all [mergeMarker]
  have htombs := foldl_filter_skip (f := mergeDedupeTombstone now)
    (p := fun _ t => !wallExceedsForwardSkew t.wallMs now) remote.dedupeTombstones
    fun s _ t hp => by simp_all [mergeDedupeTombstone]
  simp only [mergeConversations, withoutSkewed, hspaces, hmarkers, htombs]

theorem mergePeers_withoutSkewed (s remote : OwnerState) :
    s.mergePeers keys now (remote.withoutSkewed now) = s.mergePeers keys now remote := by
  have hdevices := foldl_filter_skip (f := mergeDevices keys now)
    (p := fun _ e => !wallExceedsForwardSkew e.learnedAt.wallMs now) remote.ownerDeviceCache
    fun s _ e hp => by simp_all [mergeDevices]
  have hlibraries := foldl_filter_skip (f := mergeLibrary now)
    (p := fun _ e => !(wallExceedsForwardSkew e.addedAt.wallMs now ||
      e.removedAt.any fun rm => wallExceedsForwardSkew rm.wallMs now)) remote.libraries
    fun s _ e hp => by simp only [mergeLibrary, Bool.not_eq_false'] at hp ⊢; rw [if_pos hp]
  have hfriends := foldl_filter_skip (f := mergeFriend keys now)
    (p := fun _ e => !wallExceedsForwardSkew e.learnedAt.wallMs now) remote.friendGraph
    fun s _ e hp => by simp_all [mergeFriend]
  simp only [mergePeers, withoutSkewed, hdevices, hlibraries, hfriends]

variable {s remote : OwnerState}

theorem mergeFileGrants_get (t : BTreeMap ContentId (List GrantEntry)) (s : OwnerState)
    (cid : ContentId) :
    (t.foldl (mergeFileGrants now) s.fileGrants)[cid]? =
      t[cid]?.elim s.fileGrants[cid]? fun grants =>
        some (sortBy GrantEntry.sortKey
          ((grants.filter (grantInTime now)).foldl joinGrant (s.fileGrants[cid]?.getD []))) := by
  have hsteps : StepsAtKey (fun (t : BTreeMap ContentId (List GrantEntry)) cid => t[cid]?)
      (mergeFileGrants now) fun _ grants old => some (sortBy GrantEntry.sortKey
        ((grants.filter (grantInTime now)).foldl joinGrant (old.getD []))) := by
    intro t k grants a
    simp only [mergeFileGrants, BTreeMap.get_insert]
    split_ifs with hk
    · rw [hk]
      rfl
    · rfl
  exact hsteps.foldl t s.fileGrants cid

/-- The two grant maps agree at a content id unless all its grants are ahead of the clock
and the receiver's list shows it. -/
theorem mergeFileGrants_withoutSkewed_get (s remote : OwnerState) (cid : ContentId) :
    ((remote.withoutSkewed now).fileGrants.foldl (mergeFileGrants now) s.fileGrants)[cid]? =
        (remote.fileGrants.foldl (mergeFileGrants now) s.fileGrants)[cid]? ↔
      ∀ grants, remote.fileGrants[cid]? = some grants → grants ≠ [] →
        grants.filter (grantInTime now) = [] →
          ∃ held, s.fileGrants[cid]? = some held ∧ sortBy GrantEntry.sortKey held = held := by
  have hclean : (remote.withoutSkewed now).fileGrants[cid]? = remote.fileGrants[cid]?.bind fun grants =>
      if grants ≠ [] ∧ grants.filter (grantInTime now) = [] then none
      else some (grants.filter (grantInTime now)) :=
    Std.ExtTreeMap.getElem?_filterMap'
  rw [mergeFileGrants_get, mergeFileGrants_get, hclean]
  cases hr : remote.fileGrants[cid]? with
  | none => simp
  | some grants =>
    rw [Option.bind_some, Option.elim_some]
    by_cases hall : grants ≠ [] ∧ grants.filter (grantInTime now) = []
    · rw [if_pos hall, Option.elim_none, hall.2, List.foldl_nil]
      constructor
      · rintro hsame _ hg - -
        cases hs : s.fileGrants[cid]? with
        | none => simp [hs] at hsame
        | some held =>
          rw [hs, Option.getD_some, Option.some.injEq] at hsame
          exact ⟨held, rfl, hsame.symm⟩
      · intro hheld
        obtain ⟨held, hs, hsorted⟩ := hheld grants rfl hall.1 hall.2
        rw [hs, Option.getD_some, hsorted]
    · rw [if_neg hall, Option.elim_some, List.filter_filter]
      simp only [Bool.and_self, true_iff]
      rintro _ ⟨⟩ hne hnil
      exact absurd ⟨hne, hnil⟩ hall

theorem mergeFiles_withoutSkewed (s remote : OwnerState) :
    s.mergeFiles now (remote.withoutSkewed now) =
      { s.mergeFiles now remote with
        fileGrants :=
          ((remote.withoutSkewed now).fileGrants.foldl (mergeFileGrants now) s.fileGrants).filter
            fun cid _ => cid ∉ s.burnedContent ∪ remote.burnedContent } := by
  have hdismissed := foldl_filter_skip (f := mergeDismissed now)
    (p := fun _ d => !wallExceedsForwardSkew d now) remote.dismissedReceivedGrants
    fun s _ d hp => by simp_all [mergeDismissed]
  have hreceived := fun dismissed => foldl_filter_skip (f := mergeReceivedGrant now dismissed)
    (p := fun _ g => !wallExceedsForwardSkew g.receivedAt now) remote.receivedFileGrants
    fun s _ g hp => by simp_all [mergeReceivedGrant]
  simp only [mergeFiles, withoutSkewed, hdismissed, hreceived]
  rfl

theorem mergeFiles_withoutSkewed_eq_iff (s remote : OwnerState) :
    s.mergeFiles now remote = s.mergeFiles now (remote.withoutSkewed now) ↔
      SkewedGrantsHeld now s remote := by
  have hiff : s.mergeFiles now remote = s.mergeFiles now (remote.withoutSkewed now) ↔
      (s.mergeFiles now remote).fileGrants =
        (s.mergeFiles now (remote.withoutSkewed now)).fileGrants := by
    refine ⟨congrArg fileGrants, fun h => ?_⟩
    have hgrants := h.trans (congrArg fileGrants (mergeFiles_withoutSkewed s remote))
    dsimp only at hgrants
    rw [mergeFiles_withoutSkewed, ← hgrants]
  rw [hiff, mergeFiles_withoutSkewed]
  simp only [mergeFiles]
  constructor
  · intro h cid grants hr hne hnil
    by_cases hburn : cid ∈ s.burnedContent ∪ remote.burnedContent
    · exact Or.inl hburn
    · right
      have hget := congrArg (fun t : BTreeMap ContentId (List GrantEntry) => t[cid]?) h
      have hall : ∀ o : Option (List GrantEntry), o.filter (fun _ => true) = o := by
        intro o
        cases o <;> rfl
      simp only [Std.ExtTreeMap.getElem?_filter', hburn, not_false_eq_true, decide_true, hall] at hget
      exact (mergeFileGrants_withoutSkewed_get s remote cid).mp hget.symm grants hr hne hnil
  · intro h
    refine Std.ExtTreeMap.ext_getElem? fun cid => ?_
    rw [Std.ExtTreeMap.getElem?_filter', Std.ExtTreeMap.getElem?_filter']
    by_cases hburn : cid ∈ s.burnedContent ∪ remote.burnedContent
    · simp [hburn]
    · rw [(mergeFileGrants_withoutSkewed_get s remote cid).mpr fun grants hr hne hnil =>
        (h cid grants hr hne hnil).resolve_left hburn]

theorem foldl_empty {κ υ σ : Type} [Ord κ] [Std.TransOrd κ] (step : σ → κ → υ → σ) (s : σ) :
    (∅ : BTreeMap κ υ).foldl step s = s := rfl

theorem mergeConversations_empty (s : OwnerState) :
    s.mergeConversations now {} = s.dedupeDominated.foldl tombstoneSpace s := by
  simp [mergeConversations, foldl_empty]

theorem dedupeDominated_eq_nil_iff (s : OwnerState) :
    s.dedupeDominated = [] ↔
      ∀ (id : SpaceId) (sp : Space), s.spaces[id]? = some sp → s.dominated sp = false := by
  rw [dedupeDominated, List.map_eq_nil_iff, List.filter_eq_nil_iff]
  constructor
  · intro h id sp hsp
    simpa using h (id, sp) (mem_toList_iff.mpr hsp)
  · intro h p hp
    simpa using h p.1 p.2 (mem_toList_iff.mp hp)

theorem dedupeDominated_eq_nil {s : OwnerState}
    (h : (s.dedupeDominated.foldl tombstoneSpace s).spaces = s.spaces) : s.dedupeDominated = [] := by
  rw [List.eq_nil_iff_forall_not_mem]
  intro id hid
  obtain ⟨p, hp, rfl⟩ := List.mem_map.mp hid
  have hheld : s.spaces[p.1]? = some p.2 := mem_toList_iff.mp (List.mem_of_mem_filter hp)
  rw [← h, foldl_tombstoneSpace_get, if_pos hid] at hheld
  cases hheld

theorem foldl_tombstoneSpace_eq (ids : List SpaceId) (s : OwnerState) :
    ∃ spaces tombstones, ids.foldl tombstoneSpace s =
      { s with spaces := spaces, tombstones := tombstones } := by
  induction ids generalizing s with
  | nil => exact ⟨s.spaces, s.tombstones, rfl⟩
  | cons id ids ih =>
    obtain ⟨spaces, tombstones, h⟩ := ih (s.tombstoneSpace id)
    exact ⟨spaces, tombstones, h⟩

theorem mergeRemoteIntoLocal_empty (s : OwnerState) :
    s.mergeRemoteIntoLocal keys now {} =
      { s.dedupeDominated.foldl tombstoneSpace s with
        revokedDmDevices := s.revokedDmDevices.filter fun owner _ =>
          !isRevokedFriend s.friendGraph owner
        fileDeks := s.fileDeks.filter fun cid _ => cid ∉ s.burnedContent
        fileGrants := s.fileGrants.filter fun cid _ => cid ∉ s.burnedContent
        receivedFileGrants := s.receivedFileGrants.filter fun cid g =>
          activeAt s.dismissedReceivedGrants[cid]? g.receivedAt } := by
  obtain ⟨spaces, tombstones, h⟩ := foldl_tombstoneSpace_eq s.dedupeDominated s
  rw [mergeRemoteIntoLocal, mergeConversations_empty, h]
  simp [mergePeers, mergeFiles, foldl_empty]

theorem mergeRemoteIntoLocal_empty_eq_self_iff (s : OwnerState) :
    s.mergeRemoteIntoLocal keys now {} = s ↔ Settled s := by
  have hrevoked := filter_eq_self_iff
    (p := fun owner _ => !isRevokedFriend s.friendGraph owner) s.revokedDmDevices
  have hdeks := filter_eq_self_iff (p := fun cid _ => decide (cid ∉ s.burnedContent)) s.fileDeks
  have hgrants := filter_eq_self_iff (p := fun cid _ => decide (cid ∉ s.burnedContent)) s.fileGrants
  have hreceived := filter_eq_self_iff
    (p := fun cid g => activeAt s.dismissedReceivedGrants[cid]? g.receivedAt) s.receivedFileGrants
  simp only [Bool.not_eq_true', decide_eq_true_eq] at hrevoked hdeks hgrants
  rw [mergeRemoteIntoLocal_empty]
  constructor
  · intro h
    refine ⟨?_, ?_, ?_, ?_, ?_⟩
    · exact (dedupeDominated_eq_nil_iff s).mp
        (dedupeDominated_eq_nil (congrArg (fun t : OwnerState => t.spaces) h :))
    · exact hrevoked.mp (congrArg revokedDmDevices h)
    · exact hdeks.mp (congrArg fileDeks h)
    · exact hgrants.mp (congrArg fileGrants h)
    · exact hreceived.mp (congrArg receivedFileGrants h)
  · rintro ⟨h1, h2, h3, h4, h5⟩
    rw [(dedupeDominated_eq_nil_iff s).mpr h1, hrevoked.mpr h2, hdeks.mpr h3, hgrants.mpr h4, hreceived.mpr h5]
    rfl

theorem mergePeers_files (s remote : OwnerState) :
    ((s.mergeConversations now remote).mergePeers keys now remote).fileGrants = s.fileGrants ∧
      ((s.mergeConversations now remote).mergePeers keys now remote).burnedContent =
        s.burnedContent := by
  have hrest := mergeConversations_rest now s remote
  exact ⟨(congrArg (fun t : OwnerState => t.fileGrants) hrest :),
    (congrArg (fun t : OwnerState => t.burnedContent) hrest :)⟩

theorem mergeRemoteIntoLocal_withoutSkewed_iff (s remote : OwnerState) :
    s.mergeRemoteIntoLocal keys now remote =
        s.mergeRemoteIntoLocal keys now (remote.withoutSkewed now) ↔
      SkewedGrantsHeld now s remote := by
  rw [mergeRemoteIntoLocal, mergeRemoteIntoLocal, mergeConversations_withoutSkewed,
    mergePeers_withoutSkewed, mergeFiles_withoutSkewed_eq_iff, SkewedGrantsHeld, SkewedGrantsHeld,
    (mergePeers_files s remote).1, (mergePeers_files s remote).2]

/-- Skewed records leave no trace exactly when the grant lists they fill are held, sorted,
by the receiver or burned; where nothing else came, the receiver's own sweeps must
have nothing to do. -/
theorem skewedLeaveNoTrace_iff (s remote : OwnerState) :
    SkewedLeaveNoTrace keys now s remote ↔
      SkewedGrantsHeld now s remote ∧ (remote.withoutSkewed now = {} → Settled s) := by
  constructor
  · rintro ⟨hmerge, honly⟩
    refine ⟨(mergeRemoteIntoLocal_withoutSkewed_iff s remote).mp hmerge, fun hnothing => ?_⟩
    have hs := honly hnothing
    rw [hmerge, hnothing] at hs
    exact (mergeRemoteIntoLocal_empty_eq_self_iff s).mp hs
  · rintro ⟨hheld, hsettled⟩
    have hmerge : s.mergeRemoteIntoLocal keys now remote =
        s.mergeRemoteIntoLocal keys now (remote.withoutSkewed now) :=
      (mergeRemoteIntoLocal_withoutSkewed_iff s remote).mpr hheld
    refine ⟨hmerge, fun hnothing => ?_⟩
    rw [hmerge, hnothing]
    exact (mergeRemoteIntoLocal_empty_eq_self_iff s).mpr (hsettled hnothing)

end Loops

def futureGrant : OwnerState where
  fileGrants := (∅ : BTreeMap ContentId (List GrantEntry)).insert 5 [⟨1, 3600000, 0⟩]

theorem future_grant_leaves_entry :
    ¬SkewedLeaveNoTrace ⟨fun _ => none, fun master => master⟩ (some 0) {} futureGrant := by
  intro h
  have hget := congrArg (fun s : OwnerState => s.fileGrants[5]?) h.merge
  revert hget
  decide +kernel

end OwnerState
end Harmony.Owner
