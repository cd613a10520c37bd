import Harmony.Owner.Collapse
import Harmony.Owner.Semilattice

/-! Merging two states of one owner joins what they read in each register, so the order and
the grouping of merges do not matter, as long as no conversation changes its id and no
stamp lies ahead of the clocks. -/

namespace Harmony.Owner

open Harmony.Lib
open Harmony.Membership (OwnerAddr SpaceId Hlc Bytes)

namespace OwnerState

/-- The stamps that a merge checks against its clock all pass. -/
structure Timely (now : Option ℕ) (s : OwnerState) : Prop where
  markers : ∀ (id : SpaceId) (m : ReadMarker), s.markers[id]? = some m →
    wallExceedsForwardSkew m.lastReadAt.wallMs now = false
  libraries : ∀ (addr : OwnerAddr) (e : LibraryEntry), s.libraries[addr]? = some e →
    wallExceedsForwardSkew e.addedAt.wallMs now = false ∧
      ∀ rm, e.removedAt = some rm → wallExceedsForwardSkew rm.wallMs now = false
  friends : ∀ (addr : OwnerAddr) (e : FriendEntry), s.friendGraph[addr]? = some e →
    wallExceedsForwardSkew e.learnedAt.wallMs now = false
  grants : ∀ (cid : ContentId) (rows : List GrantEntry), s.fileGrants[cid]? = some rows →
    ∀ g ∈ rows, wallExceedsForwardSkew g.grantedAt now = false ∧
      wallExceedsForwardSkew g.revokedAt now = false

/-- Each map is looked through row by row. -/
instance (now : Option ℕ) (s : OwnerState) : Decidable (s.Timely now) :=
  decidable_of_iff
    ((∀ p ∈ s.markers.toList, wallExceedsForwardSkew p.2.lastReadAt.wallMs now = false) ∧
      (∀ p ∈ s.libraries.toList, wallExceedsForwardSkew p.2.addedAt.wallMs now = false ∧
        ∀ rm ∈ p.2.removedAt, wallExceedsForwardSkew rm.wallMs now = false) ∧
      (∀ p ∈ s.friendGraph.toList, wallExceedsForwardSkew p.2.learnedAt.wallMs now = false) ∧
      ∀ p ∈ s.fileGrants.toList, ∀ g ∈ p.2, wallExceedsForwardSkew g.grantedAt now = false ∧
        wallExceedsForwardSkew g.revokedAt now = false)
    ⟨fun ⟨hmarkers, hlibraries, hfriends, hgrants⟩ =>
      ⟨fun id m hm => hmarkers (id, m) (mem_toList_iff.mpr hm),
        fun addr e he => hlibraries (addr, e) (mem_toList_iff.mpr he),
        fun addr e he => hfriends (addr, e) (mem_toList_iff.mpr he),
        fun cid rows hrows => hgrants (cid, rows) (mem_toList_iff.mpr hrows)⟩,
    fun h => ⟨fun p hp => h.markers p.1 p.2 (mem_toList_iff.mp hp),
      fun p hp => h.libraries p.1 p.2 (mem_toList_iff.mp hp),
      fun p hp => h.friends p.1 p.2 (mem_toList_iff.mp hp),
      fun p hp => h.grants p.1 p.2 (mem_toList_iff.mp hp)⟩⟩

/-- Records of one key that describe one thing: a message has one envelope, and two entries of
one stamp are one entry. -/
structure Meet (s t : OwnerState) : Prop where
  outbox : ∀ (id : OutboxEntryId) (x y : OutboxEntry), s.outbox[id]? = some x →
    t.outbox[id]? = some y → x.spaceId = y.spaceId ∧ x.SameEnvelope y
  inbox : ∀ (k : InboxKey) (x y : InboxEntry), s.inbox[k]? = some x → t.inbox[k]? = some y →
    x.receivedAt = y.receivedAt → x = y
  libraries : ∀ (addr : OwnerAddr) (x y : LibraryEntry), s.libraries[addr]? = some x →
    t.libraries[addr]? = some y → x.latest = y.latest → x = y
  friends : ∀ (addr : OwnerAddr) (x y : FriendEntry), s.friendGraph[addr]? = some x →
    t.friendGraph[addr]? = some y → x.learnedAt = y.learnedAt → x = y

instance (s t : OwnerState) : Decidable (s.Meet t) :=
  decidable_of_iff
    ((∀ p ∈ s.outbox.toList, ∀ y ∈ t.outbox[p.1]?,
        p.2.spaceId = y.spaceId ∧ p.2.SameEnvelope y) ∧
      (∀ p ∈ s.inbox.toList, ∀ y ∈ t.inbox[p.1]?, p.2.receivedAt = y.receivedAt → p.2 = y) ∧
      (∀ p ∈ s.libraries.toList, ∀ y ∈ t.libraries[p.1]?, p.2.latest = y.latest → p.2 = y) ∧
      ∀ p ∈ s.friendGraph.toList, ∀ y ∈ t.friendGraph[p.1]?,
        p.2.learnedAt = y.learnedAt → p.2 = y)
    ⟨fun ⟨houtbox, hinbox, hlibraries, hfriends⟩ =>
      ⟨fun id x y hx => houtbox (id, x) (mem_toList_iff.mpr hx) y,
        fun k x y hx => hinbox (k, x) (mem_toList_iff.mpr hx) y,
        fun addr x y hx => hlibraries (addr, x) (mem_toList_iff.mpr hx) y,
        fun addr x y hx => hfriends (addr, x) (mem_toList_iff.mpr hx) y⟩,
    fun h => ⟨fun p hp y => h.outbox p.1 p.2 y (mem_toList_iff.mp hp),
      fun p hp y => h.inbox p.1 p.2 y (mem_toList_iff.mp hp),
      fun p hp y => h.libraries p.1 p.2 y (mem_toList_iff.mp hp),
      fun p hp y => h.friends p.1 p.2 y (mem_toList_iff.mp hp)⟩⟩

/-- Row after row, none that is taken up collapses two ids of one conversation. -/
def CollapseFree (now : Option ℕ) : OwnerState → List Space → Prop
  | _, [] => True
  | s, sp :: rows =>
    (wallExceedsForwardSkew sp.updatedAt.wallMs now ∨
        ∀ loser, (s.applySpaceWithCanonicalization sp).2 ≠ .merged (some loser)) ∧
      CollapseFree now (s.mergeSpace now sp) rows

def NoCollapse (now : Option ℕ) (s remote : OwnerState) : Prop :=
  CollapseFree now (s.sweepOutbox remote) (remote.spaces.toList.map Prod.snd)

section Merged

variable {keys : IdentityKeys} {now : Option ℕ} {s t : OwnerState}

theorem CollapseFree.records {rows : List Space} (h : CollapseFree now s rows) :
    (rows.foldl (fun s sp => s.mergeSpace now sp) s).records = s.records := by
  induction rows generalizing s with
  | nil => rfl
  | cons sp rows ih =>
    obtain ⟨hsp, hrows⟩ := h
    rw [List.foldl_cons, ih hrows]
    unfold mergeSpace
    split_ifs with hskew
    · rfl
    · rcases s.applySpaceWithCanonicalization_cases sp with ⟨spaces, heq⟩ | ⟨_, loser, _, hout, -⟩
      · rw [heq]
        rfl
      · exact absurd hout ((hsp.resolve_left hskew) loser)

theorem NoCollapse.records (h : NoCollapse now s t) :
    (s.beforeDeletions now t).records = (s.sweepOutbox t).records := by
  rw [beforeDeletions, mergeSpaces, Std.ExtTreeMap.foldl_eq_foldl_toList]
  have hrec := CollapseFree.records h
  rwa [List.foldl_map] at hrec

/-! ### Joined readings -/

theorem Sound.copies (hs : Sound keys s) (ht : Sound keys t) (h : s.Meet t) {id : OutboxEntryId}
    {x y : OutboxEntry} (hx : s.outbox[id]? = some x) (hy : t.outbox[id]? = some y) : x.Copies y := by
  have hxs := hs.outbox id x hx
  have hys := ht.outbox id y hy
  have hxy := h.outbox id x y hx hy
  exact ⟨hxs.ownId.trans hys.ownId.symm, hxy.1, hxy.2, hxs.status, hys.status⟩

theorem sweepOutbox_read (hs : Sound keys s) (t : OwnerState) (k : OutboxEntryId) :
    (s.sweepOutbox t).outboxTombstones[k]? =
        latest id s.outboxTombstones[k]? t.outboxTombstones[k]? ∧
      (s.sweepOutbox t).outbox[k]? =
        Lib.swept postdates (s.sweepOutbox t).outboxTombstones[k]? s.outbox[k]? := by
  have h := sweepOutbox_get s t k
  cases htomb : t.outboxTombstones[k]? with
  | none =>
    rw [htomb, Option.elim_none, Prod.mk.injEq] at h
    rw [h.1, h.2, latest_none, hs.outbox.swept]
    exact ⟨rfl, rfl⟩
  | some h' =>
    rw [htomb, Option.elim_some, Prod.mk.injEq] at h
    rw [h.1, h.2]
    refine ⟨?_, rfl⟩
    cases s.outboxTombstones[k]? with
    | none => rfl
    | some a =>
      rw [latest_some_some, laterStamp, Option.elim_some, id, id]
      split_ifs with hlt
      · rw [max_eq_left hlt.le]
      · rw [max_eq_right (not_lt.mp hlt)]

theorem NoCollapse.merged_records (hfree : NoCollapse now s t) (keys : IdentityKeys) :
    (s.mergeRemoteIntoLocal keys now t).records =
      (t.outbox.foldl (fun m _ e => (putOutbox (s.sweepOutbox t).outboxTombstones m e).1)
          (s.sweepOutbox t).outbox,
        t.inbox.foldl (fun m _ e => (putInbox m e).1) s.inbox,
        t.markers.foldl (fun m _ e => mergeMarker now m e) s.markers) := by
  have hrec := hfree.records
  rw [OwnerState.records, OwnerState.records, Prod.mk.injEq, Prod.mk.injEq] at hrec
  obtain ⟨hout, hin, hmark⟩ := hrec
  rw [(mergeRemoteIntoLocal_records keys now s t).1, hout, hin, hmark]
  rfl

theorem outboxAt_joined (hs : Sound keys s) (ht : Sound keys t) (hfree : NoCollapse now s t)
    {k : OutboxEntryId} (hR : (outboxAt k).MeetsIn s t) :
    (outboxAt k).Joined s t (s.mergeRemoteIntoLocal keys now t) := by
  obtain ⟨htomb, hswept⟩ := sweepOutbox_read hs t k
  have hmerged := congrArg Prod.fst (hfree.merged_records keys)
  dsimp only [records] at hmerged
  have hown : ∀ (id : OutboxEntryId) (e : OutboxEntry), t.outbox[id]? = some e → e.id = id :=
    fun id e he => (ht.outbox id e he).ownId
  change ((s.mergeRemoteIntoLocal keys now t).outboxTombstones[k]?,
    (s.mergeRemoteIntoLocal keys now t).outbox[k]?) = joinSwept _ _ _ (_, _) (_, _)
  rw [(mergeRemoteIntoLocal_records keys now s t).2.1, hmerged, foldl_putOutbox_get _ hown, joinSwept]
  dsimp only
  rw [← htomb]
  cases he : t.outbox[k]? with
  | none => rw [Option.elim_none, Option.merge_none_right, hswept]
  | some e =>
    have hcopies : ∀ x, s.outbox[k]? = some x → x.Copies e := fun x hx => hR.meets x hx e he
    rw [Option.elim_some, hswept, received_swept (ht.outbox k e he) hcopies]

theorem inboxAt_joined (ht : Sound keys t) (hfree : NoCollapse now s t) (k : InboxKey) :
    (inboxAt k).Joined s t (s.mergeRemoteIntoLocal keys now t) := by
  have hmerged := congrArg (fun r => r.2.1) (hfree.merged_records keys)
  dsimp only [records] at hmerged
  change (s.mergeRemoteIntoLocal keys now t).inbox[k]? = latest _ s.inbox[k]? t.inbox[k]?
  rw [hmerged, foldl_putInbox_get ht.inbox]
  cases t.inbox[k]? with
  | none => rw [Option.elim_none, latest_none]
  | some e => rw [Option.elim_some, latest_receivedAt]

theorem markerAt_joined (ht : Sound keys t) (htime : t.Timely now) (hfree : NoCollapse now s t)
    (id : SpaceId) : (markerAt id).Joined s t (s.mergeRemoteIntoLocal keys now t) := by
  have hmerged := congrArg (fun r => r.2.2) (hfree.merged_records keys)
  dsimp only [records] at hmerged
  change (s.mergeRemoteIntoLocal keys now t).markers[id]? = latest _ s.markers[id]? t.markers[id]?
  rw [hmerged, foldl_mergeMarker_get now ht.markers]
  cases hm : t.markers[id]? with
  | none => rw [Option.elim_none, latest_none]
  | some m => rw [Option.elim_some, htime.markers id m hm, if_neg (by simp), latest_lastReadAt]

theorem libraryAt_joined (htime : t.Timely now) (addr : OwnerAddr) :
    (libraryAt addr).Joined s t (s.mergeRemoteIntoLocal keys now t) := by
  change (s.mergeRemoteIntoLocal keys now t).libraries[addr]? =
    latest _ s.libraries[addr]? t.libraries[addr]?
  rw [(mergedRest keys now s t).libraries, foldl_mergeLibrary_get]
  cases he : t.libraries[addr]? with
  | none => rw [Option.elim_none, latest_none]
  | some e =>
    obtain ⟨hadded, hremoved⟩ := htime.libraries addr e he
    have hrm : (e.removedAt.any fun rm => wallExceedsForwardSkew rm.wallMs now) = false := by
      cases hr : e.removedAt with
      | none => rfl
      | some rm => exact hremoved rm hr
    rw [Option.elim_some, hadded, hrm, if_neg (by simp)]

theorem friendAt_joined (ht : Sound keys t) (htime : t.Timely now) (addr : OwnerAddr) :
    (friendAt addr).Joined s t (s.mergeRemoteIntoLocal keys now t) := by
  change (s.mergeRemoteIntoLocal keys now t).friendGraph[addr]? =
    latest _ s.friendGraph[addr]? t.friendGraph[addr]?
  rw [(mergedRest keys now s t).friends, foldl_mergeFriend_get]
  cases he : t.friendGraph[addr]? with
  | none => rw [Option.elim_none, latest_none]
  | some e =>
    rw [Option.elim_some, htime.friends addr e he, if_neg (by simp),
      if_neg (not_not.mpr (ht.friends addr e he))]

def Unrevoked (s : OwnerState) (owner : OwnerAddr) : Prop :=
  isRevokedFriend s.friendGraph owner = false

theorem Unrevoked.merge (ht : Sound keys t) (htime : t.Timely now) {owner : OwnerAddr}
    (hus : s.Unrevoked owner) (hut : t.Unrevoked owner) :
    (s.mergeRemoteIntoLocal keys now t).Unrevoked owner := by
  have hfriend : (s.mergeRemoteIntoLocal keys now t).friendGraph[owner]? =
      latest _ s.friendGraph[owner]? t.friendGraph[owner]? := friendAt_joined ht htime owner
  unfold Unrevoked isRevokedFriend at hus hut ⊢
  rw [hfriend]
  rcases latest_eq_or FriendEntry.learnedAt s.friendGraph[owner]? t.friendGraph[owner]? with h | h <;>
    rw [h]
  · exact hus
  · exact hut

theorem revokedDmDevicesAt_joined (ht : Sound keys t) (htime : t.Timely now) {owner : OwnerAddr}
    (hus : s.Unrevoked owner) (hut : t.Unrevoked owner) :
    (revokedDmDevicesAt owner).Joined s t (s.mergeRemoteIntoLocal keys now t) := by
  have hlive : isRevokedFriend (s.mergeRemoteIntoLocal keys now t).friendGraph owner = false :=
    Unrevoked.merge ht htime hus hut
  change (s.mergeRemoteIntoLocal keys now t).revokedDmDevices[owner]? =
    Option.merge _ s.revokedDmDevices[owner]? t.revokedDmDevices[owner]?
  rw [(mergedRest keys now s t).revoked, Std.ExtTreeMap.getElem?_filter', hlive,
    foldl_mergeRevoked_get]
  have hkeep : ∀ o : Option (Finset ℕ), (o.filter fun _ => !false) = o := fun o => by
    cases o <;> rfl
  rw [hkeep]
  cases hset : t.revokedDmDevices[owner]? with
  | none => rw [Option.elim_none, Option.merge_none_right]
  | some set =>
    rw [Option.elim_some, capRevoked_eq]
    cases s.revokedDmDevices[owner]? with
    | none =>
      rw [Option.getD_none, Finset.empty_union, Option.merge_none_left,
        smallest_of_card_le (ht.revoked owner set hset), Finset.sort_toFinset]
    | some old => rfl

theorem mem_burned_merged (keys : IdentityKeys) (now : Option ℕ) (s t : OwnerState) (cid : ContentId) :
    decide (cid ∈ (s.mergeRemoteIntoLocal keys now t).burnedContent) =
      (decide (cid ∈ s.burnedContent) || decide (cid ∈ t.burnedContent)) := by
  rw [(mergedRest keys now s t).burned]
  simp

theorem fileDekAt_joined (cid : ContentId) :
    (fileDekAt cid).Joined s t (s.mergeRemoteIntoLocal keys now t) := by
  have hflag := mem_burned_merged keys now s t cid
  change (_, (s.mergeRemoteIntoLocal keys now t).fileDeks[cid]?.map _) = joinSwept _ _ _ (_, _) (_, _)
  rw [(mergedRest keys now s t).deks, Std.ExtTreeMap.getElem?_filter', foldl_mergeFileDek_get,
    joinSwept]
  dsimp only
  rw [← hflag]
  refine Prod.ext rfl ?_
  cases t.fileDeks[cid]? <;> cases s.fileDeks[cid]? <;>
    by_cases hb : cid ∈ (s.mergeRemoteIntoLocal keys now t).burnedContent <;>
    simp [Lib.swept, Option.filter_some, hb]

theorem foldl_mergeFileGrants_rows (hs : Sound keys s) (ht : Sound keys t) (htime : t.Timely now)
    (cid : ContentId) :
    (t.fileGrants.foldl (mergeFileGrants now) s.fileGrants)[cid]?.map rowOf =
      Option.merge (fun f g a => Option.merge (fun e g => g.meet e) (f a) (g a))
        (s.fileGrants[cid]?.map rowOf) (t.fileGrants[cid]?.map rowOf) := by
  rw [foldl_mergeFileGrants_get]
  cases hgs : t.fileGrants[cid]? with
  | none => rw [Option.elim_none, Option.map_none, Option.merge_none_right]
  | some gs =>
    have hall : (gs.filter fun g => !(wallExceedsForwardSkew g.grantedAt now ||
        wallExceedsForwardSkew g.revokedAt now)) = gs := by
      rw [List.filter_eq_self]
      intro g hg
      rw [(htime.grants cid gs hgs g hg).1, (htime.grants cid gs hgs g hg).2]
      rfl
    have hone := (ht.files.grants cid gs hgs).2
    rw [Option.elim_some, hall, Option.map_some, Option.map_some]
    cases hrows : s.fileGrants[cid]? with
    | none =>
      have hnil : OneRowEach [] := List.nodup_nil
      rw [Option.getD_none, rowOf_mergedGrants hnil hone, Option.map_none, Option.merge_none_left]
      exact congrArg some (funext fun a => Option.merge_none_left)
    | some rows =>
      rw [Option.getD_some, rowOf_mergedGrants (hs.files.grants cid rows hrows).2 hone]
      rfl

theorem fileGrantsAt_joined (hs : Sound keys s) (ht : Sound keys t) (htime : t.Timely now)
    (cid : ContentId) : (fileGrantsAt cid).Joined s t (s.mergeRemoteIntoLocal keys now t) := by
  have hflag := mem_burned_merged keys now s t cid
  change (_, (s.mergeRemoteIntoLocal keys now t).fileGrants[cid]?.map _) =
    joinSwept _ _ _ (_, _) (_, _)
  have hfilter : ∀ (o : Option (List GrantEntry)) (b : Bool),
      (o.filter fun _ => b).map rowOf = (o.map rowOf).filter fun _ => b := fun o b => by
    cases o <;> cases b <;> rfl
  rw [(mergedRest keys now s t).grants, Std.ExtTreeMap.getElem?_filter', hfilter,
    foldl_mergeFileGrants_rows hs ht htime, joinSwept]
  dsimp only
  rw [← hflag, Lib.swept, decide_not]

theorem Registers.joined {live : OwnerAddr → Prop} {r : Register OwnerState} (hr : Registers live r)
    (hs : Sound keys s) (ht : Sound keys t) (htime : t.Timely now) (hfree : NoCollapse now s t)
    (hus : ∀ owner, live owner → s.Unrevoked owner) (hut : ∀ owner, live owner → t.Unrevoked owner)
    (hR : r.MeetsIn s t) : r.Joined s t (s.mergeRemoteIntoLocal keys now t) := by
  cases hr with
  | outbox k => exact outboxAt_joined hs ht hfree hR
  | inbox k => exact inboxAt_joined ht hfree k
  | marker id => exact markerAt_joined ht htime hfree id
  | library addr => exact libraryAt_joined htime addr
  | friend addr => exact friendAt_joined ht htime addr
  | revoked owner h => exact revokedDmDevicesAt_joined ht htime (hus owner h) (hut owner h)
  | dek cid => exact fileDekAt_joined cid
  | grants cid => exact fileGrantsAt_joined hs ht htime cid

theorem Registers.meetsIn {live : OwnerAddr → Prop} {r : Register OwnerState} (hr : Registers live r)
    (hs : Sound keys s) (ht : Sound keys t) (h : s.Meet t) : r.MeetsIn s t := by
  cases hr with
  | outbox k =>
    exact ⟨fun x hx y hy => hs.copies ht h hx hy, hs.outbox.swept k,
      ht.outbox.swept k⟩
  | inbox k =>
    intro x y hx hy heq
    exact h.inbox k x y hx hy (OrderDual.toDual_inj.mp heq)
  | marker id =>
    intro x y hx hy heq
    have hid := (hs.markers id x hx).trans (ht.markers id y hy).symm
    cases x
    cases y
    cases hid
    cases heq
    rfl
  | library addr => exact fun x y hx hy heq => h.libraries addr x y hx hy heq
  | friend addr => exact fun x y hx hy heq => h.friends addr x y hx hy heq
  | revoked owner hlive =>
    exact fun x hx y hy => ⟨hs.revoked owner x hx, ht.revoked owner y hy⟩
  | dek cid => exact ⟨fun _ _ _ _ => trivial, hs.files.swept_dek cid, ht.files.swept_dek cid⟩
  | grants cid =>
    refine ⟨fun f hf g hg a x hx y hy => ?_, hs.files.swept_grants cid, ht.files.swept_grants cid⟩
    obtain ⟨rows, -, rfl⟩ := Option.map_eq_some_iff.mp hf
    obtain ⟨gs, -, rfl⟩ := Option.map_eq_some_iff.mp hg
    exact (rowOf_grantee hx).trans (rowOf_grantee hy).symm

/-! ### What merges keep -/

theorem merge_stamps {P : ℕ → Prop} {x y : Option GrantEntry} {g : GrantEntry}
    (h : Option.merge (fun e g => g.meet e) x y = some g)
    (hx : ∀ e, x = some e → P e.grantedAt ∧ P e.revokedAt)
    (hy : ∀ e, y = some e → P e.grantedAt ∧ P e.revokedAt) : P g.grantedAt ∧ P g.revokedAt := by
  have hmax : ∀ a b : ℕ, P a → P b → P (max a b) := fun a b ha hb => by
    rcases max_choice a b with h | h <;> rw [h] <;> assumption
  cases x with
  | none => exact hy g (Option.merge_none_left.symm.trans h)
  | some e =>
    cases y with
    | none => exact hx g (Option.merge_none_right.symm.trans h)
    | some e' =>
      rw [Option.merge_some_some, Option.some.injEq, GrantEntry.meet_eq] at h
      obtain ⟨hg, hr⟩ := hx e rfl
      obtain ⟨hg', hr'⟩ := hy e' rfl
      rw [← h]
      exact ⟨hmax _ _ hg hg', hmax _ _ hr hr'⟩

theorem merged_stamps (hs : Sound keys s) (ht : Sound keys t) (htime : t.Timely now) {cid : ContentId}
    {rows : List GrantEntry} (hrows : (s.mergeRemoteIntoLocal keys now t).fileGrants[cid]? = some rows)
    {g : GrantEntry} (hg : g ∈ rows) {P : ℕ → Prop}
    (hsp : ∀ rs, s.fileGrants[cid]? = some rs → ∀ e ∈ rs, P e.grantedAt ∧ P e.revokedAt)
    (htp : ∀ rs, t.fileGrants[cid]? = some rs → ∀ e ∈ rs, P e.grantedAt ∧ P e.revokedAt) :
    P g.grantedAt ∧ P g.revokedAt := by
  have hone := ((hs.mergeRemoteIntoLocal now t).files.grants cid rows hrows).2
  have hrow : rowOf rows g.granteeOwner = some g := (rowOf_eq_some hone).mpr ⟨hg, rfl⟩
  have hmerged := foldl_mergeFileGrants_rows hs ht htime cid
  rw [(mergedRest keys now s t).grants, Std.ExtTreeMap.getElem?_filter'] at hrows
  rw [(Option.filter_eq_some_iff.mp hrows).1, Option.map_some, eq_comm] at hmerged
  have hmem : ∀ {rs : List GrantEntry} {a : OwnerAddr} {e : GrantEntry}, rowOf rs a = some e → e ∈ rs :=
    fun h => List.mem_of_find?_eq_some h
  cases hS : s.fileGrants[cid]? with
  | none =>
    rw [hS, Option.map_none, Option.merge_none_left, Option.map_eq_some_iff] at hmerged
    obtain ⟨gs, hgs, heq⟩ := hmerged
    rw [← heq] at hrow
    exact htp gs hgs g (hmem hrow)
  | some rs =>
    cases hT : t.fileGrants[cid]? with
    | none =>
      rw [hS, hT, Option.map_none, Option.merge_none_right, Option.map_some, Option.some.injEq]
        at hmerged
      rw [← hmerged] at hrow
      exact hsp rs hS g (hmem hrow)
    | some gs =>
      rw [hS, hT, Option.map_some, Option.map_some, Option.merge_some_some, Option.some.injEq]
        at hmerged
      rw [← hmerged] at hrow
      exact merge_stamps hrow (fun e he => hsp rs hS e (hmem he)) fun e he => htp gs hT e (hmem he)

theorem Timely.merge {later : Option ℕ} (hs : Sound keys s) (ht : Sound keys t)
    (htime : t.Timely now) (hfree : NoCollapse now s t) (hsl : s.Timely later)
    (htl : t.Timely later) : (s.mergeRemoteIntoLocal keys now t).Timely later where
  markers id m hm := by
    have hread : (s.mergeRemoteIntoLocal keys now t).markers[id]? =
      latest _ s.markers[id]? t.markers[id]? := markerAt_joined ht htime hfree id
    rw [hread] at hm
    rcases latest_eq_or ReadMarker.lastReadAt s.markers[id]? t.markers[id]? with h | h
    · exact hsl.markers id m (h.symm.trans hm)
    · exact htl.markers id m (h.symm.trans hm)
  libraries addr e he := by
    have hread : (s.mergeRemoteIntoLocal keys now t).libraries[addr]? =
      latest _ s.libraries[addr]? t.libraries[addr]? := libraryAt_joined htime addr
    rw [hread] at he
    rcases latest_eq_or LibraryEntry.latest s.libraries[addr]? t.libraries[addr]? with h | h
    · exact hsl.libraries addr e (h.symm.trans he)
    · exact htl.libraries addr e (h.symm.trans he)
  friends addr e he := by
    have hread : (s.mergeRemoteIntoLocal keys now t).friendGraph[addr]? =
      latest _ s.friendGraph[addr]? t.friendGraph[addr]? := friendAt_joined ht htime addr
    rw [hread] at he
    rcases latest_eq_or FriendEntry.learnedAt s.friendGraph[addr]? t.friendGraph[addr]? with h | h
    · exact hsl.friends addr e (h.symm.trans he)
    · exact htl.friends addr e (h.symm.trans he)
  grants cid rows hrows g hg :=
    merged_stamps (P := fun stamp => wallExceedsForwardSkew stamp later = false) hs ht htime hrows hg
      (hsl.grants cid) (htl.grants cid)

end Merged

/-! ### Agreement and the laws -/

/-- States that agree in the merged registers, and for the owners in `live` in their revoked
keys: of the keys of files which there are, and grant lists up to their order. -/
structure Agree (live : OwnerAddr → Prop) (m n : OwnerState) : Prop where
  outboxTombstones : m.outboxTombstones = n.outboxTombstones
  outbox : m.outbox = n.outbox
  inbox : m.inbox = n.inbox
  markers : m.markers = n.markers
  libraries : m.libraries = n.libraries
  friendGraph : m.friendGraph = n.friendGraph
  revoked : ∀ owner, live owner → m.revokedDmDevices[owner]? = n.revokedDmDevices[owner]?
  burned : m.burnedContent = n.burnedContent
  deks : ∀ cid : ContentId, m.fileDeks[cid]?.isSome = n.fileDeks[cid]?.isSome
  grants : ∀ cid : ContentId, Option.Rel List.Perm m.fileGrants[cid]? n.fileGrants[cid]?

def revokedKeys (s : OwnerState) (owner : OwnerAddr) : Finset ℕ := s.revokedDmDevices[owner]?.getD ∅

def deliveredTo (s : OwnerState) (id : OutboxEntryId) : Finset OwnerAddr :=
  s.outbox[id]?.elim ∅ OutboxEntry.deliveredTo

def isExpired (s : OwnerState) (id : OutboxEntryId) : Bool :=
  s.outbox[id]?.any fun e => e.deliveryStatus = .expired

/-- What a merge makes of two states: a sound one, whose delivery records join the
acknowledgements and have the status of the join, where no reading position goes back and
the revoked keys of a friend are the smallest of the union. -/
structure JoinKept (keys : IdentityKeys) (s t m : OwnerState) : Prop where
  sound : Sound keys m
  delivered : ∀ (id : OutboxEntryId) (e : OutboxEntry), m.outbox[id]? = some e →
    e.deliveredTo = s.deliveredTo id ∪ t.deliveredTo id
  status : ∀ (id : OutboxEntryId) (e : OutboxEntry), m.outbox[id]? = some e →
    e.deliveryStatus = e.computeStatus (s.isExpired id || t.isExpired id)
  read : ∀ (id : SpaceId) (x : ReadMarker), s.markers[id]? = some x ∨ t.markers[id]? = some x →
    ∃ y, m.markers[id]? = some y ∧ x.lastReadAt ≤ y.lastReadAt
  revoked : ∀ owner, s.Unrevoked owner → t.Unrevoked owner →
    m.revokedKeys owner =
      (smallest maxRevokedDmDevicesPerOwner (s.revokedKeys owner ∪ t.revokedKeys owner)).toFinset

section Laws

variable {keys : IdentityKeys} {s t u m n : OwnerState} {live : OwnerAddr → Prop}

theorem Meet.refl (s : OwnerState) : s.Meet s where
  outbox id x y hx hy := by
    cases hx.symm.trans hy
    exact ⟨rfl, rfl, rfl, rfl⟩
  inbox k x y hx hy _ := Option.some.inj (hx.symm.trans hy)
  libraries addr x y hx hy _ := Option.some.inj (hx.symm.trans hy)
  friends addr x y hx hy _ := Option.some.inj (hx.symm.trans hy)

theorem perm_of_rowOf {rows rows' : List GrantEntry} (h : OneRowEach rows) (h' : OneRowEach rows')
    (heq : rowOf rows = rowOf rows') : rows.Perm rows' := by
  refine (List.perm_ext_iff_of_nodup (List.Nodup.of_map _ h) (List.Nodup.of_map _ h')).mpr fun e => ?_
  have hmem : ∀ {l : List GrantEntry}, OneRowEach l → (e ∈ l ↔ rowOf l e.granteeOwner = some e) :=
    fun hl => by rw [rowOf_eq_some hl, and_iff_left rfl]
  rw [hmem h, hmem h', heq]

theorem Agree.of_read (hm : Sound keys m) (hn : Sound keys n)
    (h : ∀ r, Registers live r → r.read m = r.read n) : Agree live m n where
  outboxTombstones := Std.ExtTreeMap.ext_getElem? fun k => congrArg Prod.fst (h _ (.outbox k))
  outbox := Std.ExtTreeMap.ext_getElem? fun k => congrArg Prod.snd (h _ (.outbox k))
  inbox := Std.ExtTreeMap.ext_getElem? fun k => h _ (.inbox k)
  markers := Std.ExtTreeMap.ext_getElem? fun k => h _ (.marker k)
  libraries := Std.ExtTreeMap.ext_getElem? fun k => h _ (.library k)
  friendGraph := Std.ExtTreeMap.ext_getElem? fun k => h _ (.friend k)
  revoked owner hlive := h _ (.revoked owner hlive)
  burned := by
    refine Finset.ext fun cid => ?_
    have hflag : decide (cid ∈ m.burnedContent) = decide (cid ∈ n.burnedContent) :=
      congrArg Prod.fst (h _ (.dek cid))
    exact decide_eq_decide.mp hflag
  deks cid := by
    have hdek : m.fileDeks[cid]?.map (fun _ => ()) = n.fileDeks[cid]?.map fun _ => () :=
      congrArg Prod.snd (h _ (.dek cid))
    rw [← Option.isSome_map (f := fun _ : Bytes => ()), hdek, Option.isSome_map]
  grants cid := by
    have hrows : m.fileGrants[cid]?.map rowOf = n.fileGrants[cid]?.map rowOf :=
      congrArg Prod.snd (h _ (.grants cid))
    cases hM : m.fileGrants[cid]? with
    | none =>
      rw [hM, Option.map_none, eq_comm, Option.map_eq_none_iff] at hrows
      rw [hrows]
      exact Option.Rel.none
    | some rows =>
      rw [hM, Option.map_some, eq_comm, Option.map_eq_some_iff] at hrows
      obtain ⟨rows', hN, heq⟩ := hrows
      rw [hN]
      exact Option.Rel.some
        (perm_of_rowOf (hm.files.grants cid rows hM).2 (hn.files.grants cid rows' hN).2 heq.symm)

section Merges

variable {now now₁ now₂ now₃ now₄ : Option ℕ}

theorem agree_comm (hs : Sound keys s) (ht : Sound keys t) (hst : s.Meet t) (fs : s.Timely now₂)
    (ft : t.Timely now₁) (hc : NoCollapse now₁ s t) (hc' : NoCollapse now₂ t s) :
    Agree (fun o => s.Unrevoked o ∧ t.Unrevoked o) (s.mergeRemoteIntoLocal keys now₁ t)
      (t.mergeRemoteIntoLocal keys now₂ s) := by
  refine Agree.of_read (hs.mergeRemoteIntoLocal _ _) (ht.mergeRemoteIntoLocal _ _) fun r hr => ?_
  have hR := hr.meetsIn hs ht hst
  have hleft := hr.joined hs ht ft hc (fun _ h => h.1) (fun _ h => h.2) hR
  have hright := hr.joined ht hs fs hc' (fun _ h => h.2) (fun _ h => h.1) hR.symm
  exact hleft.comm hright hR

theorem agree_assoc (hs : Sound keys s) (ht : Sound keys t) (hu : Sound keys u) (hst : s.Meet t)
    (htu : t.Meet u) (hsu : s.Meet u) (ft₁ : t.Timely now₁) (fu₂ : u.Timely now₂)
    (fu₃ : u.Timely now₃) (ft₄ : t.Timely now₄) (fu₄ : u.Timely now₄)
    (h₁ : NoCollapse now₁ s t) (h₂ : NoCollapse now₂ (s.mergeRemoteIntoLocal keys now₁ t) u)
    (h₃ : NoCollapse now₃ t u) (h₄ : NoCollapse now₄ s (t.mergeRemoteIntoLocal keys now₃ u)) :
    Agree (fun o => s.Unrevoked o ∧ t.Unrevoked o ∧ u.Unrevoked o)
      ((s.mergeRemoteIntoLocal keys now₁ t).mergeRemoteIntoLocal keys now₂ u)
      (s.mergeRemoteIntoLocal keys now₄ (t.mergeRemoteIntoLocal keys now₃ u)) := by
  have hm := hs.mergeRemoteIntoLocal now₁ t
  have hn := ht.mergeRemoteIntoLocal now₃ u
  have fn := Timely.merge ht hu fu₃ h₃ ft₄ fu₄
  refine Agree.of_read (hm.mergeRemoteIntoLocal _ _) (hs.mergeRemoteIntoLocal _ _) fun r hr => ?_
  have hRst := hr.meetsIn hs ht hst
  have hRtu := hr.meetsIn ht hu htu
  have hRsu := hr.meetsIn hs hu hsu
  have hjm := hr.joined hs ht ft₁ h₁ (fun _ h => h.1) (fun _ h => h.2.1) hRst
  have hjn := hr.joined ht hu fu₃ h₃ (fun _ h => h.2.1) (fun _ h => h.2.2) hRtu
  have hjp := hr.joined hm hu fu₂ h₂ (fun _ h => Unrevoked.merge ht ft₁ h.1 h.2.1)
    (fun _ h => h.2.2) (hjm.meetsIn hRst hRtu hRsu)
  have hjq := hr.joined hs hn fn h₄ (fun _ h => h.1)
    (fun _ h => Unrevoked.merge hu fu₃ h.2.1 h.2.2)
    (hjn.meetsIn hRtu hRsu.symm hRst.symm).symm
  exact hjm.assoc hjp hjn hjq hRst hRtu hRsu

theorem agree_idem (hs : Sound keys s) (fs : s.Timely now) (hc : NoCollapse now s s) :
    Agree s.Unrevoked (s.mergeRemoteIntoLocal keys now s) s := by
  refine Agree.of_read (hs.mergeRemoteIntoLocal _ _) hs fun r hr => ?_
  have hR := hr.meetsIn hs hs (Meet.refl s)
  exact (hr.joined hs hs fs hc (fun _ h => h) (fun _ h => h) hR).idem hR

theorem merged_outbox (hs : Sound keys s) (ht : Sound keys t) (hst : s.Meet t)
    (hc : NoCollapse now s t) {k : OutboxEntryId} {e : OutboxEntry}
    (he : (s.mergeRemoteIntoLocal keys now t).outbox[k]? = some e) :
    Option.merge OutboxEntry.join s.outbox[k]? t.outbox[k]? = some e := by
  have hr : Registers (fun _ => True) (outboxAt k) := .outbox k
  have hR := hr.meetsIn hs ht hst
  have hread := congrArg Prod.snd (outboxAt_joined hs ht hc hR)
  exact (Option.filter_eq_some_iff.mp (hread.symm.trans he)).1

theorem joinKept (hs : Sound keys s) (ht : Sound keys t) (hst : s.Meet t) (ft : t.Timely now)
    (hc : NoCollapse now s t) : JoinKept keys s t (s.mergeRemoteIntoLocal keys now t) where
  sound := hs.mergeRemoteIntoLocal now t
  delivered k e he := by
    have hmerged := merged_outbox hs ht hst hc he
    unfold deliveredTo
    cases hx : s.outbox[k]? with
    | none =>
      rw [hx, Option.merge_none_left] at hmerged
      rw [hmerged]
      exact (Finset.empty_union _).symm
    | some x =>
      cases hy : t.outbox[k]? with
      | none =>
        rw [hx, hy, Option.merge_none_right] at hmerged
        cases hmerged
        exact (Finset.union_empty _).symm
      | some y =>
        rw [hx, hy, Option.merge_some_some] at hmerged
        cases hmerged
        rfl
  status k e he := by
    have hmerged := merged_outbox hs ht hst hc he
    unfold isExpired
    cases hx : s.outbox[k]? with
    | none =>
      rw [hx, Option.merge_none_left] at hmerged
      rw [hmerged, Option.any_none, Bool.false_or, Option.any_some]
      exact (ht.outbox k e hmerged).status
    | some x =>
      cases hy : t.outbox[k]? with
      | none =>
        rw [hx, hy, Option.merge_none_right] at hmerged
        cases hmerged
        rw [Option.any_none, Bool.or_false, Option.any_some]
        exact (hs.outbox k _ hx).status
      | some y =>
        rw [hx, hy, Option.merge_some_some] at hmerged
        cases hmerged
        rw [Option.any_some, Option.any_some, ← Bool.decide_or]
        rfl
  read id x hx := by
    have hread : (s.mergeRemoteIntoLocal keys now t).markers[id]? =
      latest _ s.markers[id]? t.markers[id]? := markerAt_joined ht ft hc id
    cases hm : (s.mergeRemoteIntoLocal keys now t).markers[id]? with
    | none =>
      obtain ⟨h1, h2⟩ := latest_eq_none.mp (hread.symm.trans hm)
      rw [h1, h2] at hx
      cases hx <;> contradiction
    | some y =>
      obtain ⟨hle, hle'⟩ := le_of_latest (hread.symm.trans hm)
      exact ⟨y, rfl, hx.elim (hle x) (hle' x)⟩
  revoked owner hus hut := by
    have hread : (s.mergeRemoteIntoLocal keys now t).revokedDmDevices[owner]? =
      Option.merge _ s.revokedDmDevices[owner]? t.revokedDmDevices[owner]? :=
        revokedDmDevicesAt_joined ht ft hus hut
    have hsmall : ∀ {set : Finset ℕ}, set.card ≤ maxRevokedDmDevicesPerOwner →
        set = (smallest maxRevokedDmDevicesPerOwner set).toFinset := fun h => by
      rw [smallest_of_card_le h, Finset.sort_toFinset]
    unfold revokedKeys
    rw [hread]
    cases hx : s.revokedDmDevices[owner]? with
    | none =>
      cases hy : t.revokedDmDevices[owner]? with
      | none => exact hsmall (Nat.zero_le _)
      | some b =>
        rw [Option.merge_none_left, Option.getD_none, Option.getD_some, Finset.empty_union]
        exact hsmall (ht.revoked owner b hy)
    | some a =>
      cases hy : t.revokedDmDevices[owner]? with
      | none =>
        rw [Option.merge_none_right, Option.getD_none, Option.getD_some, Finset.union_empty]
        exact hsmall (hs.revoked owner a hx)
      | some b => rfl

end Merges

end Laws

/-- Whatever the devices of an owner reach merges like a semilattice: in any order, in any
grouping and however often, at whatever clocks the stamps pass. -/
theorem merge_semilattice {ι : Type} (keys : IdentityKeys) (clock : ι → Option ℕ)
    {s t u : OwnerState} (hs : Held keys s) (ht : Held keys t) (hu : Held keys u)
    (hst : s.Meet t) (htu : t.Meet u) (hsu : s.Meet u) (fs : ∀ i, s.Timely (clock i))
    (ft : ∀ i, t.Timely (clock i)) (fu : ∀ i, u.Timely (clock i)) :
    (∀ i j, NoCollapse (clock i) s t → NoCollapse (clock j) t s →
      Agree (fun o => s.Unrevoked o ∧ t.Unrevoked o) (s.mergeRemoteIntoLocal keys (clock i) t)
        (t.mergeRemoteIntoLocal keys (clock j) s)) ∧
    (∀ i j k l, NoCollapse (clock i) s t →
      NoCollapse (clock j) (s.mergeRemoteIntoLocal keys (clock i) t) u →
      NoCollapse (clock k) t u →
      NoCollapse (clock l) s (t.mergeRemoteIntoLocal keys (clock k) u) →
      Agree (fun o => s.Unrevoked o ∧ t.Unrevoked o ∧ u.Unrevoked o)
        ((s.mergeRemoteIntoLocal keys (clock i) t).mergeRemoteIntoLocal keys (clock j) u)
        (s.mergeRemoteIntoLocal keys (clock l) (t.mergeRemoteIntoLocal keys (clock k) u))) ∧
    (∀ i, NoCollapse (clock i) s s →
      Agree s.Unrevoked (s.mergeRemoteIntoLocal keys (clock i) s) s) ∧
    ∀ i, NoCollapse (clock i) s t →
      JoinKept keys s t (s.mergeRemoteIntoLocal keys (clock i) t) := by
  refine ⟨fun i j => ?_, fun i j k l => ?_, fun i => ?_, fun i => ?_⟩
  · exact agree_comm hs.sound ht.sound hst (fs j) (ft i)
  · exact agree_assoc hs.sound ht.sound hu.sound hst htu hsu (ft i) (fu j) (fu k) (ft l) (fu l)
  · exact agree_idem hs.sound (fs i)
  · exact joinKept hs.sound ht.sound hst (ft i)

theorem NoCollapse.of_no_rows {now : Option ℕ} {s t : OwnerState} (h : t.spaces.toList = []) :
    NoCollapse now s t := by
  unfold NoCollapse
  rw [h]
  exact trivial

def twoMessages : OwnerState :=
  ((({} : OwnerState).applyOutbox ⟨1, 4, [2, 3], some 11, ⟨100, 0, "phone"⟩, ∅, .pending⟩).1
    |>.applyOutbox ⟨2, 4, [2], none, ⟨200, 0, "phone"⟩, ∅, .pending⟩).1

/-- The phone heard that one friend has the first message, and took a grant back. -/
def onPhone : OwnerState :=
  let sent := (twoMessages.markAckDelivered 1 2).1
  let read := (sent.applyMarker ⟨4, ⟨300, 0, "phone"⟩⟩).1
  let shared := { read with fileDeks := read.fileDeks.insert 6 [1] }.grantRead 6 2 10
  (shared.revokeGrantInner 6 2 20).1

/-- The desk heard from the other friend, and gave the second message up. -/
def onDesk : OwnerState :=
  let sent := (twoMessages.markAckDelivered 1 3).1
  let dropped := (sent.deleteDmOutboxEntry 2 70000 "desk").1
  let shared := { dropped with fileDeks := dropped.fileDeks.insert 6 [1] }.grantRead 6 3 15
  (shared.applyRevokedDmDevice 9 5).1

/-- The tablet read on, and burned a file it had shared. -/
def onTablet : OwnerState :=
  let read := (({} : OwnerState).applyMarker ⟨4, ⟨500, 0, "tablet"⟩⟩).1
  ({ read with fileDeks := read.fileDeks.insert 7 [2] }.grantRead 7 2 30).burnGc 7

example : onPhone.deliveredTo 1 = {2} ∧ onDesk.deliveredTo 1 = {3} ∧
    onDesk.outboxTombstones[2]?.isSome ∧ onTablet.burnedContent = {7} := by
  decide +kernel

section Devices

variable {keys : IdentityKeys}

theorem held_twoMessages : Held keys twoMessages := (Held.start.outbox _).outbox _

theorem held_onPhone : Held keys onPhone :=
  ((((held_twoMessages.ack 1 2).marker _).ingest 6 [1] (by decide +kernel)).grant 6 2 10).revokeGrant
    6 2 20

theorem held_onDesk : Held keys onDesk :=
  ((((held_twoMessages.ack 1 3).deleteDm 2 70000 "desk").ingest 6 [1] (by decide +kernel)).grant
    6 3 15).revokedDevice 9 5

theorem held_onTablet : Held keys onTablet :=
  (((Held.start.marker _).ingest 7 [2] (by decide +kernel)).grant 7 2 30).burn 7

end Devices

theorem merge_semilattice_devices :
    let keys : IdentityKeys := ⟨fun _ => none, id⟩
    let merge := mergeRemoteIntoLocal keys (some 800)
    Agree (fun o => onPhone.Unrevoked o ∧ onDesk.Unrevoked o) (merge onPhone onDesk)
        (merge onDesk onPhone) ∧
      Agree (fun o => onPhone.Unrevoked o ∧ onDesk.Unrevoked o ∧ onTablet.Unrevoked o)
        (merge (merge onPhone onDesk) onTablet) (merge onPhone (merge onDesk onTablet)) ∧
      Agree onPhone.Unrevoked (merge onPhone onPhone) onPhone ∧
      JoinKept keys onPhone onDesk (merge onPhone onDesk) := by
  intro keys merge
  have hphone : onPhone.spaces.toList = [] := by decide +kernel
  have hdesk : onDesk.spaces.toList = [] := by decide +kernel
  have htablet : onTablet.spaces.toList = [] := by decide +kernel
  have hmerged : (merge onDesk onTablet).spaces.toList = [] := by decide +kernel
  obtain ⟨hcomm, hassoc, hidem, hjoin⟩ := merge_semilattice keys (fun _ : Unit => some 800)
    held_onPhone held_onDesk held_onTablet (by decide +kernel) (by decide +kernel)
    (by decide +kernel) (fun _ => by decide +kernel) (fun _ => by decide +kernel)
    fun _ => by decide +kernel
  exact ⟨hcomm () () (.of_no_rows hdesk) (.of_no_rows hphone),
    hassoc () () () () (.of_no_rows hdesk) (.of_no_rows htablet) (.of_no_rows htablet)
      (.of_no_rows hmerged),
    hidem () (.of_no_rows hphone), hjoin () (.of_no_rows hdesk)⟩

end OwnerState

end Harmony.Owner
