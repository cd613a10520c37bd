import Harmony.Owner.Soundness
import Harmony.Owner.Survival

/-! The collapse of two ids of one conversation during a merge. The merge files
the local records under the surviving id when the rows meet, and takes in the
snapshot's records afterwards under the ids they came with: records of a losing id
are left without a row. Where none arrives under such an id, every record of the
two ids ends up under the surviving one. -/

namespace Harmony.Owner

open Harmony.Lib
open Harmony.Membership (OwnerAddr SpaceId Hlc)

namespace OwnerState

/-- Some record is filed under the id. -/
def Files (s : OwnerState) (id : SpaceId) : Prop :=
  (∃ (k : OutboxEntryId) (e : OutboxEntry), s.outbox[k]? = some e ∧ e.spaceId = id) ∨
    (∃ (k : InboxKey) (e : InboxEntry), s.inbox[k]? = some e ∧ e.spaceId = id) ∨
      ∃ (k : SpaceId) (m : ReadMarker), s.markers[k]? = some m ∧ m.spaceId = id

theorem noDangling_iff {s : OwnerState} : NoDangling s ↔ ∀ id, s.Files id → s.Anchored id := by
  constructor
  · rintro h id (⟨k, e, he, rfl⟩ | ⟨k, e, he, rfl⟩ | ⟨k, m, hm, rfl⟩)
    · exact h.outbox k e he
    · exact h.inbox k e he
    · exact h.markers k m hm
  · intro h
    exact ⟨fun k e he => h _ (Or.inl ⟨k, e, he, rfl⟩),
      fun k e he => h _ (Or.inr (Or.inl ⟨k, e, he, rfl⟩)),
      fun k m hm => h _ (Or.inr (Or.inr ⟨k, m, hm, rfl⟩))⟩

/-- A delivery record that an outbox tombstone of either side postdates. -/
def Deleted (s remote : OwnerState) (k : OutboxEntryId) (e : OutboxEntry) : Prop :=
  ∃ t, (s.outboxTombstones[k]? = some t ∨ remote.outboxTombstones[k]? = some t) ∧ e.createdAt < t

/-- A local delivery record that the merge takes out: the snapshot holds a tombstone of
its id, and one of the two sides' tombstones postdates it. -/
def Swept (s remote : OwnerState) (k : OutboxEntryId) (e : OutboxEntry) : Prop :=
  remote.outboxTombstones[k]?.isSome ∧ Deleted s remote k e

/-- A record of the snapshot is taken in under the id: a message, a well-formed delivery
record that is neither deleted nor held here, or a reading position that is not ahead of
the clock. -/
def Arrives (now : Option ℕ) (s remote : OwnerState) (id : SpaceId) : Prop :=
  (∃ (k : OutboxEntryId) (e : OutboxEntry), remote.outbox[k]? = some e ∧ e.spaceId = id ∧
      e.deliveredTo ⊆ e.recipientOwners.toFinset ∧ ¬Deleted s remote k e ∧
        ∀ x, s.outbox[k]? = some x → Swept s remote k x) ∨
    (∃ (k : InboxKey) (e : InboxEntry), remote.inbox[k]? = some e ∧ e.spaceId = id) ∨
      ∃ m, remote.markers[id]? = some m ∧ wallExceedsForwardSkew m.lastReadAt.wallMs now = false

/-- A row of the snapshot is taken in and meets a local row of its conversation under
another id. -/
structure Collapses (now : Option ℕ) (s remote : OwnerState) (a sp : Space) : Prop where
  held : s.spaces[a.id]? = some a
  incoming : remote.spaces[sp.id]? = some sp
  sameKey : a.dedupeKey = sp.dedupeKey
  hasKey : sp.dedupeKey ≠ .none
  ne : a.id ≠ sp.id
  accepts : Accepts now s sp
  apart : ¬Clash now s remote sp.id

/-- The id is one of the two that collapse, and does not stand for another conversation:
what is filed under it belongs to the conversation that collapses. -/
def Own (t : OwnerState) (a sp : Space) (x : SpaceId) : Prop :=
  (x = a.id ∨ x = sp.id) ∧ ∀ b, t.spaces[x]? = some b → b.dedupeKey = sp.dedupeKey

/-- Everything of the conversation that was filed under one of two collapsed ids, on
either side, is under the smaller one: delivery records with their acknowledgements, the
earliest receipt of each message and the latest reading position. -/
structure CollapseKept (now : Option ℕ) (s remote merged : OwnerState) (a sp : Space) : Prop where
  unfiled : Own remote a sp (max a.id sp.id) → ¬merged.Files (max a.id sp.id)
  outbox : ∀ (k : OutboxEntryId) (e : OutboxEntry),
    s.outbox[k]? = some e ∧ Own s a sp e.spaceId ∨
      remote.outbox[k]? = some e ∧ Own remote a sp e.spaceId →
    (∃ t, merged.outboxTombstones[k]? = some t ∧ e.createdAt < t) ∨
      ∃ e', merged.outbox[k]? = some e' ∧ e'.spaceId = min a.id sp.id ∧
        e.deliveredTo ⊆ e'.deliveredTo
  inbox : ∀ (x : SpaceId) (cid : ContentId) (e : InboxEntry),
    s.inbox[(toLex (x, cid) : InboxKey)]? = some e ∧ Own s a sp x ∨
      remote.inbox[(toLex (x, cid) : InboxKey)]? = some e ∧ Own remote a sp x →
    ∃ e', merged.inbox[(toLex (min a.id sp.id, cid) : InboxKey)]? = some e' ∧
      e'.receivedAt ≤ e.receivedAt
  receipt : ∀ (cid : ContentId) (e' : InboxEntry),
    merged.inbox[(toLex (min a.id sp.id, cid) : InboxKey)]? = some e' →
    ∃ (x : SpaceId) (e : InboxEntry), (x = a.id ∨ x = sp.id) ∧
      (s.inbox[(toLex (x, cid) : InboxKey)]? = some e ∨
        remote.inbox[(toLex (x, cid) : InboxKey)]? = some e) ∧ e.receivedAt = e'.receivedAt
  marker : ∀ (x : SpaceId) (m : ReadMarker),
    s.markers[x]? = some m ∧ Own s a sp x ∨
      remote.markers[x]? = some m ∧ Own remote a sp x ∧
        wallExceedsForwardSkew m.lastReadAt.wallMs now = false →
    ∃ m', merged.markers[min a.id sp.id]? = some m' ∧ m.lastReadAt ≤ m'.lastReadAt
  position : ∀ m', merged.markers[min a.id sp.id]? = some m' →
    ∃ (x : SpaceId) (m : ReadMarker), (x = a.id ∨ x = sp.id) ∧
      (s.markers[x]? = some m ∨ remote.markers[x]? = some m) ∧ m.lastReadAt = m'.lastReadAt

/-- No record of the merged state dangles, and every collapse keeps the records. -/
structure DependentsKept (keys : IdentityKeys) (now : Option ℕ) (s remote : OwnerState) : Prop where
  anchored : NoDangling (s.mergeRemoteIntoLocal keys now remote)
  collapse : ∀ a sp, Collapses now s remote a sp →
    CollapseKept now s remote (s.mergeRemoteIntoLocal keys now remote) a sp

/-- No record of the snapshot arrives under an id that loses a collapse, nor under a row
of the snapshot that is refused without a row to stand in for it; and a delivery record
of a collapsed conversation is new here, or joined into the one of its id. -/
structure ArriveUnderSurvivors (now : Option ℕ) (s remote : OwnerState) : Prop where
  losers : ∀ a sp, Collapses now s remote a sp → Own remote a sp (max a.id sp.id) →
    ¬Arrives now s remote (max a.id sp.id)
  refused : ∀ (j : SpaceId) (sp : Space), remote.spaces[j]? = some sp → Arrives now s remote j →
    Accepts now s sp ∨ Clash now s remote j ∨ j ∈ s.tombstones ∨
      ∃ b, s.spaces[j]? = some b ∧ b.dedupeKey = sp.dedupeKey
  delivered : ∀ a sp, Collapses now s remote a sp → ∀ (k : OutboxEntryId) (e : OutboxEntry),
    remote.outbox[k]? = some e → Own remote a sp e.spaceId → ¬Deleted s remote k e →
    (e.deliveredTo ⊆ e.recipientOwners.toFinset ∧
        ∀ x, s.outbox[k]? = some x → Swept s remote k x) ∨
      ∃ x, s.outbox[k]? = some x ∧ ¬Swept s remote k x ∧ x.spaceId = a.id ∧
        (x.SameEnvelope e ∧ e.deliveredTo ⊆ e.recipientOwners.toFinset ∨
          e.deliveredTo ⊆ x.deliveredTo)

/-- Two states of one owner whose records refer to rows or to deleted ids. The table
invariant and the records' own keys are kept by every call of the program. -/
structure Replicas (s remote : OwnerState) : Prop where
  left : SpaceTable s
  right : SpaceTable remote
  leftKeys : OwnKeys s
  rightKeys : OwnKeys remote
  leftAnchored : NoDangling s
  rightAnchored : NoDangling remote

theorem Held.ownKeys {keys : IdentityKeys} {s : OwnerState} (h : Held keys s) : OwnKeys s :=
  have hsound := h.sound
  ⟨fun k e he => (hsound.outbox k e he).ownId, hsound.inbox, hsound.markers⟩

section Swept

variable {now : Option ℕ} {s remote : OwnerState} {k : OutboxEntryId}

theorem sweepOutbox_get (s remote : OwnerState) (k : OutboxEntryId) :
    ((s.sweepOutbox remote).outboxTombstones[k]?, (s.sweepOutbox remote).outbox[k]?) =
      remote.outboxTombstones[k]?.elim (s.outboxTombstones[k]?, s.outbox[k]?) fun h =>
        (some (laterStamp s.outboxTombstones[k]? h),
          sweptBy (some (laterStamp s.outboxTombstones[k]? h)) s.outbox[k]?) :=
  foldl_mergeOutboxTombstone_get remote.outboxTombstones (s.outboxTombstones, s.outbox) k

theorem deleted_iff (e : OutboxEntry) :
    Deleted s remote k e ↔
      ∃ t, (s.sweepOutbox remote).outboxTombstones[k]? = some t ∧ e.createdAt < t := by
  have h := congrArg Prod.fst (sweepOutbox_get s remote k)
  dsimp only at h
  rw [h]
  unfold Deleted
  cases hr : remote.outboxTombstones[k]? with
  | none => simp
  | some t =>
    cases hs : s.outboxTombstones[k]? with
    | none => simp [laterStamp]
    | some u =>
      simp only [laterStamp, Option.elim_some, Option.some.injEq, exists_eq_left', lt_max_iff]
      constructor
      · rintro ⟨v, rfl | rfl, hv⟩
        · exact Or.inr hv
        · exact Or.inl hv
      · rintro (hv | hv)
        · exact ⟨t, Or.inr rfl, hv⟩
        · exact ⟨u, Or.inl rfl, hv⟩

open Classical in
theorem sweepOutbox_outbox (s remote : OwnerState) (k : OutboxEntryId) :
    (s.sweepOutbox remote).outbox[k]? = s.outbox[k]?.filter fun e => ¬Swept s remote k e := by
  have h := sweepOutbox_get s remote k
  cases he : s.outbox[k]? with
  | none =>
    rw [he] at h
    have h2 := congrArg Prod.snd h
    dsimp only at h2
    rw [h2]
    cases remote.outboxTombstones[k]? <;> rfl
  | some e =>
    have hswept : Swept s remote k e ↔ remote.outboxTombstones[k]?.isSome ∧
        ∃ t, (s.sweepOutbox remote).outboxTombstones[k]? = some t ∧ e.createdAt < t := by
      rw [← deleted_iff]
      rfl
    cases hr : remote.outboxTombstones[k]? with
    | none =>
      rw [hr, Option.elim_none, Prod.mk.injEq] at h
      have hkept : ¬Swept s remote k e := by simp [hswept, hr]
      rw [h.2, he, Option.filter_some, if_pos (decide_eq_true hkept)]
    | some t =>
      rw [hr, Option.elim_some, Prod.mk.injEq, he] at h
      have hiff : Swept s remote k e ↔ e.createdAt < laterStamp s.outboxTombstones[k]? t := by
        simp [hswept, hr, h.1]
      rw [h.2, sweptBy, Option.filter_some, Option.filter_some]
      by_cases hnew : e.createdAt < laterStamp s.outboxTombstones[k]? t <;> simp [hiff, hnew]

theorem sweepOutbox_eq_none :
    (s.sweepOutbox remote).outbox[k]? = none ↔ ∀ x, s.outbox[k]? = some x → Swept s remote k x := by
  rw [sweepOutbox_outbox, Option.filter_eq_none_iff]
  simp

theorem sweepOutbox_eq_some {e : OutboxEntry} :
    (s.sweepOutbox remote).outbox[k]? = some e ↔
      s.outbox[k]? = some e ∧ ¬Swept s remote k e := by
  rw [sweepOutbox_outbox, Option.filter_eq_some_iff]
  simp

end Swept

section Merged

variable {keys : IdentityKeys} {now : Option ℕ} {s remote : OwnerState}

theorem Replicas.filing (h : Replicas s remote) (now : Option ℕ) :
    Filing now (s.sweepOutbox remote) remote remote.spaces.toList
      (s.beforeDeletions now remote) := by
  refine filing_mergeSpaces now (h.left.congr rfl rfl rfl) h.right.toTableShape
    ⟨?_, h.leftKeys.inbox, h.leftKeys.markers⟩ ⟨?_, h.leftAnchored.inbox, h.leftAnchored.markers⟩
  · intro k e he
    exact h.leftKeys.outbox k e (sweepOutbox_eq_some.mp he).1
  · intro k e he
    exact h.leftAnchored.outbox k e (sweepOutbox_eq_some.mp he).1

theorem Replicas.outbox_get (h : Replicas s remote) (keys : IdentityKeys) (now : Option ℕ)
    (k : OutboxEntryId) :
    (s.mergeRemoteIntoLocal keys now remote).outbox[k]? =
      remote.outbox[k]?.elim (s.beforeDeletions now remote).outbox[k]?
        (received (s.sweepOutbox remote).outboxTombstones[k]?
          (s.beforeDeletions now remote).outbox[k]?) := by
  have hrec := congrArg Prod.fst (mergeRemoteIntoLocal_records keys now s remote).1
  dsimp only [records] at hrec
  rw [hrec]
  exact foldl_putOutbox_get _ h.rightKeys.outbox _ k

theorem Replicas.inbox_get (h : Replicas s remote) (keys : IdentityKeys) (now : Option ℕ)
    (k : InboxKey) :
    (s.mergeRemoteIntoLocal keys now remote).inbox[k]? =
      remote.inbox[k]?.elim (s.beforeDeletions now remote).inbox[k]? fun e =>
        some (earlier (s.beforeDeletions now remote).inbox[k]? e) := by
  have hrec := congrArg (fun p => p.2.1) (mergeRemoteIntoLocal_records keys now s remote).1
  dsimp only [records] at hrec
  rw [hrec]
  exact foldl_putInbox_get h.rightKeys.inbox _ k

theorem Replicas.markers_get (h : Replicas s remote) (keys : IdentityKeys) (now : Option ℕ)
    (id : SpaceId) :
    (s.mergeRemoteIntoLocal keys now remote).markers[id]? =
      remote.markers[id]?.elim (s.beforeDeletions now remote).markers[id]? fun m =>
        if wallExceedsForwardSkew m.lastReadAt.wallMs now then
          (s.beforeDeletions now remote).markers[id]?
        else some (later (s.beforeDeletions now remote).markers[id]? m) := by
  have hrec := congrArg (fun p => p.2.2) (mergeRemoteIntoLocal_records keys now s remote).1
  dsimp only [records] at hrec
  rw [hrec]
  exact foldl_mergeMarker_get now h.rightKeys.markers _ id

/-- What an incoming delivery record leaves is the stored record or, where there is
none and no tombstone postdates it, the incoming one. -/
theorem received_cases {tomb : Option Hlc} {old : Option OutboxEntry} {r e : OutboxEntry}
    (h : received tomb old r = some e) :
    (∃ x, old = some x ∧ e.spaceId = x.spaceId ∧ e.id = x.id) ∨
      old = none ∧ e.spaceId = r.spaceId ∧ r.deliveredTo ⊆ r.recipientOwners.toFinset ∧
        ¬∃ t, tomb = some t ∧ r.createdAt < t := by
  unfold received at h
  split_ifs at h with ht hd
  · exact Or.inl ⟨e, h, rfl, rfl⟩
  · have hlive : ¬∃ t, tomb = some t ∧ r.createdAt < t := by
      rintro ⟨t, rfl, hlt⟩
      simp [hlt] at ht
    split at h
    · obtain rfl := Option.some.inj h
      exact Or.inr ⟨rfl, rfl, hd, hlive⟩
    · next x =>
      split_ifs at h
      · obtain rfl := Option.some.inj h
        exact Or.inl ⟨x, rfl, rfl, rfl⟩
      · obtain rfl := Option.some.inj h
        exact Or.inl ⟨x, rfl, rfl, rfl⟩
  · exact Or.inl ⟨e, h, rfl, rfl⟩

theorem received_some (tomb : Option Hlc) (x r : OutboxEntry) :
    ∃ y, received tomb (some x) r = some y ∧ y.spaceId = x.spaceId ∧
      x.deliveredTo ⊆ y.deliveredTo := by
  unfold received
  split_ifs
  · exact ⟨x, rfl, rfl, Finset.Subset.refl _⟩
  · dsimp only
    split_ifs
    · exact ⟨x.join r, rfl, rfl, Finset.subset_union_left⟩
    · exact ⟨x, rfl, rfl, Finset.Subset.refl _⟩
  · exact ⟨x, rfl, rfl, Finset.Subset.refl _⟩

/-- A delivery record that is not deleted is taken in or joined. -/
theorem received_live {tomb : Option Hlc} {r : OutboxEntry}
    (hlive : ¬∃ t, tomb = some t ∧ r.createdAt < t)
    (hd : r.deliveredTo ⊆ r.recipientOwners.toFinset) (old : Option OutboxEntry)
    (hsame : ∀ x, old = some x → x.SameEnvelope r) :
    received tomb old r = some (old.elim (r.settled (r.deliveryStatus = .expired)) (·.join r)) := by
  have htomb : (tomb.any fun t => isStrictlyNewerThan t r.createdAt) = false := by
    rw [Option.any_eq_false]
    intro t ht
    rw [← Bool.not_eq_true, isStrictlyNewerThan_iff]
    exact fun hlt => hlive ⟨t, ht, hlt⟩
  cases old with
  | none => simp [received, htomb, hd]
  | some x => simp [received, htomb, hd, hsame x rfl]

theorem received_join {tomb : Option Hlc} {x r y : OutboxEntry} {id : SpaceId}
    (h : received tomb (some { x with spaceId := id }) r = some y) :
    y.spaceId = id ∧ (x.SameEnvelope r ∧ r.deliveredTo ⊆ r.recipientOwners.toFinset ∨
      y.deliveredTo = x.deliveredTo) := by
  unfold received at h
  split_ifs at h with ht hd
  · obtain rfl := Option.some.inj h
    exact ⟨rfl, Or.inr rfl⟩
  · dsimp only at h
    split_ifs at h with hsame
    · obtain rfl := Option.some.inj h
      exact ⟨rfl, Or.inl ⟨hsame, hd⟩⟩
    · obtain rfl := Option.some.inj h
      exact ⟨rfl, Or.inr rfl⟩
  · obtain rfl := Option.some.inj h
    exact ⟨rfl, Or.inr rfl⟩

theorem earlier_choice (old : Option InboxEntry) (e : InboxEntry) :
    earlier old e = e ∨ old = some (earlier old e) := by
  unfold earlier
  split
  · exact Or.inl rfl
  · split_ifs
    · exact Or.inl rfl
    · exact Or.inr rfl

theorem later_choice (old : Option ReadMarker) (m : ReadMarker) :
    later old m = m ∨ old = some (later old m) := by
  unfold later
  split
  · exact Or.inl rfl
  · split_ifs
    · exact Or.inl rfl
    · exact Or.inr rfl

theorem Replicas.outbox_none (h : Replicas s remote) {k : OutboxEntryId}
    (hnone : (s.beforeDeletions now remote).outbox[k]? = none) :
    (s.sweepOutbox remote).outbox[k]? = none := by
  obtain ⟨x, hx, -⟩ := (h.filing now).delivered k
  rw [hnone] at hx
  exact Option.map_eq_none_iff.mp hx.symm

theorem Replicas.outbox_swept (h : Replicas s remote) {k : OutboxEntryId}
    (hswept : ∀ x, s.outbox[k]? = some x → Swept s remote k x) :
    (s.beforeDeletions now remote).outbox[k]? = none := by
  obtain ⟨x, hx, -⟩ := (h.filing now).delivered k
  rw [hx, sweepOutbox_eq_none.mpr hswept, Option.map_none]

theorem Replicas.files_merged (h : Replicas s remote) {id : SpaceId}
    (hf : (s.mergeRemoteIntoLocal keys now remote).Files id) :
    (s.beforeDeletions now remote).Files id ∨ remote.Files id ∧ Arrives now s remote id := by
  rcases hf with ⟨k, e, he, rfl⟩ | ⟨k, e, he, rfl⟩ | ⟨k, m, hm, rfl⟩
  · rw [h.outbox_get] at he
    cases hr : remote.outbox[k]? with
    | none =>
      rw [hr] at he
      exact Or.inl (Or.inl ⟨k, e, he, rfl⟩)
    | some r =>
      rw [hr, Option.elim_some] at he
      rcases received_cases he with ⟨x, hx, hsp, -⟩ | ⟨hnone, hsp, hvalid, hlive⟩
      · exact Or.inl (Or.inl ⟨k, x, hx, hsp.symm⟩)
      · right
        rw [hsp]
        rw [← deleted_iff] at hlive
        exact ⟨Or.inl ⟨k, r, hr, rfl⟩,
          Or.inl ⟨k, r, hr, rfl, hvalid, hlive, sweepOutbox_eq_none.mp (h.outbox_none hnone)⟩⟩
  · rw [h.inbox_get] at he
    cases hr : remote.inbox[k]? with
    | none =>
      rw [hr] at he
      exact Or.inl (Or.inr (Or.inl ⟨k, e, he, rfl⟩))
    | some r =>
      rw [hr, Option.elim_some] at he
      rcases earlier_choice (s.beforeDeletions now remote).inbox[k]? r with hc | hc
      · have heq : r = e := hc.symm.trans (Option.some.inj he)
        subst heq
        exact Or.inr ⟨Or.inr (Or.inl ⟨k, r, hr, rfl⟩), Or.inr (Or.inl ⟨k, r, hr, rfl⟩)⟩
      · rw [he] at hc
        exact Or.inl (Or.inr (Or.inl ⟨k, e, hc, rfl⟩))
  · rw [h.markers_get] at hm
    cases hr : remote.markers[k]? with
    | none =>
      rw [hr] at hm
      exact Or.inl (Or.inr (Or.inr ⟨k, m, hm, rfl⟩))
    | some r =>
      rw [hr, Option.elim_some] at hm
      split_ifs at hm with hskew
      · exact Or.inl (Or.inr (Or.inr ⟨k, m, hm, rfl⟩))
      · rcases later_choice (s.beforeDeletions now remote).markers[k]? r with hc | hc
        · have heq : r = m := hc.symm.trans (Option.some.inj hm)
          subst heq
          have hk := h.rightKeys.markers k r hr
          refine Or.inr ⟨Or.inr (Or.inr ⟨k, r, hr, rfl⟩), Or.inr (Or.inr ⟨r, hk ▸ hr, ?_⟩)⟩
          simpa using hskew
        · rw [hm] at hc
          exact Or.inl (Or.inr (Or.inr ⟨k, m, hc, rfl⟩))

theorem Replicas.files_of_arrives (h : Replicas s remote) {id : SpaceId}
    (harr : Arrives now s remote id) : (s.mergeRemoteIntoLocal keys now remote).Files id := by
  have hkeys := (h.filing now).ownKeys
  rcases harr with ⟨k, e, he, rfl, hvalid, hlive, hswept⟩ | ⟨k, e, he, rfl⟩ | ⟨m, hm, hskew⟩
  · refine Or.inl ⟨k, e.settled (e.deliveryStatus = .expired), ?_, rfl⟩
    rw [deleted_iff] at hlive
    rw [h.outbox_get, he, Option.elim_some, h.outbox_swept hswept,
      received_live hlive hvalid none (by simp)]
    rfl
  · right
    left
    have hget := h.inbox_get keys now k
    rw [he, Option.elim_some] at hget
    refine ⟨k, _, hget, ?_⟩
    rcases earlier_choice (s.beforeDeletions now remote).inbox[k]? e with hc | hc
    · rw [hc]
    · have h1 := hkeys.inbox k _ hc
      have h2 := h.rightKeys.inbox k e he
      exact congrArg (fun k : InboxKey => (ofLex k).1) (h1.trans h2.symm)
  · right
    right
    have hget := h.markers_get keys now id
    rw [hm, Option.elim_some, hskew, if_neg Bool.false_ne_true] at hget
    refine ⟨id, _, hget, ?_⟩
    rcases later_choice (s.beforeDeletions now remote).markers[id]? m with hc | hc
    · rw [hc]
      exact h.rightKeys.markers id m hm
    · exact hkeys.markers id _ hc

end Merged

section Survivor

variable {keys : IdentityKeys} {now : Option ℕ} {s remote : OwnerState} {a sp : Space}

theorem Collapses.conversation (hc : Collapses now s remote a sp) :
    a.conversation = sp.conversation :=
  Space.conversation_eq hc.sameKey fun hnone => absurd (hc.sameKey ▸ hnone) hc.hasKey

theorem Collapses.place_left (h : Replicas s remote) (hc : Collapses now s remote a sp) :
    s.place sp.conversation = some a.id :=
  (place_eq_some h.left.toTableShape).mpr ⟨a, hc.held, hc.conversation⟩

theorem Collapses.place_merged (h : Replicas s remote) (hc : Collapses now s remote a sp) :
    (s.beforeDeletions now remote).place sp.conversation = some (min a.id sp.id) := by
  rw [place_taken h.left h.right.toTableShape hc.incoming hc.apart hc.accepts, hc.place_left h]
  rfl

theorem Collapses.live (h : Replicas s remote) (hc : Collapses now s remote a sp) :
    a.id ∉ s.tombstones ∧ sp.id ∉ s.tombstones :=
  ⟨h.left.live a.id a hc.held, (gateSpace_eq_ok.mp hc.accepts.2).2.1⟩

theorem Collapses.mem_ends (x : SpaceId) :
    x = a.id ∨ x = sp.id ↔ x = min a.id sp.id ∨ x = max a.id sp.id := by
  rcases le_total a.id sp.id with hle | hle
  · rw [min_eq_left hle, max_eq_right hle]
  · rw [min_eq_right hle, max_eq_left hle, or_comm]

theorem Collapses.own_left (h : Replicas s remote) (hc : Collapses now s remote a sp) {x : SpaceId}
    (hown : Own s a sp x) (hx : s.Anchored x) : x = a.id := by
  rcases hown.1 with rfl | rfl
  · rfl
  · rcases hx with hsome | ht
    · obtain ⟨b, hb⟩ := Option.isSome_iff_exists.mp hsome
      have hk := hown.2 b hb
      exact h.left.distinct sp.id a.id b a hb hc.held (hk.trans hc.sameKey.symm) (hk ▸ hc.hasKey)
    · exact absurd ht (hc.live h).2

theorem Collapses.own_incoming (hc : Collapses now s remote a sp) :
    Own remote a sp sp.id :=
  ⟨Or.inr rfl, fun b hb => by rw [Option.some.inj (hb.symm.trans hc.incoming)]⟩

theorem Collapses.loser_free (h : Replicas s remote) (hc : Collapses now s remote a sp)
    (hown : Own remote a sp (max a.id sp.id)) :
    ¬(s.beforeDeletions now remote).Anchored (max a.id sp.id) := by
  have htable := table_beforeDeletions now h.left remote
  have hmerged := hc.place_merged h
  have hloser : ∀ c, (s.beforeDeletions now remote).place c = some (max a.id sp.id) →
      sp.conversation ≠ c := by
    rintro c hplace rfl
    rw [hmerged] at hplace
    exact max_ne_min_of_ne hc.ne (Option.some.inj hplace).symm
  rw [anchored_iff htable.toTableShape, tombstones_beforeDeletions]
  rintro (⟨c, hplace⟩ | ht)
  · have hne := hloser c hplace
    rcases source_beforeDeletions h.left h.right.toTableShape hplace with hs | ⟨r, hr, rfl, -⟩
    · obtain ⟨b, hb, rfl⟩ := (place_eq_some h.left.toTableShape).mp hs
      rcases max_choice a.id sp.id with hm | hm
      · rw [hm] at hb
        exact hne (Option.some.inj (hb.symm.trans hc.held) ▸ hc.conversation.symm)
      · -- another local conversation stands under the incoming id
        rw [hm] at hb hplace
        by_cases hk : b.dedupeKey = sp.dedupeKey
        · exact hne (Space.conversation_eq hk fun hnone => absurd (hk ▸ hnone) hc.hasKey).symm
        · exact hc.apart (clash_of_stands h.left h.right.toTableShape hb hc.incoming hk hplace)
    · have hk := hown.2 r hr
      exact hne (Space.conversation_eq hk fun hnone => absurd (hk ▸ hnone) hc.hasKey).symm
  · rcases max_choice a.id sp.id with hm | hm <;> rw [hm] at ht
    · exact (hc.live h).1 ht
    · exact (hc.live h).2 ht

/-- An id of a row of the snapshot stands once the rows are in when the row is refused
and its own conversation or another one stands there. -/
theorem Replicas.stands_of_refused (h : Replicas s remote) {j : SpaceId} {sp : Space}
    (hsp : remote.spaces[j]? = some sp) (hacc : ¬Accepts now s sp)
    (hstands : Clash now s remote j ∨ j ∈ s.tombstones ∨
      ∃ b, s.spaces[j]? = some b ∧ b.dedupeKey = sp.dedupeKey) :
    (s.beforeDeletions now remote).Anchored j := by
  have htable := table_beforeDeletions now h.left remote
  rcases hstands with hclash | ht | ⟨b, hb, hk⟩
  · obtain ⟨-, m, -, -, -, -, hm, -⟩ := hclash.held_beforeDeletions h.left h.right.toTableShape
    exact Or.inl (by rw [hm]; rfl)
  · exact Or.inr ((tombstones_beforeDeletions now s remote).symm ▸ ht)
  · have hconv : b.conversation = sp.conversation := Space.conversation_eq hk fun _ =>
      (h.left.ownId j b hb).trans (h.right.ownId j sp hsp).symm
    have hplace : (s.beforeDeletions now remote).place sp.conversation =
        s.place sp.conversation := place_kept h.left h.right.toTableShape
      fun r hr => Or.inr fun hr' => hacc (by
        obtain ⟨hget, hconv'⟩ := (row_eq_some h.right.toTableShape).mp hr
        have hid := h.right.toTableShape.conversation_inj hget hsp hconv'
        rw [hid, hsp] at hget
        rwa [Option.some.inj hget])
    have hleft := (place_eq_some h.left.toTableShape).mpr ⟨b, hb, hconv⟩
    exact anchored_of_place htable.toTableShape (hplace.trans hleft)

theorem ArriveUnderSurvivors.anchored (h : Replicas s remote)
    (harrive : ArriveUnderSurvivors now s remote) {id : SpaceId} (hanch : remote.Anchored id)
    (harr : Arrives now s remote id) :
    (s.mergeRemoteIntoLocal keys now remote).Anchored id := by
  have htable := table_beforeDeletions now h.left remote
  rw [(mergeRemoteIntoLocal_records keys now s remote).2.2]
  rcases hanch with hsome | ht
  · left
    obtain ⟨sp, hsp⟩ := Option.isSome_iff_exists.mp hsome
    have hid := h.right.ownId id sp hsp
    subst hid
    by_cases hacc : Accepts now s sp
    · by_cases hclash : Clash now s remote sp.id
      · obtain ⟨-, m, -, -, -, -, hm, -⟩ :=
          hclash.held_beforeDeletions h.left h.right.toTableShape
        exact Or.inl (by rw [hm]; rfl)
      have hplace := place_taken h.left h.right.toTableShape hsp hclash hacc
      cases hs : s.place sp.conversation with
      | none =>
        rw [hs] at hplace
        exact anchored_of_place htable.toTableShape hplace
      | some i =>
        rw [hs, Option.elim_some] at hplace
        rcases le_or_gt sp.id i with hle | hlt
        · rw [min_eq_right hle] at hplace
          exact anchored_of_place htable.toTableShape hplace
        · -- the row would be folded into a smaller id, under which nothing may arrive
          obtain ⟨a, ha, hconv⟩ := (place_eq_some h.left.toTableShape).mp hs
          have haid := h.left.ownId i a ha
          have hk := Space.dedupeKey_eq_of_conversation hconv
          have hne : sp.dedupeKey ≠ .none := by
            intro hnone
            simp only [Space.conversation, hk, hnone, if_true, Prod.mk.injEq, Option.some.injEq,
              true_and] at hconv
            exact hlt.ne (haid.symm.trans hconv)
          have hc : Collapses now s remote a sp :=
            ⟨haid.symm ▸ ha, hsp, hk, hne, haid.symm ▸ hlt.ne, hacc, hclash⟩
          have hmax : max a.id sp.id = sp.id := by rw [haid, max_eq_right hlt.le]
          have hlost := harrive.losers a sp hc
          rw [hmax] at hlost
          exact absurd harr (hlost hc.own_incoming)
    · exact h.stands_of_refused hsp hacc
        ((harrive.refused sp.id sp hsp harr).resolve_left hacc)
  · exact Or.inr ht

end Survivor

section Kept

variable {keys : IdentityKeys} {now : Option ℕ} {s remote : OwnerState} {a sp : Space}

theorem earlier_receivedAt (old : Option InboxEntry) (e : InboxEntry) :
    (earlier old e).receivedAt =
      (old.map InboxEntry.receivedAt).elim e.receivedAt (min e.receivedAt) := by
  unfold earlier
  cases old with
  | none => rfl
  | some x =>
    dsimp only [Option.map_some, Option.elim_some]
    split_ifs with hnew
    · exact (min_eq_left (isStrictlyNewerThan_iff.mp hnew).le).symm
    · exact (min_eq_right (by simpa using hnew)).symm

theorem later_lastReadAt (old : Option ReadMarker) (m : ReadMarker) :
    (later old m).lastReadAt =
      (old.map ReadMarker.lastReadAt).elim m.lastReadAt (max m.lastReadAt) := by
  unfold later
  cases old with
  | none => rfl
  | some x =>
    dsimp only [Option.map_some, Option.elim_some]
    split_ifs with hnew
    · exact (max_eq_left (isStrictlyNewerThan_iff.mp hnew).le).symm
    · exact (max_eq_right (by simpa using hnew)).symm

/-- Once the rows are in, the local receipts stand under the surviving id. -/
theorem Collapses.inbox_local (h : Replicas s remote) (hc : Collapses now s remote a sp)
    (cid : ContentId) :
    (s.beforeDeletions now remote).inbox[
      (toLex (min a.id sp.id, cid) : InboxKey)]?.map InboxEntry.receivedAt =
        s.inbox[(toLex (a.id, cid) : InboxKey)]?.map InboxEntry.receivedAt := by
  have hrec := (h.filing now).received sp.conversation cid
  rw [hc.place_merged h, Option.bind_some] at hrec
  rw [hrec]
  change (s.place sp.conversation).bind _ = _
  rw [hc.place_left h, Option.bind_some]
  rfl

theorem Collapses.marker_local (h : Replicas s remote) (hc : Collapses now s remote a sp) :
    (s.beforeDeletions now remote).markers[min a.id sp.id]?.map ReadMarker.lastReadAt =
      s.markers[a.id]?.map ReadMarker.lastReadAt := by
  have hread := (h.filing now).read sp.conversation
  rw [hc.place_merged h, Option.bind_some] at hread
  rw [hread]
  change (s.place sp.conversation).bind _ = _
  rw [hc.place_left h, Option.bind_some]
  rfl

/-- Every receipt of the conversation is matched by the merged one. -/
theorem Collapses.inbox_kept (h : Replicas s remote) (hc : Collapses now s remote a sp)
    (harr : Own remote a sp (max a.id sp.id) → ¬Arrives now s remote (max a.id sp.id))
    {x : SpaceId} {cid : ContentId} {e : InboxEntry}
    (he : s.inbox[(toLex (x, cid) : InboxKey)]? = some e ∧ Own s a sp x ∨
      remote.inbox[(toLex (x, cid) : InboxKey)]? = some e ∧ Own remote a sp x) :
    ∃ e', (s.mergeRemoteIntoLocal keys now remote).inbox[
      (toLex (min a.id sp.id, cid) : InboxKey)]? = some e' ∧ e'.receivedAt ≤ e.receivedAt := by
  have hget := h.inbox_get keys now (toLex (min a.id sp.id, cid))
  have hlocal := hc.inbox_local h cid
  rcases he with ⟨he, hown⟩ | ⟨he, hown⟩
  · have hk : e.spaceId = x :=
      congrArg (fun k : InboxKey => (ofLex k).1) (h.leftKeys.inbox _ e he)
    obtain rfl := hc.own_left h hown (hk ▸ h.leftAnchored.inbox _ e he)
    rw [he, Option.map_some, Option.map_eq_some_iff] at hlocal
    obtain ⟨e', he', hrec⟩ := hlocal
    rw [he'] at hget
    cases hr : remote.inbox[(toLex (min a.id sp.id, cid) : InboxKey)]? with
    | none =>
      rw [hr] at hget
      exact ⟨e', hget, hrec.le⟩
    | some r =>
      rw [hr, Option.elim_some] at hget
      refine ⟨_, hget, ?_⟩
      rw [earlier_receivedAt, Option.map_some, Option.elim_some, hrec]
      exact min_le_right _ _
  · rcases (Collapses.mem_ends x).mp hown.1 with rfl | rfl
    · rw [he, Option.elim_some] at hget
      refine ⟨_, hget, ?_⟩
      rw [earlier_receivedAt]
      cases (s.beforeDeletions now remote).inbox[(toLex (min a.id sp.id, cid) : InboxKey)]? with
      | none => exact le_rfl
      | some y => exact min_le_left _ _
    · have hk := congrArg (fun k : InboxKey => (ofLex k).1) (h.rightKeys.inbox _ e he)
      exact absurd (Or.inr (Or.inl ⟨_, e, he, hk⟩)) (harr hown)

/-- The merged receipt is one of those under the two ids. -/
theorem Collapses.inbox_source (h : Replicas s remote) (hc : Collapses now s remote a sp)
    {cid : ContentId} {e' : InboxEntry}
    (he' : (s.mergeRemoteIntoLocal keys now remote).inbox[
      (toLex (min a.id sp.id, cid) : InboxKey)]? = some e') :
    ∃ (x : SpaceId) (e : InboxEntry), (x = a.id ∨ x = sp.id) ∧
      (s.inbox[(toLex (x, cid) : InboxKey)]? = some e ∨
        remote.inbox[(toLex (x, cid) : InboxKey)]? = some e) ∧ e.receivedAt = e'.receivedAt := by
  have hlocal := hc.inbox_local h cid
  have hfromLocal : ∀ y, (s.beforeDeletions now remote).inbox[
      (toLex (min a.id sp.id, cid) : InboxKey)]? = some y → ∃ (x : SpaceId) (e : InboxEntry),
        (x = a.id ∨ x = sp.id) ∧ (s.inbox[(toLex (x, cid) : InboxKey)]? = some e ∨
          remote.inbox[(toLex (x, cid) : InboxKey)]? = some e) ∧ e.receivedAt = y.receivedAt := by
    intro y hy
    rw [hy, Option.map_some] at hlocal
    obtain ⟨e, he, hrec⟩ := Option.map_eq_some_iff.mp hlocal.symm
    exact ⟨a.id, e, Or.inl rfl, Or.inl he, hrec⟩
  rw [h.inbox_get] at he'
  cases hr : remote.inbox[(toLex (min a.id sp.id, cid) : InboxKey)]? with
  | none =>
    rw [hr] at he'
    exact hfromLocal e' he'
  | some r =>
    rw [hr, Option.elim_some, Option.some.injEq] at he'
    rcases earlier_choice (s.beforeDeletions now remote).inbox[
      (toLex (min a.id sp.id, cid) : InboxKey)]? r with hch | hch
    · exact ⟨_, r, (Collapses.mem_ends _).mpr (Or.inl rfl), Or.inr hr, by rw [← he', hch]⟩
    · exact hfromLocal e' (he' ▸ hch)

/-- Every reading position of the conversation is reached by the merged one. -/
theorem Collapses.marker_kept (h : Replicas s remote) (hc : Collapses now s remote a sp)
    (harr : Own remote a sp (max a.id sp.id) → ¬Arrives now s remote (max a.id sp.id))
    {x : SpaceId} {m : ReadMarker}
    (hm : s.markers[x]? = some m ∧ Own s a sp x ∨
      remote.markers[x]? = some m ∧ Own remote a sp x ∧
        wallExceedsForwardSkew m.lastReadAt.wallMs now = false) :
    ∃ m', (s.mergeRemoteIntoLocal keys now remote).markers[min a.id sp.id]? = some m' ∧
      m.lastReadAt ≤ m'.lastReadAt := by
  have hget := h.markers_get keys now (min a.id sp.id)
  have hlocal := hc.marker_local h
  rcases hm with ⟨hm, hown⟩ | ⟨hm, hown, hskew⟩
  · obtain rfl := hc.own_left h hown (h.leftKeys.markers x m hm ▸ h.leftAnchored.markers x m hm)
    rw [hm, Option.map_some, Option.map_eq_some_iff] at hlocal
    obtain ⟨m', hm', hread⟩ := hlocal
    rw [hm'] at hget
    cases hr : remote.markers[min a.id sp.id]? with
    | none =>
      rw [hr] at hget
      exact ⟨m', hget, hread.ge⟩
    | some r =>
      rw [hr, Option.elim_some] at hget
      split_ifs at hget
      · exact ⟨m', hget, hread.ge⟩
      · refine ⟨_, hget, ?_⟩
        rw [later_lastReadAt, Option.map_some, Option.elim_some, hread]
        exact le_max_right _ _
  · rcases (Collapses.mem_ends x).mp hown.1 with rfl | rfl
    · rw [hm, Option.elim_some, hskew, if_neg Bool.false_ne_true] at hget
      refine ⟨_, hget, ?_⟩
      rw [later_lastReadAt]
      cases (s.beforeDeletions now remote).markers[min a.id sp.id]? with
      | none => exact le_rfl
      | some y => exact le_max_left _ _
    · exact absurd (Or.inr (Or.inr ⟨m, hm, hskew⟩)) (harr hown)

/-- The merged reading position is one of those under the two ids. -/
theorem Collapses.marker_source (h : Replicas s remote) (hc : Collapses now s remote a sp)
    {m' : ReadMarker}
    (hm' : (s.mergeRemoteIntoLocal keys now remote).markers[min a.id sp.id]? = some m') :
    ∃ (x : SpaceId) (m : ReadMarker), (x = a.id ∨ x = sp.id) ∧
      (s.markers[x]? = some m ∨ remote.markers[x]? = some m) ∧ m.lastReadAt = m'.lastReadAt := by
  have hlocal := hc.marker_local h
  have hfromLocal : ∀ y, (s.beforeDeletions now remote).markers[min a.id sp.id]? = some y →
      ∃ (x : SpaceId) (m : ReadMarker), (x = a.id ∨ x = sp.id) ∧
        (s.markers[x]? = some m ∨ remote.markers[x]? = some m) ∧ m.lastReadAt = y.lastReadAt := by
    intro y hy
    rw [hy, Option.map_some] at hlocal
    obtain ⟨m, hm, hread⟩ := Option.map_eq_some_iff.mp hlocal.symm
    exact ⟨a.id, m, Or.inl rfl, Or.inl hm, hread⟩
  rw [h.markers_get] at hm'
  cases hr : remote.markers[min a.id sp.id]? with
  | none =>
    rw [hr] at hm'
    exact hfromLocal m' hm'
  | some r =>
    rw [hr, Option.elim_some] at hm'
    split_ifs at hm'
    · exact hfromLocal m' hm'
    · have heq := Option.some.inj hm'
      rcases later_choice (s.beforeDeletions now remote).markers[min a.id sp.id]? r with hch | hch
      · exact ⟨_, r, (Collapses.mem_ends _).mpr (Or.inl rfl), Or.inr hr, by rw [← heq, hch]⟩
      · exact hfromLocal m' (heq ▸ hch)

theorem Collapses.delivered (h : Replicas s remote) (hc : Collapses now s remote a sp)
    {k : OutboxEntryId} {e : OutboxEntry} (he : s.outbox[k]? = some e)
    (hkept : ¬Swept s remote k e) :
    ∃ y, (s.beforeDeletions now remote).outbox[k]? = some { e with spaceId := y } ∧
      (y = min a.id sp.id ↔ e.spaceId = a.id) := by
  obtain ⟨y, hy, hplaced⟩ := (h.filing now).delivered k
  have hswept := sweepOutbox_eq_some.mpr ⟨he, hkept⟩
  rw [hswept, Option.map_some] at hy
  obtain ⟨hfollows, hdeleted⟩ := hplaced e hswept
  have hleft : s.place sp.conversation = some a.id := hc.place_left h
  have hmerged := hc.place_merged h
  have htable := table_beforeDeletions now h.left remote
  refine ⟨y, hy, fun hmin => ?_, fun hid => ?_⟩
  · rcases (anchored_iff h.left.toTableShape).mp (h.leftAnchored.outbox k e he) with ⟨c, hpl⟩ | ht
    · have hpl' := hfollows c hpl
      rw [hmin] at hpl'
      rw [place_inj htable.toTableShape hpl' hmerged, hc.place_left h] at hpl
      exact (Option.some.inj hpl).symm
    · -- a record of a deleted id does not move to a row
      obtain ⟨m, hm, -⟩ := (place_eq_some htable.toTableShape).mp hmerged
      have hlive := htable.live _ m hm
      rw [tombstones_beforeDeletions, ← hmin, hdeleted ht] at hlive
      exact absurd ht hlive
  · have hpl := hfollows sp.conversation (hid ▸ hleft)
    exact (Option.some.inj (hmerged.symm.trans hpl)).symm

theorem Collapses.outbox_kept (h : Replicas s remote) (hc : Collapses now s remote a sp)
    (harrive : ArriveUnderSurvivors now s remote) {k : OutboxEntryId} {e : OutboxEntry}
    (he : s.outbox[k]? = some e ∧ Own s a sp e.spaceId ∨
      remote.outbox[k]? = some e ∧ Own remote a sp e.spaceId) (hlive : ¬Deleted s remote k e) :
    ∃ e', (s.mergeRemoteIntoLocal keys now remote).outbox[k]? = some e' ∧
      e'.spaceId = min a.id sp.id ∧ e.deliveredTo ⊆ e'.deliveredTo := by
  have hlive' := hlive
  rw [deleted_iff] at hlive'
  rcases he with ⟨he, hown⟩ | ⟨he, hown⟩
  · have hid := hc.own_left h hown (h.leftAnchored.outbox k e he)
    obtain ⟨y, hy, hmin⟩ := hc.delivered h he fun hswept => hlive hswept.2
    obtain rfl := hmin.mpr hid
    rw [h.outbox_get, hy]
    cases remote.outbox[k]? with
    | none => exact ⟨_, rfl, rfl, Finset.Subset.refl _⟩
    | some r => exact received_some _ _ r
  · rw [h.outbox_get, he, Option.elim_some]
    rcases harrive.delivered a sp hc k e he hown hlive with
      ⟨hvalid, hswept⟩ | ⟨x, hx, hkept, hid, hjoin⟩
    · rw [h.outbox_swept hswept, received_live hlive' hvalid none (by simp)]
      refine ⟨_, rfl, ?_, Finset.Subset.refl _⟩
      refine ((Collapses.mem_ends e.spaceId).mp hown.1).resolve_right fun hmax => ?_
      refine harrive.losers a sp hc (hmax ▸ hown) (Or.inl ⟨k, e, he, hmax, hvalid, hlive, hswept⟩)
    · obtain ⟨y, hy, hmin⟩ := hc.delivered h hx hkept
      obtain rfl := hmin.mpr hid
      rw [hy]
      rcases hjoin with ⟨hsame, hvalid⟩ | hsub
      · rw [received_live hlive' hvalid _ (by rintro z ⟨⟩; exact hsame)]
        exact ⟨_, rfl, rfl, Finset.subset_union_right⟩
      · obtain ⟨z, hz, hsp, hacks⟩ := received_some
          (s.sweepOutbox remote).outboxTombstones[k]? { x with spaceId := min a.id sp.id } e
        exact ⟨z, hz, hsp, hsub.trans hacks⟩

theorem Collapses.kept (h : Replicas s remote) (hc : Collapses now s remote a sp)
    (harrive : ArriveUnderSurvivors now s remote) :
    CollapseKept now s remote (s.mergeRemoteIntoLocal keys now remote) a sp where
  unfiled hown hf := by
    rcases h.files_merged hf with hN | ⟨-, ha⟩
    · exact hc.loser_free h hown (noDangling_iff.mp (h.filing now).anchored _ hN)
    · exact harrive.losers a sp hc hown ha
  outbox k e he := by
    by_cases hdel : Deleted s remote k e
    · left
      rw [(mergeRemoteIntoLocal_records keys now s remote).2.1]
      exact (deleted_iff e).mp hdel
    · exact Or.inr (hc.outbox_kept h harrive he hdel)
  inbox x cid e he := hc.inbox_kept h (harrive.losers a sp hc) he
  receipt cid e' he' := hc.inbox_source h he'
  marker x m hm := hc.marker_kept h (harrive.losers a sp hc) hm
  position m' hm' := hc.marker_source h hm'

/-- A row of the snapshot that is refused leaves what stands under its id there, or the
id is no one's. -/
theorem Replicas.refused_of_stands (h : Replicas s remote) {j : SpaceId} {sp : Space}
    (hsp : remote.spaces[j]? = some sp) (hanch : (s.beforeDeletions now remote).Anchored j) :
    Accepts now s sp ∨ Clash now s remote j ∨ j ∈ s.tombstones ∨
      ∃ b, s.spaces[j]? = some b ∧ b.dedupeKey = sp.dedupeKey := by
  have htable := table_beforeDeletions now h.left remote
  rw [anchored_iff htable.toTableShape, tombstones_beforeDeletions] at hanch
  rcases hanch with ⟨c, hplace⟩ | ht
  · rcases source_beforeDeletions h.left h.right.toTableShape hplace with hs | ⟨r, hr, -, hacc⟩
    · obtain ⟨b, hb, rfl⟩ := (place_eq_some h.left.toTableShape).mp hs
      by_cases hk : b.dedupeKey = sp.dedupeKey
      · exact Or.inr (Or.inr (Or.inr ⟨b, hb, hk⟩))
      · exact Or.inr (Or.inl (clash_of_stands h.left h.right.toTableShape hb hsp hk hplace))
    · exact Or.inl (Option.some.inj (hr.symm.trans hsp) ▸ hacc)
  · exact Or.inr (Or.inr (Or.inl ht))

/-- A delivery record of a collapsed conversation that the merge keeps was new here, or
joined into a local record of the conversation. -/
theorem Collapses.delivered_of_kept (h : Replicas s remote) (hc : Collapses now s remote a sp)
    {k : OutboxEntryId} {e e' : OutboxEntry} (he : remote.outbox[k]? = some e)
    (he' : (s.mergeRemoteIntoLocal keys now remote).outbox[k]? = some e')
    (hid : e'.spaceId = min a.id sp.id) (hacks : e.deliveredTo ⊆ e'.deliveredTo) :
    (e.deliveredTo ⊆ e.recipientOwners.toFinset ∧
        ∀ x, s.outbox[k]? = some x → Swept s remote k x) ∨
      ∃ x, s.outbox[k]? = some x ∧ ¬Swept s remote k x ∧ x.spaceId = a.id ∧
        (x.SameEnvelope e ∧ e.deliveredTo ⊆ e.recipientOwners.toFinset ∨
          e.deliveredTo ⊆ x.deliveredTo) := by
  rw [h.outbox_get, he, Option.elim_some] at he'
  by_cases hswept : ∀ x, s.outbox[k]? = some x → Swept s remote k x
  · rw [h.outbox_swept hswept] at he'
    rcases received_cases he' with ⟨x, hx, -⟩ | ⟨-, -, hvalid, -⟩
    · cases hx
    · exact Or.inl ⟨hvalid, hswept⟩
  · push Not at hswept
    obtain ⟨x, hx, hkept⟩ := hswept
    obtain ⟨y, hy, hmin⟩ := hc.delivered h hx hkept
    rw [hy] at he'
    obtain ⟨hsp, hjoin⟩ := received_join he'
    refine Or.inr ⟨x, hx, hkept, hmin.mp (hsp.symm.trans hid), hjoin.imp (fun h => h) fun h => ?_⟩
    exact h ▸ hacks

/-- The merge keeps the records of both sides exactly when none arrives under an id
that loses a collapse or whose row is refused, and no delivery record of a collapsed
conversation is dropped for another of its id. -/
theorem dependentsKept_iff (keys : IdentityKeys) (now : Option ℕ) (h : Replicas s remote) :
    DependentsKept keys now s remote ↔ ArriveUnderSurvivors now s remote := by
  constructor
  · intro hkept
    refine ⟨fun a sp hc hown harr => ?_, fun j sp hsp harr => ?_, fun a sp hc k e he hown hlive => ?_⟩
    · exact (hkept.collapse a sp hc).unfiled hown (h.files_of_arrives harr)
    · have hanch := noDangling_iff.mp hkept.anchored j (h.files_of_arrives harr)
      rw [(mergeRemoteIntoLocal_records keys now s remote).2.2] at hanch
      exact h.refused_of_stands hsp (hanch.resolve_right (h.right.live j sp hsp))
    · rcases (hkept.collapse a sp hc).outbox k e (Or.inr ⟨he, hown⟩) with hdel | ⟨e', he', hid, hacks⟩
      · rw [(mergeRemoteIntoLocal_records keys now s remote).2.1] at hdel
        exact absurd ((deleted_iff e).mpr hdel) hlive
      · exact hc.delivered_of_kept h he he' hid hacks
  · intro harrive
    refine ⟨?_, fun a sp hc => hc.kept h harrive⟩
    rw [noDangling_iff]
    intro id hf
    rcases h.files_merged hf with hN | ⟨hr, harr⟩
    · rw [(mergeRemoteIntoLocal_records keys now s remote).2.2]
      exact Or.inl (noDangling_iff.mp (h.filing now).anchored id hN)
    · exact harrive.anchored h (noDangling_iff.mp h.rightAnchored id hr) harr

end Kept

section Decide

variable (s : OwnerState)

instance (id : SpaceId) : Decidable (s.Anchored id) := inferInstanceAs (Decidable (_ ∨ _))

instance : Decidable (NoDangling s) :=
  decidable_of_iff ((∀ p ∈ s.outbox.toList, s.Anchored p.2.spaceId) ∧
    (∀ p ∈ s.inbox.toList, s.Anchored p.2.spaceId) ∧
      ∀ p ∈ s.markers.toList, s.Anchored p.2.spaceId) <| by
    simp only [mem_toList_iff, Prod.forall]
    exact ⟨fun h => ⟨h.1, h.2.1, h.2.2⟩, fun h => ⟨h.outbox, h.inbox, h.markers⟩⟩

instance : Decidable (OwnKeys s) :=
  decidable_of_iff ((∀ p ∈ s.outbox.toList, p.2.id = p.1) ∧
    (∀ p ∈ s.inbox.toList, p.2.key = p.1) ∧ ∀ p ∈ s.markers.toList, p.2.spaceId = p.1) <| by
    simp only [mem_toList_iff, Prod.forall]
    exact ⟨fun h => ⟨h.1, h.2.1, h.2.2⟩, fun h => ⟨h.outbox, h.inbox, h.markers⟩⟩

end Decide

end OwnerState

def conversationState (row : Space) (receivedAt : ℕ) : OwnerState :=
  ((({} : OwnerState).applySpaceWithCanonicalization row).1.applyInbox
    ⟨row.id, 7, 2, ⟨receivedAt, 0, "device"⟩⟩).1

theorem conversationState_table (row : Space) (receivedAt : ℕ) :
    (conversationState row receivedAt).SpaceTable :=
  (OwnerState.SpaceTable.empty.applySpaceWithCanonicalization row).congr rfl rfl rfl

theorem conversationState_outbox (row : Space) (receivedAt : ℕ) :
    (conversationState row receivedAt).outbox = ∅ := by
  have hbare : OwnerState.Bare {} := rfl
  change (({} : OwnerState).applySpaceWithCanonicalization row).1.outbox = ∅
  rw [hbare.applySpaceWithCanonicalization_eq]
  have h := hbare.applySpace row
  rw [← h]
  rfl

theorem conversationState_replicas {row row' : Space} {t u : ℕ}
    (hi : (conversationState row t).OwnKeys ∧ (conversationState row t).NoDangling)
    (hj : (conversationState row' u).OwnKeys ∧ (conversationState row' u).NoDangling) :
    (conversationState row t).Replicas (conversationState row' u) where
  left := conversationState_table row t
  right := conversationState_table row' u
  leftKeys := hi.1
  rightKeys := hj.1
  leftAnchored := hi.2
  rightAnchored := hj.2

/-- The device holds its row alone, and what arrives from it arrives under that row. -/
structure OneRow (row : Space) (s : OwnerState) : Prop where
  rows : s.spaces.toList.map Prod.fst = [row.id]
  messages : ∀ p ∈ s.inbox.toList, p.2.spaceId = row.id
  markers : s.markers.toList.map Prod.fst = []

instance (row : Space) (s : OwnerState) : Decidable (OneRow row s) :=
  decidable_of_iff (_ ∧ _ ∧ _) ⟨fun h => ⟨h.1, h.2.1, h.2.2⟩, fun h => ⟨h.rows, h.messages, h.markers⟩⟩

theorem OneRow.id_eq {row : Space} {s : OwnerState} (h : OneRow row s) {i : SpaceId} {b : Space}
    (hb : s.spaces[i]? = some b) : i = row.id := by
  have hmem : i ∈ s.spaces.toList.map Prod.fst :=
    List.mem_map_of_mem (mem_toList_iff (p := (i, b)).mpr hb)
  rwa [h.rows, List.mem_singleton] at hmem

theorem OneRow.arrives {row : Space} {t : ℕ} (h : OneRow row (conversationState row t))
    {now : Option ℕ} {s : OwnerState} {x : SpaceId}
    (harr : OwnerState.Arrives now s (conversationState row t) x) : x = row.id := by
  rcases harr with ⟨k, e, he, -⟩ | ⟨k, e, he, rfl⟩ | ⟨m, hm, -⟩
  · rw [conversationState_outbox] at he
    simp at he
  · exact h.messages (k, e) (mem_toList_iff.mpr he)
  · have hmem : x ∈ (conversationState row t).markers.toList.map Prod.fst :=
      List.mem_map_of_mem (mem_toList_iff (p := (x, m)).mpr hm)
    rw [h.markers] at hmem
    cases hmem

def otherMessage : Space := { directMessage 1 1 with members := [1, 3] }

theorem conversationState_arrive :
    OwnerState.ArriveUnderSurvivors (some 1000) (conversationState (directMessage 2 1) 9)
      (conversationState (directMessage 1 1) 5) := by
  have hleft : OneRow (directMessage 2 1) (conversationState (directMessage 2 1) 9) := by
    decide +kernel
  have hright : OneRow (directMessage 1 1) (conversationState (directMessage 1 1) 5) := by
    decide +kernel
  refine ⟨fun a sp hc _ harr => ?_, fun j sp hsp harr => Or.inl ?_, fun a sp hc k e he => ?_⟩
  · have hle : a.id ≤ max a.id sp.id := le_max_left _ _
    rw [hright.arrives harr, hleft.id_eq hc.held] at hle
    exact absurd hle (by decide)
  · obtain rfl := hright.arrives harr
    have hrow : (conversationState (directMessage 1 1) 5).spaces[(directMessage 1 1).id]? =
        some (directMessage 1 1) := rfl
    obtain rfl := Option.some.inj (hsp.symm.trans hrow)
    exact ⟨by decide +kernel,
      OwnerState.gateSpace_eq_ok.mpr ⟨rfl, by decide +kernel, by decide +kernel⟩⟩
  · rw [conversationState_outbox] at he
    simp at he

theorem otherMessage_arrive :
    OwnerState.ArriveUnderSurvivors (some 1000) (conversationState (directMessage 1 1) 9)
      (conversationState otherMessage 5) := by
  have hleft : OneRow (directMessage 1 1) (conversationState (directMessage 1 1) 9) := by
    decide +kernel
  have hright : OneRow otherMessage (conversationState otherMessage 5) := by decide +kernel
  refine ⟨fun a sp hc => ?_, fun j sp hsp _ => Or.inr (Or.inl ?_), fun a sp hc => ?_⟩
  · exact absurd ((hleft.id_eq hc.held).trans (hright.id_eq hc.incoming).symm) hc.ne
  · obtain rfl := hright.id_eq hsp
    refine .intro (a := directMessage 1 1) rfl rfl (by decide +kernel) fun i r hi hr => ?_
    exact absurd ((hright.id_eq hr) ▸ hi) (lt_irrefl _)
  · exact absurd ((hleft.id_eq hc.held).trans (hright.id_eq hc.incoming).symm) hc.ne

/-- When the snapshot's id is the smaller one, its message and the local one end up
under it; when the id stands for another conversation, nothing collapses or dangles. -/
theorem dependentsKept_iff_survivor :
    OwnerState.DependentsKept plainKeys (some 1000) (conversationState (directMessage 2 1) 9)
        (conversationState (directMessage 1 1) 5) ∧
      OwnerState.DependentsKept plainKeys (some 1000) (conversationState (directMessage 1 1) 9)
        (conversationState otherMessage 5) :=
  ⟨(OwnerState.dependentsKept_iff plainKeys (some 1000)
      (conversationState_replicas (by decide +kernel) (by decide +kernel))).mpr
        conversationState_arrive,
    (OwnerState.dependentsKept_iff plainKeys (some 1000)
      (conversationState_replicas (by decide +kernel) (by decide +kernel))).mpr
        otherMessage_arrive⟩

/-- A message that arrives under the larger of two collapsed ids is left dangling. -/
theorem collapsed_message_dangles :
    (conversationState (directMessage 1 1) 9).Replicas (conversationState (directMessage 2 1) 5) ∧
      ¬OwnerState.DependentsKept plainKeys (some 1000) (conversationState (directMessage 1 1) 9)
        (conversationState (directMessage 2 1) 5) := by
  refine ⟨conversationState_replicas (by decide +kernel) (by decide +kernel), fun hkept => ?_⟩
  have hdangling : ¬((conversationState (directMessage 1 1) 9).mergeRemoteIntoLocal plainKeys
      (some 1000) (conversationState (directMessage 2 1) 5)).NoDangling := by decide +kernel
  exact hdangling hkept.anchored

end Harmony.Owner
