import Harmony.Lib.Joins
import Harmony.Owner.Soundness

/-! Merging as a join of registers. Each register of the owner state is read at one key, a
merge of a snapshot joins the two readings, and each join is lawful on the readings
that can meet; so the merge is commutative, associative and idempotent on them. -/

namespace Harmony.Owner

open Harmony.Lib
open Harmony.Membership (OwnerAddr SpaceId Hlc Bytes)

/-! ### The joins of the values -/

section Delivery

variable {x y z : OutboxEntry}

/-- Two copies of one delivery record, each with the status it should have. -/
structure OutboxEntry.Copies (x y : OutboxEntry) : Prop where
  id : x.id = y.id
  spaceId : x.spaceId = y.spaceId
  envelope : x.SameEnvelope y
  left : x.deliveryStatus = x.computeStatus (x.deliveryStatus = .expired)
  right : y.deliveryStatus = y.computeStatus (y.deliveryStatus = .expired)

theorem OutboxEntry.Copies.symm (h : x.Copies y) : y.Copies x :=
  ⟨h.id.symm, h.spaceId.symm, ⟨h.envelope.1.symm, h.envelope.2.1.symm, h.envelope.2.2.symm⟩,
    h.right, h.left⟩

theorem OutboxEntry.eq_of_envelope (hid : x.id = y.id) (hsp : x.spaceId = y.spaceId)
    (henv : x.SameEnvelope y) (hd : x.deliveredTo = y.deliveredTo)
    (hs : x.deliveryStatus = y.deliveryStatus) : x = y := by
  obtain ⟨hcid, hrec, hca⟩ := henv
  cases x
  cases y
  simp_all

/-- The status depends on the acknowledgements, and on expiry while some are missing. -/
theorem OutboxEntry.computeStatus_congr {b b' : Bool} (hrec : x.recipientOwners = y.recipientOwners)
    (hd : x.deliveredTo = y.deliveredTo)
    (h : ¬x.recipientOwners.all (· ∈ x.deliveredTo) → b = b') :
    x.computeStatus b = y.computeStatus b' := by
  unfold OutboxEntry.computeStatus
  rw [← hrec, ← hd]
  by_cases hall : x.recipientOwners.all (· ∈ x.deliveredTo) = true
  · rw [if_pos hall, if_pos hall]
  · rw [h hall]

theorem OutboxEntry.join_expired
    (hopen : ¬x.recipientOwners.all (· ∈ x.deliveredTo ∪ y.deliveredTo)) :
    (x.join y).deliveryStatus = .expired ↔ x.deliveryStatus = .expired ∨ y.deliveryStatus = .expired := by
  change OutboxEntry.computeStatus _ _ = _ ↔ _
  unfold OutboxEntry.computeStatus
  rw [if_neg hopen]
  split_ifs <;> simp_all

theorem not_all_mono {rs : List OwnerAddr} {d d' : Finset OwnerAddr} (h : d ⊆ d')
    (hopen : ¬rs.all (· ∈ d')) : ¬rs.all (· ∈ d) := by
  intro hall
  refine hopen ?_
  rw [List.all_eq_true] at hall ⊢
  intro r hr
  exact decide_eq_true (h (of_decide_eq_true (hall r hr)))

theorem OutboxEntry.Copies.join_comm (h : x.Copies y) : x.join y = y.join x := by
  have hd : x.deliveredTo ∪ y.deliveredTo = y.deliveredTo ∪ x.deliveredTo := Finset.union_comm _ _
  refine OutboxEntry.eq_of_envelope h.id h.spaceId h.envelope hd ?_
  refine OutboxEntry.computeStatus_congr h.envelope.2.1 hd fun _ => ?_
  simp [or_comm]

theorem OutboxEntry.Copies.join_assoc (h : x.Copies y) :
    (x.join y).join z = x.join (y.join z) := by
  have hd : (x.deliveredTo ∪ y.deliveredTo) ∪ z.deliveredTo =
      x.deliveredTo ∪ (y.deliveredTo ∪ z.deliveredTo) := Finset.union_assoc _ _ _
  refine OutboxEntry.eq_of_envelope rfl rfl ⟨rfl, rfl, rfl⟩ hd ?_
  refine OutboxEntry.computeStatus_congr rfl hd fun hopen => ?_
  -- while the whole is open, so are its parts, and expiry is an or over the three
  have hleft : ¬x.recipientOwners.all (· ∈ x.deliveredTo ∪ y.deliveredTo) :=
    not_all_mono Finset.subset_union_left hopen
  have hright : ¬y.recipientOwners.all (· ∈ y.deliveredTo ∪ z.deliveredTo) := by
    rw [← h.envelope.2.1]
    exact not_all_mono Finset.subset_union_right (hd ▸ hopen)
  simp only [OutboxEntry.join_expired hleft, OutboxEntry.join_expired hright, or_assoc]

theorem OutboxEntry.Copies.join_self (h : x.Copies x) : x.join x = x := by
  have hd : x.deliveredTo ∪ x.deliveredTo = x.deliveredTo := Finset.union_self _
  refine OutboxEntry.eq_of_envelope rfl rfl ⟨rfl, rfl, rfl⟩ hd ?_
  rw [h.left]
  exact OutboxEntry.computeStatus_congr rfl hd fun _ => by simp

theorem joinOn_outboxEntry : JoinOn OutboxEntry.Copies OutboxEntry.join where
  symm h := h.symm
  meets _ _ h3 := ⟨h3.id, h3.spaceId, h3.envelope, OutboxEntry.settled_status _ _, h3.right⟩
  comm h := h.join_comm
  assoc h _ _ := h.join_assoc
  idem h := h.join_self

def postdates (tombstone : Option Hlc) (e : OutboxEntry) : Bool :=
  tombstone.any fun t => isStrictlyNewerThan t e.createdAt

theorem sweepsOn_outbox : SweepsOn OutboxEntry.Copies OutboxEntry.join (latest id) postdates where
  grows m m' e := by
    cases m with
    | none => simp [postdates]
    | some t =>
      cases m' with
      | none => simp [postdates]
      | some t' =>
        rw [latest_some_some, Bool.eq_iff_iff, Bool.or_eq_true]
        split_ifs with hlt <;> simp only [postdates, Option.any_some, isStrictlyNewerThan_iff]
        · exact ⟨Or.inr, fun h => h.elim (fun h => h.trans hlt) fun h => h⟩
        · exact ⟨Or.inl, fun h => h.elim (fun h => h) fun h => h.trans_le (not_lt.mp hlt)⟩
  shared m e e' h := by rw [postdates, postdates, h.envelope.2.2]
  joined _ _ _ _ := rfl

theorem joinOn_stamps : JoinOn (fun _ _ : Option Hlc => True) (latest id) where
  symm _ := trivial
  meets _ _ _ := trivial
  comm _ := latest_comm fun _ _ _ _ h => h
  assoc _ _ _ := latest_assoc _ _ _
  idem _ := latest_self _

theorem OutboxSound.swept {tombstones : BTreeMap OutboxEntryId Hlc}
    {outbox : BTreeMap OutboxEntryId OutboxEntry} (h : OutboxSound tombstones outbox)
    (id : OutboxEntryId) : swept postdates tombstones[id]? outbox[id]? = outbox[id]? := by
  cases hx : outbox[id]? with
  | none => rfl
  | some x => rw [swept_some, postdates, not_any_iff.mpr (h id x hx).live, if_neg (by simp)]

theorem OutboxEntry.settled_self {e : OutboxEntry}
    (h : e.deliveryStatus = e.computeStatus (e.deliveryStatus = .expired)) :
    e.settled (e.deliveryStatus = .expired) = e := by
  unfold OutboxEntry.settled
  rw [← h]

/-- A record that is received where a tombstone has swept is joined and swept. -/
theorem received_swept {tombstone : Option Hlc} {old : Option OutboxEntry} {id : OutboxEntryId}
    {e : OutboxEntry} {tomb : Option Hlc} (he : e.Sound tomb id)
    (hR : ∀ x, old = some x → x.Copies e) :
    received tombstone (swept postdates tombstone old) e =
      swept postdates tombstone (Option.merge OutboxEntry.join old (some e)) := by
  have hsame := OutboxEntry.settled_self he.status
  cases old with
  | none =>
    rw [Option.merge_none_left, swept_some]
    change received tombstone none e = _
    unfold received
    change (if postdates tombstone e = true then _ else _) = _
    split_ifs with hdead hd
    · rfl
    · exact congrArg some hsame
    · exact absurd he.delivered hd
  | some x =>
    have hx := hR x rfl
    have hdead : postdates tombstone x = postdates tombstone e :=
      sweepsOn_outbox.shared tombstone x e hx
    rw [Option.merge_some_some, swept_some, swept_some, sweepsOn_outbox.joined tombstone x e hx,
      hdead]
    unfold received
    change (if postdates tombstone e = true then _ else _) = _
    split_ifs with hd hsub
    · rfl
    · simp only [if_pos hx.envelope]
    · exact absurd he.delivered hsub

end Delivery

section Stamped

theorem latest_receivedAt (old : Option InboxEntry) (e : InboxEntry) :
    latest (fun e => OrderDual.toDual e.receivedAt) old (some e) = some (earlier old e) := by
  cases old with
  | none => rfl
  | some x =>
    rw [latest_some_some, earlier, apply_ite some]
    simp only [OrderDual.toDual_lt_toDual, isStrictlyNewerThan_iff]

theorem latest_lastReadAt (old : Option ReadMarker) (m : ReadMarker) :
    latest ReadMarker.lastReadAt old (some m) = some (later old m) := by
  cases old with
  | none => rfl
  | some x =>
    rw [latest_some_some, later, apply_ite some]
    simp only [isStrictlyNewerThan_iff]

end Stamped

section Files

variable {burned : Finset ContentId} {deks : BTreeMap ContentId Bytes}
  {grants : BTreeMap ContentId (List GrantEntry)} {rows gs : List GrantEntry}

def GrantEntry.SameGrantee (e g : GrantEntry) : Prop := e.granteeOwner = g.granteeOwner

theorem GrantEntry.meet_eq (g e : GrantEntry) :
    g.meet e = ⟨e.granteeOwner, max e.grantedAt g.grantedAt, max e.revokedAt g.revokedAt⟩ := by
  have hmax : ∀ a b : ℕ, (if a < b then b else a) = max a b := fun a b => by
    split_ifs with h <;> omega
  rw [GrantEntry.meet, hmax, hmax]

theorem joinOn_grantEntry : JoinOn GrantEntry.SameGrantee fun e g => g.meet e where
  symm h := h.symm
  meets _ _ h3 := h3
  comm {e g} h := by
    rw [GrantEntry.meet_eq, GrantEntry.meet_eq, h, max_comm, max_comm e.revokedAt]
  assoc _ _ _ := by simp only [GrantEntry.meet_eq, max_assoc]
  idem _ := by simp only [GrantEntry.meet_eq, max_self]

theorem sweepsOn_burned {α : Type} {R : α → α → Prop} {join : α → α → α} :
    SweepsOn R join (· || ·) fun burned _ => burned where
  grows _ _ _ := rfl
  shared _ _ _ _ := rfl
  joined _ _ _ _ := rfl

theorem joinOn_flags : JoinOn (fun _ _ : Bool => True) (· || ·) where
  symm _ := trivial
  meets _ _ _ := trivial
  comm _ := Bool.or_comm _ _
  assoc _ _ _ := Bool.or_assoc _ _ _
  idem _ := Bool.or_self _

theorem joinOn_unit : JoinOn (fun _ _ : Unit => True) fun _ _ => () where
  symm _ := trivial
  meets _ _ _ := trivial
  comm _ := rfl
  assoc _ _ _ := rfl
  idem _ := rfl

theorem rowOf_grantee {a : OwnerAddr} {e : GrantEntry}
    (h : rowOf rows a = some e) : e.granteeOwner = a := by
  simpa using List.find?_some h

theorem rowOf_sortBy (h : OneRowEach rows) :
    rowOf (sortBy GrantEntry.sortKey rows) = rowOf rows :=
  funext fun a => rowOf_perm h (sortBy_perm rows) a

theorem rowOf_mergedGrants (hrows : OneRowEach rows) (hgs : OneRowEach gs) :
    rowOf (sortBy GrantEntry.sortKey (gs.foldl joinGrant rows)) =
      fun a => Option.merge (fun e g => g.meet e) (rowOf rows a) (rowOf gs a) := by
  funext a
  rw [rowOf_sortBy (hrows.foldl_joinGrant gs), rowOf_foldl_joinGrant hgs]
  cases rowOf gs a <;> cases rowOf rows a <;> rfl

theorem FilesSound.swept_dek (h : FilesSound burned deks grants) (cid : ContentId) :
    swept (fun b _ => b) (decide (cid ∈ burned)) (deks[cid]?.map fun _ => ()) =
      deks[cid]?.map fun _ => () := by
  cases hdek : deks[cid]? with
  | none => rfl
  | some dek => simp [swept_some, h.deks cid dek hdek]

theorem FilesSound.swept_grants (h : FilesSound burned deks grants) (cid : ContentId) :
    swept (fun b _ => b) (decide (cid ∈ burned)) (grants[cid]?.map rowOf) =
      grants[cid]?.map rowOf := by
  cases hrows : grants[cid]? with
  | none => rfl
  | some rows => simp [swept_some, (h.grants cid rows hrows).1]

end Files

/-! ### The registers -/

namespace OwnerState

def outboxAt (message : OutboxEntryId) : Register OwnerState where
  Value := Option Hlc × Option OutboxEntry
  read s := (s.outboxTombstones[message]?, s.outbox[message]?)
  Meets := MeetsSwept OutboxEntry.Copies postdates
  join := joinSwept (latest id) postdates OutboxEntry.join
  lawful := joinOn_joinSwept joinOn_outboxEntry joinOn_stamps sweepsOn_outbox

/-- The earliest receipt stands, so the stamps count backwards. -/
def inboxAt (k : InboxKey) : Register OwnerState where
  Value := Option InboxEntry
  read s := s.inbox[k]?
  Meets := StampsTell fun e => OrderDual.toDual e.receivedAt
  join := latest fun e => OrderDual.toDual e.receivedAt
  lawful := joinOn_latest _

def markerAt (id : SpaceId) : Register OwnerState where
  Value := Option ReadMarker
  read s := s.markers[id]?
  Meets := StampsTell ReadMarker.lastReadAt
  join := latest ReadMarker.lastReadAt
  lawful := joinOn_latest _

def libraryAt (addr : OwnerAddr) : Register OwnerState where
  Value := Option LibraryEntry
  read s := s.libraries[addr]?
  Meets := StampsTell LibraryEntry.latest
  join := latest LibraryEntry.latest
  lawful := joinOn_latest _

def friendAt (addr : OwnerAddr) : Register OwnerState where
  Value := Option FriendEntry
  read s := s.friendGraph[addr]?
  Meets := StampsTell FriendEntry.learnedAt
  join := latest FriendEntry.learnedAt
  lawful := joinOn_latest _

def revokedDmDevicesAt (owner : OwnerAddr) : Register OwnerState where
  Value := Option (Finset ℕ)
  read s := s.revokedDmDevices[owner]?
  Meets := Meets fun a b =>
    a.card ≤ maxRevokedDmDevicesPerOwner ∧ b.card ≤ maxRevokedDmDevicesPerOwner
  join := Option.merge fun a b => (smallest maxRevokedDmDevicesPerOwner (a ∪ b)).toFinset
  lawful := (joinOn_smallest _).option

/-- Whether the content is burned, and whether a key for it is there. -/
def fileDekAt (cid : ContentId) : Register OwnerState where
  Value := Bool × Option Unit
  read s := (decide (cid ∈ s.burnedContent), s.fileDeks[cid]?.map fun _ => ())
  Meets := MeetsSwept (fun _ _ => True) fun burned _ => burned
  join := joinSwept (· || ·) (fun burned _ => burned) fun _ _ => ()
  lawful := joinOn_joinSwept joinOn_unit joinOn_flags sweepsOn_burned

/-- Whether the content is burned, and the row of each grantee. -/
def fileGrantsAt (cid : ContentId) : Register OwnerState where
  Value := Bool × Option (OwnerAddr → Option GrantEntry)
  read s := (decide (cid ∈ s.burnedContent), s.fileGrants[cid]?.map rowOf)
  Meets := MeetsSwept (fun f g => ∀ a, Meets GrantEntry.SameGrantee (f a) (g a)) fun burned _ => burned
  join := joinSwept (· || ·) (fun burned _ => burned) fun f g a =>
    Option.merge (fun e g => g.meet e) (f a) (g a)
  lawful := joinOn_joinSwept (JoinOn.pi fun _ => joinOn_grantEntry.option) joinOn_flags sweepsOn_burned

/-- The registers that a merge joins; the revoked keys of an owner are one of them
while the owner stays a friend. -/
inductive Registers (live : OwnerAddr → Prop) : Register OwnerState → Prop where
  | outbox (message) : Registers live (outboxAt message)
  | inbox (k) : Registers live (inboxAt k)
  | marker (id) : Registers live (markerAt id)
  | library (addr) : Registers live (libraryAt addr)
  | friend (addr) : Registers live (friendAt addr)
  | revoked (owner) (h : live owner) : Registers live (revokedDmDevicesAt owner)
  | dek (cid) : Registers live (fileDekAt cid)
  | grants (cid) : Registers live (fileGrantsAt cid)

end OwnerState

end Harmony.Owner
