import Harmony.Lib.Retention
import Harmony.Owner.Types

/-! The two docs of deposited blobs: the inbox of an owner's own devices and the holds
of a relay. Entries are replicated; the first observation of each and the memory of
those that expired are local, and saved in files of their own. -/

namespace Harmony.Deposits

open Harmony.Lib
open Harmony.Membership (OwnerAddr SpaceId Hlc Bytes)
open Harmony.Owner (isStrictlyNewerThan isStrictlyNewerThan_iff)

structure Store (E : Type) where
  entries : BTreeMap String E := ∅
  firstObservedMs : BTreeMap String ℕ := ∅
  expiredAtMs : BTreeMap String ℕ := ∅

/-- What the two docs differ in. -/
structure Kind (E : Type) where
  ttlMs : ℕ
  tombstoneRetentionMs : ℕ
  tombstoneCap : ℕ
  perSenderCap : ℕ
  globalCap : ℕ
  sameSender : E → E → Bool
  /-- a local entry after it meets a remote one, and whether that is reported as a change -/
  join : E → E → E × Bool
  /-- a stored entry after a redelivery -/
  heal : E → E → E
  /-- an entry that is covered when it expires is tombstoned as well -/
  buriesCovered : Bool
  /-- the observation of an entry that has none in the sidecar -/
  floor : E → Option ℕ

inductive PersistVerdict where
  | inserted
  | duplicate
  | capExceeded
deriving DecidableEq

namespace Store

variable {E : Type} (K : Kind E)

/-! ## Merge -/

def mergeEntry (s : Store E × Bool) (k : String) (r : E) : Store E × Bool :=
  match s.1.entries[k]? with
  | none =>
    if s.1.expiredAtMs.contains k then s
    else ({ s.1 with entries := s.1.entries.insert k r }, true)
  | some l =>
    ({ s.1 with entries := s.1.entries.insert k (K.join l r).1 }, s.2 || (K.join l r).2)

def mergeFrom (s remote : Store E) : Store E × Bool :=
  remote.entries.foldl (mergeEntry K) (s, false)

/-! ## Deposit -/

def clearTombstone (s : Store E) (key : String) : Store E :=
  { s with expiredAtMs := s.expiredAtMs.erase key }

def persistEntry (s : Store E) (key : String) (entry : E) : Store E × PersistVerdict :=
  match s.entries[key]? with
  | some stored =>
    (clearTombstone { s with entries := s.entries.insert key (K.heal stored entry) } key, .duplicate)
  | none =>
    if K.perSenderCap ≤ (s.entries.filter fun _ e => K.sameSender e entry).size ∨
        K.globalCap ≤ s.entries.size then
      (s, .capExceeded)
    else
      (clearTombstone { s with entries := s.entries.insert key entry } key, .inserted)

/-! ## Collection -/

def pruneTombstones (s : Store E) (nowMs : ℕ) : Store E :=
  { s with expiredAtMs :=
      BTreeMap.prune K.tombstoneRetentionMs K.tombstoneCap nowMs s.expiredAtMs }

def observed (s : Store E) (nowMs : ℕ) : BTreeMap String ℕ :=
  s.entries.foldl (fun m k _ => m.alter k fun t => some (t.getD nowMs)) s.firstObservedMs

/-- The time to live is over. The sum saturates in the source, which makes no difference
for a clock of 64 bits. -/
def ttlExpired (s : Store E) (nowMs : ℕ) (k : String) : Bool :=
  ((s.observed nowMs)[k]?).getD nowMs + K.ttlMs < nowMs

def ttlRemoved (s : Store E) (nowMs : ℕ) (covered : String → E → Bool) : BTreeMap String E :=
  s.entries.filter fun k e => s.ttlExpired K nowMs k && (K.buriesCovered || !covered k e)

def gc (s : Store E) (nowMs : ℕ) (covered : String → E → Bool) : Store E × Bool :=
  let kept := s.entries.filter fun k e => !(covered k e || s.ttlExpired K nowMs k)
  let expired := (s.ttlRemoved K nowMs covered).foldl (fun m k _ => m.insert k nowMs) s.expiredAtMs
  (pruneTombstones K
    { entries := kept
      firstObservedMs := (s.observed nowMs).filter fun k _ => kept.contains k
      expiredAtMs := expired } nowMs,
    kept.size ≠ s.entries.size)

/-! ## Restart -/

def restoreExpired (s : Store E) (map : BTreeMap String ℕ) (nowMs : ℕ) : Store E :=
  let s := pruneTombstones K { s with expiredAtMs := map.map fun _ t => min t nowMs } nowMs
  { s with entries := s.entries.filter fun k _ => !s.expiredAtMs.contains k }

def restoreFirstObserved (s : Store E) (map : BTreeMap String ℕ) (nowMs : ℕ) : Store E :=
  let restored := (map.filter fun k _ => s.entries.contains k).map fun _ t => min t nowMs
  { s with firstObservedMs :=
      s.entries.foldl (fun m k e => m.alter k fun t => t.or ((K.floor e).map (min · nowMs))) restored }

def restart (doc : BTreeMap String E) (expired firstObserved : BTreeMap String ℕ) (nowMs : ℕ) :
    Store E :=
  restoreFirstObserved K (restoreExpired K { entries := doc } expired nowMs) firstObserved nowMs

end Store

/-! ## The inbox -/

def inboxTtlMs : ℕ := 30 * 24 * 60 * 60 * 1000
def inboxTombstoneRetentionMs : ℕ := 2 * inboxTtlMs
def inboxPerSenderCap : ℕ := 64
def inboxGlobalCap : ℕ := 1024
def inboxTombstoneCap : ℕ := 4 * inboxGlobalCap

structure DmInboxEntry where
  senderOwner : OwnerAddr
  cidnotifyPacket : Option Bytes
  storageBlob : Bytes
  invitePacket : Option Bytes
  revocationPush : Option Bytes
  grantPush : Option Bytes
  grantRevoke : Option Bytes
  depositedAt : Hlc
  depositedBy : String
  ingestedBy : Finset String
deriving DecidableEq

def DmInboxEntry.join (l r : DmInboxEntry) : DmInboxEntry × Bool :=
  let earlier := isStrictlyNewerThan l.depositedAt r.depositedAt
  ({ l with
      ingestedBy := l.ingestedBy ∪ r.ingestedBy
      invitePacket := l.invitePacket.or r.invitePacket
      depositedAt := if earlier then r.depositedAt else l.depositedAt
      depositedBy := if earlier then r.depositedBy else l.depositedBy },
    (l.ingestedBy ∪ r.ingestedBy).card ≠ l.ingestedBy.card ||
      l.invitePacket.isNone && r.invitePacket.isSome)

def dmInbox : Kind DmInboxEntry where
  ttlMs := inboxTtlMs
  tombstoneRetentionMs := inboxTombstoneRetentionMs
  tombstoneCap := inboxTombstoneCap
  perSenderCap := inboxPerSenderCap
  globalCap := inboxGlobalCap
  sameSender a b := a.senderOwner = b.senderOwner
  join := DmInboxEntry.join
  heal stored entry := { stored with invitePacket := stored.invitePacket.or entry.invitePacket }
  buriesCovered := false
  floor e := some e.depositedAt.wallMs

abbrev DmInboxDoc := Store DmInboxEntry

namespace DmInboxDoc

def mergeFrom : DmInboxDoc → DmInboxDoc → DmInboxDoc × Bool := Store.mergeFrom dmInbox

def persistEntry : DmInboxDoc → String → DmInboxEntry → DmInboxDoc × PersistVerdict :=
  Store.persistEntry dmInbox

def pruneTombstones : DmInboxDoc → ℕ → DmInboxDoc := Store.pruneTombstones dmInbox

def gcExpired (doc : DmInboxDoc) (nowMs : ℕ) (covered : Finset String) : DmInboxDoc × Bool :=
  Store.gc dmInbox doc nowMs fun k _ => k ∈ covered

def restoreExpired : DmInboxDoc → BTreeMap String ℕ → ℕ → DmInboxDoc := Store.restoreExpired dmInbox

def restoreFirstObserved : DmInboxDoc → BTreeMap String ℕ → ℕ → DmInboxDoc :=
  Store.restoreFirstObserved dmInbox

end DmInboxDoc

/-! ## The relay -/

def relayHoldTtlMs : ℕ := 30 * 24 * 60 * 60 * 1000
def relayHoldTombstoneRetentionMs : ℕ := 2 * relayHoldTtlMs
def relayHoldPerSenderCap : ℕ := 64
def relayHoldGlobalCap : ℕ := 1024
def relayHoldTombstoneCap : ℕ := 4 * relayHoldGlobalCap

structure RelayHoldEntry where
  recipientOwner : OwnerAddr
  senderOwner : OwnerAddr
  communityId : SpaceId
  sealedBlob : Bytes
  heldAt : Hlc
  heldBy : String
  pulledBy : Finset String
deriving DecidableEq

/-- An earlier deposit brings its whole metadata. -/
def RelayHoldEntry.join (l r : RelayHoldEntry) : RelayHoldEntry × Bool :=
  let pulledBy := l.pulledBy ∪ r.pulledBy
  (if isStrictlyNewerThan l.heldAt r.heldAt then
      { r with recipientOwner := l.recipientOwner, pulledBy := pulledBy }
    else { l with pulledBy := pulledBy },
    pulledBy.card ≠ l.pulledBy.card)

def relayHold : Kind RelayHoldEntry where
  ttlMs := relayHoldTtlMs
  tombstoneRetentionMs := relayHoldTombstoneRetentionMs
  tombstoneCap := relayHoldTombstoneCap
  perSenderCap := relayHoldPerSenderCap
  globalCap := relayHoldGlobalCap
  sameSender a b := a.communityId = b.communityId ∧ a.senderOwner = b.senderOwner
  join := RelayHoldEntry.join
  heal stored _ := stored
  buriesCovered := true
  floor _ := none

abbrev RelayHoldDoc := Store RelayHoldEntry

namespace RelayHoldDoc

def mergeFrom : RelayHoldDoc → RelayHoldDoc → RelayHoldDoc × Bool := Store.mergeFrom relayHold

def persistHold : RelayHoldDoc → String → RelayHoldEntry → RelayHoldDoc × PersistVerdict :=
  Store.persistEntry relayHold

/-- An entry is covered if it had been pulled when the sweep started. -/
def gc (doc : RelayHoldDoc) (nowMs : ℕ) : RelayHoldDoc × Bool :=
  Store.gc relayHold doc nowMs fun _ e => e.pulledBy ≠ ∅

def restoreExpired : RelayHoldDoc → BTreeMap String ℕ → ℕ → RelayHoldDoc :=
  Store.restoreExpired relayHold

def restoreFirstObserved : RelayHoldDoc → BTreeMap String ℕ → ℕ → RelayHoldDoc :=
  Store.restoreFirstObserved relayHold

end RelayHoldDoc

end Harmony.Deposits
