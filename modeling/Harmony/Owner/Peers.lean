import Harmony.Owner.Apply

/-! The registers about other owners: their device lists, the friend graph and
the device keys they revoked. -/

namespace Harmony.Owner

open Harmony.Lib
open Harmony.Membership (OwnerAddr SpaceId Hlc Bytes)

def maxDevicesPerOwner : ℕ := 32

def maxRevokedDmDevicesPerOwner : ℕ := 256

/-- The arguments of `apply_owner_device_update` after the owner's address. -/
structure DeviceUpdate where
  devices : List DeviceIdentityHash
  deviceIdentityPubs : List (Option IdentityPub)
  deviceTunnelContacts : List (Option DeviceTunnelContact)
  learnedAt : Hlc
deriving DecidableEq

/-- `Vec::resize` with `None` as the filler. -/
def resizeNone {α : Type} (l : List (Option α)) (n : ℕ) : List (Option α) :=
  l.take n ++ List.replicate (n - l.length) none

def DeviceUpdate.zipped (u : DeviceUpdate) : List DeviceRow :=
  let pubs := resizeNone u.deviceIdentityPubs u.devices.length
  let contacts := resizeNone u.deviceTunnelContacts u.devices.length
  (u.devices.zip (pubs.zip contacts)).map fun p => ⟨p.1, p.2.1, p.2.2⟩

def agreePubs (failure : InvariantFailure) :
    Option IdentityPub → Option IdentityPub → Except InvariantFailure Unit
  | some a, some b => ensure (a = b) failure
  | _, _ => pure ()

/-- Two rows of one update for the same device: the known pub stands, two pubs
must agree, and the last known contact wins. -/
def joinRows (addr : OwnerAddr) (prev row : DeviceRow) : Except InvariantFailure DeviceRow := do
  agreePubs (.conflictingIdentityPubs addr row.device) prev.identityPub row.identityPub
  pure ⟨prev.device, prev.identityPub.or row.identityPub, row.tunnelContact.or prev.tunnelContact⟩

/-- The walk over the sorted rows; `prev` is the last row of the output. -/
def joinRuns (addr : OwnerAddr) (prev : DeviceRow) : List DeviceRow →
    Except InvariantFailure (List DeviceRow)
  | [] => .ok [prev]
  | row :: rest =>
    if prev.device = row.device then do joinRuns addr (← joinRows addr prev row) rest
    else do pure (prev :: (← joinRuns addr row rest))

def joinSorted (addr : OwnerAddr) : List DeviceRow → Except InvariantFailure (List DeviceRow)
  | [] => .ok []
  | row :: rest => joinRuns addr row rest

/-- Every known pub must derive to the hash of its device. -/
def checkPub (keys : IdentityKeys) (addr : OwnerAddr) (row : DeviceRow) :
    Except InvariantFailure Unit :=
  match row.identityPub with
  | none => pure ()
  | some p =>
    match keys.deriveDeviceHash p with
    | some derived =>
      ensure (derived = row.device) (.identityPubDerivesElsewhere addr row.device derived)
    | none => .error (.identityPubInvalid addr row.device)

/-- The sanitized rows of an update: sorted by device, one row a device, capped,
with every pub and contact checked. -/
def sanitize (keys : IdentityKeys) (addr : OwnerAddr) (u : DeviceUpdate) :
    Except InvariantFailure (List DeviceRow) := do
  let joined ← joinSorted addr (sortBy DeviceRow.device u.zipped)
  let merged := joined.take maxDevicesPerOwner
  merged.forM (checkPub keys addr)
  ensure (merged.all fun row => row.tunnelContact.all DeviceTunnelContact.hasValidKeySizes)
    (.tunnelContactInvalid addr)
  pure merged

/-- A row of a newer update over the cached rows: it takes over what is cached for
its device where it knows less, and a different pub is an error. -/
def preserveRow (addr : OwnerAddr) (cached : List DeviceRow) (row : DeviceRow) :
    Except InvariantFailure DeviceRow :=
  match cached.find? fun c => c.device = row.device with
  | none => .ok row
  | some old => do
    agreePubs (.conflictingCachedPub addr row.device) old.identityPub row.identityPub
    pure ⟨row.device, row.identityPub.or old.identityPub, row.tunnelContact.or old.tunnelContact⟩

/-- The body of `apply_owner_device_update` on the device cache. -/
def putDevices (keys : IdentityKeys) (cache : BTreeMap OwnerAddr OwnerDeviceEntry)
    (addr : OwnerAddr) (u : DeviceUpdate) : BTreeMap OwnerAddr OwnerDeviceEntry × ApplyOutcome :=
  match sanitize keys addr u with
  | .error e => (cache, .rejected (.invariantFail e))
  | .ok rows =>
    match cache[addr]? with
    | none => (cache.insert addr ⟨rows, u.learnedAt⟩, .inserted)
    | some existing =>
      if isStrictlyNewerThan existing.learnedAt u.learnedAt then
        (cache, .rejected (.staleHlc .ownerDeviceEntry u.learnedAt.deviceId))
      else if existing.learnedAt = u.learnedAt then
        if existing.devices = rows then (cache, .merged none)
        else (cache, .rejected (.invariantFail (.devicesDiverge addr)))
      else
        match rows.mapM (preserveRow addr existing.devices) with
        | .error e => (cache, .rejected (.invariantFail e))
        | .ok merged => (cache.insert addr ⟨merged, u.learnedAt⟩, .merged none)

/-- The body of `apply_friend_update` on the friend graph. -/
def putFriend (keys : IdentityKeys) (friends : BTreeMap OwnerAddr FriendEntry) (addr : OwnerAddr)
    (entry : FriendEntry) : BTreeMap OwnerAddr FriendEntry × ApplyOutcome :=
  if keys.ownerIdFromMaster entry.masterEd25519 ≠ addr then
    (friends, .rejected (.invariantFail .masterKeyMismatch))
  else
    match friends[addr]? with
    | none => (friends.insert addr entry, .inserted)
    | some existing =>
      if isStrictlyNewerThan existing.learnedAt entry.learnedAt then
        (friends, .rejected (.staleHlc .friendEntry entry.learnedAt.deviceId))
      else if existing.learnedAt = entry.learnedAt then
        if existing = entry then (friends, .merged none)
        else (friends, .rejected (.invariantFail (.friendDiverges addr)))
      else (friends.insert addr entry, .merged none)

namespace OwnerState

def applyOwnerDeviceUpdate (keys : IdentityKeys) (s : OwnerState) (addr : OwnerAddr)
    (u : DeviceUpdate) : OwnerState × ApplyOutcome :=
  let r := putDevices keys s.ownerDeviceCache addr u
  ({ s with ownerDeviceCache := r.1 }, r.2)

def applyFriendUpdate (keys : IdentityKeys) (s : OwnerState) (addr : OwnerAddr)
    (entry : FriendEntry) : OwnerState × ApplyOutcome :=
  let r := putFriend keys s.friendGraph addr entry
  ({ s with friendGraph := r.1 }, r.2)

end OwnerState

def popLast (s : Finset ℕ) : Finset ℕ :=
  match s.max with
  | none => s
  | some m => s.erase m

/-- `pop_last` until at most the permitted number of keys is left. -/
def capRevoked (s : Finset ℕ) : Finset ℕ := popLast^[s.card - maxRevokedDmDevicesPerOwner] s

end Harmony.Owner
