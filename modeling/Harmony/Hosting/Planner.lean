import Harmony.Hosting.Ledger
import Harmony.Lib.Budget

/-! The hosting planner: which objects of the buddies' backup sets to fetch, attribute and
release. Byte sums are taken without overflow. -/

namespace Harmony.Hosting

open Harmony.Lib

structure BackupEntry where
  cid : String
  size : ℕ
deriving DecidableEq

/-- `recipient` is the source's field `to`. -/
structure PledgeEntry where
  recipient : String
  bytes : ℕ
deriving DecidableEq

structure StorageRecordStore where
  pledgeLists : BTreeMap String (List PledgeEntry)
  backupSets : BTreeMap String (List BackupEntry)

/-- Owners who pledge to `me`, ascending, with the first pledge of each. -/
def StorageRecordStore.ownersPledgingTo (records : StorageRecordStore) (me : String) :
    List (String × ℕ) :=
  records.pledgeLists.toList.filterMap fun p =>
    (p.2.find? (·.recipient = me)).map fun pledge => (p.1, pledge.bytes)

structure InflightFetch where
  buddy : String
  claimed : ℕ
deriving DecidableEq

structure FetchCandidate where
  buddy : String
  cid : String
  claimed : ℕ
deriving DecidableEq

structure PinPlan where
  fetch : List FetchCandidate := []
  attributeOnly : List (String × String × ℕ) := []
  release : List (String × String) := []
  releaseBuddies : List String := []
  evictTo : Option ℕ := none
  catchingUp : Bool := false
deriving DecidableEq

structure PlanInput where
  me : String
  myPledges : BTreeMap String ℕ
  records : StorageRecordStore
  ledger : StorageLedger
  sharedBudget : ℕ
  inflight : BTreeMap String InflightFetch
  backoffBlocked : String → Bool

/-- What the walk over the backup sets carries. -/
structure Walk where
  attributed : ℕ
  reserved : ℕ
  globalFull : Bool
  catchingUp : Bool
  fetch : List FetchCandidate
  attributeOnly : List (String × String × ℕ)

namespace PlanInput

def active (i : PlanInput) : List String :=
  i.myPledges.keys.filter (· ∈ (i.records.ownersPledgingTo i.me).map Prod.fst)

def inflightBytes (i : PlanInput) : ℕ :=
  (i.inflight.toList.map fun p => p.2.claimed).sum

def inflightFor (i : PlanInput) (buddy : String) : ℕ :=
  ((i.inflight.toList.filter fun p => p.2.buddy = buddy).map fun p => p.2.claimed).sum

/-- One buddy's backup set in list order; what does not fit ends the walk of this buddy. -/
def walkEntries (i : PlanInput) (buddy : String) (slice : ℕ) : List BackupEntry → Walk → Walk
  | [], w => w
  | entry :: entries, w =>
    if i.ledger.holds buddy entry.cid then i.walkEntries buddy slice entries w
    else if i.inflight[entry.cid]?.isSome then
      i.walkEntries buddy slice entries { w with catchingUp := true }
    else
      match i.ledger.heldAnywhere entry.cid with
      | some actual =>
        if slice < w.attributed + actual then { w with catchingUp := true }
        else i.walkEntries buddy slice entries { w with
          attributeOnly := w.attributeOnly ++ [(buddy, entry.cid, actual)]
          attributed := w.attributed + actual }
      | none =>
        if slice < w.attributed + entry.size then { w with catchingUp := true }
        else if w.globalFull || i.sharedBudget <
            i.ledger.distinctPinnedBytes + w.reserved + entry.size then
          { w with globalFull := true, catchingUp := true }
        else if i.backoffBlocked entry.cid then
          i.walkEntries buddy slice entries { w with catchingUp := true }
        else i.walkEntries buddy slice entries { w with
          reserved := w.reserved + entry.size
          attributed := w.attributed + entry.size
          fetch := w.fetch ++ [⟨buddy, entry.cid, entry.size⟩] }

def sliceOf (i : PlanInput) (buddy : String) : ℕ := i.myPledges[buddy]?.getD 0

def walkBuddy (i : PlanInput) (w : Walk) (buddy : String) : Walk :=
  match i.records.backupSets[buddy]? with
  | none => w
  | some entries => i.walkEntries buddy (i.sliceOf buddy) entries
      { w with attributed := i.ledger.bytesForBuddy buddy + i.inflightFor buddy }

def walk (i : PlanInput) : Walk :=
  i.active.foldl i.walkBuddy ⟨0, i.inflightBytes, false, false, [], []⟩

/-- Held buddies whose pact is over. -/
def endedBuddies (i : PlanInput) : List String := i.ledger.buddies.filter (· ∉ i.active)

/-- Held objects that the buddy's backup set does not list any more. -/
def unwanted (i : PlanInput) : List (String × String) :=
  (i.ledger.buddies.filter (· ∈ i.active)).flatMap fun buddy =>
    ((i.ledger.cidsForBuddy buddy).filter fun cid =>
      cid ∉ (i.records.backupSets[buddy]?.getD []).map BackupEntry.cid).map (buddy, ·)

/-- A frozen ledger drives no hosting work. -/
def plan (i : PlanInput) : PinPlan :=
  if i.ledger.sealedFault then {}
  else {
    fetch := i.walk.fetch
    attributeOnly := i.walk.attributeOnly
    release := i.unwanted
    releaseBuddies := i.endedBuddies
    evictTo := if i.sharedBudget < i.ledger.distinctPinnedBytes then some i.sharedBudget else none
    catchingUp := i.walk.catchingUp }

end PlanInput
end Harmony.Hosting
