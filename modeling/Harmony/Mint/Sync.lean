import Harmony.Mint.Ledger

/-! Merging a sibling's snapshot into the local database, row by row and in one
SQL transaction, and the deletion floors that keep a deleted account from coming
back. -/

namespace Harmony.Mint

open Harmony.Lib

def mintSchemaVersion : ℕ := 1

def localMaxSchemaVersion : ℕ := 1

structure MintSnapshot where
  schemaVersion : ℕ
  accounts : List (RowId × AccountRow)
  transactions : List (RowId × TransactionRow)
  settings : List (String × SettingRow)
  accountDeletionFloor : BTreeMap RowId Stamp
  capturedAt : Stamp

inductive MintSyncError where
  | sqlite (violated : Constraint)
  | schemaTooNew (remote localMax : ℕ)
deriving DecidableEq

/-- What a device keeps: the database, and of its sync state the deletion floor. -/
structure MintState where
  ledger : Ledger := applyMigrations
  accountDeletionFloor : BTreeMap RowId Stamp := ∅

/-- Every table in the order of its primary key; the floor is attached on publishing. -/
def snapshotCurrentDb (l : Ledger) (capturedAt : Stamp) : MintSnapshot where
  schemaVersion := mintSchemaVersion
  accounts := l.accounts.toList
  transactions := l.transactions.toList
  settings := l.settings.toList
  accountDeletionFloor := ∅
  capturedAt

def MintState.snapshot (s : MintState) (capturedAt : Stamp) : MintSnapshot :=
  { snapshotCurrentDb s.ledger capturedAt with accountDeletionFloor := s.accountDeletionFloor }

def snapshotHasNoUserData (snap : MintSnapshot) : Bool :=
  snap.accounts.isEmpty && snap.transactions.isEmpty &&
    (snap.settings.filter fun p => p.2.updatedAt ≠ epochStamp).length == 0 &&
    snap.accountDeletionFloor.isEmpty

/-! ## Clock trust -/

/-- `MAX_FORWARD_SKEW_MS`: five minutes. -/
def maxForwardSkewMs : ℕ := 5 * 60 * 1000

def rejectFuture (stamp now tolerance : ℕ) : Bool := tolerance < stamp - now

section

variable (P : Parsers)

/-- Only a zero offset is canonical; instants before the epoch count as the epoch. -/
def parseRfc3339Ms (stamp : Stamp) : Option ℕ :=
  match P.rfc3339 stamp with
  | none => none
  | some (ms, offset) => if offset ≠ 0 then none else some (max ms 0).toNat

def rejectRfc3339Future (stamp : Stamp) (now : Option ℕ) (tolerance : ℕ) : Bool :=
  match parseRfc3339Ms P stamp with
  | none => true
  | some ms => now.any fun now => rejectFuture ms now tolerance

/-! ## Rows -/

inductive UpsertOutcome where
  | applied
  | suppressed
  | rejectedNoLocalAccount
deriving DecidableEq

variable (now : Option ℕ)

def upsertAccountLww (floor : BTreeMap RowId Stamp) (l : Ledger) (id : RowId) (r : AccountRow) :
    Except Constraint (UpsertOutcome × Ledger) :=
  if rejectRfc3339Future P r.updatedAt now maxForwardSkewMs then
    .ok (if l.accounts.contains id then .applied else .rejectedNoLocalAccount, l)
  else if floor[id]?.any fun floorTs => r.updatedAt ≤ floorTs then .ok (.suppressed, l)
  else
    match l.accounts[id]? with
    | none => return (.applied, ← l.insertAccount id r)
    | some held =>
      if held.updatedAt < r.updatedAt then
        return (.applied, (← l.updateAccount id r.name r.updatedAt).2)
      else .ok (.applied, l)

/-- A live row must pass the checks of the command path; a tombstone is always taken. -/
def upsertTransactionLww (l : Ledger) (id : RowId) (r : TransactionRow) : Except Constraint Ledger :=
  if rejectRfc3339Future P r.updatedAt now maxForwardSkewMs then .ok l
  else if r.deletedAt.isNone ∧ ¬(validateTransactionFields P r.transactionDate r.amount r.currency
      r.description r.metadata).isOk then .ok l
  else
    match l.transactions[id]? with
    | none => l.insertTransaction id r
    | some held =>
      if held.updatedAt < r.updatedAt then
        l.updateTransactionRow id { r with createdAt := held.createdAt }
      else .ok l

def upsertSettingLww (l : Ledger) (key : String) (r : SettingRow) : Ledger :=
  if rejectRfc3339Future P r.updatedAt now maxForwardSkewMs then l
  else
    match l.settings[key]? with
    | none => { l with settings := l.settings.insert key r }
    | some held =>
      if held.updatedAt < r.updatedAt then { l with settings := l.settings.insert key r } else l

/-! ## The snapshot -/

/-- One turn of the account loop: the ids whose transactions are skipped, and the ledger. -/
def mergeAccount (floor : BTreeMap RowId Stamp) (s : Finset RowId × Ledger) (p : RowId × AccountRow) :
    Except Constraint (Finset RowId × Ledger) := do
  let (outcome, l) ← upsertAccountLww P now floor s.2 p.1 p.2
  match outcome with
  | .suppressed | .rejectedNoLocalAccount => pure (insert p.1 s.1, l)
  | .applied => pure (s.1, l)

def mergeTransaction (suppressed : Finset RowId) (l : Ledger) (p : RowId × TransactionRow) :
    Except Constraint Ledger :=
  if p.2.accountId ∈ suppressed then .ok l else upsertTransactionLww P now l p.1 p.2

/-- One turn of the floor loop: the entries to merge, and the ledger. -/
def applyFloorEntry (s : BTreeMap RowId Stamp × Ledger) (p : RowId × Stamp) :
    Except Constraint (BTreeMap RowId Stamp × Ledger) :=
  if rejectRfc3339Future P p.2 now maxForwardSkewMs then .ok s
  else do
    let l ←
      match s.2.accounts[p.1]? with
      | some held =>
        if held.updatedAt ≤ p.2 then (s.2.deleteTransactionsOf p.1).deleteAccountRow p.1 else .ok s.2
      | none => .ok s.2
    pure (s.1.insert p.1 p.2, l)

/-- The ledger and the floor entries for the caller to merge; the order in which the
floor is walked does not matter, as its ids are distinct. -/
def applyRemoteSnapshot (l : Ledger) (remote : MintSnapshot) (floor : BTreeMap RowId Stamp) :
    Except Constraint (BTreeMap RowId Stamp × Ledger) := do
  let (suppressed, l₁) ← remote.accounts.foldlM (mergeAccount P now floor) (∅, l)
  let l₂ ← remote.transactions.foldlM (mergeTransaction P now suppressed) l₁
  let l₃ := remote.settings.foldl (fun l p => upsertSettingLww P now l p.1 p.2) l₂
  remote.accountDeletionFloor.toList.foldlM (applyFloorEntry P now) (∅, l₃)

def raiseFloor (floor : BTreeMap RowId Stamp) (id : RowId) (remoteTs : Stamp) : BTreeMap RowId Stamp :=
  floor.alter id fun entry => some (entry.elim remoteTs (max remoteTs))

def handleIncomingDecoded (s : MintState) (remote : MintSnapshot) : Except MintSyncError MintState :=
  if localMaxSchemaVersion < remote.schemaVersion then
    .error (.schemaTooNew remote.schemaVersion localMaxSchemaVersion)
  else
    match applyRemoteSnapshot P now s.ledger remote s.accountDeletionFloor with
    | .error c => .error (.sqlite c)
    | .ok (floorToMerge, ledger) =>
      .ok { ledger, accountDeletionFloor := floorToMerge.foldl raiseFloor s.accountDeletionFloor }

end

/-! ## Local operations of a device -/

/-- How far `mint_delete_account` gets: the floor is not saved and the deletion is called
off, the device stops between the floor and the database, or the database is asked. -/
inductive DeletionRun where
  | persistFails
  | crashes
  | proceeds
deriving DecidableEq

/-- `mint_delete_account`: the floor is raised first, and stays when `delete_account`
refuses. -/
def mintDeleteAccount (s : MintState) (id : RowId) (reassignTo : Option RowId) (run : DeletionRun)
    (floorNow now : Stamp) : MintState :=
  let floor := s.accountDeletionFloor.insert id floorNow
  match run with
  | .persistFails => { s with accountDeletionFloor := floor.erase id }
  | .crashes => { s with accountDeletionFloor := floor }
  | .proceeds =>
    match deleteAccount s.ledger id reassignTo now with
    | .ok ledger => { ledger, accountDeletionFloor := floor }
    | .error _ => { s with accountDeletionFloor := floor }

inductive Op where
  | createAccount (name : String) (id : RowId)
  | renameAccount (id : RowId) (newName : String)
  | deleteAccount (id : RowId) (reassignTo : Option RowId) (run : DeletionRun) (floorNow : Stamp)
  | createTransaction (payload : NewTransaction) (id : RowId)
  | updateTransaction (id : RowId) (payload : UpdateTransaction)
  | deleteTransaction (id : RowId)
  | setDefaultCurrency (currency : String)

def Ledger.after {ε : Type} (l : Ledger) (result : Except ε Ledger) : Ledger :=
  match result with
  | .ok l' => l'
  | .error _ => l

/-- The state after a local call at the time `now`; a call that fails changes nothing but,
in a deletion, the floor. -/
def Op.run (P : Parsers) (now : Stamp) (s : MintState) : Op → MintState
  | .createAccount name id =>
    { s with ledger := s.ledger.after ((Mint.createAccount s.ledger name id now).map Prod.snd) }
  | .renameAccount id newName =>
    { s with ledger := s.ledger.after ((Mint.renameAccount s.ledger id newName now).map Prod.snd) }
  | .deleteAccount id reassignTo run floorNow => mintDeleteAccount s id reassignTo run floorNow now
  | .createTransaction payload id =>
    { s with ledger := s.ledger.after ((Mint.createTransaction P s.ledger payload id now).map Prod.snd) }
  | .updateTransaction id payload =>
    { s with ledger := s.ledger.after ((Mint.updateTransaction P s.ledger id payload now).map Prod.snd) }
  | .deleteTransaction id => { s with ledger := s.ledger.after (Mint.deleteTransaction s.ledger id now) }
  | .setDefaultCurrency currency =>
    { s with ledger := s.ledger.after (Mint.setDefaultCurrency s.ledger currency now) }

end Harmony.Mint
