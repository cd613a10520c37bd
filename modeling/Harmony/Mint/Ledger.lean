import Harmony.Lib.Checks
import Harmony.Lib.Keyed

/-! The finance ledger of one device: accounts, transactions and settings in an
SQL schema with a unique account name and a reference from every transaction to
its account. Stamps are RFC 3339 texts and are compared as texts; a row stands
in its table under its primary key. -/

namespace Harmony.Mint

open Harmony.Lib

abbrev RowId := String
abbrev Stamp := String

/-- The parsers of other libraries that the ledger asks. -/
structure Parsers where
  /-- `NaiveDate::parse_from_str` with `%Y-%m-%d` succeeds -/
  naiveDate : String → Bool
  /-- `Decimal::from_str` succeeds -/
  decimal : String → Bool
  /-- the error of `serde_json::from_str`, if it fails -/
  jsonError : String → Option String
  /-- epoch milliseconds and offset in seconds of `DateTime::parse_from_rfc3339` -/
  rfc3339 : String → Option (ℤ × ℤ)

inductive Constraint where
  | primaryKey
  | uniqueName
  | foreignKey
deriving DecidableEq

inductive MintError where
  | sqlite (violated : Constraint)
  | validation (text : String)
  | notFound (text : String)
  | other (text : String)
deriving DecidableEq

structure AccountRow where
  name : String
  createdAt : Stamp
  updatedAt : Stamp
deriving DecidableEq

structure TransactionRow where
  transactionDate : String
  amount : String
  currency : String
  accountId : RowId
  description : String
  metadata : Option String
  createdAt : Stamp
  updatedAt : Stamp
  deletedAt : Option Stamp := none
deriving DecidableEq

structure SettingRow where
  value : String
  updatedAt : Stamp
deriving DecidableEq

structure Ledger where
  accounts : BTreeMap RowId AccountRow := ∅
  transactions : BTreeMap RowId TransactionRow := ∅
  settings : BTreeMap String SettingRow := ∅

theorem Ledger.ext {l m : Ledger} (ha : ∀ i : RowId, l.accounts[i]? = m.accounts[i]?)
    (ht : ∀ t : RowId, l.transactions[t]? = m.transactions[t]?)
    (hs : ∀ k : String, l.settings[k]? = m.settings[k]?) : l = m := by
  obtain ⟨a, t, s⟩ := l
  obtain ⟨a', t', s'⟩ := m
  obtain rfl : a = a' := Std.ExtTreeMap.ext_getElem? fun i => ha i
  obtain rfl : t = t' := Std.ExtTreeMap.ext_getElem? fun i => ht i
  obtain rfl : s = s' := Std.ExtTreeMap.ext_getElem? fun k => hs k
  rfl

/-! ## Statements of the schema -/

namespace Ledger

def nameTaken (l : Ledger) (id : RowId) (name : String) : Bool :=
  l.accounts.toList.any fun p => p.1 ≠ id && p.2.name == name

theorem nameTaken_iff {l : Ledger} {id : RowId} {name : String} :
    l.nameTaken id name = true ↔
      ∃ (j : RowId) (a : AccountRow), l.accounts[j]? = some a ∧ j ≠ id ∧ a.name = name := by
  simp only [nameTaken, List.any_eq_true, Bool.and_eq_true, decide_eq_true_eq, beq_iff_eq]
  constructor
  · rintro ⟨p, hp, hne, hname⟩
    exact ⟨p.1, p.2, mem_toList_iff.mp hp, hne, hname⟩
  · rintro ⟨j, a, hj, hne, hname⟩
    exact ⟨(j, a), mem_toList_iff.mpr hj, hne, hname⟩

def insertAccount (l : Ledger) (id : RowId) (row : AccountRow) : Except Constraint Ledger := do
  ensure (!l.accounts.contains id) .primaryKey
  ensure (!l.nameTaken id row.name) .uniqueName
  pure { l with accounts := l.accounts.insert id row }

theorem contains_iff {υ : Type} (t : BTreeMap RowId υ) (id : RowId) :
    t.contains id = true ↔ ∃ row, t[id]? = some row := by
  rw [Std.ExtTreeMap.contains_eq_isSome_getElem?, Option.isSome_iff_exists]

theorem contains_eq_false_iff {υ : Type} (t : BTreeMap RowId υ) (id : RowId) :
    t.contains id = false ↔ t[id]? = none := by
  rw [Std.ExtTreeMap.contains_eq_isSome_getElem?, Option.isSome_eq_false_iff, Option.isNone_iff_eq_none]

theorem insertAccount_eq_ok {l l' : Ledger} {id : RowId} {row : AccountRow} :
    l.insertAccount id row = .ok l' ↔ l.accounts[id]? = none ∧ ¬l.nameTaken id row.name ∧
      { l with accounts := l.accounts.insert id row } = l' := by
  simp [insertAccount, contains_eq_false_iff]

def updateAccount (l : Ledger) (id : RowId) (name : String) (updatedAt : Stamp) :
    Except Constraint (ℕ × Ledger) :=
  match l.accounts[id]? with
  | none => .ok (0, l)
  | some row => do
    ensure (!l.nameTaken id name) .uniqueName
    pure (1, { l with accounts := l.accounts.insert id { row with name, updatedAt } })

theorem updateAccount_eq_ok {l : Ledger} {id : RowId} {name : String} {updatedAt : Stamp}
    {result : ℕ × Ledger} :
    l.updateAccount id name updatedAt = .ok result ↔
      (l.accounts[id]? = none ∧ (0, l) = result) ∨
        ∃ row, l.accounts[id]? = some row ∧ ¬l.nameTaken id name ∧
          (1, { l with accounts := l.accounts.insert id { row with name, updatedAt } }) = result := by
  unfold updateAccount
  cases l.accounts[id]? <;> simp

def insertTransaction (l : Ledger) (id : RowId) (row : TransactionRow) : Except Constraint Ledger := do
  ensure (!l.transactions.contains id) .primaryKey
  ensure (l.accounts.contains row.accountId) .foreignKey
  pure { l with transactions := l.transactions.insert id row }

theorem insertTransaction_eq_ok {l l' : Ledger} {id : RowId} {row : TransactionRow} :
    l.insertTransaction id row = .ok l' ↔ l.transactions[id]? = none ∧
      (∃ a, l.accounts[row.accountId]? = some a) ∧
      { l with transactions := l.transactions.insert id row } = l' := by
  simp [insertTransaction, contains_eq_false_iff, ← contains_iff]

def updateTransactionRow (l : Ledger) (id : RowId) (row : TransactionRow) : Except Constraint Ledger := do
  ensure (l.accounts.contains row.accountId) .foreignKey
  pure { l with transactions := l.transactions.insert id row }

theorem updateTransactionRow_eq_ok {l l' : Ledger} {id : RowId} {row : TransactionRow} :
    l.updateTransactionRow id row = .ok l' ↔ (∃ a, l.accounts[row.accountId]? = some a) ∧
      { l with transactions := l.transactions.insert id row } = l' := by
  simp [updateTransactionRow, ← contains_iff]

/-- `DELETE FROM transactions WHERE account_id = ?`. -/
def deleteTransactionsOf (l : Ledger) (id : RowId) : Ledger :=
  { l with transactions := l.transactions.filter fun _ row => row.accountId ≠ id }

/-- `DELETE FROM accounts WHERE id = ?`. -/
def deleteAccountRow (l : Ledger) (id : RowId) : Except Constraint Ledger := do
  ensure (l.transactions.toList.all fun p => p.2.accountId ≠ id) .foreignKey
  pure { l with accounts := l.accounts.erase id }

theorem deleteAccountRow_eq_ok {l l' : Ledger} {id : RowId} :
    l.deleteAccountRow id = .ok l' ↔
      (∀ (t : RowId) (row : TransactionRow), l.transactions[t]? = some row → row.accountId ≠ id) ∧
        { l with accounts := l.accounts.erase id } = l' := by
  simp only [deleteAccountRow, bind_eq_ok, ensure_eq_ok, pure_eq_ok, List.all_eq_true,
    decide_eq_true_eq, Prod.forall, exists_const]
  refine and_congr_left fun _ => forall₂_congr fun t row => ?_
  rw [← mem_toList_iff (p := (t, row))]

theorem get_deleteTransactionsOf (l : Ledger) (id t : RowId) :
    (l.deleteTransactionsOf id).transactions[t]? =
      l.transactions[t]?.filter fun row => row.accountId ≠ id := by
  simp [deleteTransactionsOf, Std.ExtTreeMap.getElem?_filter]

end Ledger

def defaultCurrencyKey : String := "default_currency"

/-- The stamp of a setting that the migrations seeded. -/
def epochStamp : Stamp := "1970-01-01T00:00:00Z"

/-- `apply_migrations` on a new database. -/
def applyMigrations : Ledger where
  settings := (∅ : BTreeMap String SettingRow).insert defaultCurrencyKey
    { value := "USD", updatedAt := epochStamp }

/-! ## Validators -/

/-- `char::is_whitespace`: the characters of the Unicode property `White_Space`. -/
def isWhitespace (c : Char) : Bool :=
  (9 ≤ c.val && c.val ≤ 13) || c.val == 0x20 || c.val == 0x85 || c.val == 0xA0 || c.val == 0x1680 ||
    (0x2000 ≤ c.val && c.val ≤ 0x200A) || c.val == 0x2028 || c.val == 0x2029 || c.val == 0x202F ||
    c.val == 0x205F || c.val == 0x3000

def trim (s : String) : String :=
  String.ofList ((s.toList.dropWhile isWhitespace).rdropWhile isWhitespace)

/-- `char::is_ascii_uppercase`. -/
def isAsciiUppercase (c : Char) : Bool := 'A' ≤ c && c ≤ 'Z'

def validateCurrency (s : String) : Except MintError Unit :=
  ensure (1 ≤ s.utf8ByteSize && s.utf8ByteSize ≤ 5 && s.toList.all isAsciiUppercase)
    (.validation "currency must be 1-5 ASCII uppercase letters")

def validateAccountName (s : String) : Except MintError String := do
  ensure (!(trim s).isEmpty) (.validation "account name cannot be empty")
  ensure ((trim s).utf8ByteSize ≤ 256) (.validation "account name exceeds 256 bytes")
  pure (trim s)

/-- The shape `NNNN-NN-NN`; a text of ten bytes with it has ten characters. -/
def isDateShaped (s : String) : Bool :=
  match s.toList with
  | [y₁, y₂, y₃, y₄, d₁, m₁, m₂, d₂, e₁, e₂] =>
    d₁ == '-' && d₂ == '-' && [y₁, y₂, y₃, y₄, m₁, m₂, e₁, e₂].all Char.isDigit
  | _ => false

variable (P : Parsers)

def validateDate (s : String) : Except MintError Unit :=
  ensure (isDateShaped s && P.naiveDate s)
    (.validation ("invalid date '" ++ s ++ "'; expected YYYY-MM-DD"))

def validateAmount (s : String) : Except MintError Unit := do
  ensure (!s.toList.any fun c => c == 'e' || c == 'E')
    (.validation ("invalid amount '" ++ s ++ "': scientific notation not allowed"))
  ensure (P.decimal s) (.validation ("invalid amount '" ++ s ++ "'"))

def validateDescription (s : String) : Except MintError Unit := do
  ensure (!(trim s).isEmpty) (.validation "description cannot be empty")
  ensure (s.utf8ByteSize ≤ 4096) (.validation "description exceeds 4096 bytes")

def validateMetadata (s : String) : Except MintError Unit := do
  ensure (s.utf8ByteSize ≤ 65536) (.validation "metadata exceeds 64 KiB")
  match P.jsonError s with
  | none => pure ()
  | some e => .error (.validation ("metadata is not valid JSON: " ++ e))

/-- A check of a field that may be missing. -/
def validateIfSome (check : String → Except MintError Unit) : Option String → Except MintError Unit
  | none => .ok ()
  | some s => check s

def validateTransactionFields (transactionDate amount currency description : String)
    (metadata : Option String) : Except MintError Unit := do
  validateDate P transactionDate
  validateAmount P amount
  validateCurrency currency
  validateDescription description
  validateIfSome (validateMetadata P) metadata

/-- The fields of a row pass the checks of the command path. -/
def TransactionRow.FieldsValid (row : TransactionRow) : Prop :=
  validateTransactionFields P row.transactionDate row.amount row.currency row.description
    row.metadata = .ok ()

theorem TransactionRow.fieldsValid_iff (row : TransactionRow) :
    row.FieldsValid P ↔ validateDate P row.transactionDate = .ok () ∧
      validateAmount P row.amount = .ok () ∧ validateCurrency row.currency = .ok () ∧
      validateDescription row.description = .ok () ∧
      validateIfSome (validateMetadata P) row.metadata = .ok () := by
  simp only [TransactionRow.FieldsValid, validateTransactionFields, bind_eq_ok, Unique.exists_iff]

/-! ## Accounts -/

structure Account where
  id : RowId
  name : String
  createdAt : Stamp
  transactionCount : ℕ

/-- `get_account_by_id`: the account with the number of its live transactions. -/
def getAccountById (l : Ledger) (id : RowId) : Option Account :=
  l.accounts[id]?.map fun row =>
    { id, name := row.name, createdAt := row.createdAt,
      transactionCount := l.transactions.toList.countP fun p =>
        p.2.accountId == id && p.2.deletedAt.isNone }

def mapAccountNameConstraint {α : Type} : Except Constraint α → Except MintError α
  | .ok a => .ok a
  | .error _ => .error (.validation "account name already exists")

/-- A violated constraint that is passed through. -/
def mapSqlite {α : Type} : Except Constraint α → Except MintError α
  | .ok a => .ok a
  | .error c => .error (.sqlite c)

def createAccount (l : Ledger) (name : String) (id : RowId) (now : Stamp) :
    Except MintError (Account × Ledger) := do
  let trimmedName ← validateAccountName name
  let l' ← mapAccountNameConstraint
    (l.insertAccount id { name := trimmedName, createdAt := now, updatedAt := now })
  pure ({ id, name := trimmedName, createdAt := now, transactionCount := 0 }, l')

def renameAccount (l : Ledger) (id : RowId) (newName : String) (now : Stamp) :
    Except MintError (Account × Ledger) := do
  let trimmedName ← validateAccountName newName
  let (affected, l') ← mapAccountNameConstraint (l.updateAccount id trimmedName now)
  ensure (affected ≠ 0) (.notFound "account not found")
  match getAccountById l' id with
  | some account => pure (account, l')
  | none => .error (.other "account vanished between rename and read")

/-- `UPDATE transactions SET account_id, updated_at WHERE account_id = ?`. -/
def reassignTransactions (l : Ledger) (id target : RowId) (now : Stamp) : Ledger :=
  { l with transactions := l.transactions.map fun _ row =>
      if row.accountId = id then { row with accountId := target, updatedAt := now } else row }

/-- An account without live transactions goes with its tombstones; with a target, all
its transactions are moved there first. -/
def deleteAccount (l : Ledger) (id : RowId) (reassignTo : Option RowId) (now : Stamp) :
    Except MintError Ledger := do
  ensure (l.accounts.contains id) (.notFound "account not found")
  match reassignTo with
  | some target =>
    ensure (target ≠ id) (.validation "cannot reassign to the account being deleted")
    ensure (l.accounts.contains target) (.validation "reassign_to target does not exist")
    mapSqlite ((reassignTransactions l id target now).deleteAccountRow id)
  | none =>
    ensure (l.transactions.toList.all fun p => !(p.2.accountId == id && p.2.deletedAt.isNone))
      (.validation "account has transactions; pass reassign_to")
    mapSqlite ((l.deleteTransactionsOf id).deleteAccountRow id)

/-! ## Transactions -/

structure Transaction where
  id : RowId
  row : TransactionRow
  accountName : String

structure NewTransaction where
  transactionDate : String
  amount : String
  currency : String
  accountId : RowId
  description : String
  metadata : Option String

/-- Every field may be left alone; `metadata` may also be cleared. -/
structure UpdateTransaction where
  transactionDate : Option String := none
  amount : Option String := none
  currency : Option String := none
  accountId : Option RowId := none
  description : Option String := none
  metadata : Option (Option String) := none
deriving DecidableEq

/-- `get_transaction`: a live row, joined with the name of its account. -/
def getTransaction (l : Ledger) (id : RowId) : Option Transaction := do
  let row ← l.transactions[id]?
  let account ← l.accounts[row.accountId]?
  if row.deletedAt.isNone then some { id, row, accountName := account.name } else none

def NewTransaction.row (payload : NewTransaction) (now : Stamp) : TransactionRow where
  transactionDate := payload.transactionDate
  amount := payload.amount
  currency := payload.currency
  accountId := payload.accountId
  description := payload.description
  metadata := payload.metadata
  createdAt := now
  updatedAt := now

def createTransaction (l : Ledger) (payload : NewTransaction) (id : RowId) (now : Stamp) :
    Except MintError (Transaction × Ledger) := do
  validateTransactionFields P payload.transactionDate payload.amount payload.currency
    payload.description payload.metadata
  ensure (l.accounts.contains payload.accountId) (.validation "account does not exist")
  let l' ← mapSqlite (l.insertTransaction id (payload.row now))
  match getTransaction l' id with
  | some transaction => pure (transaction, l')
  | none => .error (.other "transaction vanished immediately after insert")

/-- The row with the given fields set and its stamp bumped. -/
def TransactionRow.edit (row : TransactionRow) (payload : UpdateTransaction) (now : Stamp) :
    TransactionRow :=
  { row with
    transactionDate := payload.transactionDate.getD row.transactionDate
    amount := payload.amount.getD row.amount
    currency := payload.currency.getD row.currency
    accountId := payload.accountId.getD row.accountId
    description := payload.description.getD row.description
    metadata := payload.metadata.getD row.metadata
    updatedAt := now }

def updateTransaction (l : Ledger) (id : RowId) (payload : UpdateTransaction) (now : Stamp) :
    Except MintError (Transaction × Ledger) := do
  validateIfSome (validateDate P) payload.transactionDate
  validateIfSome (validateAmount P) payload.amount
  validateIfSome validateCurrency payload.currency
  ensure (payload.accountId.all l.accounts.contains) (.validation "account does not exist")
  validateIfSome validateDescription payload.description
  validateIfSome (validateMetadata P) (payload.metadata.getD none)
  if payload = {} then
    match getTransaction l id with
    | some transaction => pure (transaction, l)
    | none => .error (.notFound "transaction not found")
  else
    match l.transactions[id]?.filter fun row => row.deletedAt.isNone with
    | none => .error (.notFound "transaction not found")
    | some row =>
      let l' ← mapSqlite (l.updateTransactionRow id (row.edit payload now))
      match getTransaction l' id with
      | some transaction => pure (transaction, l')
      | none => .error (.other "transaction vanished between update and read")

/-- A tombstoned row stays as it is. -/
def deleteTransaction (l : Ledger) (id : RowId) (now : Stamp) : Except MintError Ledger :=
  match l.transactions[id]? with
  | none => .error (.notFound ("transaction " ++ id))
  | some row =>
    if row.deletedAt.isNone then
      pure { l with transactions :=
        l.transactions.insert id { row with deletedAt := some now, updatedAt := now } }
    else pure l

def setDefaultCurrency (l : Ledger) (currency : String) (now : Stamp) : Except MintError Ledger := do
  validateCurrency currency
  pure { l with settings :=
    l.settings.insert defaultCurrencyKey { value := currency, updatedAt := now } }

end Harmony.Mint
