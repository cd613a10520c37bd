import Harmony.Mint.Wedge

/-! Whether an edit beats the version that it was made on. A call stamps what it
rewrites with the local clock, whatever stamp the row had. -/

namespace Harmony.Mint

open Harmony.Lib

inductive RowKey where
  | account (id : RowId)
  | transaction (id : RowId)
  | setting (key : String)
deriving DecidableEq

inductive Row where
  | account (row : AccountRow)
  | transaction (row : TransactionRow)
  | setting (row : SettingRow)
deriving DecidableEq

def Row.updatedAt : Row → Stamp
  | .account row => row.updatedAt
  | .transaction row => row.updatedAt
  | .setting row => row.updatedAt

def Ledger.row (l : Ledger) : RowKey → Option Row
  | .account id => l.accounts[id]?.map Row.account
  | .transaction id => l.transactions[id]?.map Row.transaction
  | .setting key => l.settings[key]?.map Row.setting

section

variable {P : Parsers} {now : Option ℕ} {s r s' : MintState}

/-- A row that a merge leaves is the one that was there, or comes with the snapshot and its
stamp is later. -/
theorem Merged.row_eq (h : Merged P now s r s') {key : RowKey} {v : Row}
    (hv : s'.ledger.row key = some v) : s.ledger.row key = some v ∨
      ∃ v', r.ledger.row key = some v' ∧ v'.updatedAt = v.updatedAt ∧
        ∀ held, s.ledger.row key = some held → held.updatedAt < v'.updatedAt := by
  cases key with
  | account i =>
    obtain ⟨b, hb, rfl⟩ := Option.map_eq_some_iff.mp hv
    rcases incomingAccount_eq_some (h.get_account.mp hb).1 with ⟨a, ha, hw, rfl⟩ | ⟨hs, -⟩
    · refine Or.inr ⟨.account a, by simp [Ledger.row, ha], rfl, fun held hheld => ?_⟩
      obtain ⟨c, hc, rfl⟩ := Option.map_eq_some_iff.mp hheld
      exact hw.2.2 c hc
    · exact Or.inl (by simp [Ledger.row, hs])
  | transaction t =>
    obtain ⟨b, hb, rfl⟩ := Option.map_eq_some_iff.mp hv
    rcases incomingTransaction_eq_some (h.get_transaction.mp hb).1 with ⟨a, ha, hw, rfl⟩ | hs
    · refine Or.inr ⟨.transaction a, by simp [Ledger.row, ha], rfl, fun held hheld => ?_⟩
      obtain ⟨c, hc, rfl⟩ := Option.map_eq_some_iff.mp hheld
      exact hw.2.2.2 c hc
    · exact Or.inl (by simp [Ledger.row, hs])
  | setting k =>
    obtain ⟨b, hb, rfl⟩ := Option.map_eq_some_iff.mp hv
    rw [h.setting] at hb
    cases hr : r.ledger.settings[k]? with
    | none =>
      rw [hr] at hb
      exact Or.inl (by simpa [Ledger.row] using hb)
    | some a =>
      rw [hr, Option.elim_some, settingMet] at hb
      split_ifs at hb with hw
      · cases hb
        refine Or.inr ⟨.setting b, by simp [Ledger.row, hr], rfl, fun held hheld => ?_⟩
        obtain ⟨c, hc, rfl⟩ := Option.map_eq_some_iff.mp hheld
        exact hw.2 c hc
      · exact Or.inl (by simp [Ledger.row, hb])

end

/-! ## Edits -/

/-- The rows that an accepted edit rewrites; the other calls edit nothing. -/
def Op.Rewrites (l : Ledger) : Op → RowKey → Prop
  | .renameAccount id _, key => key = .account id
  | .deleteAccount id (some _) .proceeds _, key =>
    ∃ t row, key = .transaction t ∧ l.transactions[t]? = some row ∧ row.accountId = id
  | .updateTransaction id payload, key => payload ≠ {} ∧ key = .transaction id
  | .deleteTransaction id, key =>
    key = .transaction id ∧ ∀ row ∈ l.transactions[id]?, row.deletedAt = none
  | .setDefaultCurrency _, key => key = .setting defaultCurrencyKey
  | _, _ => False

def Op.Accepted (P : Parsers) (now : Stamp) (l : Ledger) : Op → Prop
  | .createAccount name id => (Mint.createAccount l name id now).isOk
  | .renameAccount id newName => (Mint.renameAccount l id newName now).isOk
  | .deleteAccount id reassignTo _ _ => (Mint.deleteAccount l id reassignTo now).isOk
  | .createTransaction payload id => (Mint.createTransaction P l payload id now).isOk
  | .updateTransaction id payload => (Mint.updateTransaction P l id payload now).isOk
  | .deleteTransaction id => (Mint.deleteTransaction l id now).isOk
  | .setDefaultCurrency currency => (Mint.setDefaultCurrency l currency now).isOk

instance (P : Parsers) (now : Stamp) (l : Ledger) (op : Op) : Decidable (op.Accepted P now l) := by
  cases op <;> exact inferInstanceAs (Decidable (_ = true))

/-- Every row that the call rewrites gets a later stamp, and merging a snapshot that holds
the replaced version, an older one or none leaves no other row in its place. -/
def Op.Wins (P : Parsers) (now : Stamp) (s : MintState) (op : Op) : Prop :=
  ∀ key old, op.Rewrites s.ledger key → s.ledger.row key = some old →
    ∃ new, (op.run P now s).ledger.row key = some new ∧ old.updatedAt < new.updatedAt ∧
      ∀ (r s' : MintState) (clock : Option ℕ) (capturedAt : Stamp), r.ledger.Consistent P →
        (∀ v, r.ledger.row key = some v → v.updatedAt ≤ old.updatedAt) →
        handleIncomingDecoded P clock (op.run P now s) (r.snapshot capturedAt) = .ok s' →
        ∀ v, s'.ledger.row key = some v → v = new

section

variable {P : Parsers} {now : Stamp} {s : MintState} {l : Ledger}

theorem isOk_iff {ε α : Type} {x : Except ε α} : x.isOk = true ↔ ∃ a, x = .ok a := by
  cases x <;> simp [Except.isOk, Except.toBool]

theorem Op.Accepted.rewrites {op : Op} (h : op.Accepted P now s.ledger) {key : RowKey} {old : Row}
    (hkey : op.Rewrites s.ledger key) (hold : s.ledger.row key = some old) :
    ∃ new, (op.run P now s).ledger.row key = some new ∧ new.updatedAt = now := by
  cases op with
  | createAccount name id => exact hkey.elim
  | createTransaction payload id => exact hkey.elim
  | renameAccount id newName =>
    cases hkey
    obtain ⟨⟨account, l'⟩, h⟩ := isOk_iff.mp h
    obtain ⟨row, name, -, -, rfl⟩ := renameAccount_ok h
    refine ⟨.account { row with name, updatedAt := now }, ?_, rfl⟩
    simp [Op.run, h, Except.map, Ledger.after, Ledger.row]
  | deleteAccount id reassignTo run floorNow =>
    cases reassignTo with
    | none => exact hkey.elim
    | some target =>
      cases run with
      | persistFails => exact hkey.elim
      | crashes => exact hkey.elim
      | proceeds =>
        obtain ⟨t, row, rfl, hrow, hid⟩ := hkey
        obtain ⟨l', h⟩ := isOk_iff.mp h
        obtain ⟨-, -, rfl⟩ := deleteAccount_reassign_ok h
        refine ⟨.transaction { row with accountId := target, updatedAt := now }, ?_, rfl⟩
        have hget : (reassignTransactions s.ledger id target now).transactions[t]? =
            some { row with accountId := target, updatedAt := now } := by
          rw [get_reassignTransactions, hrow, Option.map_some, if_pos hid]
        simp only [Op.run, mintDeleteAccount, h, Ledger.row, hget, Option.map_some]
  | updateTransaction id payload =>
    obtain ⟨hne, rfl⟩ := hkey
    obtain ⟨⟨transaction, l'⟩, h⟩ := isOk_iff.mp h
    rcases updateTransaction_ok h with ⟨hempty, -⟩ | ⟨-, row, -, -, -, -, rfl⟩
    · exact absurd hempty hne
    · refine ⟨.transaction (row.edit payload now), ?_, rfl⟩
      simp [Op.run, h, Except.map, Ledger.after, Ledger.row]
  | deleteTransaction id =>
    obtain ⟨rfl, hlive⟩ := hkey
    obtain ⟨row, hrow, rfl⟩ := Option.map_eq_some_iff.mp hold
    have hnone := hlive row hrow
    refine ⟨.transaction { row with deletedAt := some now, updatedAt := now }, ?_, rfl⟩
    simp [Op.run, Mint.deleteTransaction, hrow, hnone, Ledger.after, Ledger.row, pure, Except.pure]
  | setDefaultCurrency currency =>
    cases hkey
    obtain ⟨l', h⟩ := isOk_iff.mp h
    refine ⟨.setting { value := currency, updatedAt := now }, ?_, rfl⟩
    have hl := h
    simp only [Mint.setDefaultCurrency, bind_eq_ok, pure_eq_ok] at hl
    obtain ⟨-, -, rfl⟩ := hl
    simp [Op.run, h, Ledger.after, Ledger.row]

/-- An accepted edit wins over what it replaces exactly when the local clock is later than
the stamp of every row that it rewrites. -/
theorem edit_wins_iff {op : Op} (h : op.Accepted P now s.ledger) :
    op.Wins P now s ↔ ∀ key old, op.Rewrites s.ledger key → s.ledger.row key = some old →
      old.updatedAt < now := by
  constructor
  · intro hwins key old hkey hold
    obtain ⟨new, hnew, hlt, -⟩ := hwins key old hkey hold
    obtain ⟨new', hnew', rfl⟩ := h.rewrites hkey hold
    rw [hnew] at hnew'
    cases hnew'
    exact hlt
  · intro hclock key old hkey hold
    obtain ⟨new, hnew, hstamp⟩ := h.rewrites hkey hold
    have hlt : old.updatedAt < new.updatedAt := hstamp ▸ hclock key old hkey hold
    refine ⟨new, hnew, hlt, fun r s' clock capturedAt hr holder hmerge v hv => ?_⟩
    obtain ⟨-, hmerged⟩ := (handleIncomingDecoded_eq_ok hr capturedAt).mp hmerge
    rcases hmerged.row_eq hv with hheld | ⟨v', hv', -, hlater⟩
    · exact Option.some.inj (hheld.symm.trans hnew)
    · exact absurd ((hlater new hnew).trans_le (holder v' hv')) hlt.asymm

end

/-! ## An edit that is taken back -/

def behind : MintState := mergedState sampleParsers (some (1714557600000 + 60000)) {} (openedAt "a1" 3)

/-- The rename is made after the row was seen, and the same snapshot takes it back. -/
theorem rename_taken_back :
    InBound sampleParsers (some (1714557600000 + 60000)) behind ∧
      (Op.renameAccount "a1" "Joint").Accepted sampleParsers (stampAt 1) behind.ledger ∧
      ¬(Op.renameAccount "a1" "Joint").Wins sampleParsers (stampAt 1) behind ∧
      ∃ s', handleIncomingDecoded sampleParsers (some (1714557600000 + 60000))
          ((Op.renameAccount "a1" "Joint").run sampleParsers (stampAt 1) behind)
          ((openedAt "a1" 3).snapshot (stampAt 3)) = .ok s' ∧
        s'.ledger.row (.account "a1") = some (.account ⟨"Chase", stampAt 3, stampAt 3⟩) := by
  have haccepted : (Op.renameAccount "a1" "Joint").Accepted sampleParsers (stampAt 1) behind.ledger := by
    decide +kernel
  refine ⟨inBound_iff.mpr (by decide +kernel), haccepted, fun hwins => ?_, ?_⟩
  · obtain ⟨new, hnew, hlt, -⟩ := hwins (.account "a1") (.account ⟨"Chase", stampAt 3, stampAt 3⟩) rfl
      (by decide +kernel)
    have hrow : ((Op.renameAccount "a1" "Joint").run sampleParsers (stampAt 1) behind).ledger.row
        (.account "a1") = some (.account ⟨"Joint", stampAt 3, stampAt 1⟩) := by
      decide +kernel
    rw [hrow] at hnew
    cases hnew
    exact absurd hlt (by decide +kernel)
  · exact ⟨_, rfl, by decide +kernel⟩

theorem edit_wins_iff_later :
    (Op.renameAccount "a1" "Joint").Wins sampleParsers (stampAt 4) behind ↔
      ∀ key old, (Op.renameAccount "a1" "Joint").Rewrites behind.ledger key →
        behind.ledger.row key = some old → old.updatedAt < stampAt 4 :=
  edit_wins_iff (by decide +kernel)

end Harmony.Mint
