import Harmony.Mint.Merge

/-! The devices of one owner: each changes its own ledger, publishes snapshots of
it and merges the snapshots of its siblings, at any time and in any order. Every
ledger that is ever held or on the wire is consistent, and a row keeps the birth
that it was created with. -/

namespace Harmony.Mint

open Harmony.Lib

/-! ## Local writes -/

section

variable (P : Parsers)

/-- What a local call writes, case by case. -/
inductive LocalWrite (fresh : RowId → Prop) (l : Ledger) : Ledger → Prop
  | nothing : LocalWrite fresh l l
  | createAccount (id : RowId) (name : String) (now : Stamp) (hfresh : fresh id)
    (hfree : ¬l.nameTaken id name) :
    LocalWrite fresh l { l with accounts := l.accounts.insert id ⟨name, now, now⟩ }
  | renameAccount (id : RowId) (row : AccountRow) (name : String) (now : Stamp)
    (hrow : l.accounts[id]? = some row) (hfree : ¬l.nameTaken id name) :
    LocalWrite fresh l { l with accounts := l.accounts.insert id { row with name, updatedAt := now } }
  | purge (id : RowId) : LocalWrite fresh l (l.purge id)
  | reassign (id target : RowId) (now : Stamp) (hne : target ≠ id)
    (htarget : ∃ a, l.accounts[target]? = some a) :
    LocalWrite fresh l { reassignTransactions l id target now with accounts := l.accounts.erase id }
  | createTransaction (id : RowId) (row : TransactionRow) (hfresh : fresh id)
    (haccount : ∃ a, l.accounts[row.accountId]? = some a) (hvalid : row.FieldsValid P) :
    LocalWrite fresh l { l with transactions := l.transactions.insert id row }
  | putTransaction (id : RowId) (old row : TransactionRow) (hold : l.transactions[id]? = some old)
    (hborn : row.createdAt = old.createdAt) (haccount : ∃ a, l.accounts[row.accountId]? = some a)
    (hvalid : row.deletedAt = none → row.FieldsValid P)
    (hlive : row.deletedAt = none → old.deletedAt = none) :
    LocalWrite fresh l { l with transactions := l.transactions.insert id row }
  | setting (key : String) (row : SettingRow) :
    LocalWrite fresh l { l with settings := l.settings.insert key row }

@[simp] theorem mapAccountNameConstraint_eq_ok {α : Type} {x : Except Constraint α} {a : α} :
    mapAccountNameConstraint x = .ok a ↔ x = .ok a := by
  cases x <;> simp [mapAccountNameConstraint]

@[simp] theorem mapSqlite_eq_ok {α : Type} {x : Except Constraint α} {a : α} :
    mapSqlite x = .ok a ↔ x = .ok a := by
  cases x <;> simp [mapSqlite]

variable {P} {fresh : RowId → Prop} {l l' : Ledger}

theorem createAccount_writes {name : String} {id : RowId} {now : Stamp} {account : Account}
    (hfresh : fresh id) (h : createAccount l name id now = .ok (account, l')) :
    LocalWrite P fresh l l' := by
  simp only [createAccount, bind_eq_ok, mapAccountNameConstraint_eq_ok, Ledger.insertAccount_eq_ok,
    pure_eq_ok, Prod.mk.injEq] at h
  obtain ⟨trimmed, -, _, ⟨-, hfree, rfl⟩, -, rfl⟩ := h
  exact .createAccount id trimmed now hfresh hfree

theorem renameAccount_ok {id : RowId} {newName : String} {now : Stamp} {account : Account}
    (h : renameAccount l id newName now = .ok (account, l')) :
    ∃ row name, l.accounts[id]? = some row ∧ ¬l.nameTaken id name ∧
      { l with accounts := l.accounts.insert id { row with name, updatedAt := now } } = l' := by
  simp only [renameAccount, bind_eq_ok, mapAccountNameConstraint_eq_ok, Ledger.updateAccount_eq_ok,
    ensure_eq_ok] at h
  obtain ⟨trimmed, -, ⟨affected, l₁⟩, hupdate, -, haffected, hread⟩ := h
  have hl : l₁ = l' := by
    revert hread
    cases getAccountById l₁ id <;> simp [pure_eq_ok]
  subst hl
  rcases hupdate with ⟨-, hsame⟩ | ⟨row, hrow, hfree, hnew⟩
  · cases hsame
    simp at haffected
  · cases hnew
    exact ⟨row, trimmed, hrow, hfree, rfl⟩

theorem renameAccount_writes {id : RowId} {newName : String} {now : Stamp} {account : Account}
    (h : renameAccount l id newName now = .ok (account, l')) : LocalWrite P fresh l l' := by
  obtain ⟨row, name, hrow, hfree, rfl⟩ := renameAccount_ok h
  exact .renameAccount id row name now hrow hfree

theorem deleteAccount_reassign_ok {id target : RowId} {now : Stamp}
    (h : deleteAccount l id (some target) now = .ok l') :
    target ≠ id ∧ (∃ a, l.accounts[target]? = some a) ∧
      { reassignTransactions l id target now with accounts := l.accounts.erase id } = l' := by
  simp only [deleteAccount, bind_eq_ok, mapSqlite_eq_ok, ensure_eq_ok, decide_eq_true_eq,
    Ledger.deleteAccountRow_eq_ok, Ledger.contains_iff] at h
  obtain ⟨-, -, -, hne, -, htarget, -, hl⟩ := h
  exact ⟨hne, htarget, hl⟩

theorem deleteAccount_writes {id : RowId} {reassignTo : Option RowId} {now : Stamp}
    (h : deleteAccount l id reassignTo now = .ok l') : LocalWrite P fresh l l' := by
  cases reassignTo with
  | none =>
    simp only [deleteAccount, bind_eq_ok, mapSqlite_eq_ok, deleteAccountRow_deleteTransactionsOf,
      Except.ok.injEq] at h
    obtain ⟨-, -, -, -, rfl⟩ := h
    exact .purge id
  | some target =>
    obtain ⟨hne, htarget, rfl⟩ := deleteAccount_reassign_ok h
    exact .reassign id target now hne htarget

theorem createTransaction_writes {payload : NewTransaction} {id : RowId} {now : Stamp}
    {transaction : Transaction} (hfresh : fresh id)
    (h : createTransaction P l payload id now = .ok (transaction, l')) : LocalWrite P fresh l l' := by
  simp only [createTransaction, bind_eq_ok, mapSqlite_eq_ok, Ledger.insertTransaction_eq_ok] at h
  obtain ⟨_, hvalid, -, -, _, ⟨-, haccount, rfl⟩, hread⟩ := h
  have hl : { l with transactions := l.transactions.insert id (payload.row now) } = l' := by
    revert hread
    cases getTransaction { l with transactions := l.transactions.insert id (payload.row now) } id <;>
      simp [pure_eq_ok]
  subst hl
  exact .createTransaction id (payload.row now) hfresh haccount hvalid

theorem validateIfSome_getD {check : String → Except MintError Unit} {given : Option String}
    {old : String} (hgiven : validateIfSome check given = .ok ()) (hold : check old = .ok ()) :
    check (given.getD old) = .ok () := by
  cases given with
  | none => exact hold
  | some s => exact hgiven

/-- An edit of a valid row with checked fields is valid. -/
theorem TransactionRow.FieldsValid.edit {row : TransactionRow} {payload : UpdateTransaction} {now : Stamp}
    (hrow : row.FieldsValid P)
    (hdate : validateIfSome (validateDate P) payload.transactionDate = .ok ())
    (hamount : validateIfSome (validateAmount P) payload.amount = .ok ())
    (hcurrency : validateIfSome validateCurrency payload.currency = .ok ())
    (hdescription : validateIfSome validateDescription payload.description = .ok ())
    (hmetadata : validateIfSome (validateMetadata P) (payload.metadata.getD none) = .ok ()) :
    (row.edit payload now).FieldsValid P := by
  rw [TransactionRow.fieldsValid_iff] at hrow ⊢
  refine ⟨validateIfSome_getD hdate hrow.1, validateIfSome_getD hamount hrow.2.1,
    validateIfSome_getD hcurrency hrow.2.2.1, validateIfSome_getD hdescription hrow.2.2.2.1, ?_⟩
  unfold TransactionRow.edit
  cases hm : payload.metadata with
  | none => exact hrow.2.2.2.2
  | some m => simpa [hm] using hmetadata

theorem updateTransaction_ok {id : RowId} {payload : UpdateTransaction} {now : Stamp}
    {transaction : Transaction} (h : updateTransaction P l id payload now = .ok (transaction, l')) :
    (payload = {} ∧ l = l') ∨ (payload ≠ {} ∧ ∃ row, l.transactions[id]? = some row ∧
      row.deletedAt = none ∧ (∃ a, l.accounts[(row.edit payload now).accountId]? = some a) ∧
      (row.FieldsValid P → (row.edit payload now).FieldsValid P) ∧
      { l with transactions := l.transactions.insert id (row.edit payload now) } = l') := by
  simp only [updateTransaction, bind_eq_ok, ensure_eq_ok] at h
  obtain ⟨_, hdate, _, hamount, _, hcurrency, -, haccount, _, hdescription, _, hmetadata, h⟩ := h
  split_ifs at h with hempty
  · left
    refine ⟨hempty, ?_⟩
    revert h
    cases getTransaction l id <;> simp [pure_eq_ok]
  · right
    refine ⟨hempty, ?_⟩
    cases hrow : l.transactions[id]?.filter fun row => row.deletedAt.isNone with
    | none => simp [hrow] at h
    | some row =>
      obtain ⟨hold, hlive⟩ := Option.filter_eq_some_iff.mp hrow
      simp only [hrow, bind_eq_ok, mapSqlite_eq_ok, Ledger.updateTransactionRow_eq_ok] at h
      obtain ⟨_, ⟨hexists, rfl⟩, hread⟩ := h
      refine ⟨row, hold, by simpa using hlive, hexists, fun hvalid =>
        hvalid.edit hdate hamount hcurrency hdescription hmetadata, ?_⟩
      revert hread
      cases getTransaction
        { l with transactions := l.transactions.insert id (row.edit payload now) } id <;>
        simp [pure_eq_ok]

theorem updateTransaction_writes (hl : l.Consistent P) {id : RowId} {payload : UpdateTransaction}
    {now : Stamp} {transaction : Transaction}
    (h : updateTransaction P l id payload now = .ok (transaction, l')) : LocalWrite P fresh l l' := by
  rcases updateTransaction_ok h with ⟨-, rfl⟩ | ⟨-, row, hold, hlive, hexists, hvalid, rfl⟩
  · exact .nothing
  · exact .putTransaction id row _ hold rfl hexists (fun _ => hvalid (hl.valid id row hold hlive))
      fun h => h

theorem deleteTransaction_writes (hl : l.Consistent P) {id : RowId} {now : Stamp}
    (h : deleteTransaction l id now = .ok l') : LocalWrite P fresh l l' := by
  unfold deleteTransaction at h
  cases hrow : l.transactions[id]? with
  | none => simp [hrow] at h
  | some row =>
    simp only [hrow] at h
    split_ifs at h with hlive
    · obtain rfl := pure_eq_ok.mp h
      exact .putTransaction id row _ hrow rfl (hl.references id row hrow) (by simp) (by simp)
    · obtain rfl := pure_eq_ok.mp h
      exact .nothing

theorem setDefaultCurrency_writes {currency : String} {now : Stamp}
    (h : setDefaultCurrency l currency now = .ok l') : LocalWrite P fresh l l' := by
  simp only [setDefaultCurrency, bind_eq_ok, pure_eq_ok] at h
  obtain ⟨-, -, rfl⟩ := h
  exact .setting _ _

theorem LocalWrite.after {ε : Type} {result : Except ε Ledger}
    (h : ∀ l', result = .ok l' → LocalWrite P fresh l l') : LocalWrite P fresh l (l.after result) := by
  cases result with
  | error e => exact .nothing
  | ok l' => exact h l' rfl

theorem map_snd_eq_ok {ε α β : Type} {x : Except ε (α × β)} {b : β} :
    x.map Prod.snd = .ok b ↔ ∃ a, x = .ok (a, b) := by
  cases x with
  | error e => simp [Except.map]
  | ok p => simp [Except.map, Prod.ext_iff]

end

def Op.newId : Op → Option RowId
  | .createAccount _ id | .createTransaction _ id => some id
  | _ => none

theorem mintDeleteAccount_writes {P : Parsers} {fresh : RowId → Prop} (s : MintState) (id : RowId)
    (reassignTo : Option RowId) (run : DeletionRun) (floorNow now : Stamp) :
    LocalWrite P fresh s.ledger (mintDeleteAccount s id reassignTo run floorNow now).ledger := by
  cases run with
  | persistFails => exact .nothing
  | crashes => exact .nothing
  | proceeds =>
    unfold mintDeleteAccount
    cases h : deleteAccount s.ledger id reassignTo now with
    | error e => exact .nothing
    | ok l' => exact deleteAccount_writes h

theorem Op.run_writes {P : Parsers} {fresh : RowId → Prop} {s : MintState} (hs : s.ledger.Consistent P)
    (now : Stamp) {op : Op} (hfresh : ∀ id ∈ op.newId, fresh id) :
    LocalWrite P fresh s.ledger (op.run P now s).ledger := by
  cases op with
  | createAccount name id =>
    refine .after fun l' h => ?_
    obtain ⟨_, h⟩ := map_snd_eq_ok.mp h
    exact createAccount_writes (hfresh id rfl) h
  | renameAccount id newName =>
    refine .after fun l' h => ?_
    obtain ⟨_, h⟩ := map_snd_eq_ok.mp h
    exact renameAccount_writes h
  | deleteAccount id reassignTo run floorNow => exact mintDeleteAccount_writes s id reassignTo run _ _
  | createTransaction payload id =>
    refine .after fun l' h => ?_
    obtain ⟨_, h⟩ := map_snd_eq_ok.mp h
    exact createTransaction_writes (hfresh id rfl) h
  | updateTransaction id payload =>
    refine .after fun l' h => ?_
    obtain ⟨_, h⟩ := map_snd_eq_ok.mp h
    exact updateTransaction_writes hs h
  | deleteTransaction id => exact .after fun l' h => deleteTransaction_writes hs h
  | setDefaultCurrency currency => exact .after fun l' h => setDefaultCurrency_writes h

/-! ## Consistency -/

section

variable {P : Parsers} {fresh : RowId → Prop} {l l' : Ledger}

theorem get_reassignTransactions (l : Ledger) (id target : RowId) (now : Stamp) (t : RowId) :
    (reassignTransactions l id target now).transactions[t]? = l.transactions[t]?.map fun row =>
      if row.accountId = id then { row with accountId := target, updatedAt := now } else row := by
  simp [reassignTransactions]

theorem Ledger.NamesUnique.insert (hl : l.NamesUnique) {id : RowId} {row : AccountRow}
    (hfree : ¬l.nameTaken id row.name) :
    { l with accounts := l.accounts.insert id row }.NamesUnique := by
  have hother : ∀ (j : RowId) (b : AccountRow), l.accounts[j]? = some b → b.name = row.name → id = j := by
    intro j b hb hname
    by_contra hne
    exact hfree (Ledger.nameTaken_iff.mpr ⟨j, b, hb, fun h => hne h.symm, hname⟩)
  intro i j a b ha hb hname
  rw [BTreeMap.get_insert] at ha hb
  split_ifs at ha hb with hi hj hj
  · exact hi.symm.trans hj
  · cases ha
    exact hi.symm.trans (hother j b hb hname.symm)
  · cases hb
    exact (hother i a ha hname).symm.trans hj
  · exact hl i j a b ha hb hname

theorem LocalWrite.consistent (h : LocalWrite P fresh l l') (hl : l.Consistent P) :
    l'.Consistent P := by
  -- a row put under an id, among rows that are as they were
  have hput : ∀ (id : RowId) (row : TransactionRow), (∃ a, l.accounts[row.accountId]? = some a) →
      (row.deletedAt = none → row.FieldsValid P) →
      { l with transactions := l.transactions.insert id row }.Consistent P := by
    intro id row haccount hvalid
    refine ⟨hl.names, fun t row' hrow' => ?_, fun t row' hrow' => ?_⟩ <;>
      rw [BTreeMap.get_insert] at hrow' <;> split_ifs at hrow'
    · cases hrow'
      exact haccount
    · exact hl.references t row' hrow'
    · cases hrow'
      exact hvalid
    · exact hl.valid t row' hrow'
  have hname : ∀ (id : RowId) (row : AccountRow), ¬l.nameTaken id row.name →
      { l with accounts := l.accounts.insert id row }.Consistent P := by
    intro id row hfree
    refine ⟨hl.names.insert hfree, fun t row' hrow' => ?_, hl.valid⟩
    obtain ⟨a, ha⟩ := hl.references t row' hrow'
    by_cases hid : id = row'.accountId
    · exact ⟨row, by rw [BTreeMap.get_insert, if_pos hid]⟩
    · exact ⟨a, by rw [BTreeMap.get_insert, if_neg hid, ha]⟩
  have herase : ∀ (id i : RowId) (a : AccountRow), (l.accounts.erase id)[i]? = some a →
      l.accounts[i]? = some a := by
    intro id i a ha
    rw [BTreeMap.get_erase] at ha
    split_ifs at ha
    exact ha
  cases h with
  | nothing => exact hl
  | createAccount id name now _ hfree => exact hname id _ hfree
  | renameAccount id row name now _ hfree => exact hname id _ hfree
  | purge id =>
    refine ⟨fun i j a b ha hb => hl.names i j a b (herase id i a ha) (herase id j b hb),
      fun t row hrow => ?_, fun t row hrow => ?_⟩ <;>
      rw [Ledger.purge, Ledger.get_deleteTransactionsOf, Option.filter_eq_some_iff] at hrow
    · obtain ⟨a, ha⟩ := hl.references t row hrow.1
      refine ⟨a, ?_⟩
      rw [Ledger.purge, BTreeMap.get_erase, if_neg fun h => by simp [h] at hrow, ha]
    · exact hl.valid t row hrow.1
  | reassign id target now hne htarget =>
    refine ⟨fun i j a b ha hb => hl.names i j a b (herase id i a ha) (herase id j b hb),
      fun t row hrow => ?_, fun t row hrow => ?_⟩ <;>
      rw [get_reassignTransactions, Option.map_eq_some_iff] at hrow <;>
      obtain ⟨old, hold, rfl⟩ := hrow
    · split_ifs with hid
      · obtain ⟨a, ha⟩ := htarget
        exact ⟨a, by rw [BTreeMap.get_erase, if_neg hne.symm, ha]⟩
      · obtain ⟨a, ha⟩ := hl.references t old hold
        exact ⟨a, by rw [BTreeMap.get_erase, if_neg fun h => hid h.symm, ha]⟩
    · split_ifs
      · exact hl.valid t old hold
      · exact hl.valid t old hold
  | createTransaction id row _ haccount hvalid => exact hput id row haccount fun _ => hvalid
  | putTransaction id old row _ _ haccount hvalid _ => exact hput id row haccount hvalid
  | setting key row => exact ⟨hl.names, hl.references, hl.valid⟩

variable {now : Option ℕ} {s r s' : MintState}

theorem Merged.get_account (h : Merged P now s r s') {i : RowId} {b : AccountRow} :
    s'.ledger.accounts[i]? = some b ↔ incomingAccount P now s r i = some b ∧
      ¬Falls P now r.accountDeletionFloor[i]? (incomingAccount P now s r i) := by
  rw [h.account]
  split_ifs with hfall <;> simp [hfall]

theorem Merged.get_transaction (h : Merged P now s r s') {t : RowId} {row : TransactionRow} :
    s'.ledger.transactions[t]? = some row ↔ incomingTransaction P now s r t = some row ∧
      ¬Falls P now r.accountDeletionFloor[row.accountId]?
        (incomingAccount P now s r row.accountId) := by
  rw [h.transaction, Option.filter_eq_some_iff]
  simp

theorem Merged.consistent (h : Merged P now s r s')
    (hfree : NamesFree P now s.accountDeletionFloor s.ledger r.ledger) (hs : s.ledger.Consistent P)
    (hr : r.ledger.Consistent P) : s'.ledger.Consistent P := by
  refine ⟨fun i j a b ha hb hname => ?_, fun t row hrow => ?_, fun t row hrow => ?_⟩
  · -- two rows of one ledger differ in their names, and a row written over another
    -- ledger's row has been refused its name
    rcases incomingAccount_eq_some (h.get_account.mp ha).1 with ⟨a', ha', hwa, rfl⟩ | ⟨ha', hnwa⟩ <;>
      rcases incomingAccount_eq_some (h.get_account.mp hb).1 with ⟨b', hb', hwb, rfl⟩ | ⟨hb', hnwb⟩
    · exact hr.names i j a' b' ha' hb' hname
    · by_contra hne
      obtain ⟨-, c, hc, hwc⟩ := hfree i a' ha' hwa j b hb' (fun h => hne h.symm) hname.symm
      exact hnwb c hc hwc
    · by_contra hne
      obtain ⟨-, c, hc, hwc⟩ := hfree j b' hb' hwb i a ha' hne hname
      exact hnwa c hc hwc
    · exact hs.names i j a b ha' hb' hname
  · obtain ⟨hin, hstands⟩ := h.get_transaction.mp hrow
    have hexists : ∃ a, incomingAccount P now s r row.accountId = some a := by
      rcases incomingTransaction_eq_some hin with ⟨row', hrow', hw, rfl⟩ | hheld
      · obtain ⟨a, ha⟩ := hr.references t row' hrow'
        have hskip := hw.1
        rw [Skips, ha] at hskip
        rw [show (row'.bornAs _).accountId = row'.accountId from rfl, incomingAccount, ha]
        exact exists_accountMet (by simpa using hskip)
      · obtain ⟨a, ha⟩ := hs.references t row hheld
        exact exists_incomingAccount ha r
    obtain ⟨a, ha⟩ := hexists
    exact ⟨a, h.get_account.mpr ⟨ha, hstands⟩⟩
  · rcases incomingTransaction_eq_some (h.get_transaction.mp hrow).1 with ⟨row', -, hw, rfl⟩ | hheld
    · exact hw.2.2.1
    · exact hs.valid t row hheld

/-! ## Births -/

structure SameBirths (l m : Ledger) : Prop where
  accounts : ∀ (i : RowId) (a b : AccountRow), l.accounts[i]? = some a → m.accounts[i]? = some b →
    a.createdAt = b.createdAt
  transactions : ∀ (t : RowId) (a b : TransactionRow), l.transactions[t]? = some a →
    m.transactions[t]? = some b → a.createdAt = b.createdAt

theorem SameBirths.refl (l : Ledger) : SameBirths l l := by
  constructor
  · intro i a b ha hb
    rw [Option.some.inj (ha.symm.trans hb)]
  · intro i a b ha hb
    rw [Option.some.inj (ha.symm.trans hb)]

theorem SameBirths.symm {l m : Ledger} (h : SameBirths l m) : SameBirths m l :=
  ⟨fun i a b ha hb => (h.accounts i b a hb ha).symm,
    fun t a b ha hb => (h.transactions t b a hb ha).symm⟩

theorem LocalWrite.sameBirths (h : LocalWrite P fresh l l') {m : Ledger} (hm : SameBirths l m)
    (hfresh : ∀ id, fresh id → m.accounts[id]? = none ∧ m.transactions[id]? = none) :
    SameBirths l' m := by
  have herase : ∀ (id i : RowId) (a b : AccountRow), (l.accounts.erase id)[i]? = some a →
      m.accounts[i]? = some b → a.createdAt = b.createdAt := by
    intro id i a b ha hb
    rw [BTreeMap.get_erase] at ha
    split_ifs at ha
    exact hm.accounts i a b ha hb
  cases h with
  | nothing => exact hm
  | createAccount id name now hid _ =>
    refine ⟨fun i a b ha hb => ?_, hm.transactions⟩
    rw [BTreeMap.get_insert] at ha
    split_ifs at ha with hi
    · subst hi
      rw [(hfresh id hid).1] at hb
      cases hb
    · exact hm.accounts i a b ha hb
  | renameAccount id row name now hrow _ =>
    refine ⟨fun i a b ha hb => ?_, hm.transactions⟩
    rw [BTreeMap.get_insert] at ha
    split_ifs at ha with hi
    · subst hi
      cases ha
      exact hm.accounts id row b hrow hb
    · exact hm.accounts i a b ha hb
  | purge id =>
    refine ⟨herase id, fun t a b ha hb => ?_⟩
    rw [Ledger.purge, Ledger.get_deleteTransactionsOf, Option.filter_eq_some_iff] at ha
    exact hm.transactions t a b ha.1 hb
  | reassign id target now _ _ =>
    refine ⟨herase id, fun t a b ha hb => ?_⟩
    rw [get_reassignTransactions, Option.map_eq_some_iff] at ha
    obtain ⟨old, hold, rfl⟩ := ha
    split_ifs
    · exact hm.transactions t old b hold hb
    · exact hm.transactions t old b hold hb
  | createTransaction id row hid _ _ =>
    refine ⟨hm.accounts, fun t a b ha hb => ?_⟩
    rw [BTreeMap.get_insert] at ha
    split_ifs at ha with hi
    · subst hi
      rw [(hfresh id hid).2] at hb
      cases hb
    · exact hm.transactions t a b ha hb
  | putTransaction id old row hold hborn _ _ _ =>
    refine ⟨hm.accounts, fun t a b ha hb => ?_⟩
    rw [BTreeMap.get_insert] at ha
    split_ifs at ha with hi
    · subst hi
      cases ha
      exact hborn.trans (hm.transactions id old b hold hb)
    · exact hm.transactions t a b ha hb
  | setting key row => exact ⟨hm.accounts, hm.transactions⟩

theorem Merged.sameBirths (h : Merged P now s r s') {m : Ledger} (hs : SameBirths s.ledger m)
    (hr : SameBirths r.ledger m) : SameBirths s'.ledger m := by
  constructor
  · intro i a b ha hb
    rcases incomingAccount_eq_some (h.get_account.mp ha).1 with ⟨a', ha', -, rfl⟩ | ⟨ha', -⟩
    · unfold AccountRow.bornAs
      cases hheld : s.ledger.accounts[i]? with
      | none => exact hr.accounts i a' b ha' hb
      | some c => exact hs.accounts i c b hheld hb
    · exact hs.accounts i a b ha' hb
  · intro t a b ha hb
    rcases incomingTransaction_eq_some (h.get_transaction.mp ha).1 with ⟨a', ha', -, rfl⟩ | ha'
    · unfold TransactionRow.bornAs
      cases hheld : s.ledger.transactions[t]? with
      | none => exact hr.transactions t a' b ha' hb
      | some c => exact hs.transactions t c b hheld hb
    · exact hs.transactions t a b ha' hb

end

/-! ## The fleet -/

/-- The devices, and the states whose snapshots have been published. -/
structure Fleet where
  devices : ℕ → MintState := fun _ => {}
  published : List MintState := []

/-- A state that a device is in or that is on the wire. -/
def Fleet.Holds (w : Fleet) (s : MintState) : Prop := (∃ d, w.devices d = s) ∨ s ∈ w.published

/-- An id that no row of the fleet has, as a new uuid is. -/
def Fleet.Fresh (w : Fleet) (id : RowId) : Prop :=
  ∀ s, w.Holds s → s.ledger.accounts[id]? = none ∧ s.ledger.transactions[id]? = none

def Fleet.put (w : Fleet) (d : ℕ) (s : MintState) : Fleet :=
  { w with devices := Function.update w.devices d s }

/-- A device calls an operation, publishes, or receives a published snapshot, late or
again; a snapshot that cannot be merged changes nothing. -/
inductive Fleet.Step (P : Parsers) (w : Fleet) : Fleet → Prop
  | act (d : ℕ) (now : Stamp) (op : Op) (hfresh : ∀ id ∈ op.newId, w.Fresh id) :
    Step P w (w.put d (op.run P now (w.devices d)))
  | publish (d : ℕ) (capturedAt : Stamp)
    (hdata : snapshotHasNoUserData ((w.devices d).snapshot capturedAt) = false) :
    Step P w { w with published := w.devices d :: w.published }
  | receive (d : ℕ) (r s' : MintState) (capturedAt : Stamp) (now : Option ℕ) (hr : r ∈ w.published)
    (hmerge : handleIncomingDecoded P now (w.devices d) (r.snapshot capturedAt) = .ok s') :
    Step P w (w.put d s')

inductive Fleet.Reachable (P : Parsers) : Fleet → Prop
  | start : Reachable P {}
  | step {w w' : Fleet} (hw : Reachable P w) (h : w.Step P w') : Reachable P w'

/-- Every ledger of the fleet is consistent, and rows of one id were born at one time. -/
structure Fleet.Sound (P : Parsers) (w : Fleet) : Prop where
  consistent : ∀ s, w.Holds s → s.ledger.Consistent P
  births : ∀ s r, w.Holds s → w.Holds r → SameBirths s.ledger r.ledger

theorem applyMigrations_consistent (P : Parsers) : applyMigrations.Consistent P :=
  ⟨fun i j a b ha => by simp [applyMigrations] at ha, fun t row hrow => by simp [applyMigrations] at hrow,
    fun t row hrow => by simp [applyMigrations] at hrow⟩

theorem Fleet.Sound.put {P : Parsers} {w : Fleet} (hw : w.Sound P) (d : ℕ) {s : MintState}
    (hs : s.ledger.Consistent P) (hborn : ∀ r, w.Holds r → SameBirths s.ledger r.ledger) :
    (w.put d s).Sound P := by
  have hold : ∀ r, (w.put d s).Holds r → r = s ∨ w.Holds r := by
    rintro r (⟨e, rfl⟩ | hr)
    · by_cases he : e = d
      · exact Or.inl (by simp [Fleet.put, he])
      · exact Or.inr (Or.inl ⟨e, by simp [Fleet.put, he]⟩)
    · exact Or.inr (Or.inr hr)
  constructor
  · intro r hr
    rcases hold r hr with rfl | hr
    · exact hs
    · exact hw.consistent r hr
  · intro r m hr hm
    rcases hold r hr with hr' | hr' <;> rcases hold m hm with hm' | hm'
    · rw [hr', hm']
      exact SameBirths.refl _
    · rw [hr']
      exact hborn m hm'
    · rw [hm']
      exact (hborn r hr').symm
    · exact hw.births r m hr' hm'

theorem Fleet.Step.sound {P : Parsers} {w w' : Fleet} (h : w.Step P w') (hw : w.Sound P) :
    w'.Sound P := by
  cases h with
  | act d now op hfresh =>
    have hd : w.Holds (w.devices d) := Or.inl ⟨d, rfl⟩
    have hwrites := Op.run_writes (hw.consistent _ hd) now hfresh
    refine hw.put d (hwrites.consistent (hw.consistent _ hd)) fun r hr => ?_
    exact hwrites.sameBirths (hw.births _ r hd hr) fun id hid => hid r hr
  | publish d _ _ =>
    have hold : ∀ r, Fleet.Holds { w with published := w.devices d :: w.published } r → w.Holds r := by
      rintro r (hr | hr)
      · exact Or.inl hr
      · rcases List.mem_cons.mp hr with rfl | hr
        · exact Or.inl ⟨d, rfl⟩
        · exact Or.inr hr
    exact ⟨fun r hr => hw.consistent r (hold r hr),
      fun r m hr hm => hw.births r m (hold r hr) (hold m hm)⟩
  | receive d r s' capturedAt now hr hmerge =>
    have hd : w.Holds (w.devices d) := Or.inl ⟨d, rfl⟩
    have hcr := hw.consistent r (Or.inr hr)
    obtain ⟨hfree, hmerged⟩ := (handleIncomingDecoded_eq_ok hcr capturedAt).mp hmerge
    refine hw.put d (hmerged.consistent hfree (hw.consistent _ hd) hcr) fun m hm => ?_
    exact hmerged.sameBirths (hw.births _ m hd hm) (hw.births r m (Or.inr hr) hm)

/-- In every run of the fleet. -/
theorem Fleet.Reachable.sound {P : Parsers} {w : Fleet} (h : Fleet.Reachable P w) : w.Sound P := by
  induction h with
  | start =>
    have hall : ∀ s, Fleet.Holds {} s → s.ledger = applyMigrations := by
      rintro s (⟨_, rfl⟩ | hs)
      · rfl
      · simp at hs
    constructor
    · intro s hs
      rw [hall s hs]
      exact applyMigrations_consistent P
    · intro s r hs hr
      rw [hall s hs, hall r hr]
      exact SameBirths.refl _
  | step _ hstep ih => exact hstep.sound ih

end Harmony.Mint
