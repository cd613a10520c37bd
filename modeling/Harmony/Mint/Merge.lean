import Harmony.Lib.Register
import Harmony.Mint.Sync

/-! What a merge leaves in each table at each key, and when it goes through. Every
loop is a test at each turn followed by a step; the steps are described key by
key. -/

namespace Harmony.Mint

open Harmony.Lib

/-- A deletion floor covers a stamp. -/
def Covers (floor : Option Stamp) (stamp : Stamp) : Prop := ∃ ts, floor = some ts ∧ stamp ≤ ts

instance (floor : Option Stamp) (stamp : Stamp) : Decidable (Covers floor stamp) :=
  match floor with
  | none => isFalse (by rintro ⟨ts, h, -⟩; cases h)
  | some ts => decidable_of_iff (stamp ≤ ts)
    ⟨fun h => ⟨ts, rfl, h⟩, by rintro ⟨_, h, hle⟩; cases h; exact hle⟩

@[simp] theorem not_covers_none (stamp : Stamp) : ¬Covers none stamp := by
  rintro ⟨ts, h, -⟩
  cases h

@[simp] theorem covers_some {ts stamp : Stamp} : Covers (some ts) stamp ↔ stamp ≤ ts := by
  simp [Covers]

theorem any_le_iff_covers (floor : Option Stamp) (stamp : Stamp) :
    (floor.any fun ts => decide (stamp ≤ ts)) = true ↔ Covers floor stamp := by
  cases floor <;> simp

section

variable (P : Parsers) (now : Option ℕ)

/-- The stamp is dropped at ingest. -/
def Rejects (stamp : Stamp) : Prop := rejectRfc3339Future P stamp now maxForwardSkewMs = true

instance (stamp : Stamp) : Decidable (Rejects P now stamp) :=
  inferInstanceAs (Decidable (_ = true))

theorem rejects_iff (stamp : Stamp) :
    rejectRfc3339Future P stamp now maxForwardSkewMs = true ↔ Rejects P now stamp := ⟨id, id⟩

/-! ## Accounts -/

/-- The incoming account row is written over what is held. -/
def AccountWritten (floor : Option Stamp) (held : Option AccountRow) (r : AccountRow) : Prop :=
  ¬Rejects P now r.updatedAt ∧ ¬Covers floor r.updatedAt ∧
    ∀ a ∈ held, a.updatedAt < r.updatedAt

instance (floor : Option Stamp) (held : Option AccountRow) (r : AccountRow) :
    Decidable (AccountWritten P now floor held r) :=
  inferInstanceAs (Decidable (_ ∧ _ ∧ _))

/-- A row keeps the birth that it was inserted with. -/
def AccountRow.bornAs (r : AccountRow) (held : Option AccountRow) : AccountRow :=
  { r with createdAt := held.elim r.createdAt AccountRow.createdAt }

/-- The row under an id after the incoming one. -/
def accountMet (floor : Option Stamp) (held : Option AccountRow) (r : AccountRow) :
    Option AccountRow :=
  if AccountWritten P now floor held r then some (r.bornAs held) else held

/-- The transactions of the incoming account are skipped. -/
def AccountSkipped (floor : Option Stamp) (held : Option AccountRow) (r : AccountRow) : Prop :=
  if Rejects P now r.updatedAt then held = none else Covers floor r.updatedAt

instance (floor : Option Stamp) (held : Option AccountRow) (r : AccountRow) :
    Decidable (AccountSkipped P now floor held r) :=
  inferInstanceAs (Decidable (if Rejects P now r.updatedAt then held = none
    else Covers floor r.updatedAt))

def Ledger.meetAccount (floor : Option Stamp) (l : Ledger) (id : RowId) (r : AccountRow) : Ledger :=
  { l with accounts := l.accounts.alter id fun held => accountMet P now floor held r }

theorem Ledger.meetAccount_of_not_written {floor : Option Stamp} {l : Ledger} {id : RowId}
    {r : AccountRow} (h : ¬AccountWritten P now floor l.accounts[id]? r) :
    l.meetAccount P now floor id r = l := by
  rw [Ledger.meetAccount, BTreeMap.alter_eq_self _ (by rw [accountMet, if_neg h])]

theorem Ledger.meetAccount_of_written {floor : Option Stamp} {l : Ledger} {id : RowId}
    {r : AccountRow} (h : AccountWritten P now floor l.accounts[id]? r) :
    l.meetAccount P now floor id r = 
      { l with accounts := l.accounts.insert id (r.bornAs l.accounts[id]?) } := by
  rw [Ledger.meetAccount, BTreeMap.alter_eq_insert _ (by rw [accountMet, if_pos h])]

/-- What the upsert of an account reports. -/
def accountOutcome (floor : Option Stamp) (held : Option AccountRow) (r : AccountRow) :
    UpsertOutcome :=
  if Rejects P now r.updatedAt then
    if held.isSome then .applied else .rejectedNoLocalAccount
  else if Covers floor r.updatedAt then .suppressed
  else .applied

theorem upsertAccountLww_eq_ok (floor : BTreeMap RowId Stamp) (l : Ledger) (id : RowId)
    (r : AccountRow) (s : UpsertOutcome × Ledger) :
    upsertAccountLww P now floor l id r = .ok s ↔
      (AccountWritten P now floor[id]? l.accounts[id]? r → ¬l.nameTaken id r.name) ∧
        (accountOutcome P now floor[id]? l.accounts[id]? r,
          l.meetAccount P now floor[id]? id r) = s := by
  simp only [upsertAccountLww, any_le_iff_covers, rejects_iff, accountOutcome]
  by_cases hw : AccountWritten P now floor[id]? l.accounts[id]? r
  · rw [if_neg hw.1, if_neg hw.1, if_neg hw.2.1, if_neg hw.2.1, Ledger.meetAccount_of_written P now hw]
    cases hid : l.accounts[id]? with
    | none => simp [Ledger.insertAccount_eq_ok, hid ▸ hw, hid, AccountRow.bornAs, -exists_and_left]
    | some a =>
      have hlt : a.updatedAt < r.updatedAt := hw.2.2 a hid
      simp [Ledger.updateAccount_eq_ok, hid, hlt, hid ▸ hw, AccountRow.bornAs]
  · rw [Ledger.meetAccount_of_not_written P now hw]
    by_cases hrej : Rejects P now r.updatedAt
    · rw [if_pos hrej, if_pos hrej]
      cases hid : l.accounts[id]? with
      | none => simp [hid ▸ hw, (Ledger.contains_eq_false_iff _ _).mpr hid]
      | some a => simp [hid ▸ hw, (Ledger.contains_iff _ _).mpr ⟨a, hid⟩]
    · rw [if_neg hrej, if_neg hrej]
      by_cases hcov : Covers floor[id]? r.updatedAt
      · simp [hcov, hw]
      · cases hid : l.accounts[id]? with
        | none => exact absurd ⟨hrej, hcov, by simp [hid]⟩ hw
        | some a =>
          have hge : ¬a.updatedAt < r.updatedAt := fun hlt =>
            hw ⟨hrej, hcov, fun b hb => by rw [hid] at hb; cases hb; exact hlt⟩
          simp [hcov, hge, hid ▸ hw]

theorem accountOutcome_eq_applied_iff (floor : Option Stamp) (held : Option AccountRow)
    (r : AccountRow) :
    accountOutcome P now floor held r = .applied ↔ ¬AccountSkipped P now floor held r := by
  unfold accountOutcome AccountSkipped
  by_cases hrej : Rejects P now r.updatedAt
  · cases held <;> simp [hrej]
  · by_cases hcov : Covers floor r.updatedAt <;> simp [hrej, hcov]

/-- The step of the account loop, without its test. -/
def accountStep (floor : BTreeMap RowId Stamp) (s : Finset RowId × Ledger) (p : RowId × AccountRow) :
    Finset RowId × Ledger :=
  (if AccountSkipped P now floor[p.1]? s.2.accounts[p.1]? p.2 then insert p.1 s.1 else s.1,
    s.2.meetAccount P now floor[p.1]? p.1 p.2)

theorem mergeAccount_eq_ok (floor : BTreeMap RowId Stamp) (s : Finset RowId × Ledger)
    (p : RowId × AccountRow) (s' : Finset RowId × Ledger) :
    mergeAccount P now floor s p = .ok s' ↔
      (AccountWritten P now floor[p.1]? s.2.accounts[p.1]? p.2 → ¬s.2.nameTaken p.1 p.2.name) ∧
        accountStep P now floor s p = s' := by
  simp only [mergeAccount, bind_eq_ok, upsertAccountLww_eq_ok, accountStep]
  have happlied := accountOutcome_eq_applied_iff P now floor[p.1]? s.2.accounts[p.1]? p.2
  constructor
  · rintro ⟨_, ⟨hfree, rfl⟩, hs⟩
    refine ⟨hfree, ?_⟩
    cases ho : accountOutcome P now floor[p.1]? s.2.accounts[p.1]? p.2 <;>
      simp_all [pure_eq_ok]
  · rintro ⟨hfree, rfl⟩
    refine ⟨_, ⟨hfree, rfl⟩, ?_⟩
    cases ho : accountOutcome P now floor[p.1]? s.2.accounts[p.1]? p.2 <;>
      simp_all [pure_eq_ok]

/-- What is seen of the account loop at an id: whether its transactions are skipped, and
its row. -/
def accountView (s : Finset RowId × Ledger) (i : RowId) : Bool × Option AccountRow :=
  (decide (i ∈ s.1), s.2.accounts[i]?)

theorem accountView_step (floor : BTreeMap RowId Stamp) (s : Finset RowId × Ledger)
    (p : RowId × AccountRow) (i : RowId) :
    accountView (accountStep P now floor s p) i =
      if p.1 = i then
        (decide (AccountSkipped P now floor[p.1]? (accountView s i).2 p.2) || (accountView s i).1,
          accountMet P now floor[p.1]? (accountView s i).2 p.2)
      else accountView s i := by
  unfold accountView accountStep
  by_cases hi : p.1 = i
  · subst hi
    by_cases hs : AccountSkipped P now floor[p.1]? s.2.accounts[p.1]? p.2 <;>
      simp [hs, Ledger.meetAccount]
  · have hne : ¬i = p.1 := fun h => hi h.symm
    by_cases hs : AccountSkipped P now floor[p.1]? s.2.accounts[p.1]? p.2 <;>
      simp [hs, hi, hne, Ledger.meetAccount, BTreeMap.get_alter]

theorem accountView_foldl (floor : BTreeMap RowId Stamp) {l : List (RowId × AccountRow)}
    (hnd : (l.map Prod.fst).Nodup) (s : Finset RowId × Ledger) (i : RowId) :
    accountView (l.foldl (accountStep P now floor) s) i =
      (l.find? fun p => p.1 = i).elim (accountView s i) fun p =>
        (decide (AccountSkipped P now floor[p.1]? (accountView s i).2 p.2) || (accountView s i).1,
          accountMet P now floor[p.1]? (accountView s i).2 p.2) :=
  foldl_view (P := fun _ => True) Prod.fst accountView (accountStep P now floor)
    (f := fun p w => (decide (AccountSkipped P now floor[p.1]? w.2 p.2) || w.1,
      accountMet P now floor[p.1]? w.2 p.2)) hnd (fun _ _ _ _ => trivial)
    (fun s _ p _ a => accountView_step P now floor s p a) trivial i

/-- What the account loop over another ledger's accounts leaves at an id. -/
theorem accountView_loop (floor : BTreeMap RowId Stamp) (l r : Ledger) (i : RowId) :
    accountView (r.accounts.toList.foldl (accountStep P now floor) (∅, l)) i =
      r.accounts[i]?.elim (false, l.accounts[i]?) fun a =>
        (decide (AccountSkipped P now floor[i]? l.accounts[i]? a),
          accountMet P now floor[i]? l.accounts[i]? a) := by
  rw [accountView_foldl P now floor (nodup_keys_toList _), find?_toList_key]
  cases r.accounts[i]? <;> simp [accountView]

/-- No row that the snapshot writes takes the name of another local account, unless that
account has been renamed by the snapshot when the row is written. -/
def NamesFree (floor : BTreeMap RowId Stamp) (l r : Ledger) : Prop :=
  ∀ (i : RowId) (a : AccountRow), r.accounts[i]? = some a →
    AccountWritten P now floor[i]? l.accounts[i]? a →
    ∀ (j : RowId) (b : AccountRow), l.accounts[j]? = some b → j ≠ i → b.name = a.name →
      j < i ∧ ∃ c, r.accounts[j]? = some c ∧ AccountWritten P now floor[j]? l.accounts[j]? c

/-- No two accounts of a ledger have one name. -/
def Ledger.NamesUnique (l : Ledger) : Prop :=
  ∀ (i j : RowId) (a b : AccountRow), l.accounts[i]? = some a → l.accounts[j]? = some b →
    a.name = b.name → i = j

theorem pairwise_lt_keys {υ : Type} (t : BTreeMap RowId υ) :
    t.toList.Pairwise fun p q => p.1 < q.1 := by
  refine Std.ExtTreeMap.ordered_keys_toList.imp fun {p q} h => ?_
  exact compare_lt_iff_lt.mp h

theorem mem_pre_iff {υ : Type} {t : BTreeMap RowId υ} {pre post : List (RowId × υ)}
    {p : RowId × υ} (h : t.toList = pre ++ p :: post) (q : RowId × υ) :
    q ∈ pre ↔ t[q.1]? = some q.2 ∧ q.1 < p.1 := by
  have hsorted := pairwise_lt_keys t
  rw [h, List.pairwise_append, List.pairwise_cons] at hsorted
  rw [← mem_toList_iff, h, List.mem_append, List.mem_cons]
  constructor
  · intro hq
    exact ⟨Or.inl hq, hsorted.2.2 q hq p List.mem_cons_self⟩
  · rintro ⟨hq | rfl | hq, hlt⟩
    · exact hq
    · exact absurd hlt (lt_irrefl _)
    · exact absurd hlt (hsorted.2.1.1 q hq).asymm

/-- The account that the loop has under an id when it comes to a row. -/
theorem get_accounts_pre (floor : BTreeMap RowId Stamp) (l : Ledger) {r : Ledger}
    {pre post : List (RowId × AccountRow)} {p : RowId × AccountRow}
    (h : r.accounts.toList = pre ++ p :: post) (j : RowId) :
    (pre.foldl (accountStep P now floor) (∅, l)).2.accounts[j]? =
      if j < p.1 then r.accounts[j]?.elim l.accounts[j]? (accountMet P now floor[j]? l.accounts[j]?)
      else l.accounts[j]? := by
  have hnd := nodup_keys_toList r.accounts
  rw [h, List.map_append, List.nodup_append] at hnd
  have hfind : (pre.find? fun q => q.1 = j) =
      if j < p.1 then r.accounts[j]?.map fun a => (j, a) else none := by
    refine Option.ext fun q => ?_
    rw [find?_key_eq_some_iff hnd.1, mem_pre_iff h]
    constructor
    · rintro ⟨⟨hq, hlt⟩, rfl⟩
      rw [if_pos hlt, hq, Option.map_some]
    · intro hq
      split_ifs at hq with hlt
      · obtain ⟨a, ha, rfl⟩ := Option.map_eq_some_iff.mp hq
        exact ⟨⟨ha, hlt⟩, rfl⟩
  have hview := congrArg Prod.snd (accountView_foldl P now floor hnd.1 (∅, l) j)
  rw [hfind] at hview
  refine hview.trans ?_
  split_ifs with hlt
  · cases r.accounts[j]? <;> rfl
  · rfl

theorem accountLoop_passes_iff {floor : BTreeMap RowId Stamp} {l r : Ledger} (hr : r.NamesUnique) :
    (∀ pre p post, r.accounts.toList = pre ++ p :: post →
      let s := pre.foldl (accountStep P now floor) (∅, l)
      AccountWritten P now floor[p.1]? s.2.accounts[p.1]? p.2 → ¬s.2.nameTaken p.1 p.2.name) ↔
      NamesFree P now floor l r := by
  constructor
  · intro hall i a ha hw j b hb hne hname
    obtain ⟨pre, post, hsplit⟩ := List.append_of_mem (mem_toList_iff (p := (i, a)).mpr ha)
    have hget := get_accounts_pre P now floor l hsplit
    have hfree := hall pre (i, a) post hsplit
      (by rw [hget, if_neg (lt_irrefl i)]; exact hw)
    by_contra hcon
    refine hfree (Ledger.nameTaken_iff.mpr ⟨j, b, ?_, hne, hname⟩)
    rw [hget]
    split_ifs with hlt
    · cases hc : r.accounts[j]? with
      | none => exact hb
      | some c => rw [Option.elim_some, accountMet, if_neg fun hw' => hcon ⟨hlt, c, hc, hw'⟩, hb]
    · exact hb
  · intro hfree pre p post hsplit s hw htaken
    have hget := get_accounts_pre P now floor l hsplit
    have hp : r.accounts[p.1]? = some p.2 := mem_toList_iff.mp (by rw [hsplit]; simp)
    rw [hget, if_neg (lt_irrefl _)] at hw
    obtain ⟨j, b, hb, hne, hname⟩ := Ledger.nameTaken_iff.mp htaken
    rw [hget] at hb
    -- a local row that is still there is refused by the hypothesis
    have hlocal : l.accounts[j]? = some b →
        j < p.1 ∧ ∃ c, r.accounts[j]? = some c ∧ AccountWritten P now floor[j]? l.accounts[j]? c :=
      fun hl => hfree p.1 p.2 hp hw j b hl hne hname
    split_ifs at hb with hlt
    · cases hc : r.accounts[j]? with
      | none =>
        rw [hc] at hb
        obtain ⟨-, c, hc', -⟩ := hlocal hb
        rw [hc] at hc'
        cases hc'
      | some c =>
        rw [hc, Option.elim_some, accountMet] at hb
        split_ifs at hb with hw'
        · obtain rfl := Option.some.inj hb
          exact hne (hr j p.1 c p.2 hc hp hname)
        · obtain ⟨-, c', hc', hw''⟩ := hlocal hb
          rw [hc, Option.some.injEq] at hc'
          exact hw' (hc' ▸ hw'')
    · exact hlt (hlocal hb).1

/-! ## Transactions -/

instance (row : TransactionRow) : Decidable (row.FieldsValid P) :=
  decidable_of_iff ((validateTransactionFields P row.transactionDate row.amount row.currency
    row.description row.metadata).isOk = true) (by
      unfold TransactionRow.FieldsValid
      generalize validateTransactionFields P _ _ _ _ _ = result
      cases result <;> simp [Except.isOk, Except.toBool])

/-- The incoming transaction row is written over what is held. -/
def TransactionWritten (skipped : Prop) (held : Option TransactionRow) (r : TransactionRow) : Prop :=
  ¬skipped ∧ ¬Rejects P now r.updatedAt ∧ (r.deletedAt = none → r.FieldsValid P) ∧
    ∀ a ∈ held, a.updatedAt < r.updatedAt

instance (skipped : Prop) [Decidable skipped] (held : Option TransactionRow) (r : TransactionRow) :
    Decidable (TransactionWritten P now skipped held r) :=
  inferInstanceAs (Decidable (_ ∧ _ ∧ _ ∧ _))

def TransactionRow.bornAs (r : TransactionRow) (held : Option TransactionRow) : TransactionRow :=
  { r with createdAt := held.elim r.createdAt TransactionRow.createdAt }

/-- The row under an id after the incoming one. -/
def transactionMet (skipped : Prop) [Decidable skipped] (held : Option TransactionRow)
    (r : TransactionRow) : Option TransactionRow :=
  if TransactionWritten P now skipped held r then some (r.bornAs held) else held

/-- The step of the transaction loop, without its test. -/
def transactionStep (suppressed : Finset RowId) (l : Ledger) (p : RowId × TransactionRow) : Ledger :=
  { l with transactions := l.transactions.alter p.1 fun held =>
      transactionMet P now (p.2.accountId ∈ suppressed) held p.2 }

theorem isNone_and_not_isOk_iff (r : TransactionRow) :
    (r.deletedAt.isNone ∧ ¬(validateTransactionFields P r.transactionDate r.amount r.currency
      r.description r.metadata).isOk) ↔ ¬(r.deletedAt = none → r.FieldsValid P) := by
  rw [Option.isNone_iff_eq_none, Classical.not_imp, TransactionRow.FieldsValid]
  generalize validateTransactionFields P _ _ _ _ _ = result
  cases result <;> simp [Except.isOk, Except.toBool]

theorem mergeTransaction_eq_ok (suppressed : Finset RowId) (l : Ledger) (p : RowId × TransactionRow)
    (l' : Ledger) :
    mergeTransaction P now suppressed l p = .ok l' ↔
      (TransactionWritten P now (p.2.accountId ∈ suppressed) l.transactions[p.1]? p.2 →
        ∃ a, l.accounts[p.2.accountId]? = some a) ∧ transactionStep P now suppressed l p = l' := by
  obtain ⟨id, r⟩ := p
  simp only [mergeTransaction, upsertTransactionLww, rejects_iff, isNone_and_not_isOk_iff,
    transactionStep]
  by_cases hw : TransactionWritten P now (r.accountId ∈ suppressed) l.transactions[id]? r
  · rw [BTreeMap.alter_eq_insert _ (by rw [transactionMet, if_pos hw]), if_neg hw.1, if_neg hw.2.1,
      if_neg (not_not.mpr hw.2.2.1)]
    cases hid : l.transactions[id]? with
    | none => simp [Ledger.insertTransaction_eq_ok, hid ▸ hw, hid, TransactionRow.bornAs]
    | some a =>
      have hlt : a.updatedAt < r.updatedAt := hw.2.2.2 a hid
      simp [Ledger.updateTransactionRow_eq_ok, hlt, hid ▸ hw, TransactionRow.bornAs]
  · rw [BTreeMap.alter_eq_self _ (by rw [transactionMet, if_neg hw])]
    by_cases hskip : r.accountId ∈ suppressed
    · rw [if_pos hskip]
      simp [hw]
    by_cases hrej : Rejects P now r.updatedAt
    · rw [if_neg hskip, if_pos hrej]
      simp [hw]
    by_cases hvalid : r.deletedAt = none → r.FieldsValid P
    · rw [if_neg hskip, if_neg hrej, if_neg (not_not.mpr hvalid)]
      cases hid : l.transactions[id]? with
      | none => exact absurd ⟨hskip, hrej, hvalid, by simp [hid]⟩ hw
      | some a =>
        have hge : ¬a.updatedAt < r.updatedAt := fun hlt =>
          hw ⟨hskip, hrej, hvalid, fun b hb => by rw [hid] at hb; cases hb; exact hlt⟩
        simp [hge, hid ▸ hw]
    · rw [if_neg hskip, if_neg hrej, if_pos hvalid]
      simp [hw]

theorem get_transactionStep (suppressed : Finset RowId) (l : Ledger) (p : RowId × TransactionRow)
    (t : RowId) :
    (transactionStep P now suppressed l p).transactions[t]? =
      if p.1 = t then transactionMet P now (p.2.accountId ∈ suppressed) l.transactions[t]? p.2
      else l.transactions[t]? := by
  rw [transactionStep, BTreeMap.get_alter]

theorem get_transactionLoop (suppressed : Finset RowId) (l r : Ledger) (t : RowId) :
    (r.transactions.toList.foldl (transactionStep P now suppressed) l).transactions[t]? =
      r.transactions[t]?.elim l.transactions[t]? fun row =>
        transactionMet P now (row.accountId ∈ suppressed) l.transactions[t]? row := by
  rw [foldl_view (P := fun _ => True) Prod.fst (fun l t => l.transactions[t]?)
    (transactionStep P now suppressed)
    (f := fun p w => transactionMet P now (p.2.accountId ∈ suppressed) w p.2)
    (nodup_keys_toList _) (fun _ _ _ _ => trivial)
    (fun l _ p _ t => get_transactionStep P now suppressed l p t) trivial, find?_toList_key]
  cases r.transactions[t]? <;> rfl

@[simp] theorem accounts_transactionLoop (suppressed : Finset RowId)
    (rows : List (RowId × TransactionRow)) (l : Ledger) :
    (rows.foldl (transactionStep P now suppressed) l).accounts = l.accounts := by
  induction rows generalizing l with
  | nil => rfl
  | cons p rows ih => exact ih _

@[simp] theorem settings_transactionLoop (suppressed : Finset RowId)
    (rows : List (RowId × TransactionRow)) (l : Ledger) :
    (rows.foldl (transactionStep P now suppressed) l).settings = l.settings := by
  induction rows generalizing l with
  | nil => rfl
  | cons p rows ih => exact ih _

/-! ## Settings -/

/-- The setting under a key after the incoming one. -/
def settingMet (held : Option SettingRow) (r : SettingRow) : Option SettingRow :=
  if ¬Rejects P now r.updatedAt ∧ ∀ a ∈ held, a.updatedAt < r.updatedAt then some r else held

theorem upsertSettingLww_eq (l : Ledger) (key : String) (r : SettingRow) :
    upsertSettingLww P now l key r =
      { l with settings := l.settings.alter key fun held => settingMet P now held r } := by
  simp only [upsertSettingLww, rejects_iff]
  by_cases hw : ¬Rejects P now r.updatedAt ∧ ∀ a ∈ l.settings[key]?, a.updatedAt < r.updatedAt
  · rw [BTreeMap.alter_eq_insert _ (by rw [settingMet, if_pos hw]), if_neg hw.1]
    cases hkey : l.settings[key]? with
    | none => rfl
    | some a => exact if_pos (hw.2 a hkey)
  · rw [BTreeMap.alter_eq_self _ (by rw [settingMet, if_neg hw])]
    by_cases hrej : Rejects P now r.updatedAt
    · rw [if_pos hrej]
    · rw [if_neg hrej]
      cases hkey : l.settings[key]? with
      | none => exact absurd ⟨hrej, by simp [hkey]⟩ hw
      | some a =>
        refine if_neg fun hlt => hw ⟨hrej, fun b hb => ?_⟩
        rw [hkey] at hb
        cases hb
        exact hlt

theorem settingLoop_spec (l r : Ledger) :
    let l' := r.settings.toList.foldl (fun l p => upsertSettingLww P now l p.1 p.2) l
    l'.accounts = l.accounts ∧ l'.transactions = l.transactions ∧ ∀ k : String,
      l'.settings[k]? = r.settings[k]?.elim l.settings[k]? (settingMet P now l.settings[k]?) := by
  intro l'
  have hframe : l'.accounts = l.accounts ∧ l'.transactions = l.transactions := by
    refine List.foldlRecOn (motive := fun m : Ledger => m.accounts = l.accounts ∧
      m.transactions = l.transactions) _ _ ⟨rfl, rfl⟩ fun m hm p _ => ?_
    rw [upsertSettingLww_eq]
    exact hm
  refine ⟨hframe.1, hframe.2, fun k => ?_⟩
  have hview := foldl_view (P := fun _ => True) Prod.fst (fun (l : Ledger) (k : String) => l.settings[k]?)
    (fun l p => upsertSettingLww P now l p.1 p.2) (f := fun p w => settingMet P now w p.2)
    (nodup_keys_toList r.settings) (fun _ _ _ _ => trivial)
    (fun l _ p _ k => by rw [upsertSettingLww_eq, BTreeMap.get_alter]) (s := l) trivial k
  rw [hview, find?_toList_key]
  cases r.settings[k]? <;> rfl

/-! ## The deletion floor -/

/-- The incoming floor entry deletes the account. -/
def Falls (floor : Option Stamp) (held : Option AccountRow) : Prop :=
  ∃ ts, floor = some ts ∧ ¬Rejects P now ts ∧ ∃ a, held = some a ∧ a.updatedAt ≤ ts

instance (floor : Option Stamp) (held : Option AccountRow) : Decidable (Falls P now floor held) :=
  match floor, held with
  | some ts, some a => decidable_of_iff (¬Rejects P now ts ∧ a.updatedAt ≤ ts) (by simp [Falls])
  | none, _ => isFalse (by rintro ⟨_, h, -⟩; cases h)
  | some _, none => isFalse (by rintro ⟨_, -, -, _, h, -⟩; cases h)

/-- An account goes with its transactions. -/
def Ledger.purge (l : Ledger) (id : RowId) : Ledger :=
  { l.deleteTransactionsOf id with accounts := l.accounts.erase id }

theorem deleteAccountRow_deleteTransactionsOf (l : Ledger) (id : RowId) :
    (l.deleteTransactionsOf id).deleteAccountRow id = .ok (l.purge id) := by
  rw [Ledger.deleteAccountRow_eq_ok]
  refine ⟨fun t row hrow => ?_, rfl⟩
  rw [Ledger.get_deleteTransactionsOf, Option.filter_eq_some_iff] at hrow
  simpa using hrow.2

def floorStep (s : BTreeMap RowId Stamp × Ledger) (p : RowId × Stamp) : BTreeMap RowId Stamp × Ledger :=
  if Rejects P now p.2 then s
  else (s.1.insert p.1 p.2,
    if Falls P now (some p.2) s.2.accounts[p.1]? then s.2.purge p.1 else s.2)

theorem applyFloorEntry_eq (s : BTreeMap RowId Stamp × Ledger) (p : RowId × Stamp) :
    applyFloorEntry P now s p = .ok (floorStep P now s p) := by
  simp only [applyFloorEntry, rejects_iff, floorStep]
  by_cases hrej : Rejects P now p.2
  · rw [if_pos hrej, if_pos hrej]
  · rw [if_neg hrej, if_neg hrej]
    cases hid : s.2.accounts[p.1]? with
    | none => simp [Falls, bind, Except.bind, pure, Except.pure]
    | some a =>
      by_cases hle : a.updatedAt ≤ p.2 <;>
        simp [Falls, hrej, hle, deleteAccountRow_deleteTransactionsOf, bind, Except.bind, pure,
          Except.pure]

/-- What is seen of the floor loop at an account: the entry to merge, the account and its
transactions. -/
def floorView (s : BTreeMap RowId Stamp × Ledger) (i : RowId) :
    Option Stamp × Option AccountRow × (RowId → Option TransactionRow) :=
  (s.1[i]?, s.2.accounts[i]?, fun t => s.2.transactions[t]?.filter fun row => row.accountId = i)

/-- The view at an account after a floor entry for it. -/
def floorMet (ts : Stamp) (w : Option Stamp × Option AccountRow × (RowId → Option TransactionRow)) :
    Option Stamp × Option AccountRow × (RowId → Option TransactionRow) :=
  if Rejects P now ts then w
  else (some ts, if Falls P now (some ts) w.2.1 then (none, fun _ => none) else w.2)

theorem filter_filter_ne {row : Option TransactionRow} {i j : RowId} (h : j ≠ i) :
    ((row.filter fun row => row.accountId ≠ j).filter fun row => row.accountId = i) =
      row.filter fun row => row.accountId = i := by
  cases row with
  | none => rfl
  | some row =>
    by_cases hi : row.accountId = i
    · simp [Option.filter_some, hi, h.symm]
    · by_cases hj : row.accountId = j <;> simp [Option.filter_some, hi, hj, h]

theorem filter_filter_self {row : Option TransactionRow} {i : RowId} :
    ((row.filter fun row => row.accountId ≠ i).filter fun row => row.accountId = i) = none := by
  cases row with
  | none => rfl
  | some row => by_cases hi : row.accountId = i <;> simp [Option.filter_some, hi]

theorem floorView_step (s : BTreeMap RowId Stamp × Ledger) (p : RowId × Stamp) (i : RowId) :
    floorView (floorStep P now s p) i =
      if p.1 = i then floorMet P now p.2 (floorView s i) else floorView s i := by
  unfold floorView floorStep floorMet
  by_cases hrej : Rejects P now p.2
  · simp [hrej]
  · rw [if_neg hrej, if_neg hrej]
    by_cases hi : p.1 = i
    · subst hi
      by_cases hfall : Falls P now (some p.2) s.2.accounts[p.1]?
      · simp only [if_pos hfall, Ledger.purge, Ledger.get_deleteTransactionsOf, filter_filter_self,
          BTreeMap.get_erase, BTreeMap.get_insert, if_true]
      · simp [hfall]
    · by_cases hfall : Falls P now (some p.2) s.2.accounts[p.1]?
      · simp only [if_pos hfall, Ledger.purge, Ledger.get_deleteTransactionsOf, filter_filter_ne hi,
          BTreeMap.get_erase, BTreeMap.get_insert, if_neg hi]
      · simp [hfall, hi, BTreeMap.get_insert]

theorem floorView_loop (floor : BTreeMap RowId Stamp) (l : Ledger) (i : RowId) :
    floorView (floor.toList.foldl (floorStep P now) (∅, l)) i =
      floor[i]?.elim (floorView (∅, l) i) fun ts => floorMet P now ts (floorView (∅, l) i) := by
  rw [foldl_view (P := fun _ => True) Prod.fst floorView (floorStep P now)
    (f := fun p w => floorMet P now p.2 w) (nodup_keys_toList _) (fun _ _ _ _ => trivial)
    (fun s _ p _ i => floorView_step P now s p i) trivial, find?_toList_key]
  cases floor[i]? <;> rfl

theorem settings_floorLoop (entries : List (RowId × Stamp)) (s : BTreeMap RowId Stamp × Ledger) :
    (entries.foldl (floorStep P now) s).2.settings = s.2.settings := by
  refine List.foldlRecOn (motive := fun m : BTreeMap RowId Stamp × Ledger =>
    m.2.settings = s.2.settings) entries _ rfl fun m hm p _ => ?_
  unfold floorStep
  split_ifs
  · exact hm
  · exact hm
  · exact hm

theorem floorMet_snd (ts : Stamp)
    (w : Option Stamp × Option AccountRow × (RowId → Option TransactionRow)) :
    (floorMet P now ts w).2 = if Falls P now (some ts) w.2.1 then (none, fun _ => none) else w.2 := by
  unfold floorMet
  by_cases hrej : Rejects P now ts
  · have hnot : ¬Falls P now (some ts) w.2.1 := by
      rintro ⟨_, h, hok, -⟩
      cases h
      exact hok hrej
    rw [if_pos hrej, if_neg hnot]
  · rw [if_neg hrej]

theorem floorView_loop_snd (floor : BTreeMap RowId Stamp) (l : Ledger) (i : RowId) :
    (floorView (floor.toList.foldl (floorStep P now) (∅, l)) i).2 =
      if Falls P now floor[i]? l.accounts[i]? then (none, fun _ => none)
      else (floorView (∅, l) i).2 := by
  rw [floorView_loop]
  cases floor[i]? with
  | none =>
    have hnot : ¬Falls P now none l.accounts[i]? := by
      rintro ⟨_, h, -⟩
      cases h
    rw [if_neg hnot, Option.elim_none]
  | some ts => rw [Option.elim_some, floorMet_snd]; rfl

theorem floorLoop_spec (floor : BTreeMap RowId Stamp) (l : Ledger) :
    let s := floor.toList.foldl (floorStep P now) (∅, l)
    (∀ i : RowId, s.1[i]? = floor[i]?.filter fun ts => ¬Rejects P now ts) ∧
      (∀ i : RowId, s.2.accounts[i]? =
        if Falls P now floor[i]? l.accounts[i]? then none else l.accounts[i]?) ∧
      (∀ t : RowId, s.2.transactions[t]? = l.transactions[t]?.filter fun row =>
        ¬Falls P now floor[row.accountId]? l.accounts[row.accountId]?) ∧
      s.2.settings = l.settings := by
  intro s
  refine ⟨fun i => ?_, fun i => ?_, fun t => ?_, settings_floorLoop P now _ _⟩
  · have hview := congrArg Prod.fst (floorView_loop P now floor l i)
    refine hview.trans ?_
    cases floor[i]? with
    | none => simp [floorView]
    | some ts =>
      by_cases hrej : Rejects P now ts <;> simp [floorMet, floorView, hrej, Option.filter_some]
  · have hview := congrArg Prod.fst (floorView_loop_snd P now floor l i)
    refine hview.trans ?_
    split_ifs <;> rfl
  · refine Option.ext fun row => ?_
    have hview := congrFun (congrArg Prod.snd (floorView_loop_snd P now floor l row.accountId)) t
    have hleft : s.2.transactions[t]? = some row ↔
        (floorView s row.accountId).2.2 t = some row := by
      simp [floorView, Option.filter_eq_some_iff]
    rw [hleft, hview, Option.filter_eq_some_iff]
    by_cases hfall : Falls P now floor[row.accountId]? l.accounts[row.accountId]?
    · simp [hfall]
    · simp [hfall, floorView, Option.filter_eq_some_iff]

/-! ## The merge -/

/-- A snapshot of a ledger as the schema and the command path keep it: names are unique,
references resolve and live rows are valid. -/
structure Ledger.Consistent (l : Ledger) : Prop where
  names : l.NamesUnique
  references : ∀ (t : RowId) (row : TransactionRow), l.transactions[t]? = some row →
    ∃ a, l.accounts[row.accountId]? = some a
  valid : ∀ (t : RowId) (row : TransactionRow), l.transactions[t]? = some row →
    row.deletedAt = none → row.FieldsValid P

/-- The row of an account when the floor of the snapshot is applied. -/
def incomingAccount (s r : MintState) (i : RowId) : Option AccountRow :=
  r.ledger.accounts[i]?.elim s.ledger.accounts[i]?
    (accountMet P now s.accountDeletionFloor[i]? s.ledger.accounts[i]?)

/-- The snapshot's transactions of an account are skipped. -/
def Skips (s r : MintState) (i : RowId) : Prop :=
  (r.ledger.accounts[i]?.any fun a =>
    AccountSkipped P now s.accountDeletionFloor[i]? s.ledger.accounts[i]? a) = true

instance (s r : MintState) (i : RowId) : Decidable (Skips P now s r i) :=
  inferInstanceAs (Decidable (_ = true))

/-- The row of a transaction when the floor of the snapshot is applied. -/
def incomingTransaction (s r : MintState) (t : RowId) : Option TransactionRow :=
  r.ledger.transactions[t]?.elim s.ledger.transactions[t]? fun row =>
    transactionMet P now (Skips P now s r row.accountId) s.ledger.transactions[t]? row

def joinFloor (x y : Option Stamp) : Option Stamp := y.elim x fun ts => some (x.elim ts (max ts))

/-- What a merge leaves, table by table. -/
structure Merged (s r s' : MintState) : Prop where
  account : ∀ i : RowId, s'.ledger.accounts[i]? =
    if Falls P now r.accountDeletionFloor[i]? (incomingAccount P now s r i) then none
    else incomingAccount P now s r i
  transaction : ∀ t : RowId, s'.ledger.transactions[t]? =
    (incomingTransaction P now s r t).filter fun row =>
      ¬Falls P now r.accountDeletionFloor[row.accountId]? (incomingAccount P now s r row.accountId)
  setting : ∀ k : String, s'.ledger.settings[k]? =
    r.ledger.settings[k]?.elim s.ledger.settings[k]? (settingMet P now s.ledger.settings[k]?)
  floor : ∀ i : RowId, s'.accountDeletionFloor[i]? =
    joinFloor s.accountDeletionFloor[i]? (r.accountDeletionFloor[i]?.filter fun ts => ¬Rejects P now ts)

theorem MintState.ext {s s' : MintState} (hl : s.ledger = s'.ledger)
    (hf : ∀ i : RowId, s.accountDeletionFloor[i]? = s'.accountDeletionFloor[i]?) : s = s' := by
  obtain ⟨l, f⟩ := s
  obtain ⟨l', f'⟩ := s'
  obtain rfl : l = l' := hl
  obtain rfl : f = f' := Std.ExtTreeMap.ext_getElem? fun i => hf i
  rfl

variable {P now}

theorem Merged.unique {s r s' s'' : MintState} (h : Merged P now s r s') (h' : Merged P now s r s'') :
    s' = s'' := by
  refine MintState.ext (Ledger.ext (fun i => ?_) (fun t => ?_) fun k => ?_) fun i => ?_
  · rw [h.account, h'.account]
  · rw [h.transaction, h'.transaction]
  · rw [h.setting, h'.setting]
  · rw [h.floor, h'.floor]

theorem exists_accountMet {floor : Option Stamp} {held : Option AccountRow} {a : AccountRow}
    (h : ¬AccountSkipped P now floor held a) : ∃ b, accountMet P now floor held a = some b := by
  unfold accountMet
  split_ifs with hw
  · exact ⟨_, rfl⟩
  · rw [← Option.ne_none_iff_exists']
    rintro rfl
    unfold AccountSkipped at h
    split_ifs at h with hrej
    · exact h rfl
    · exact hw ⟨hrej, h, by simp⟩

/-- Where the row of an account comes from. -/
theorem incomingAccount_eq_some {s r : MintState} {i : RowId} {b : AccountRow}
    (h : incomingAccount P now s r i = some b) :
    (∃ a, r.ledger.accounts[i]? = some a ∧
      AccountWritten P now s.accountDeletionFloor[i]? s.ledger.accounts[i]? a ∧
      a.bornAs s.ledger.accounts[i]? = b) ∨
      (s.ledger.accounts[i]? = some b ∧ ∀ a, r.ledger.accounts[i]? = some a →
        ¬AccountWritten P now s.accountDeletionFloor[i]? s.ledger.accounts[i]? a) := by
  unfold incomingAccount accountMet at h
  cases hr : r.ledger.accounts[i]? with
  | none =>
    rw [hr] at h
    exact Or.inr ⟨h, fun a ha => by cases ha⟩
  | some a =>
    rw [hr, Option.elim_some] at h
    split_ifs at h with hw
    · exact Or.inl ⟨a, rfl, hw, Option.some.inj h⟩
    · exact Or.inr ⟨h, fun b hb => Option.some.inj hb ▸ hw⟩

theorem exists_incomingAccount {s : MintState} {i : RowId} {a : AccountRow}
    (h : s.ledger.accounts[i]? = some a) (r : MintState) :
    ∃ b, incomingAccount P now s r i = some b := by
  unfold incomingAccount accountMet
  cases r.ledger.accounts[i]? with
  | none => exact ⟨a, h⟩
  | some c =>
    rw [Option.elim_some]
    split_ifs
    · exact ⟨_, rfl⟩
    · exact ⟨a, h⟩

/-- Where the row of a transaction comes from. -/
theorem incomingTransaction_eq_some {s r : MintState} {t : RowId} {row : TransactionRow}
    (h : incomingTransaction P now s r t = some row) :
    (∃ row', r.ledger.transactions[t]? = some row' ∧
      TransactionWritten P now (Skips P now s r row'.accountId) s.ledger.transactions[t]? row' ∧
      row'.bornAs s.ledger.transactions[t]? = row) ∨ s.ledger.transactions[t]? = some row := by
  unfold incomingTransaction transactionMet at h
  cases hr : r.ledger.transactions[t]? with
  | none =>
    rw [hr] at h
    exact Or.inr h
  | some row' =>
    rw [hr, Option.elim_some] at h
    split_ifs at h with hw
    · exact Or.inl ⟨row', rfl, hw, Option.some.inj h⟩
    · exact Or.inr h

theorem get_raiseFloor (floor entries : BTreeMap RowId Stamp) (i : RowId) :
    (entries.foldl raiseFloor floor)[i]? = joinFloor floor[i]? entries[i]? := by
  have hstep : StepsAtKey (fun (f : BTreeMap RowId Stamp) i => f[i]?) raiseFloor
      (fun _ ts w => some (w.elim ts (max ts))) := by
    intro f k ts i
    exact BTreeMap.get_alter f k i _
  exact hstep.foldl entries floor i

variable (P now)

def accountsLoop (s r : MintState) : Finset RowId × Ledger :=
  r.ledger.accounts.toList.foldl (accountStep P now s.accountDeletionFloor) (∅, s.ledger)

def rowsLoop (s r : MintState) : Ledger :=
  r.ledger.settings.toList.foldl (fun l p => upsertSettingLww P now l p.1 p.2)
    (r.ledger.transactions.toList.foldl (transactionStep P now (accountsLoop P now s r).1)
      (accountsLoop P now s r).2)

def mergedState (s r : MintState) : MintState :=
  let result := r.accountDeletionFloor.toList.foldl (floorStep P now) (∅, rowsLoop P now s r)
  { ledger := result.2, accountDeletionFloor := result.1.foldl raiseFloor s.accountDeletionFloor }

theorem get_accountsLoop (s r : MintState) (i : RowId) :
    (accountsLoop P now s r).2.accounts[i]? = incomingAccount P now s r i := by
  have hview := congrArg Prod.snd
    (accountView_loop P now s.accountDeletionFloor s.ledger r.ledger i)
  refine hview.trans ?_
  unfold incomingAccount
  cases r.ledger.accounts[i]? <;> rfl

theorem mem_accountsLoop_iff (s r : MintState) (i : RowId) :
    i ∈ (accountsLoop P now s r).1 ↔ Skips P now s r i := by
  have hview := congrArg Prod.fst
    (accountView_loop P now s.accountDeletionFloor s.ledger r.ledger i)
  have hmem : decide (i ∈ (accountsLoop P now s r).1) = r.ledger.accounts[i]?.any fun a =>
      AccountSkipped P now s.accountDeletionFloor[i]? s.ledger.accounts[i]? a := by
    refine hview.trans ?_
    cases r.ledger.accounts[i]? <;> rfl
  rw [Skips, ← hmem, decide_eq_true_eq]

theorem accountsLoop_frame (s r : MintState) :
    (accountsLoop P now s r).2.transactions = s.ledger.transactions ∧
      (accountsLoop P now s r).2.settings = s.ledger.settings := by
  refine List.foldlRecOn (motive := fun m : Finset RowId × Ledger =>
    m.2.transactions = s.ledger.transactions ∧ m.2.settings = s.ledger.settings)
    _ _ ⟨rfl, rfl⟩ fun m hm p _ => hm

theorem get_rowsLoop (s r : MintState) :
    (∀ i : RowId, (rowsLoop P now s r).accounts[i]? = incomingAccount P now s r i) ∧
      (∀ t : RowId, (rowsLoop P now s r).transactions[t]? = incomingTransaction P now s r t) ∧
      ∀ k : String, (rowsLoop P now s r).settings[k]? =
        r.ledger.settings[k]?.elim s.ledger.settings[k]? (settingMet P now s.ledger.settings[k]?) := by
  obtain ⟨hacc, htx, hset⟩ := settingLoop_spec P now
    (r.ledger.transactions.toList.foldl (transactionStep P now (accountsLoop P now s r).1)
      (accountsLoop P now s r).2) r.ledger
  obtain ⟨hframe, hframe'⟩ := accountsLoop_frame P now s r
  refine ⟨fun i => ?_, fun t => ?_, fun k => ?_⟩
  · rw [rowsLoop, hacc, accounts_transactionLoop, get_accountsLoop]
  · rw [rowsLoop, htx, get_transactionLoop, hframe, incomingTransaction]
    simp only [mem_accountsLoop_iff]
  · rw [rowsLoop, hset, settings_transactionLoop, hframe']

theorem merged_mergedState (s r : MintState) : Merged P now s r (mergedState P now s r) := by
  obtain ⟨hacc, htx, hset⟩ := get_rowsLoop P now s r
  obtain ⟨hfloor, hacc', htx', hset'⟩ :=
    floorLoop_spec P now r.accountDeletionFloor (rowsLoop P now s r)
  refine ⟨fun i => ?_, fun t => ?_, fun k => ?_, fun i => ?_⟩
  · exact (hacc' i).trans (by rw [hacc])
  · refine (htx' t).trans ?_
    rw [htx]
    simp only [hacc]
  · exact (congrArg (fun m : BTreeMap String SettingRow => m[k]?) hset').trans (hset k)
  · exact (get_raiseFloor _ _ i).trans (by rw [hfloor])

/-- The transaction loop violates no reference. -/
theorem transactionLoop_passes {s r : MintState} (hr : r.ledger.Consistent P)
    {pre post : List (RowId × TransactionRow)} {p : RowId × TransactionRow}
    (hsplit : r.ledger.transactions.toList = pre ++ p :: post)
    (hskip : p.2.accountId ∉ (accountsLoop P now s r).1) :
    ∃ a, (pre.foldl (transactionStep P now (accountsLoop P now s r).1)
      (accountsLoop P now s r).2).accounts[p.2.accountId]? = some a := by
  have hp : r.ledger.transactions[p.1]? = some p.2 := mem_toList_iff.mp (by rw [hsplit]; simp)
  obtain ⟨a, ha⟩ := hr.references p.1 p.2 hp
  rw [accounts_transactionLoop, get_accountsLoop, incomingAccount, ha]
  rw [mem_accountsLoop_iff, Skips, ha] at hskip
  exact exists_accountMet (by simpa using hskip)

theorem foldlM_applyFloorEntry (entries : List (RowId × Stamp)) (s : BTreeMap RowId Stamp × Ledger) :
    entries.foldlM (applyFloorEntry P now) s = .ok (entries.foldl (floorStep P now) s) := by
  induction entries generalizing s with
  | nil => rfl
  | cons p entries ih =>
    rw [List.foldlM_cons, applyFloorEntry_eq]
    exact ih _

theorem applyRemoteSnapshot_eq_ok {s r : MintState} (hr : r.ledger.Consistent P) (capturedAt : Stamp)
    (result : BTreeMap RowId Stamp × Ledger) :
    applyRemoteSnapshot P now s.ledger (r.snapshot capturedAt) s.accountDeletionFloor = .ok result ↔
      NamesFree P now s.accountDeletionFloor s.ledger r.ledger ∧
        r.accountDeletionFloor.toList.foldl (floorStep P now) (∅, rowsLoop P now s r) = result := by
  have haccounts : ∀ m, r.ledger.accounts.toList.foldlM (mergeAccount P now s.accountDeletionFloor)
      (∅, s.ledger) = .ok m ↔
        NamesFree P now s.accountDeletionFloor s.ledger r.ledger ∧ accountsLoop P now s r = m := by
    intro m
    rw [foldlM_eq_ok_iff (mergeAccount_eq_ok P now s.accountDeletionFloor),
      accountLoop_passes_iff P now hr.names]
    rfl
  have htransactions : ∀ l, r.ledger.transactions.toList.foldlM
      (mergeTransaction P now (accountsLoop P now s r).1) (accountsLoop P now s r).2 = .ok l ↔
        r.ledger.transactions.toList.foldl (transactionStep P now (accountsLoop P now s r).1)
          (accountsLoop P now s r).2 = l := by
    intro l
    rw [foldlM_eq_ok_iff (mergeTransaction_eq_ok P now (accountsLoop P now s r).1)]
    refine and_iff_right fun pre p post hsplit hw => ?_
    exact transactionLoop_passes P now hr hsplit hw.1
  simp only [applyRemoteSnapshot, MintState.snapshot, snapshotCurrentDb, bind_eq_ok, haccounts,
    foldlM_applyFloorEntry, Except.ok.injEq]
  constructor
  · rintro ⟨_, ⟨hfree, rfl⟩, l₂, hl₂, rfl⟩
    obtain rfl := (htransactions l₂).mp hl₂
    exact ⟨hfree, rfl⟩
  · rintro ⟨hfree, rfl⟩
    exact ⟨_, ⟨hfree, rfl⟩, _, (htransactions _).mpr rfl, rfl⟩

variable {P now}

/-- A sibling's snapshot is merged exactly when the names are free. -/
theorem handleIncomingDecoded_eq_ok {s r s' : MintState} (hr : r.ledger.Consistent P)
    (capturedAt : Stamp) :
    handleIncomingDecoded P now s (r.snapshot capturedAt) = .ok s' ↔
      NamesFree P now s.accountDeletionFloor s.ledger r.ledger ∧ Merged P now s r s' := by
  have hresult := applyRemoteSnapshot_eq_ok P now (s := s) hr capturedAt
  have hmerged := merged_mergedState P now s r
  unfold handleIncomingDecoded
  rw [if_neg (by simp [MintState.snapshot, snapshotCurrentDb, mintSchemaVersion,
    localMaxSchemaVersion])]
  cases happly : applyRemoteSnapshot P now s.ledger (r.snapshot capturedAt) s.accountDeletionFloor with
  | error c =>
    constructor
    · rintro ⟨⟩
    · intro h
      have hok := (hresult _).mpr ⟨h.1, rfl⟩
      rw [happly] at hok
      cases hok
  | ok result =>
    obtain ⟨hfree, hres⟩ := (hresult result).mp happly
    have hstate : mergedState P now s r =
        ⟨result.2, result.1.foldl raiseFloor s.accountDeletionFloor⟩ := by
      rw [← hres]
      rfl
    rw [hstate] at hmerged
    constructor
    · intro h
      obtain rfl := Except.ok.inj h
      exact ⟨hfree, hmerged⟩
    · rintro ⟨-, h⟩
      rw [h.unique hmerged]

end

/-! ## Stamps within the bound -/

/-- Every stamp of the state is accepted at the clock. -/
structure InBound (P : Parsers) (now : Option ℕ) (s : MintState) : Prop where
  accounts : ∀ (i : RowId) (a : AccountRow), s.ledger.accounts[i]? = some a →
    ¬Rejects P now a.updatedAt
  transactions : ∀ (t : RowId) (row : TransactionRow), s.ledger.transactions[t]? = some row →
    ¬Rejects P now row.updatedAt
  settings : ∀ (k : String) (row : SettingRow), s.ledger.settings[k]? = some row →
    ¬Rejects P now row.updatedAt
  floor : ∀ (i : RowId) (ts : Stamp), s.accountDeletionFloor[i]? = some ts → ¬Rejects P now ts

theorem forall_rows_iff {κ υ : Type} [Ord κ] [Std.TransOrd κ] [Std.LawfulEqOrd κ]
    {t : BTreeMap κ υ} {Q : κ → υ → Prop} :
    (∀ (k : κ) (v : υ), t[k]? = some v → Q k v) ↔ ∀ p ∈ t.toList, Q p.1 p.2 := by
  constructor
  · intro h p hp
    exact h p.1 p.2 (mem_toList_iff.mp hp)
  · intro h k v hv
    exact h (k, v) (mem_toList_iff.mpr hv)

theorem inBound_iff {P : Parsers} {now : Option ℕ} {s : MintState} :
    InBound P now s ↔ (∀ p ∈ s.ledger.accounts.toList, ¬Rejects P now p.2.updatedAt) ∧
      (∀ p ∈ s.ledger.transactions.toList, ¬Rejects P now p.2.updatedAt) ∧
      (∀ p ∈ s.ledger.settings.toList, ¬Rejects P now p.2.updatedAt) ∧
      ∀ p ∈ s.accountDeletionFloor.toList, ¬Rejects P now p.2 := by
  simp only [← forall_rows_iff (Q := fun _ (v : AccountRow) => ¬Rejects P now v.updatedAt),
    ← forall_rows_iff (Q := fun _ (v : TransactionRow) => ¬Rejects P now v.updatedAt),
    ← forall_rows_iff (Q := fun _ (v : SettingRow) => ¬Rejects P now v.updatedAt),
    ← forall_rows_iff (Q := fun _ (v : Stamp) => ¬Rejects P now v)]
  exact ⟨fun h => ⟨h.accounts, h.transactions, h.settings, h.floor⟩,
    fun h => ⟨h.1, h.2.1, h.2.2.1, h.2.2.2⟩⟩

end Harmony.Mint
