import Harmony.Mint.Fleet

/-! Two devices that exchange snapshots. Where every stamp is within the bound a
merge is a join of registers followed by what the deletion floors take away, and
exchanges that have come to rest leave both devices with one ledger. -/

namespace Harmony.Mint

open Harmony.Lib

def standing (floor : Option Stamp) (row : Option AccountRow) : Option AccountRow :=
  row.filter fun a => ¬Covers floor a.updatedAt

theorem standing_eq_some {floor : Option Stamp} {row : Option AccountRow} {a : AccountRow} :
    standing floor row = some a ↔ row = some a ∧ ¬Covers floor a.updatedAt := by
  rw [standing, Option.filter_eq_some_iff]
  simp

def Fallen (floor : Option Stamp) (row : Option AccountRow) : Prop :=
  ∃ a, row = some a ∧ Covers floor a.updatedAt

instance (floor : Option Stamp) (row : Option AccountRow) : Decidable (Fallen floor row) :=
  match row with
  | none => isFalse (by rintro ⟨_, h, -⟩; cases h)
  | some a => decidable_of_iff (Covers floor a.updatedAt)
    ⟨fun h => ⟨a, rfl, h⟩, by rintro ⟨_, h, hc⟩; cases h; exact hc⟩

theorem Covers.mono {floor : Option Stamp} {a b : Stamp} (h : Covers floor b) (hab : a ≤ b) :
    Covers floor a := by
  obtain ⟨ts, hts, hle⟩ := h
  exact ⟨ts, hts, hab.trans hle⟩

@[simp] theorem covers_joinFloor {x y : Option Stamp} {stamp : Stamp} :
    Covers (joinFloor x y) stamp ↔ Covers x stamp ∨ Covers y stamp := by
  cases x <;> cases y <;> simp [joinFloor, or_comm]

theorem joinFloor_comm (x y : Option Stamp) : joinFloor x y = joinFloor y x := by
  cases x <;> cases y <;> simp [joinFloor, max_comm]

theorem joinFloor_assoc (x y z : Option Stamp) :
    joinFloor (joinFloor x y) z = joinFloor x (joinFloor y z) := by
  cases x <;> cases y <;> cases z <;> simp [joinFloor, max_comm, max_left_comm]

@[simp] theorem joinFloor_self (x : Option Stamp) : joinFloor x x = x := by
  cases x <;> simp [joinFloor]

theorem joinFloor_eq_or (x y : Option Stamp) : joinFloor x y = x ∨ joinFloor x y = y := by
  cases x with
  | none => cases y <;> simp [joinFloor]
  | some a =>
    cases y with
    | none => simp [joinFloor]
    | some b => rcases max_choice b a with h | h <;> simp [joinFloor, h]

theorem falls_iff_fallen {P : Parsers} {now : Option ℕ} {floor : Option Stamp}
    (held : Option AccountRow) (hbound : ∀ ts, floor = some ts → ¬Rejects P now ts) :
    Falls P now floor held ↔ Fallen floor held := by
  constructor
  · rintro ⟨ts, hts, -, a, ha, hle⟩
    exact ⟨a, ha, ts, hts, hle⟩
  · rintro ⟨a, ha, ts, hts, hle⟩
    exact ⟨ts, hts, hbound ts hts, a, ha, hle⟩

/-- The account rows of two states meet in this one. -/
def meetAccounts (s r : MintState) (i : RowId) : Option AccountRow :=
  latest AccountRow.updatedAt s.ledger.accounts[i]?
    (standing s.accountDeletionFloor[i]? r.ledger.accounts[i]?)

/-- The transaction rows of two states meet in this one. -/
def meetTransactions (s r : MintState) (t : RowId) : Option TransactionRow :=
  latest TransactionRow.updatedAt s.ledger.transactions[t]?
    (r.ledger.transactions[t]?.filter fun row =>
      ¬Fallen s.accountDeletionFloor[row.accountId]? r.ledger.accounts[row.accountId]?)

/-- What a merge within the bound leaves. -/
structure Takes (s r s' : MintState) : Prop where
  account : ∀ i : RowId,
    s'.ledger.accounts[i]? = standing r.accountDeletionFloor[i]? (meetAccounts s r i)
  transaction : ∀ t : RowId, s'.ledger.transactions[t]? = (meetTransactions s r t).filter fun row =>
    ¬Fallen r.accountDeletionFloor[row.accountId]? (meetAccounts s r row.accountId)
  setting : ∀ k : String, s'.ledger.settings[k]? =
    latest SettingRow.updatedAt s.ledger.settings[k]? r.ledger.settings[k]?
  floor : ∀ i : RowId, s'.accountDeletionFloor[i]? =
    joinFloor s.accountDeletionFloor[i]? r.accountDeletionFloor[i]?

theorem Takes.unique {s r s' s'' : MintState} (h : Takes s r s') (h' : Takes s r s'') : s' = s'' := by
  refine MintState.ext (Ledger.ext (fun i => ?_) (fun t => ?_) fun k => ?_) fun i => ?_
  · rw [h.account, h'.account]
  · rw [h.transaction, h'.transaction]
  · rw [h.setting, h'.setting]
  · rw [h.floor, h'.floor]

section

variable {P : Parsers} {now : Option ℕ} {s r s' : MintState}

theorem AccountRow.bornAs_eq {a : AccountRow} {held : Option AccountRow}
    (h : ∀ b, held = some b → b.createdAt = a.createdAt) : a.bornAs held = a := by
  cases held with
  | none => rfl
  | some b => rw [AccountRow.bornAs, Option.elim_some, h b rfl]

theorem TransactionRow.bornAs_eq {a : TransactionRow} {held : Option TransactionRow}
    (h : ∀ b, held = some b → b.createdAt = a.createdAt) : a.bornAs held = a := by
  cases held with
  | none => rfl
  | some b => rw [TransactionRow.bornAs, Option.elim_some, h b rfl]

theorem latest_some_eq_ite {α τ : Type} [LinearOrder τ] {stamp : α → τ} (held : Option α) (a : α)
    [Decidable (∀ b ∈ held, stamp b < stamp a)] :
    latest stamp held (some a) = if ∀ b ∈ held, stamp b < stamp a then some a else held := by
  cases held with
  | none => simp
  | some b => simp [latest_some_some]

theorem incomingAccount_eq_meet (hr : InBound P now r) (hborn : SameBirths s.ledger r.ledger)
    (i : RowId) : incomingAccount P now s r i = meetAccounts s r i := by
  unfold incomingAccount meetAccounts standing
  cases ha : r.ledger.accounts[i]? with
  | none => simp
  | some a =>
    have hok := hr.accounts i a ha
    have hsame : a.bornAs s.ledger.accounts[i]? = a :=
      AccountRow.bornAs_eq fun b hb => hborn.accounts i b a hb ha
    by_cases hcov : Covers s.accountDeletionFloor[i]? a.updatedAt
    · simp [accountMet, AccountWritten, hcov, Option.filter_some]
    · simp [accountMet, AccountWritten, hcov, hok, hsame, Option.filter_some, latest_some_eq_ite]

theorem incomingTransaction_eq_meet (hr : InBound P now r) (hborn : SameBirths s.ledger r.ledger)
    (hvalid : r.ledger.Consistent P) (t : RowId) :
    incomingTransaction P now s r t = meetTransactions s r t := by
  unfold incomingTransaction meetTransactions
  cases hrow : r.ledger.transactions[t]? with
  | none => simp
  | some row =>
    have hok := hr.transactions t row hrow
    have hfields := hvalid.valid t row hrow
    have hsame : row.bornAs s.ledger.transactions[t]? = row :=
      TransactionRow.bornAs_eq fun b hb => hborn.transactions t b row hb hrow
    obtain ⟨a, ha⟩ := hvalid.references t row hrow
    have hskip : Skips P now s r row.accountId ↔
        Fallen s.accountDeletionFloor[row.accountId]? r.ledger.accounts[row.accountId]? := by
      simp [Skips, ha, AccountSkipped, hr.accounts _ a ha, Fallen]
    by_cases hfall : Fallen s.accountDeletionFloor[row.accountId]? r.ledger.accounts[row.accountId]?
    · simp [transactionMet, TransactionWritten, hskip, hfall, Option.filter_some]
    · have hwritten : TransactionWritten P now (Skips P now s r row.accountId)
          s.ledger.transactions[t]? row ↔
            ∀ b ∈ s.ledger.transactions[t]?, b.updatedAt < row.updatedAt :=
        ⟨fun h => h.2.2.2, fun h => ⟨fun hs => hfall (hskip.mp hs), hok, hfields, h⟩⟩
      have hoffered : ((some row).filter fun row =>
          ¬Fallen s.accountDeletionFloor[row.accountId]? r.ledger.accounts[row.accountId]?) =
            some row := by
        rw [Option.filter_some, if_pos (by simpa using hfall)]
      rw [Option.elim_some, transactionMet, hsame, hoffered, latest_some_eq_ite]
      simp only [hwritten]

theorem Merged.takes (h : Merged P now s r s') (hr : InBound P now r)
    (hborn : SameBirths s.ledger r.ledger) (hvalid : r.ledger.Consistent P) : Takes s r s' := by
  refine ⟨fun i => ?_, fun t => ?_, fun k => ?_, fun i => ?_⟩
  · rw [h.account, incomingAccount_eq_meet hr hborn, standing]
    cases hmeet : meetAccounts s r i with
    | none => simp
    | some a =>
      have hfalls := falls_iff_fallen (some a) (hr.floor i)
      by_cases hcov : Covers r.accountDeletionFloor[i]? a.updatedAt <;>
        simp [hfalls, Fallen, hcov, Option.filter_some]
  · rw [h.transaction, incomingTransaction_eq_meet hr hborn hvalid]
    simp only [incomingAccount_eq_meet hr hborn, fun i x => falls_iff_fallen x (hr.floor i)]
  · rw [h.setting]
    cases hrow : r.ledger.settings[k]? with
    | none => simp
    | some row => simp [settingMet, hr.settings k row hrow, latest_some_eq_ite]
  · rw [h.floor]
    cases hts : r.accountDeletionFloor[i]? with
    | none => rfl
    | some ts => simp [Option.filter_some, hr.floor i ts hts]

end

/-! ## Exchanges -/

/-- Two states between which merges are joins: the stamp of a version tells the version, and
no name is given to two accounts. -/
structure Siblings (P : Parsers) (s r : MintState) : Prop where
  left : s.ledger.Consistent P
  right : r.ledger.Consistent P
  births : SameBirths s.ledger r.ledger
  accounts : ∀ i : RowId,
    StampsTell AccountRow.updatedAt s.ledger.accounts[i]? r.ledger.accounts[i]?
  transactions : ∀ t : RowId,
    StampsTell TransactionRow.updatedAt s.ledger.transactions[t]? r.ledger.transactions[t]?
  settings : ∀ k : String,
    StampsTell SettingRow.updatedAt s.ledger.settings[k]? r.ledger.settings[k]?
  names : ∀ (i j : RowId) (a b : AccountRow), s.ledger.accounts[i]? = some a →
    r.ledger.accounts[j]? = some b → a.name = b.name → i = j

/-- The snapshot of `r` is merged into `s` at a clock that accepts its stamps. -/
def Delivers (P : Parsers) (r s s' : MintState) : Prop :=
  ∃ (now : Option ℕ) (capturedAt : Stamp), InBound P now r ∧
    handleIncomingDecoded P now s (r.snapshot capturedAt) = .ok s'

/-- Snapshots are merged both ways, in any order. -/
inductive Exchanged (P : Parsers) (a b : MintState) : MintState → MintState → Prop
  | start : Exchanged P a b a b
  | toLeft {x y x' : MintState} (h : Exchanged P a b x y) (hd : Delivers P y x x') :
    Exchanged P a b x' y
  | toRight {x y y' : MintState} (h : Exchanged P a b x y) (hd : Delivers P x y y') :
    Exchanged P a b x y'

/-- A further merge changes nothing on either side. -/
def Calm (P : Parsers) (x y : MintState) : Prop := Delivers P y x x ∧ Delivers P x y y

/-- Everything in the state comes from one of two others. -/
structure Drawn (a b x : MintState) : Prop where
  account : ∀ i : RowId, Among a.ledger.accounts[i]? b.ledger.accounts[i]? x.ledger.accounts[i]?
  transaction : ∀ t : RowId,
    Among a.ledger.transactions[t]? b.ledger.transactions[t]? x.ledger.transactions[t]?
  setting : ∀ k : String, Among a.ledger.settings[k]? b.ledger.settings[k]? x.ledger.settings[k]?
  floor : ∀ i : RowId,
    Among a.accountDeletionFloor[i]? b.accountDeletionFloor[i]? x.accountDeletionFloor[i]?

section

variable {P : Parsers} {a b x y z : MintState}

theorem Drawn.left (a b : MintState) : Drawn a b a :=
  ⟨fun _ => Or.inr (Or.inl rfl), fun _ => Or.inr (Or.inl rfl), fun _ => Or.inr (Or.inl rfl),
    fun _ => Or.inr (Or.inl rfl)⟩

theorem Drawn.right (a b : MintState) : Drawn a b b :=
  ⟨fun _ => Or.inr (Or.inr rfl), fun _ => Or.inr (Or.inr rfl), fun _ => Or.inr (Or.inr rfl),
    fun _ => Or.inr (Or.inr rfl)⟩

theorem Takes.drawn (h : Takes x y z) (hx : Drawn a b x) (hy : Drawn a b y) : Drawn a b z := by
  refine ⟨fun i => ?_, fun t => ?_, fun k => ?_, fun i => ?_⟩
  · rw [h.account]
    exact ((hx.account i).latest ((hy.account i).filter _)).filter _
  · rw [h.transaction]
    exact ((hx.transaction t).latest ((hy.transaction t).filter _)).filter _
  · rw [h.setting]
    exact (hx.setting k).latest (hy.setting k)
  · rw [h.floor]
    rcases joinFloor_eq_or x.accountDeletionFloor[i]? y.accountDeletionFloor[i]? with heq | heq <;>
      rw [heq]
    · exact hx.floor i
    · exact hy.floor i

theorem Siblings.symm (h : Siblings P a b) : Siblings P b a where
  left := h.right
  right := h.left
  births := h.births.symm
  accounts i := (h.accounts i).symm
  transactions t := (h.transactions t).symm
  settings k := (h.settings k).symm
  names i j c d hc hd hname := (h.names j i d c hd hc hname.symm).symm

theorem Siblings.drawn (h : Siblings P a b) (hx : Drawn a b x) (hy : Drawn a b y)
    (hcx : x.ledger.Consistent P) (hcy : y.ledger.Consistent P) : Siblings P x y where
  left := hcx
  right := hcy
  births := by
    constructor
    · intro i c d hc hd
      rcases (hx.account i).eq_or hc with hc | hc <;> rcases (hy.account i).eq_or hd with hd | hd
      · rw [Option.some.inj (hc.symm.trans hd)]
      · exact h.births.accounts i c d hc hd
      · exact (h.births.accounts i d c hd hc).symm
      · rw [Option.some.inj (hc.symm.trans hd)]
    · intro t c d hc hd
      rcases (hx.transaction t).eq_or hc with hc | hc <;>
        rcases (hy.transaction t).eq_or hd with hd | hd
      · rw [Option.some.inj (hc.symm.trans hd)]
      · exact h.births.transactions t c d hc hd
      · exact (h.births.transactions t d c hd hc).symm
      · rw [Option.some.inj (hc.symm.trans hd)]
  accounts i := (h.accounts i).among (hx.account i) (hy.account i)
  transactions t := (h.transactions t).among (hx.transaction t) (hy.transaction t)
  settings k := (h.settings k).among (hx.setting k) (hy.setting k)
  names i j c d hc hd hname := by
    rcases (hx.account i).eq_or hc with hc | hc <;> rcases (hy.account j).eq_or hd with hd | hd
    · exact h.left.names i j c d hc hd hname
    · exact h.names i j c d hc hd hname
    · exact (h.names j i d c hd hc hname.symm).symm
    · exact h.right.names i j c d hc hd hname

theorem Siblings.namesFree (h : Siblings P a b) (now : Option ℕ) :
    NamesFree P now a.accountDeletionFloor a.ledger b.ledger :=
  fun i c hc _ j d hd hne hname => absurd (h.names j i d c hd hc hname) hne

theorem Siblings.delivers_iff (h : Siblings P a b) :
    Delivers P b a z ↔ (∃ now, InBound P now b) ∧ Takes a b z := by
  constructor
  · rintro ⟨now, capturedAt, hbound, hmerge⟩
    obtain ⟨-, hmerged⟩ := (handleIncomingDecoded_eq_ok h.right capturedAt).mp hmerge
    exact ⟨⟨now, hbound⟩, hmerged.takes hbound h.births h.right⟩
  · rintro ⟨⟨now, hbound⟩, htakes⟩
    have hmerged := merged_mergedState P now a b
    obtain rfl := htakes.unique (hmerged.takes hbound h.births h.right)
    exact ⟨now, "", hbound, (handleIncomingDecoded_eq_ok h.right "").mpr ⟨h.namesFree now, hmerged⟩⟩

theorem Siblings.takes_consistent (h : Siblings P a b) {now : Option ℕ} (hbound : InBound P now b)
    (ht : Takes a b z) : z.ledger.Consistent P := by
  have hmerged := merged_mergedState P now a b
  obtain rfl := ht.unique (hmerged.takes hbound h.births h.right)
  exact hmerged.consistent (h.namesFree now) h.left h.right

theorem Drawn.inBound {now : Option ℕ} (h : Drawn a b x) (ha : InBound P now a)
    (hb : InBound P now b) : InBound P now x where
  accounts i c hc := ((h.account i).eq_or hc).elim (ha.accounts i c) (hb.accounts i c)
  transactions t c hc := ((h.transaction t).eq_or hc).elim (ha.transactions t c) (hb.transactions t c)
  settings k c hc := ((h.setting k).eq_or hc).elim (ha.settings k c) (hb.settings k c)
  floor i ts hts := ((h.floor i).eq_or hts).elim (ha.floor i ts) (hb.floor i ts)

/-- What every exchange between siblings keeps. -/
structure Between (P : Parsers) (a b x y : MintState) : Prop where
  drawnLeft : Drawn a b x
  drawnRight : Drawn a b y
  consistentLeft : x.ledger.Consistent P
  consistentRight : y.ledger.Consistent P
  floorLeft : ∀ (i : RowId) (stamp : Stamp), Covers a.accountDeletionFloor[i]? stamp →
    Covers x.accountDeletionFloor[i]? stamp
  floorRight : ∀ (i : RowId) (stamp : Stamp), Covers b.accountDeletionFloor[i]? stamp →
    Covers y.accountDeletionFloor[i]? stamp

theorem Between.siblings (h : Between P a b x y) (hab : Siblings P a b) : Siblings P x y :=
  hab.drawn h.drawnLeft h.drawnRight h.consistentLeft h.consistentRight

theorem Between.start (hab : Siblings P a b) : Between P a b a b :=
  ⟨Drawn.left a b, Drawn.right a b, hab.left, hab.right, fun _ _ h => h, fun _ _ h => h⟩

theorem Between.symm (h : Between P a b x y) : Between P b a y x := by
  have hswap : ∀ {z : MintState}, Drawn a b z → Drawn b a z := fun hz =>
    ⟨fun i => (hz.account i).imp_right Or.symm, fun i => (hz.transaction i).imp_right Or.symm,
      fun i => (hz.setting i).imp_right Or.symm, fun i => (hz.floor i).imp_right Or.symm⟩
  exact ⟨hswap h.drawnRight, hswap h.drawnLeft, h.consistentRight, h.consistentLeft, h.floorRight,
    h.floorLeft⟩

theorem Between.toLeft (h : Between P a b x y) (hab : Siblings P a b) (hd : Delivers P y x z) :
    Takes x y z ∧ Between P a b z y := by
  have hxy := h.siblings hab
  obtain ⟨⟨now, hbound⟩, htakes⟩ := hxy.delivers_iff.mp hd
  refine ⟨htakes, htakes.drawn h.drawnLeft h.drawnRight, h.drawnRight,
    hxy.takes_consistent hbound htakes, h.consistentRight, fun i stamp hc => ?_, h.floorRight⟩
  rw [htakes.floor, covers_joinFloor]
  exact Or.inl (h.floorLeft i stamp hc)

theorem Between.toRight (h : Between P a b x y) (hab : Siblings P a b) (hd : Delivers P x y z) :
    Takes y x z ∧ Between P a b x z := by
  obtain ⟨htakes, hbetween⟩ := h.symm.toLeft hab.symm hd
  exact ⟨htakes, hbetween.symm⟩

theorem Exchanged.between (h : Exchanged P a b x y) (hab : Siblings P a b) : Between P a b x y := by
  induction h with
  | start => exact Between.start hab
  | toLeft _ hd ih => exact (ih.toLeft hab hd).2
  | toRight _ hd ih => exact (ih.toRight hab hd).2

theorem Exchanged.symm (h : Exchanged P a b x y) : Exchanged P b a y x := by
  induction h with
  | start => exact .start
  | toLeft _ hd ih => exact .toRight ih hd
  | toRight _ hd ih => exact .toLeft ih hd

/-! ## Coming to rest -/

theorem standing_latest (floor : Option Stamp) (u v : Option AccountRow) :
    standing floor (latest AccountRow.updatedAt u v) =
      latest AccountRow.updatedAt (standing floor u) (standing floor v) :=
  latest_filter (fun c d hle hc => by
    simp only [decide_eq_true_eq] at hc ⊢
    exact fun hd => hc (hd.mono hle)) u v

/-- No account is one that the state's own floor covers. -/
def Settled (x : MintState) : Prop :=
  ∀ i : RowId, ¬Fallen x.accountDeletionFloor[i]? x.ledger.accounts[i]?

theorem standing_eq_self {floor : Option Stamp} {row : Option AccountRow} (h : ¬Fallen floor row) :
    standing floor row = row := by
  cases row with
  | none => rfl
  | some a =>
    rw [standing, Option.filter_some, if_pos]
    simpa using fun hc => h ⟨a, rfl, hc⟩

theorem not_fallen_standing (floor : Option Stamp) (row : Option AccountRow) :
    ¬Fallen floor (standing floor row) := by
  rintro ⟨a, ha, hc⟩
  exact (standing_eq_some.mp ha).2 hc

theorem filter_eq_self {α : Type} {p : α → Bool} {o : Option α}
    (h : ∀ a, o = some a → p a = true) : o.filter p = o := by
  cases o with
  | none => rfl
  | some a => rw [Option.filter_some, if_pos (h a rfl)]

/-- A merge between settled states with one floor is a join of every register. -/
theorem Takes.of_settled (h : Takes x y z) (hx : Settled x) (hy : Settled y)
    (hf : ∀ i : RowId, x.accountDeletionFloor[i]? = y.accountDeletionFloor[i]?) :
    (∀ i : RowId, z.ledger.accounts[i]? =
      latest AccountRow.updatedAt x.ledger.accounts[i]? y.ledger.accounts[i]?) ∧
    (∀ t : RowId, z.ledger.transactions[t]? =
      latest TransactionRow.updatedAt x.ledger.transactions[t]? y.ledger.transactions[t]?) ∧
    ∀ i : RowId, z.accountDeletionFloor[i]? = x.accountDeletionFloor[i]? := by
  have hmeet : ∀ i, meetAccounts x y i =
      latest AccountRow.updatedAt x.ledger.accounts[i]? y.ledger.accounts[i]? := by
    intro i
    rw [meetAccounts, standing_eq_self (by rw [hf i]; exact hy i)]
  have hstands : ∀ i, ¬Fallen y.accountDeletionFloor[i]? (meetAccounts x y i) := by
    rintro i ⟨a, ha, hc⟩
    rw [hmeet] at ha
    rcases latest_eq_or AccountRow.updatedAt x.ledger.accounts[i]? y.ledger.accounts[i]? with
      heq | heq <;> rw [heq] at ha
    · exact hx i ⟨a, ha, by rw [hf]; exact hc⟩
    · exact hy i ⟨a, ha, hc⟩
  refine ⟨fun i => ?_, fun t => ?_, fun i => ?_⟩
  · rw [h.account, standing_eq_self (hstands i), hmeet]
  · rw [h.transaction, meetTransactions]
    rw [filter_eq_self fun row _ => by simpa using hstands row.accountId,
      filter_eq_self fun row _ => by simpa [hf] using hy row.accountId]
  · rw [h.floor, ← hf, joinFloor_self]

theorem Calm.eq (h : Calm P x y) (hxy : Siblings P x y) : x = y := by
  obtain ⟨-, hx⟩ := hxy.delivers_iff.mp h.1
  obtain ⟨-, hy⟩ := hxy.symm.delivers_iff.mp h.2
  have hf : ∀ i : RowId, x.accountDeletionFloor[i]? = y.accountDeletionFloor[i]? := fun i =>
    (hx.floor i).trans ((joinFloor_comm _ _).trans (hy.floor i).symm)
  have hsx : Settled x := fun i => by
    rw [hx.account, hf]
    exact not_fallen_standing _ _
  have hsy : Settled y := fun i => by
    rw [hy.account, ← hf]
    exact not_fallen_standing _ _
  obtain ⟨hax, htx, -⟩ := hx.of_settled hsx hsy hf
  obtain ⟨hay, hty, -⟩ := hy.of_settled hsy hsx fun i => (hf i).symm
  refine MintState.ext (Ledger.ext (fun i => ?_) (fun t => ?_) fun k => ?_) hf
  · exact (hax i).trans ((latest_comm (hxy.accounts i)).trans (hay i).symm)
  · exact (htx t).trans ((latest_comm (hxy.transactions t)).trans (hty t).symm)
  · exact (hx.setting k).trans ((latest_comm (hxy.settings k)).trans (hy.setting k).symm)

theorem Takes.not_fallen (h : Takes x y z) (i : RowId) :
    ¬Fallen y.accountDeletionFloor[i]? z.ledger.accounts[i]? := by
  rw [h.account]
  exact not_fallen_standing _ _

theorem Siblings.exists_delivers (h : Siblings P x y) {now : Option ℕ} (hbound : InBound P now y) :
    ∃ z, Delivers P y x z :=
  ⟨_, h.delivers_iff.mpr ⟨⟨now, hbound⟩, (merged_mergedState P now x y).takes hbound h.births h.right⟩⟩

theorem Settled.takes_self (hx : Settled x) (h : Takes x x z) : z = x := by
  obtain ⟨ha, ht, hf⟩ := h.of_settled hx hx fun _ => rfl
  refine MintState.ext (Ledger.ext (fun i => ?_) (fun t => ?_) fun k => ?_) hf
  · rw [ha, latest_self]
  · rw [ht, latest_self]
  · rw [h.setting, latest_self]

theorem Siblings.refl (h : x.ledger.Consistent P) : Siblings P x x where
  left := h
  right := h
  births := SameBirths.refl _
  accounts _ _ _ ha hb _ := Option.some.inj (ha.symm.trans hb)
  transactions _ _ _ ha hb _ := Option.some.inj (ha.symm.trans hb)
  settings _ _ _ ha hb _ := Option.some.inj (ha.symm.trans hb)
  names := h.names

theorem latest_latest_comm {α τ : Type} [LinearOrder τ] {stamp : α → τ} {u v : Option α}
    (h : StampsTell stamp u v) : latest stamp v (latest stamp u v) = latest stamp u v := by
  rw [latest_comm h, ← latest_assoc, latest_self]

theorem Siblings.exists_calm (hab : Siblings P a b) {now : Option ℕ} (ha : InBound P now a)
    (hb : InBound P now b) : ∃ x y, Exchanged P a b x y ∧ Calm P x y := by
  have hleft : ∀ {x y}, Exchanged P a b x y → ∃ z, Delivers P y x z := fun h =>
    ((h.between hab).siblings hab).exists_delivers ((h.between hab).drawnRight.inBound ha hb)
  have hright : ∀ {x y}, Exchanged P a b x y → ∃ z, Delivers P x y z := fun h =>
    ((h.between hab).siblings hab).symm.exists_delivers ((h.between hab).drawnLeft.inBound ha hb)
  -- three merges settle the floors and the accounts, two more the rest
  obtain ⟨x₁, hd₁⟩ := hleft .start
  have e₁ := Exchanged.start.toLeft hd₁
  have t₁ := ((Between.start hab).toLeft hab hd₁).1
  obtain ⟨y₁, hd₂⟩ := hright e₁
  have e₂ := e₁.toRight hd₂
  have t₂ := ((e₁.between hab).toRight hab hd₂).1
  obtain ⟨x₂, hd₃⟩ := hleft e₂
  have e₃ := e₂.toLeft hd₃
  have t₃ := ((e₂.between hab).toLeft hab hd₃).1
  obtain ⟨y₂, hd₄⟩ := hright e₃
  have e₄ := e₃.toRight hd₄
  have t₄ := ((e₃.between hab).toRight hab hd₄).1
  obtain ⟨x₃, hd₅⟩ := hleft e₄
  have e₅ := e₄.toLeft hd₅
  have t₅ := ((e₄.between hab).toLeft hab hd₅).1
  have f₁ : ∀ i : RowId, y₁.accountDeletionFloor[i]? = x₁.accountDeletionFloor[i]? := fun i => by
    rw [t₂.floor, t₁.floor, joinFloor_comm a.accountDeletionFloor[i]?, ← joinFloor_assoc, joinFloor_self]
  have f₂ : ∀ i : RowId, x₂.accountDeletionFloor[i]? = y₁.accountDeletionFloor[i]? := fun i => by
    rw [t₃.floor, f₁, joinFloor_self]
  have s₁ : Settled y₁ := fun i => by
    rw [f₁]
    exact t₂.not_fallen i
  have s₂ : Settled x₂ := fun i => by
    rw [f₂]
    exact t₃.not_fallen i
  obtain ⟨a₄, r₄, f₄⟩ := t₄.of_settled s₁ s₂ fun i => (f₂ i).symm
  have s₄ : Settled y₂ := fun i => by
    rw [f₄, ← f₂]
    exact t₄.not_fallen i
  obtain ⟨a₅, r₅, f₅⟩ := t₅.of_settled s₂ s₄ fun i => (f₂ i).trans (f₄ i).symm
  have hsib := ((e₃.between hab).siblings hab).symm
  have heq : x₃ = y₂ := by
    refine MintState.ext (Ledger.ext (fun i => ?_) (fun t => ?_) fun k => ?_) fun i => ?_
    · rw [a₅, a₄, latest_latest_comm (hsib.accounts i)]
    · rw [r₅, r₄, latest_latest_comm (hsib.transactions t)]
    · rw [t₅.setting, t₄.setting, latest_latest_comm (hsib.settings k)]
    · rw [f₅, f₂, f₄]
  subst heq
  have hrefl := Siblings.refl (e₅.between hab).consistentLeft
  obtain ⟨z, hz⟩ := hrefl.exists_delivers ((e₅.between hab).drawnLeft.inBound ha hb)
  obtain rfl := s₄.takes_self (hrefl.delivers_iff.mp hz).2
  exact ⟨z, z, e₅, hz, hz⟩

end

end Harmony.Mint
