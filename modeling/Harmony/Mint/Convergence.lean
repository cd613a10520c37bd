import Harmony.Mint.Exchange
import Harmony.Mint.Wedge

/-! When merging a snapshot twice is merging it once, and when a live transaction
outlives an exchange. Both fail on one pattern: the newer version of a
transaction stands under an account that falls, and the older under one that
does not. -/

namespace Harmony.Mint

open Harmony.Lib

section

variable {P : Parsers} {a b x y z : MintState}

/-- The account has a row in `s` that the floor of `r` covers. -/
def FallsTo (r s : MintState) (i : RowId) : Prop :=
  Fallen r.accountDeletionFloor[i]? s.ledger.accounts[i]?

/-- The account has a row in `s` that no floor of the two covers. -/
def StandsIn (r s : MintState) (i : RowId) : Prop :=
  ∃ row, s.ledger.accounts[i]? = some row ∧ ¬Covers s.accountDeletionFloor[i]? row.updatedAt ∧
    ¬Covers r.accountDeletionFloor[i]? row.updatedAt

instance (r s : MintState) (i : RowId) : Decidable (FallsTo r s i) :=
  inferInstanceAs (Decidable (Fallen _ _))

instance (r s : MintState) (i : RowId) : Decidable (StandsIn r s i) :=
  decidable_of_iff (∃ row ∈ s.ledger.accounts[i]?,
    ¬Covers s.accountDeletionFloor[i]? row.updatedAt ∧
      ¬Covers r.accountDeletionFloor[i]? row.updatedAt) Iff.rfl

/-- The account has a row that no floor covers: it is there when the two have exchanged
everything. -/
def Survives (a b : MintState) (i : RowId) : Prop := StandsIn b a i ∨ StandsIn a b i

instance (a b : MintState) (i : RowId) : Decidable (Survives a b i) :=
  inferInstanceAs (Decidable (_ ∨ _))

/-- The newer version of the transaction is in `s` under an account that falls, the older in
`r`. Where the floor of `r` deletes that account of `s`, the older stands in `r` under an
account that stays, to come back from there; where it does not, the older is live under an
account that survives, and is replaced before the newer is deleted. -/
def Stranded (s r : MintState) (t : RowId) : Prop :=
  ∃ newer older, s.ledger.transactions[t]? = some newer ∧ r.ledger.transactions[t]? = some older ∧
    older.updatedAt < newer.updatedAt ∧ ¬Survives s r newer.accountId ∧
    ((FallsTo r s newer.accountId ∧ StandsIn s r older.accountId) ∨
      (¬FallsTo r s newer.accountId ∧ older.deletedAt = none ∧ Survives s r older.accountId))

/-- The snapshot of `r` is merged into `s`, and merging it again changes nothing. -/
def Idempotent (P : Parsers) (s r : MintState) : Prop :=
  ∃ s', Delivers P r s s' ∧ Delivers P r s' s'

/-- Exchanges come to rest; then the two ledgers are one, with every transaction that was
live in either under an account that survives. -/
def Converges (P : Parsers) (a b : MintState) : Prop :=
  (∃ x y, Exchanged P a b x y ∧ Calm P x y) ∧
    ∀ x y, Exchanged P a b x y → Calm P x y → x.ledger = y.ledger ∧
      ∀ (t : RowId) (row : TransactionRow),
        (a.ledger.transactions[t]? = some row ∨ b.ledger.transactions[t]? = some row) →
        row.deletedAt = none → (∃ c, x.ledger.accounts[row.accountId]? = some c) →
        ∃ row', x.ledger.transactions[t]? = some row'

theorem Survives.symm {i : RowId} (h : Survives a b i) : Survives b a i := Or.symm h

/-! ## Merging twice -/

theorem standing_joinFloor (f g : Option Stamp) (row : Option AccountRow) :
    standing (joinFloor f g) row = standing g (standing f row) := by
  refine Option.ext fun c => ?_
  simp only [standing_eq_some, covers_joinFloor, not_or, and_assoc]

/-- The accounts of a merge, as one register. -/
theorem Takes.account_eq (h : Takes x y z) (i : RowId) :
    z.ledger.accounts[i]? = latest AccountRow.updatedAt
      (standing y.accountDeletionFloor[i]? x.ledger.accounts[i]?)
      (standing (joinFloor x.accountDeletionFloor[i]? y.accountDeletionFloor[i]?)
        y.ledger.accounts[i]?) := by
  rw [h.account, meetAccounts, standing_latest, standing_joinFloor]

theorem Takes.meet_again (h : Takes x y z) (i : RowId) :
    meetAccounts z y i = z.ledger.accounts[i]? := by
  rw [meetAccounts, h.floor, h.account_eq, latest_assoc, latest_self]

theorem Takes.again_transaction (h : Takes x y z) {z' : MintState} (h' : Takes z y z') (t : RowId) :
    z'.ledger.transactions[t]? = meetTransactions z y t := by
  rw [h'.transaction]
  refine filter_eq_self fun row _ => ?_
  rw [h.meet_again]
  simpa using h.not_fallen row.accountId

theorem fallen_meet_iff {i : RowId} {c : AccountRow} (hc : x.ledger.accounts[i]? = some c) :
    Fallen y.accountDeletionFloor[i]? (meetAccounts x y i) ↔ FallsTo y x i ∧ ¬Survives x y i := by
  constructor
  · rintro ⟨d, hd, hcov⟩
    obtain ⟨hle, hle'⟩ := le_of_latest hd
    refine ⟨⟨c, hc, hcov.mono (hle c hc)⟩, ?_⟩
    rintro (⟨row, hrow, -, hnot⟩ | ⟨row, hrow, hnot, hnot'⟩)
    · exact hnot (hcov.mono (hle row hrow))
    · exact hnot (hcov.mono (hle' row (standing_eq_some.mpr ⟨hrow, hnot'⟩)))
  · rintro ⟨⟨c', hc', hcov⟩, hdead⟩
    obtain ⟨d, hd⟩ := Option.ne_none_iff_exists'.mp fun hnone : meetAccounts x y i = none => by
      rw [meetAccounts, latest_eq_none, hc] at hnone
      cases hnone.1
    refine ⟨d, hd, ?_⟩
    rcases latest_eq_or AccountRow.updatedAt x.ledger.accounts[i]?
      (standing x.accountDeletionFloor[i]? y.ledger.accounts[i]?) with heq | heq <;>
      rw [meetAccounts, heq] at hd
    · rw [hc'] at hd
      cases hd
      exact hcov
    · obtain ⟨hrow, hnot⟩ := standing_eq_some.mp hd
      by_contra hcon
      exact hdead (Or.inr ⟨d, hrow, hcon, hnot⟩)

theorem not_fallen_meet {i : RowId} (h : StandsIn x y i) :
    ¬Fallen y.accountDeletionFloor[i]? (meetAccounts x y i) := by
  obtain ⟨c, hc, hy, hx⟩ := h
  rintro ⟨d, hd, hcov⟩
  exact hy (hcov.mono ((le_of_latest hd).2 c (standing_eq_some.mpr ⟨hc, hx⟩)))

/-- What a second merge brings back. -/
def Erased (s r : MintState) (t : RowId) : Prop :=
  ∃ newer older, s.ledger.transactions[t]? = some newer ∧ r.ledger.transactions[t]? = some older ∧
    older.updatedAt < newer.updatedAt ∧ ¬Survives s r newer.accountId ∧
    FallsTo r s newer.accountId ∧ StandsIn s r older.accountId

theorem meet_again_iff (hxy : Siblings P x y) (h : Takes x y z) (t : RowId) :
    meetTransactions z y t = z.ledger.transactions[t]? ↔ ¬Erased x y t := by
  cases hold : y.ledger.transactions[t]? with
  | none =>
    have hne : ¬Erased x y t := by
      rintro ⟨_, _, -, h, -⟩
      rw [hold] at h
      cases h
    simp [meetTransactions, hold, hne]
  | some older =>
    obtain ⟨c, hc⟩ := hxy.right.references t older hold
    by_cases hstands : StandsIn x y older.accountId
    · have hoffer : ¬Fallen x.accountDeletionFloor[older.accountId]?
          y.ledger.accounts[older.accountId]? := by
        obtain ⟨row, hrow, -, hnot⟩ := hstands
        rintro ⟨d, hd, hcov⟩
        rw [Option.some.inj (hrow.symm.trans hd)] at hnot
        exact hnot hcov
      have hoffer' : ¬Fallen z.accountDeletionFloor[older.accountId]?
          y.ledger.accounts[older.accountId]? := by
        obtain ⟨row, hrow, hnot, hnot'⟩ := hstands
        rintro ⟨d, hd, hcov⟩
        rw [Option.some.inj (hrow.symm.trans hd)] at hnot hnot'
        rw [h.floor, covers_joinFloor] at hcov
        exact hcov.elim hnot' hnot
      have hkeep := not_fallen_meet hstands
      have hmeet : meetTransactions x y t =
          latest TransactionRow.updatedAt x.ledger.transactions[t]? (some older) := by
        rw [meetTransactions, hold, filter_eq_self fun row hrow => ?_]
        cases hrow
        simpa using hoffer
      have hagain : meetTransactions z y t =
          latest TransactionRow.updatedAt z.ledger.transactions[t]? (some older) := by
        rw [meetTransactions, hold, filter_eq_self fun row hrow => ?_]
        cases hrow
        simpa using hoffer'
      rw [hagain, h.transaction, hmeet]
      by_cases hnew : ∃ newer, x.ledger.transactions[t]? = some newer ∧
          older.updatedAt < newer.updatedAt
      · obtain ⟨newer, hx, hlt⟩ := hnew
        obtain ⟨d, hd⟩ := hxy.left.references t newer hx
        have hfall := fallen_meet_iff (y := y) hd
        rw [hx, latest_some_some, if_neg hlt.asymm, Option.filter_some]
        by_cases hf : Fallen y.accountDeletionFloor[newer.accountId]?
            (meetAccounts x y newer.accountId)
        · obtain ⟨hto, hdead⟩ := hfall.mp hf
          simp only [hf, not_true_eq_false, decide_false, Bool.false_eq_true, if_false, none_latest,
            reduceCtorEq, false_iff, not_not]
          exact ⟨newer, older, hx, hold, hlt, hdead, hto, hstands⟩
        · simp only [hf, not_false_eq_true, decide_true, if_true, latest_some_some, if_neg hlt.asymm,
            true_iff]
          rintro ⟨newer', older', hx', -, -, hdead, hto, -⟩
          rw [hx] at hx'
          cases hx'
          exact hf (hfall.mpr ⟨hto, hdead⟩)
      · have hm : latest TransactionRow.updatedAt x.ledger.transactions[t]? (some older) = some older := by
          cases hx : x.ledger.transactions[t]? with
          | none => rfl
          | some l =>
            rw [latest_some_some]
            split_ifs with hlt
            · rfl
            · rcases (not_lt.mp hlt).lt_or_eq with hlt' | heq
              · exact absurd ⟨l, hx, hlt'⟩ hnew
              · rw [hxy.transactions t l older hx hold heq.symm]
        rw [hm, filter_eq_self fun row hrow => by cases hrow; simpa using hkeep, latest_self]
        refine iff_of_true rfl ?_
        rintro ⟨newer, older', hx, hold', hlt, -⟩
        rw [hold] at hold'
        cases hold'
        exact hnew ⟨newer, hx, hlt⟩
    · -- the account does not stand, so the older version is not offered again
      have hskip : (some older).filter (fun row => ¬Fallen z.accountDeletionFloor[row.accountId]?
          y.ledger.accounts[row.accountId]?) = none := by
        rw [Option.filter_some, if_neg]
        simp only [decide_eq_true_eq, not_not]
        refine ⟨c, hc, ?_⟩
        rw [h.floor, covers_joinFloor]
        by_contra hcon
        rw [not_or] at hcon
        exact hstands ⟨c, hc, hcon.2, hcon.1⟩
      rw [meetTransactions, hold, hskip, latest_none]
      refine iff_of_true rfl ?_
      rintro ⟨newer, older', -, hold', -, -, -, hin⟩
      rw [hold] at hold'
      cases hold'
      exact hstands hin

theorem Siblings.idempotent_iff (hxy : Siblings P x y) {now : Option ℕ} (hy : InBound P now y) :
    Idempotent P x y ↔ ∀ t, ¬Erased x y t := by
  obtain ⟨z, hz⟩ := hxy.exists_delivers hy
  have hbetween := ((Between.start hxy).toLeft hxy hz).2
  have htakes := (hxy.delivers_iff.mp hz).2
  have hzy := hbetween.siblings hxy
  have hagain : Takes z y z ↔ ∀ t, meetTransactions z y t = z.ledger.transactions[t]? := by
    constructor
    · intro h t
      exact (htakes.again_transaction h t).symm
    · intro h
      refine ⟨fun i => ?_, fun t => ?_, fun k => ?_, fun i => ?_⟩
      · rw [htakes.meet_again, standing_eq_self (htakes.not_fallen i)]
      · rw [h]
        refine (filter_eq_self fun row _ => ?_).symm
        rw [htakes.meet_again]
        simpa using htakes.not_fallen row.accountId
      · rw [htakes.setting, latest_assoc, latest_self]
      · rw [htakes.floor, joinFloor_assoc, joinFloor_self]
  simp only [← meet_again_iff hxy htakes, ← hagain]
  constructor
  · rintro ⟨z', hz', hagain'⟩
    obtain rfl := htakes.unique (hxy.delivers_iff.mp hz').2
    exact (hzy.delivers_iff.mp hagain').2
  · intro h
    exact ⟨z, hz, hzy.delivers_iff.mpr ⟨⟨now, hy⟩, h⟩⟩

/-! ## Survival -/

theorem Drawn.not_covers (h : Drawn a b x) {i : RowId} {stamp : Stamp}
    (ha : ¬Covers a.accountDeletionFloor[i]? stamp) (hb : ¬Covers b.accountDeletionFloor[i]? stamp) :
    ¬Covers x.accountDeletionFloor[i]? stamp := by
  rintro ⟨ts, hts, hle⟩
  rcases (h.floor i).eq_or hts with hf | hf
  · exact ha ⟨ts, hf, hle⟩
  · exact hb ⟨ts, hf, hle⟩

/-- An account that stands in one state stands there through every exchange. -/
theorem Exchanged.stands (h : Exchanged P a b x y) (hab : Siblings P a b) {i : RowId}
    {c : AccountRow} (hc : a.ledger.accounts[i]? = some c)
    (ha : ¬Covers a.accountDeletionFloor[i]? c.updatedAt)
    (hb : ¬Covers b.accountDeletionFloor[i]? c.updatedAt) :
    ∃ e, x.ledger.accounts[i]? = some e ∧ c.updatedAt ≤ e.updatedAt := by
  induction h with
  | start => exact ⟨c, hc, le_rfl⟩
  | toRight _ _ ih => exact ih
  | @toLeft x y x' h hd ih =>
    obtain ⟨e, he, hle⟩ := ih
    obtain ⟨htakes, -⟩ := (h.between hab).toLeft hab hd
    obtain ⟨m, hm⟩ := Option.ne_none_iff_exists'.mp fun hnone : meetAccounts x y i = none => by
      rw [meetAccounts, latest_eq_none, he] at hnone
      cases hnone.1
    have hlem := hle.trans ((le_of_latest hm).1 e he)
    refine ⟨m, ?_, hlem⟩
    rw [htakes.account, standing_eq_some]
    exact ⟨hm, fun hcov => (h.between hab).drawnRight.not_covers ha hb (hcov.mono hlem)⟩

theorem Exchanged.not_fallen_meet (h : Exchanged P a b x y) (hab : Siblings P a b) {i : RowId}
    (hi : Survives a b i) : ¬Fallen y.accountDeletionFloor[i]? (meetAccounts x y i) := by
  have hbetween := h.between hab
  -- a row at least as late as one that no floor covers
  have hlate : ∀ (c e : AccountRow), ¬Covers a.accountDeletionFloor[i]? c.updatedAt →
      ¬Covers b.accountDeletionFloor[i]? c.updatedAt → c.updatedAt ≤ e.updatedAt →
      (∀ m, meetAccounts x y i = some m → e.updatedAt ≤ m.updatedAt) →
      ¬Fallen y.accountDeletionFloor[i]? (meetAccounts x y i) := by
    rintro c e ha hb hle hmeet ⟨m, hm, hcov⟩
    exact hbetween.drawnRight.not_covers ha hb (hcov.mono (hle.trans (hmeet m hm)))
  rcases hi with ⟨c, hc, ha, hb⟩ | ⟨c, hc, hb, ha⟩
  · obtain ⟨e, he, hle⟩ := h.stands hab hc ha hb
    exact hlate c e ha hb hle fun m hm => (le_of_latest hm).1 e he
  · obtain ⟨e, he, hle⟩ := h.symm.stands hab.symm hc hb ha
    refine hlate c e ha hb hle fun m hm => (le_of_latest hm).2 e (standing_eq_some.mpr ⟨he, ?_⟩)
    exact fun hcov => hbetween.drawnLeft.not_covers ha hb (hcov.mono hle)

/-- A version under an account that survives stays where it is, if every newer version is
under an account that the floor of its own side takes away. -/
theorem Exchanged.keeps (h : Exchanged P a b x y) (hab : Siblings P a b) {t : RowId}
    {v : TransactionRow} (hv : b.ledger.transactions[t]? = some v)
    (hsurvives : Survives a b v.accountId)
    (hnewer : ∀ l, a.ledger.transactions[t]? = some l → v.updatedAt < l.updatedAt →
      ¬Survives a b l.accountId ∧ FallsTo b a l.accountId) :
    y.ledger.transactions[t]? = some v ∧
      ∀ l, a.ledger.transactions[t]? = some l → v.updatedAt < l.updatedAt →
        ∀ c, x.ledger.accounts[l.accountId]? = some c →
          Covers b.accountDeletionFloor[l.accountId]? c.updatedAt := by
  induction h with
  | start =>
    refine ⟨hv, fun l hl hlt c hc => ?_⟩
    obtain ⟨-, d, hd, hcov⟩ := hnewer l hl hlt
    rw [Option.some.inj (hc.symm.trans hd)]
    exact hcov
  | @toLeft x y x' h hd ih =>
    obtain ⟨hy, hcov⟩ := ih
    have hbetween := h.between hab
    obtain ⟨htakes, -⟩ := hbetween.toLeft hab hd
    refine ⟨hy, fun l hl hlt c hc => ?_⟩
    rw [htakes.account, standing_eq_some] at hc
    rcases latest_eq_or AccountRow.updatedAt x.ledger.accounts[l.accountId]?
      (standing x.accountDeletionFloor[l.accountId]? y.ledger.accounts[l.accountId]?) with heq | heq <;>
      rw [meetAccounts, heq] at hc
    · exact hcov l hl hlt c hc.1
    · -- the row comes from the other side over the floor of this one
      obtain ⟨hrow, hnot⟩ := standing_eq_some.mp hc.1
      have hnota : ¬Covers a.accountDeletionFloor[l.accountId]? c.updatedAt := fun hca =>
        hnot (hbetween.floorLeft _ _ hca)
      by_contra hnotb
      rcases (hbetween.drawnRight.account _).eq_or hrow with hca | hcb
      · exact (hnewer l hl hlt).1 (Or.inl ⟨c, hca, hnota, hnotb⟩)
      · exact (hnewer l hl hlt).1 (Or.inr ⟨c, hcb, hnotb, hnota⟩)
  | @toRight x y y' h hd ih =>
    obtain ⟨hy, hcov⟩ := ih
    have hbetween := h.between hab
    obtain ⟨htakes, -⟩ := hbetween.toRight hab hd
    refine ⟨?_, hcov⟩
    have hmeet : meetTransactions y x t = some v := by
      rw [meetTransactions, hy]
      cases hu : x.ledger.transactions[t]? with
      | none => rfl
      | some u =>
        rcases lt_trichotomy u.updatedAt v.updatedAt with hlt | heq | hgt
        · rw [Option.filter_some]
          split_ifs
          · rw [latest_some_some, if_neg hlt.asymm]
          · rfl
        · rw [Option.filter_some]
          split_ifs
          · rw [latest_some_some, if_neg heq.symm.not_lt]
          · rfl
        · -- a newer version is the other side's, and is not offered
          have hua : a.ledger.transactions[t]? = some u := by
            rcases (hbetween.drawnLeft.transaction t).eq_or hu with hua | hub
            · exact hua
            · rw [hv] at hub
              cases hub
              exact absurd hgt (lt_irrefl _)
          obtain ⟨c, hc⟩ := hbetween.consistentLeft.references t u hu
          rw [Option.filter_some, if_neg, latest_none]
          simp only [decide_eq_true_eq, not_not]
          exact ⟨c, hc, hbetween.floorRight _ _ (hcov u hua hgt c hc)⟩
    rw [htakes.transaction, hmeet]
    refine filter_eq_self fun row hrow => ?_
    cases hrow
    simpa using h.symm.not_fallen_meet hab.symm hsurvives.symm

theorem Calm.survives (h : Exchanged P a b x y) (hcalm : Calm P x y) (hab : Siblings P a b)
    {i : RowId} {c : AccountRow} (hc : x.ledger.accounts[i]? = some c) : Survives a b i := by
  have hbetween := h.between hab
  obtain ⟨-, htakes⟩ := (hbetween.siblings hab).delivers_iff.mp hcalm.1
  obtain rfl := hcalm.eq (hbetween.siblings hab)
  have hnot : ¬Covers x.accountDeletionFloor[i]? c.updatedAt := fun hcov =>
    htakes.not_fallen i ⟨c, hc, hcov⟩
  have hnota := fun hcov => hnot (hbetween.floorLeft i c.updatedAt hcov)
  have hnotb := fun hcov => hnot (hbetween.floorRight i c.updatedAt hcov)
  rcases (hbetween.drawnLeft.account i).eq_or hc with hca | hcb
  · exact Or.inl ⟨c, hca, hnota, hnotb⟩
  · exact Or.inr ⟨c, hcb, hnotb, hnota⟩

/-- A live transaction of one side that no pattern strands is there in the end. -/
theorem Calm.keeps_live (h : Exchanged P a b x y) (hcalm : Calm P x y) (hab : Siblings P a b)
    (hstranded : ∀ t, ¬Stranded a b t) {t : RowId} {v : TransactionRow}
    (hv : b.ledger.transactions[t]? = some v) (hlive : v.deletedAt = none)
    (haccount : ∃ c, x.ledger.accounts[v.accountId]? = some c) :
    ∃ row, x.ledger.transactions[t]? = some row := by
  obtain ⟨c, hc⟩ := haccount
  have hsurvives := Calm.survives h hcalm hab hc
  by_cases hnew : ∃ l, a.ledger.transactions[t]? = some l ∧ v.updatedAt < l.updatedAt ∧
      Survives a b l.accountId
  · obtain ⟨l, hl, hlt, hsl⟩ := hnew
    refine ⟨l, (h.symm.keeps hab.symm hl hsl.symm fun v' hv' hlt' => ?_).1⟩
    rw [hv] at hv'
    cases hv'
    exact absurd hlt' hlt.asymm
  · refine ⟨v, ?_⟩
    have heq := hcalm.eq ((h.between hab).siblings hab)
    rw [heq]
    refine (h.keeps hab hv hsurvives fun l hl hlt => ?_).1
    have hdead : ¬Survives a b l.accountId := fun hsl => hnew ⟨l, hl, hlt, hsl⟩
    refine ⟨hdead, ?_⟩
    by_contra hnot
    exact hstranded t ⟨l, v, hl, hv, hlt, hdead, Or.inr ⟨hnot, hlive, hsurvives⟩⟩

/-- An older version that a newer one reaches before its account is deleted is gone. -/
theorem Exchanged.lost (h : Exchanged P a b x y) (hab : Siblings P a b) {t : RowId}
    {l v : TransactionRow} (hl : a.ledger.transactions[t]? = some l)
    (hv : b.ledger.transactions[t]? = some v) (hlt : v.updatedAt < l.updatedAt)
    (hfalls : ¬FallsTo b a l.accountId) :
    (y = b ∧ x.ledger.transactions[t]? = some l ∧ ∃ c, x.ledger.accounts[l.accountId]? = some c ∧
      ¬Covers b.accountDeletionFloor[l.accountId]? c.updatedAt) ∨
      (x.ledger.transactions[t]? ≠ some v ∧ y.ledger.transactions[t]? ≠ some v) := by
  have hne : l ≠ v := by
    rintro rfl
    exact lt_irrefl _ hlt
  -- a merge brings no version that neither side has
  have hgone : ∀ {s r s' : MintState}, Takes s r s' → s.ledger.transactions[t]? ≠ some v →
      r.ledger.transactions[t]? ≠ some v → s'.ledger.transactions[t]? ≠ some v := by
    intro s r s' htakes hs hr hs'
    rw [htakes.transaction, Option.filter_eq_some_iff, meetTransactions] at hs'
    rcases latest_eq_or TransactionRow.updatedAt s.ledger.transactions[t]?
      (r.ledger.transactions[t]?.filter fun row =>
        ¬Fallen s.accountDeletionFloor[row.accountId]? r.ledger.accounts[row.accountId]?) with
      heq | heq <;> rw [heq] at hs'
    · exact hs hs'.1
    · exact hr (Option.filter_eq_some_iff.mp hs'.1).1
  induction h with
  | start =>
    obtain ⟨c, hc⟩ := hab.left.references t l hl
    exact Or.inl ⟨rfl, hl, c, hc, fun hcov => hfalls ⟨c, hc, hcov⟩⟩
  | @toLeft x y x' h hd ih =>
    obtain ⟨htakes, -⟩ := (h.between hab).toLeft hab hd
    rcases ih with ⟨rfl, hx, c, hc, hnot⟩ | ⟨hx, hy⟩
    · -- the older version does not win, and the account of the newer is not deleted
      have hstands : ¬Fallen y.accountDeletionFloor[l.accountId]? (meetAccounts x y l.accountId) := by
        rintro ⟨m, hm, hcov⟩
        exact hnot (hcov.mono ((le_of_latest hm).1 c hc))
      obtain ⟨m, hm⟩ := Option.ne_none_iff_exists'.mp
        fun hnone : meetAccounts x y l.accountId = none => by
          rw [meetAccounts, latest_eq_none, hc] at hnone
          cases hnone.1
      refine Or.inl ⟨rfl, ?_, m, ?_, fun hcov => hstands ⟨m, hm, hcov⟩⟩
      · have hmeet : meetTransactions x y t = some l := by
          rw [meetTransactions, hx, hv, Option.filter_some]
          split_ifs
          · rw [latest_some_some, if_neg hlt.asymm]
          · rfl
        rw [htakes.transaction, hmeet, Option.filter_some, if_pos (by simpa using hstands)]
      · rw [htakes.account, standing_eq_self hstands, hm]
    · exact Or.inr ⟨hgone htakes hx hy, hy⟩
  | @toRight x y y' h hd ih =>
    obtain ⟨htakes, -⟩ := (h.between hab).toRight hab hd
    rcases ih with ⟨rfl, hx, c, hc, hnot⟩ | ⟨hx, hy⟩
    · -- the newer version replaces the older
      refine Or.inr ⟨fun heq => hne (Option.some.inj (hx.symm.trans heq)), fun hy' => ?_⟩
      have hmeet : meetTransactions y x t = some l := by
        rw [meetTransactions, hx, hv, Option.filter_some, if_pos, latest_some_some, if_pos hlt]
        simp only [decide_eq_true_eq]
        rintro ⟨c', hc', hcov⟩
        rw [hc] at hc'
        cases hc'
        exact hnot hcov
      rw [htakes.transaction, hmeet, Option.filter_eq_some_iff] at hy'
      exact hne (Option.some.inj hy'.1)
    · exact Or.inr ⟨hx, hgone htakes hy hx⟩

theorem Siblings.not_stranded (hab : Siblings P a b) {now : Option ℕ} (hb : InBound P now b)
    (hidem : Idempotent P a b) (hconv : Converges P a b) (t : RowId) : ¬Stranded a b t := by
  rintro ⟨l, v, hl, hv, hlt, hdead, ⟨hfalls, hin⟩ | ⟨hfalls, hlive, hsurvives⟩⟩
  · exact (hab.idempotent_iff hb).mp hidem t ⟨l, v, hl, hv, hlt, hdead, hfalls, hin⟩
  · obtain ⟨⟨x, y, h, hcalm⟩, hrest⟩ := hconv
    have hbetween := h.between hab
    have heq := hcalm.eq (hbetween.siblings hab)
    subst heq
    have haccount : ∃ c, x.ledger.accounts[v.accountId]? = some c := by
      rcases hsurvives with ⟨c, hc, hca, hcb⟩ | ⟨c, hc, hcb, hca⟩
      · obtain ⟨e, he, -⟩ := h.stands hab hc hca hcb
        exact ⟨e, he⟩
      · obtain ⟨e, he, -⟩ := h.symm.stands hab.symm hc hcb hca
        exact ⟨e, he⟩
    obtain ⟨row, hrow⟩ := (hrest x x h hcalm).2 t v (Or.inr hv) hlive haccount
    rcases h.lost hab hl hv hlt hfalls with ⟨rfl, hx, -⟩ | ⟨hx, -⟩
    · rw [hv] at hx
      cases hx
      exact lt_irrefl _ hlt
    · rcases (hbetween.drawnLeft.transaction t).eq_or hrow with hra | hrb
      · rw [hl] at hra
        cases hra
        obtain ⟨c, hc⟩ := hbetween.consistentLeft.references t l hrow
        exact hdead (Calm.survives h hcalm hab hc)
      · rw [hv] at hrb
        cases hrb
        exact hx hrow

/-- No two versions of a row have one stamp. -/
structure VersionsTell (a b : MintState) : Prop where
  accounts : ∀ i : RowId,
    StampsTell AccountRow.updatedAt a.ledger.accounts[i]? b.ledger.accounts[i]?
  transactions : ∀ t : RowId,
    StampsTell TransactionRow.updatedAt a.ledger.transactions[t]? b.ledger.transactions[t]?
  settings : ∀ k : String,
    StampsTell SettingRow.updatedAt a.ledger.settings[k]? b.ledger.settings[k]?

/-- No name is given to two accounts. -/
def NamesApart (a b : MintState) : Prop :=
  ∀ (i j : RowId) (c d : AccountRow), a.ledger.accounts[i]? = some c →
    b.ledger.accounts[j]? = some d → c.name = d.name → i = j

/-- Two ledgers of the fleet merge idempotently and converge, with every live transaction
under an account that survives, exactly when no transaction is stranded between them. -/
theorem merge_converges_iff {w : Fleet} (hw : Fleet.Reachable P w) (ha : w.Holds a)
    (hb : w.Holds b) (now : Option ℕ) (hba : InBound P now a) (hbb : InBound P now b)
    (hversions : VersionsTell a b) (hnames : NamesApart a b) :
    (Idempotent P a b ∧ Idempotent P b a ∧ Converges P a b) ↔
      ∀ t, ¬Stranded a b t ∧ ¬Stranded b a t := by
  have hab : Siblings P a b :=
    { left := hw.sound.consistent a ha
      right := hw.sound.consistent b hb
      births := hw.sound.births a b ha hb
      accounts := hversions.accounts
      transactions := hversions.transactions
      settings := hversions.settings
      names := hnames }
  constructor
  · rintro ⟨hidem, hidem', hconv⟩ t
    refine ⟨hab.not_stranded hbb hidem hconv t, hab.symm.not_stranded hba hidem' ?_ t⟩
    obtain ⟨⟨x, y, h, hcalm⟩, hrest⟩ := hconv
    refine ⟨⟨y, x, h.symm, hcalm.symm⟩, fun x' y' h' hcalm' => ?_⟩
    obtain ⟨heq, hlive⟩ := hrest y' x' h'.symm hcalm'.symm
    refine ⟨heq.symm, fun t row hrow hl haccount => ?_⟩
    rw [← heq] at haccount ⊢
    exact hlive t row hrow.symm hl haccount
  · intro hnot
    have herased : ∀ {s r : MintState} {t : RowId}, Erased s r t → Stranded s r t := by
      rintro s r t ⟨l, v, hl, hv, hlt, hdead, hfalls, hin⟩
      exact ⟨l, v, hl, hv, hlt, hdead, Or.inl ⟨hfalls, hin⟩⟩
    refine ⟨(hab.idempotent_iff hbb).mpr fun t he => (hnot t).1 (herased he),
      (hab.symm.idempotent_iff hba).mpr fun t he => (hnot t).2 (herased he),
      hab.exists_calm hba hbb, fun x y h hcalm => ?_⟩
    have heq := hcalm.eq ((h.between hab).siblings hab)
    refine ⟨by rw [heq], fun t row hrow hlive haccount => ?_⟩
    rcases hrow with hra | hrb
    · rw [heq] at haccount ⊢
      exact Calm.keeps_live h.symm hcalm.symm hab.symm (fun t => (hnot t).2) hra hlive haccount
    · exact Calm.keeps_live h hcalm hab (fun t => (hnot t).1) hrb hlive haccount

end

/-! ## Checks on given ledgers -/

theorem stampsTell_rows_iff {κ υ : Type} [Ord κ] [Std.TransOrd κ] [Std.LawfulEqOrd κ]
    {stamp : υ → Stamp} {t u : BTreeMap κ υ} :
    (∀ k : κ, StampsTell stamp t[k]? u[k]?) ↔
      ∀ p ∈ t.toList, ∀ b ∈ u[p.1]?, stamp p.2 = stamp b → p.2 = b := by
  rw [← forall_rows_iff (Q := fun k v => ∀ b ∈ u[k]?, stamp v = stamp b → v = b)]
  exact ⟨fun h k v hv b hb he => h k v b hv hb he, fun h k v b hv hb he => h k v hv b hb he⟩

theorem versionsTell_iff {a b : MintState} : VersionsTell a b ↔
    (∀ p ∈ a.ledger.accounts.toList, ∀ r ∈ b.ledger.accounts[p.1]?,
      p.2.updatedAt = r.updatedAt → p.2 = r) ∧
    (∀ p ∈ a.ledger.transactions.toList, ∀ r ∈ b.ledger.transactions[p.1]?,
      p.2.updatedAt = r.updatedAt → p.2 = r) ∧
    ∀ p ∈ a.ledger.settings.toList, ∀ r ∈ b.ledger.settings[p.1]?,
      p.2.updatedAt = r.updatedAt → p.2 = r := by
  rw [← stampsTell_rows_iff, ← stampsTell_rows_iff, ← stampsTell_rows_iff]
  exact ⟨fun h => ⟨h.accounts, h.transactions, h.settings⟩, fun h => ⟨h.1, h.2.1, h.2.2⟩⟩

theorem namesApart_iff {a b : MintState} : NamesApart a b ↔
    ∀ p ∈ a.ledger.accounts.toList, ∀ q ∈ b.ledger.accounts.toList, p.2.name = q.2.name → p.1 = q.1 := by
  constructor
  · intro h p hp q hq
    exact h p.1 q.1 p.2 q.2 (mem_toList_iff.mp hp) (mem_toList_iff.mp hq)
  · intro h i j c d hc hd
    exact h (i, c) (mem_toList_iff.mpr hc) (j, d) (mem_toList_iff.mpr hd)

theorem not_stranded_iff {s r : MintState} : (∀ t, ¬Stranded s r t) ↔
    ∀ p ∈ s.ledger.transactions.toList, ∀ older ∈ r.ledger.transactions[p.1]?,
      ¬(older.updatedAt < p.2.updatedAt ∧ ¬Survives s r p.2.accountId ∧
        ((FallsTo r s p.2.accountId ∧ StandsIn s r older.accountId) ∨
          (¬FallsTo r s p.2.accountId ∧ older.deletedAt = none ∧ Survives s r older.accountId))) := by
  constructor
  · intro h p hp older holder hstranded
    exact h p.1 ⟨p.2, older, mem_toList_iff.mp hp, holder, hstranded⟩
  · rintro h t ⟨newer, older, hnewer, holder, hstranded⟩
    exact h (t, newer) (mem_toList_iff.mpr hnewer) older holder hstranded

/-! ## A transaction that comes and goes -/

def booked : MintState :=
  let opened := Op.run sampleParsers (stampAt 1) (openedAt "a1" 0) (.createAccount "Savings" "b1")
  Op.run sampleParsers (stampAt 2) opened (.createTransaction ⟨"2024-05-01", "12.50", "USD", "a1",
    "Groceries", none⟩ "t1")

def followed : MintState := mergedState sampleParsers sampleNow {} booked

def moved : MintState :=
  Op.run sampleParsers (stampAt 3) followed (.deleteAccount "a1" (some "b1") .proceeds (stampAt 3))

def edited : MintState :=
  Op.run sampleParsers (stampAt 4) booked (.updateTransaction "t1" { description := some "Food" })

theorem fresh_put_start {s : MintState} {id : RowId} (ha : s.ledger.accounts[id]? = none)
    (ht : s.ledger.transactions[id]? = none) : (Fleet.put {} 0 s).Fresh id := by
  rintro r (⟨d, rfl⟩ | hr)
  · by_cases hd : d = 0
    · subst hd
      exact ⟨ha, ht⟩
    · simp [Fleet.put, hd, applyMigrations]
  · simp [Fleet.put] at hr

theorem Fleet.put_put (w : Fleet) (d : ℕ) (s s' : MintState) : (w.put d s).put d s' = w.put d s' := by
  simp [Fleet.put]

theorem reachable_booked : Fleet.Reachable sampleParsers (Fleet.put {} 0 booked) := by
  have h₁ := Fleet.Reachable.step reachable_oneOpened
    (.act 0 (stampAt 1) (.createAccount "Savings" "b1") fun id hid => by
      cases hid
      exact fresh_put_start (by decide +kernel) (by decide +kernel))
  rw [oneOpened, Fleet.put_put] at h₁
  have h₂ := h₁.step (.act 0 (stampAt 2) (.createTransaction ⟨"2024-05-01", "12.50", "USD", "a1",
    "Groceries", none⟩ "t1") fun id hid => by
      cases hid
      exact fresh_put_start (by decide +kernel) (by decide +kernel))
  rw [Fleet.put_put] at h₂
  exact h₂

def parted : Fleet :=
  { devices := Function.update (Function.update (fun _ => {}) 1 moved) 0 edited
    published := [booked] }

def apart : Fleet :=
  { devices := Function.update (Function.update (fun _ => {}) 1 followed) 0 edited
    published := [booked] }

theorem reachable_followed : Fleet.Reachable sampleParsers
    { devices := Function.update (Function.update (fun _ => {}) 0 booked) 1 followed
      published := [booked] } := by
  have h₁ := reachable_booked.step (.publish 0 (stampAt 2) (by decide +kernel))
  exact h₁.step (.receive 1 booked followed (stampAt 2) sampleNow (by simp [Fleet.put]) rfl)

theorem reachable_apart : Fleet.Reachable sampleParsers apart := by
  have h := reachable_followed.step (.act 0 (stampAt 4)
    (.updateTransaction "t1" { description := some "Food" }) (by simp [Op.newId]))
  have heq : apart.devices = Function.update (Function.update
      (Function.update (fun _ => {}) 0 booked) 1 followed) 0 edited := by
    funext d
    by_cases h0 : d = 0
    · simp [apart, h0]
    · by_cases h1 : d = 1 <;> simp [apart, h0, h1]
  rw [show apart = ⟨apart.devices, apart.published⟩ from rfl, heq]
  exact h

theorem reachable_parted : Fleet.Reachable sampleParsers parted := by
  have h₃ := reachable_followed.step (.act 1 (stampAt 3)
    (.deleteAccount "a1" (some "b1") .proceeds (stampAt 3)) (by simp [Op.newId]))
  have h₄ := h₃.step (.act 0 (stampAt 4)
    (.updateTransaction "t1" { description := some "Food" }) (by simp [Op.newId]))
  have heq : parted.devices = Function.update (Function.update (Function.update
      (Function.update (fun _ => {}) 0 booked) 1 followed) 1 moved) 0 edited := by
    funext d
    by_cases h0 : d = 0
    · simp [parted, h0]
    · by_cases h1 : d = 1 <;> simp [parted, h0, h1]
  rw [show parted = ⟨parted.devices, parted.published⟩ from rfl, heq]
  exact h₄

/-- Merging the sibling's snapshot deletes the transaction with its account; merging it
again brings the transaction back under the other account. -/
theorem merged_twice_differs :
    Fleet.Reachable sampleParsers parted ∧ parted.Holds edited ∧ parted.Holds moved ∧
      InBound sampleParsers sampleNow edited ∧ InBound sampleParsers sampleNow moved ∧
      VersionsTell edited moved ∧ NamesApart edited moved ∧ ¬Idempotent sampleParsers edited moved := by
  have hw := reachable_parted
  have he : parted.Holds edited := Or.inl ⟨0, rfl⟩
  have hm : parted.Holds moved := Or.inl ⟨1, rfl⟩
  have hbe : InBound sampleParsers sampleNow edited := inBound_iff.mpr (by decide +kernel)
  have hbm : InBound sampleParsers sampleNow moved := inBound_iff.mpr (by decide +kernel)
  have hversions : VersionsTell edited moved := versionsTell_iff.mpr (by decide +kernel)
  have hnames : NamesApart edited moved := namesApart_iff.mpr (by decide +kernel)
  have hsiblings : Siblings sampleParsers edited moved :=
    { left := hw.sound.consistent _ he
      right := hw.sound.consistent _ hm
      births := hw.sound.births _ _ he hm
      accounts := hversions.accounts
      transactions := hversions.transactions
      settings := hversions.settings
      names := hnames }
  refine ⟨hw, he, hm, hbe, hbm, hversions, hnames, fun hidem => ?_⟩
  refine (hsiblings.idempotent_iff hbm).mp hidem "t1" ?_
  have herased : ∃ newer ∈ edited.ledger.transactions["t1"]?,
      ∃ older ∈ moved.ledger.transactions["t1"]?, older.updatedAt < newer.updatedAt ∧
        ¬Survives edited moved newer.accountId ∧ FallsTo moved edited newer.accountId ∧
        StandsIn edited moved older.accountId := by
    decide +kernel
  obtain ⟨newer, hnewer, older, holder, hrest⟩ := herased
  exact ⟨newer, older, hnewer, holder, hrest⟩

/-- Between the edited ledger and a sibling that has not deleted the account nothing is
stranded, and they converge; between it and the sibling that has, they do not. -/
theorem merge_converges_iff_parted :
    (Idempotent sampleParsers edited followed ∧ Idempotent sampleParsers followed edited ∧
      Converges sampleParsers edited followed) ∧
    ((Idempotent sampleParsers edited moved ∧ Idempotent sampleParsers moved edited ∧
      Converges sampleParsers edited moved) ↔ ∀ t, ¬Stranded edited moved t ∧ ¬Stranded moved edited t) := by
  have he : InBound sampleParsers sampleNow edited := inBound_iff.mpr (by decide +kernel)
  constructor
  · have hnone : ∀ t, ¬Stranded edited followed t := not_stranded_iff.mpr (by decide +kernel)
    have hnone' : ∀ t, ¬Stranded followed edited t := not_stranded_iff.mpr (by decide +kernel)
    refine (merge_converges_iff reachable_apart (Or.inl ⟨0, rfl⟩) (Or.inl ⟨1, rfl⟩) sampleNow he
      (inBound_iff.mpr ?_) (versionsTell_iff.mpr ?_) (namesApart_iff.mpr ?_)).mpr
        fun t => ⟨hnone t, hnone' t⟩
    · decide +kernel
    · decide +kernel
    · decide +kernel
  · refine merge_converges_iff reachable_parted (Or.inl ⟨0, rfl⟩) (Or.inl ⟨1, rfl⟩) sampleNow he
      (inBound_iff.mpr ?_) (versionsTell_iff.mpr ?_) (namesApart_iff.mpr ?_)
    · decide +kernel
    · decide +kernel
    · decide +kernel

end Harmony.Mint
