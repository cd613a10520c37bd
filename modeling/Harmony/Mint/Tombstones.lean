import Harmony.Mint.Convergence

/-! How long a deleted transaction stays deleted. Its tombstone is a row like any
other: it goes with its account, and a reassignment stamps it anew. -/

namespace Harmony.Mint

open Harmony.Lib

def MintState.Lists (s : MintState) (t : RowId) : Prop :=
  ∃ row, s.ledger.transactions[t]? = some row ∧ row.deletedAt = none

instance (s : MintState) (t : RowId) : Decidable (s.Lists t) :=
  decidable_of_iff (∃ row ∈ s.ledger.transactions[t]?, row.deletedAt = none) Iff.rfl

/-- What happens to one ledger: a local call at a time, or a snapshot of a sibling's state at
a clock. -/
inductive LedgerEvent where
  | call (now : Stamp) (op : Op)
  | snapshot (r : MintState) (capturedAt : Stamp) (now : Option ℕ)

def MintState.after (P : Parsers) (s : MintState) : LedgerEvent → MintState
  | .call now op => op.run P now s
  | .snapshot r capturedAt now =>
    match handleIncomingDecoded P now s (r.snapshot capturedAt) with
    | .ok s' => s'
    | .error _ => s

def MintState.run (P : Parsers) (s : MintState) (events : List LedgerEvent) : MintState :=
  events.foldl (fun s e => s.after P e) s

/-- The events that may follow the deletion of `t` at `u`: no new row is given its id, and
no snapshot has a version of it stamped `u` or later. -/
def LedgerEvent.Follows (P : Parsers) (t : RowId) (u : Stamp) : LedgerEvent → Prop
  | .call _ op => op.newId ≠ some t
  | .snapshot r _ _ => r.ledger.Consistent P ∧
      ∀ row, r.ledger.transactions[t]? = some row → row.updatedAt < u

section

variable {P : Parsers} {t : RowId} {u : Stamp} {s : MintState}

@[simp] theorem MintState.run_nil (s : MintState) : s.run P [] = s := rfl

@[simp] theorem MintState.run_cons (s : MintState) (e : LedgerEvent) (events : List LedgerEvent) :
    s.run P (e :: events) = (s.after P e).run P events := rfl

theorem MintState.run_append (s : MintState) (es fs : List LedgerEvent) :
    s.run P (es ++ fs) = (s.run P es).run P fs := by
  rw [MintState.run, List.foldl_append]
  rfl

theorem LocalWrite.not_lists {fresh : RowId → Prop} {l l' : Ledger} (h : LocalWrite P fresh l l')
    (hfresh : ¬fresh t) (hl : ¬∃ row, l.transactions[t]? = some row ∧ row.deletedAt = none) :
    ¬∃ row, l'.transactions[t]? = some row ∧ row.deletedAt = none := by
  cases h with
  | nothing => exact hl
  | createAccount id name now _ _ => exact hl
  | renameAccount id row name now _ _ => exact hl
  | purge id =>
    rintro ⟨row, hrow, hlive⟩
    rw [Ledger.purge, Ledger.get_deleteTransactionsOf, Option.filter_eq_some_iff] at hrow
    exact hl ⟨row, hrow.1, hlive⟩
  | reassign id target now _ _ =>
    rintro ⟨row, hrow, hlive⟩
    rw [get_reassignTransactions, Option.map_eq_some_iff] at hrow
    obtain ⟨old, hold, rfl⟩ := hrow
    split_ifs at hlive
    · exact hl ⟨old, hold, hlive⟩
    · exact hl ⟨old, hold, hlive⟩
  | createTransaction id row hid _ _ =>
    rintro ⟨row', hrow', hlive⟩
    rw [BTreeMap.get_insert, if_neg (by rintro rfl; exact hfresh hid)] at hrow'
    exact hl ⟨row', hrow', hlive⟩
  | putTransaction id old row hold _ _ _ hstays =>
    rintro ⟨row', hrow', hlive⟩
    rw [BTreeMap.get_insert] at hrow'
    split_ifs at hrow' with hid
    · subst hid
      cases hrow'
      exact hl ⟨old, hold, hstays hlive⟩
    · exact hl ⟨row', hrow', hlive⟩
  | setting key row => exact hl

theorem MintState.after_snapshot {r s' : MintState} {capturedAt : Stamp} {now : Option ℕ}
    (h : handleIncomingDecoded P now s (r.snapshot capturedAt) = .ok s') :
    s.after P (.snapshot r capturedAt now) = s' := by
  simp only [MintState.after, h]

/-- What a snapshot does: nothing, or a merge. -/
theorem MintState.after_snapshot_cases {r : MintState} (hr : r.ledger.Consistent P) (s : MintState)
    (capturedAt : Stamp) (now : Option ℕ) :
    s.after P (.snapshot r capturedAt now) = s ∨
      (NamesFree P now s.accountDeletionFloor s.ledger r.ledger ∧
        Merged P now s r (s.after P (.snapshot r capturedAt now))) := by
  cases hmerge : handleIncomingDecoded P now s (r.snapshot capturedAt) with
  | error _ =>
    left
    simp only [MintState.after, hmerge]
  | ok s' =>
    right
    rw [MintState.after_snapshot hmerge]
    exact (handleIncomingDecoded_eq_ok hr capturedAt).mp hmerge

theorem MintState.after_consistent {e : LedgerEvent} (he : e.Follows P t u)
    (hs : s.ledger.Consistent P) : (s.after P e).ledger.Consistent P := by
  cases e with
  | call now op =>
    have hwrites : LocalWrite P (fun _ => True) s.ledger (op.run P now s).ledger :=
      Op.run_writes hs now fun _ _ => trivial
    exact hwrites.consistent hs
  | snapshot r capturedAt now =>
    rcases MintState.after_snapshot_cases he.1 s capturedAt now with heq | ⟨hfree, hmerged⟩
    · rw [heq]
      exact hs
    · exact hmerged.consistent hfree hs he.1

/-- When a snapshot comes with a live version of `t` that it may write, the ledger still holds
a row of `t`, stamped no earlier. -/
def LedgerEvent.Remembered (P : Parsers) (s : MintState) (t : RowId) : LedgerEvent → Prop
  | .call _ _ => True
  | .snapshot r _ now => ∀ row, r.ledger.transactions[t]? = some row → row.deletedAt = none →
      NamesFree P now s.accountDeletionFloor s.ledger r.ledger → ¬Rejects P now row.updatedAt →
      ¬Skips P now s r row.accountId →
      ¬Falls P now r.accountDeletionFloor[row.accountId]? (incomingAccount P now s r row.accountId) →
      ∃ held, s.ledger.transactions[t]? = some held ∧ row.updatedAt ≤ held.updatedAt

theorem LedgerEvent.Remembered.not_lists {e : LedgerEvent} (he : e.Follows P t u)
    (hs : s.ledger.Consistent P) (h : e.Remembered P s t) (hnot : ¬s.Lists t) :
    ¬(s.after P e).Lists t := by
  cases e with
  | call now op =>
    have hwrites : LocalWrite P (fun id => id ≠ t) s.ledger (op.run P now s).ledger :=
      Op.run_writes hs now fun id hid heq => he (heq ▸ hid)
    exact hwrites.not_lists (by simp) hnot
  | snapshot r capturedAt now =>
    rcases MintState.after_snapshot_cases he.1 s capturedAt now with heq | ⟨hfree, hmerged⟩
    · rw [heq]
      exact hnot
    · rintro ⟨row, hrow, hlive⟩
      obtain ⟨hin, hstands⟩ := hmerged.get_transaction.mp hrow
      rcases incomingTransaction_eq_some hin with ⟨row', hrow', hw, rfl⟩ | hheld
      · obtain ⟨held, hheld, hle⟩ := h row' hrow' hlive hfree hw.2.1 hw.1 hstands
        exact absurd (hw.2.2.2 held hheld) hle.not_gt
      · exact hnot ⟨row, hheld, hlive⟩

theorem LedgerEvent.lists_of_not_remembered {e : LedgerEvent} (he : e.Follows P t u)
    (h : ¬e.Remembered P s t) : (s.after P e).Lists t := by
  cases e with
  | call now op => exact absurd trivial h
  | snapshot r capturedAt now =>
    unfold LedgerEvent.Remembered at h
    push Not at h
    obtain ⟨row, hrow, hlive, hfree, hrej, hskip, hstands, hnone⟩ := h
    have hmerged := merged_mergedState P now s r
    have hok := (handleIncomingDecoded_eq_ok he.1 capturedAt).mpr ⟨hfree, hmerged⟩
    have hw : TransactionWritten P now (Skips P now s r row.accountId) s.ledger.transactions[t]? row :=
      ⟨hskip, hrej, fun hl => he.1.valid t row hrow hl, fun held hheld => hnone held hheld⟩
    refine ⟨row.bornAs s.ledger.transactions[t]?, ?_, hlive⟩
    rw [MintState.after_snapshot hok, hmerged.get_transaction]
    refine ⟨?_, hstands⟩
    rw [incomingTransaction, hrow, Option.elim_some, transactionMet, if_pos hw]

/-- After a deletion, the transaction is listed in no later state exactly when every snapshot
meets the memory of it. -/
theorem deleted_stays_iff {s₀ : MintState} (hs₀ : s₀.ledger.Consistent P) {row : TransactionRow}
    (hrow : s₀.ledger.transactions[t]? = some row) (hlive : row.deletedAt = none)
    {events : List LedgerEvent} (hevents : ∀ e ∈ events, e.Follows P t u) :
    let s := Op.run P u s₀ (.deleteTransaction t)
    (∀ pre, pre <+: events → ¬(s.run P pre).Lists t) ↔
      ∀ pre e post, events = pre ++ e :: post → e.Remembered P (s.run P pre) t := by
  intro s
  have hstart : ¬s.Lists t := by
    rintro ⟨row', hrow', hlive'⟩
    simp only [s, Op.run, Mint.deleteTransaction, hrow, hlive, Option.isNone_none, if_true,
      Ledger.after, pure, Except.pure, BTreeMap.get_insert, Option.some.injEq] at hrow'
    rw [← hrow'] at hlive'
    cases hlive'
  have hconsistent : s.ledger.Consistent P := by
    have hwrites : LocalWrite P (fun _ => True) s₀.ledger s.ledger :=
      Op.run_writes hs₀ u fun _ _ => trivial
    exact hwrites.consistent hs₀
  -- every state of the run is consistent
  have hall : ∀ pre, pre <+: events → (s.run P pre).ledger.Consistent P := by
    intro pre
    induction pre using List.reverseRecOn with
    | nil => exact fun _ => hconsistent
    | append_singleton pre e ih =>
      intro hpre
      rw [MintState.run_append]
      have he : e ∈ events := hpre.subset (by simp)
      exact MintState.after_consistent (hevents e he) (ih ((List.prefix_append _ _).trans hpre))
  constructor
  · intro hnot pre e post hsplit
    by_contra hcon
    have hpre : pre ++ [e] <+: events := ⟨post, by simp [hsplit]⟩
    refine hnot _ hpre ?_
    rw [MintState.run_append]
    exact LedgerEvent.lists_of_not_remembered (hevents e (by simp [hsplit])) hcon
  · intro hremembered pre
    induction pre using List.reverseRecOn with
    | nil => exact fun _ => hstart
    | append_singleton pre e ih =>
      intro hpre
      obtain ⟨post, hpost⟩ := hpre
      have hshort : pre <+: events := ⟨e :: post, by simp [← hpost]⟩
      rw [MintState.run_append]
      exact (hremembered pre e post (by simp [← hpost])).not_lists
        (hevents e (by simp [← hpost])) (hall pre hshort) (ih hshort)

end

/-! ## A deletion that is forgotten -/

/-- The account of the tombstone is deleted, then the sibling that moved the transaction
sends what it has. -/
def forgetting : List LedgerEvent :=
  [.call (stampAt 5) (.deleteAccount "a1" none .proceeds (stampAt 5)),
    .snapshot moved (stampAt 3) sampleNow]

theorem consistent_moved : moved.ledger.Consistent sampleParsers :=
  reachable_parted.sound.consistent moved (Or.inl ⟨1, rfl⟩)

theorem forgetting_follows : ∀ e ∈ forgetting, e.Follows sampleParsers "t1" (stampAt 4) := by
  have hstamps : ∀ row ∈ moved.ledger.transactions["t1"]?, row.updatedAt < stampAt 4 := by
    decide +kernel
  intro e he
  simp only [forgetting, List.mem_cons, List.not_mem_nil, or_false] at he
  rcases he with rfl | rfl
  · simp [LedgerEvent.Follows, Op.newId]
  · exact ⟨consistent_moved, hstamps⟩

/-- The deleted transaction is listed again. -/
theorem deletion_forgotten :
    Fleet.Reachable sampleParsers (Fleet.put {} 0 booked) ∧ (Fleet.put {} 0 booked).Holds booked ∧
      booked.Lists "t1" ∧ (∀ e ∈ forgetting, e.Follows sampleParsers "t1" (stampAt 4)) ∧
      ((Op.run sampleParsers (stampAt 4) booked (.deleteTransaction "t1")).run sampleParsers
        forgetting).Lists "t1" :=
  ⟨reachable_booked, Or.inl ⟨0, rfl⟩, by decide +kernel, forgetting_follows, by decide +kernel⟩

theorem deleted_stays_iff_forgetting :
    let s := Op.run sampleParsers (stampAt 4) booked (.deleteTransaction "t1")
    (∀ pre, pre <+: forgetting → ¬(s.run sampleParsers pre).Lists "t1") ↔
      ∀ pre e post, forgetting = pre ++ e :: post →
        e.Remembered sampleParsers (s.run sampleParsers pre) "t1" := by
  have hrow : ∃ row ∈ booked.ledger.transactions["t1"]?, row.deletedAt = none := by decide +kernel
  obtain ⟨row, hrow, hlive⟩ := hrow
  exact deleted_stays_iff (reachable_booked.sound.consistent booked (Or.inl ⟨0, rfl⟩)) hrow hlive
    forgetting_follows

end Harmony.Mint
