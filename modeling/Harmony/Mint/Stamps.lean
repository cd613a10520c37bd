import Harmony.Lib.Rfc3339
import Harmony.Mint.Merge

/-! Stamps are compared as texts and denote instants. -/

namespace Harmony.Mint

open Harmony.Lib

section

variable (P : Parsers)

def instant (stamp : Stamp) : Option ℤ :=
  if (parseRfc3339Ms P stamp).isSome then (P.rfc3339 stamp).map Prod.fst else none

/-- An upsert takes an edit stamped with the second stamp over a row with the first. -/
inductive Prefers : Stamp → Stamp → Prop
  | account {now : Option ℕ} {floor : BTreeMap RowId Stamp} {l l' : Ledger} {id : RowId}
      {held r : AccountRow} {outcome : UpsertOutcome} :
      l.accounts[id]? = some held → upsertAccountLww P now floor l id r = .ok (outcome, l') →
      l'.accounts[id]? ≠ some held → Prefers held.updatedAt r.updatedAt
  | transaction {now : Option ℕ} {l l' : Ledger} {id : RowId} {held r : TransactionRow} :
      l.transactions[id]? = some held → upsertTransactionLww P now l id r = .ok l' →
      l'.transactions[id]? ≠ some held → Prefers held.updatedAt r.updatedAt
  | setting {now : Option ℕ} {l : Ledger} {key : String} {held r : SettingRow} :
      l.settings[key]? = some held → (upsertSettingLww P now l key r).settings[key]? ≠ some held →
      Prefers held.updatedAt r.updatedAt

end

variable {P : Parsers} {s s' : Stamp}

theorem Prefers.lt (h : Prefers P s s') : s < s' := by
  cases h with
  | @account now floor l l' id held r outcome hid hup hne =>
    obtain ⟨-, he⟩ := (upsertAccountLww_eq_ok P now floor l id r _).mp hup
    obtain ⟨-, rfl⟩ := Prod.mk.inj he
    by_contra hlt
    refine hne ?_
    rw [Ledger.meetAccount_of_not_written P now fun hw => hlt (hw.2.2 held hid), hid]
  | @transaction now l l' id held r hid hup hne =>
    have hm : mergeTransaction P now ∅ l (id, r) = .ok l' := by
      rw [mergeTransaction, if_neg (Finset.notMem_empty _), hup]
    obtain ⟨-, rfl⟩ := (mergeTransaction_eq_ok P now ∅ l (id, r) l').mp hm
    by_contra hlt
    refine hne ?_
    rw [transactionStep, BTreeMap.alter_eq_self, hid]
    rw [transactionMet, if_neg fun hw => hlt (hw.2.2.2 held hid)]
  | @setting now l key held r hkey hne =>
    by_contra hlt
    refine hne ?_
    rw [upsertSettingLww_eq, BTreeMap.alter_eq_self, hkey]
    rw [settingMet, if_neg fun hw => hlt (hw.2 held hkey)]

theorem instant_eq_some {t : ℤ} (h : instant P s = some t) : P.rfc3339 s = some (t, 0) := by
  unfold instant parseRfc3339Ms at h
  cases hs : P.rfc3339 s with
  | none => simp [hs] at h
  | some p =>
    obtain ⟨ms, offset⟩ := p
    by_cases hz : offset = 0
    · simp only [hs, hz, ne_eq, not_true_eq_false, ↓reduceIte, Option.isSome_some, Option.map_some,
        Option.some.injEq] at h
      rw [h, hz]
    · simp [hs, hz] at h

/-- Accepted stamps a second or more apart sort like their instants, and no upsert prefers
the older edit, except where one day is written with `T` in the first stamp, with `t`
in the second, and the second has the earlier time of day. The parser is assumed to accept
RFC 3339 and nothing else: not the blank between date and time, nor the minus sign U+2212
of an offset, which a laxer parser takes as well. -/
theorem stamps_sort_iff (hP : ∀ text, P.rfc3339 text = Rfc3339.parse text) {t t' : ℤ}
    (h : instant P s = some t) (h' : instant P s' = some t') (hgap : 1000 ≤ |t - t'|) :
    ((s < s' → t < t') ∧ (Prefers P s s' → t < t')) ↔ ¬Rfc3339.Misordered s s' := by
  have hs := instant_eq_some h
  have hs' := instant_eq_some h'
  rw [hP] at hs hs'
  rw [← Rfc3339.lt_imp_lt_iff hs hs' hgap]
  exact ⟨fun hb => hb.1, fun hlt => ⟨hlt, fun hp => hlt hp.lt⟩⟩

/-- Parsers that read stamps as RFC 3339 says, and nothing else. -/
def stampParsers : Parsers where
  naiveDate _ := false
  decimal _ := false
  jsonError _ := none
  rfc3339 := Rfc3339.parse

theorem stamps_sort_iff_utc :
    (("2024-05-01T10:00:00.5+00:00" < "2024-05-01T10:00:02Z" → (1714557600500 : ℤ) < 1714557602000) ∧
      (Prefers stampParsers "2024-05-01T10:00:00.5+00:00" "2024-05-01T10:00:02Z" →
        (1714557600500 : ℤ) < 1714557602000)) ↔
      ¬Rfc3339.Misordered "2024-05-01T10:00:00.5+00:00" "2024-05-01T10:00:02Z" :=
  stamps_sort_iff (fun _ => rfl) (by decide +kernel) (by decide +kernel) (by decide)

/-- An edit with a small `t` is taken over one that is two seconds younger. -/
theorem lower_case_separator_wins :
    instant stampParsers "2024-05-01T10:00:02Z" = some 1714557602000 ∧
      instant stampParsers "2024-05-01t10:00:00Z" = some 1714557600000 ∧
      "2024-05-01T10:00:02Z" < "2024-05-01t10:00:00Z" ∧
      Prefers stampParsers "2024-05-01T10:00:02Z" "2024-05-01t10:00:00Z" := by
  refine ⟨by decide +kernel, by decide +kernel, by decide +kernel, ?_⟩
  let held : SettingRow := ⟨"dark", "2024-05-01T10:00:02Z"⟩
  let l : Ledger := { settings := (∅ : BTreeMap String SettingRow).insert "theme" held }
  exact @Prefers.setting stampParsers none l "theme" held ⟨"light", "2024-05-01t10:00:00Z"⟩
    (by decide +kernel) (by decide +kernel)

end Harmony.Mint
