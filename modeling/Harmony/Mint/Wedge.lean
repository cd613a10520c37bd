import Harmony.Mint.Fleet

/-! When a sibling's snapshot can be merged. References between the tables never
stop a merge; a name that two devices gave to two accounts does. -/

namespace Harmony.Mint

open Harmony.Lib

/-- A snapshot of a state that the owner's devices reach is merged, on any of them, exactly
when no row that it writes takes the name of another account of the receiver. -/
theorem merge_succeeds_iff_namesFree {P : Parsers} {w : Fleet} (hw : Fleet.Reachable P w)
    (s : MintState) {r : MintState} (hr : w.Holds r) (now : Option ℕ) (capturedAt : Stamp) :
    (∃ result, applyRemoteSnapshot P now s.ledger (r.snapshot capturedAt) s.accountDeletionFloor =
      .ok result) ↔ NamesFree P now s.accountDeletionFloor s.ledger r.ledger := by
  have hconsistent := hw.sound.consistent r hr
  constructor
  · rintro ⟨result, h⟩
    exact ((applyRemoteSnapshot_eq_ok P now hconsistent capturedAt result).mp h).1
  · intro hfree
    exact ⟨_, (applyRemoteSnapshot_eq_ok P now hconsistent capturedAt _).mpr ⟨hfree, rfl⟩⟩

/-! ## Two devices and one name -/

def minutes : List Stamp :=
  ["2024-05-01T10:00:00+00:00", "2024-05-01T10:01:00+00:00", "2024-05-01T10:02:00+00:00",
    "2024-05-01T10:03:00+00:00", "2024-05-01T10:04:00+00:00", "2024-05-01T10:05:00+00:00"]

def sampleParsers : Parsers where
  naiveDate s := s = "2024-05-01"
  decimal s := s = "12.50"
  jsonError _ := some "expected value at line 1 column 1"
  rfc3339 s :=
    if s = epochStamp then some (0, 0)
    else if s ∈ minutes then some (1714557600000 + 60000 * minutes.idxOf s, 0)
    else none

def sampleNow : Option ℕ := some (1714557600000 + 360000)

def stampAt (minute : ℕ) : Stamp := minutes.getD minute ""

def openedAt (id : RowId) (minute : ℕ) : MintState :=
  Op.run sampleParsers (stampAt minute) {} (.createAccount "Chase" id)

theorem fresh_start (id : RowId) : Fleet.Fresh {} id := by
  rintro s (⟨_, rfl⟩ | hs)
  · simp [applyMigrations]
  · simp at hs

def oneOpened : Fleet := Fleet.put {} 0 (openedAt "a1" 0)

theorem reachable_oneOpened : Fleet.Reachable sampleParsers oneOpened :=
  .step .start (.act 0 (stampAt 0) (.createAccount "Chase" "a1") fun id _ => fresh_start id)

theorem merge_succeeds_iff_namesFree_opened :
    ∃ s r : MintState, Fleet.Reachable sampleParsers oneOpened ∧ oneOpened.Holds r ∧
      ((∃ result, applyRemoteSnapshot sampleParsers sampleNow s.ledger (r.snapshot (stampAt 1))
        s.accountDeletionFloor = .ok result) ↔
        NamesFree sampleParsers sampleNow s.accountDeletionFloor s.ledger r.ledger) :=
  ⟨oneOpened.devices 1, oneOpened.devices 0, reachable_oneOpened, Or.inl ⟨0, rfl⟩,
    merge_succeeds_iff_namesFree reachable_oneOpened _ (Or.inl ⟨0, rfl⟩) _ _⟩

def bothOpened : Fleet := oneOpened.put 1 (openedAt "b1" 1)

theorem reachable_bothOpened : Fleet.Reachable sampleParsers bothOpened := by
  refine .step reachable_oneOpened (.act 1 (stampAt 1) (.createAccount "Chase" "b1") ?_)
  rintro id hid s (⟨d, rfl⟩ | hs)
  · cases hid
    by_cases hd : d = 0
    · subst hd
      decide +kernel
    · simp [oneOpened, Fleet.put, hd, applyMigrations]
  · simp [oneOpened, Fleet.put] at hs

/-- Neither device can merge the other's snapshot again. -/
theorem same_name_wedges :
    Fleet.Reachable sampleParsers bothOpened ∧
      bothOpened.Holds (openedAt "a1" 0) ∧ bothOpened.Holds (openedAt "b1" 1) ∧
      ¬∃ result, applyRemoteSnapshot sampleParsers sampleNow (openedAt "a1" 0).ledger
        ((openedAt "b1" 1).snapshot (stampAt 2)) (openedAt "a1" 0).accountDeletionFloor = .ok result := by
  refine ⟨reachable_bothOpened, Or.inl ⟨0, rfl⟩, Or.inl ⟨1, rfl⟩, ?_⟩
  rintro ⟨result, h⟩
  have herr : applyRemoteSnapshot sampleParsers sampleNow (openedAt "a1" 0).ledger
      ((openedAt "b1" 1).snapshot (stampAt 2)) (openedAt "a1" 0).accountDeletionFloor =
        .error .uniqueName := rfl
  rw [herr] at h
  cases h

end Harmony.Mint
