import Harmony.Lib.BinarySearch
import Harmony.Owner.DeviceCache

/-! The device cache with the three parallel vectors of its entries. An update is zipped,
sorted, merged, capped and unzipped; a cached entry is looked up device by device with a
binary search. Over entries whose devices ascend this is the update of rows. -/

namespace Harmony.Owner

open Harmony.Lib
open Harmony.Membership (OwnerAddr Hlc)

structure DeviceVectors where
  devices : List DeviceIdentityHash
  deviceIdentityPubs : List (Option IdentityPub)
  learnedAt : Hlc
  deviceTunnelContacts : List (Option DeviceTunnelContact)
deriving DecidableEq

def mergePub : Option IdentityPub → Option IdentityPub → Option (Option IdentityPub)
  | none, none => some none
  | none, some p => some (some p)
  | some p, none => some (some p)
  | some a, some b => if a = b then some (some a) else none

section Walk

variable {ε ε' : Type}

/-- One round of the walk over the sorted triples: the triple joins the last merged one if
that is of its device. -/
def mergeStep (conflict : DeviceIdentityHash → ε) (merged : List DeviceRow) (row : DeviceRow) :
    Except ε (List DeviceRow) :=
  match merged.getLast? with
  | none => .ok (merged ++ [row])
  | some prev =>
    if prev.device = row.device then
      match mergePub prev.identityPub row.identityPub with
      | none => .error (conflict row.device)
      | some pub =>
        let contact := if row.tunnelContact.isSome then row.tunnelContact else prev.tunnelContact
        .ok (merged.dropLast ++ [⟨prev.device, pub, contact⟩])
    else .ok (merged ++ [row])

def mergeSorted (conflict : DeviceIdentityHash → ε) (rows : List DeviceRow) :
    Except ε (List DeviceRow) :=
  rows.foldlM (mergeStep conflict) []

end Walk

namespace DeviceVectors

def ofRows (rows : List DeviceRow) (learnedAt : Hlc) : DeviceVectors where
  devices := rows.map DeviceRow.device
  deviceIdentityPubs := rows.map DeviceRow.identityPub
  learnedAt := learnedAt
  deviceTunnelContacts := rows.map DeviceRow.tunnelContact

def ofEntry (e : OwnerDeviceEntry) : DeviceVectors := ofRows e.devices e.learnedAt

end DeviceVectors

/-- The part of `apply_owner_device_update` before its stamp is looked at. -/
def sanitizeVectors (keys : IdentityKeys) (addr : OwnerAddr) (u : DeviceUpdate) :
    Except InvariantFailure DeviceVectors := do
  let merged ← mergeSorted (.conflictingIdentityPubs addr) (sortBy DeviceRow.device u.zipped)
  let merged := merged.take maxDevicesPerOwner
  merged.forM (checkPub keys addr)
  let sanitized := DeviceVectors.ofRows merged u.learnedAt
  ensure (sanitized.deviceTunnelContacts.reduceOption.all DeviceTunnelContact.hasValidKeySizes)
    (.tunnelContactInvalid addr)
  pure sanitized

/-- A way out of the merge with the cached entry: an index out of bounds panics. -/
inductive Stop where
  | panic
  | reject (failure : InvariantFailure)
deriving DecidableEq

/-- What is cached of a pub stays, a new pub is adopted, two pubs must agree. -/
def mergedPub (addr : OwnerAddr) (existing : DeviceVectors) (device : DeviceIdentityHash)
    (newPub : Option IdentityPub) : Except Stop (Option IdentityPub) :=
  match binarySearch existing.devices device with
  | none => .ok newPub
  | some idx =>
    match existing.deviceIdentityPubs[idx]? with
    | none => .error .panic
    | some cached =>
      match mergePub cached newPub with
      | none => .error (.reject (.conflictingCachedPub addr device))
      | some pub => .ok pub

/-- The newer contact wins, unless there is none. -/
def mergedContact (existing : DeviceVectors) (device : DeviceIdentityHash)
    (newContact : Option DeviceTunnelContact) : Except Stop (Option DeviceTunnelContact) :=
  match binarySearch existing.devices device with
  | none => .ok newContact
  | some idx =>
    match existing.deviceTunnelContacts[idx]? with
    | none => .error .panic
    | some cached => .ok (if cached.isSome ∧ newContact.isNone then cached else newContact)

def mergeExisting (addr : OwnerAddr) (existing new : DeviceVectors) : Except Stop DeviceVectors := do
  let pubs ← (new.devices.zip new.deviceIdentityPubs).mapM fun p => mergedPub addr existing p.1 p.2
  let contacts ←
    (new.devices.zip new.deviceTunnelContacts).mapM fun p => mergedContact existing p.1 p.2
  pure { new with deviceIdentityPubs := pubs, deviceTunnelContacts := contacts }

/-- `OwnerState::apply_owner_device_update` on the vectors; none is a panic. -/
def applyVectors (keys : IdentityKeys) (cache : BTreeMap OwnerAddr DeviceVectors) (addr : OwnerAddr)
    (u : DeviceUpdate) : Option (BTreeMap OwnerAddr DeviceVectors × ApplyOutcome) :=
  match sanitizeVectors keys addr u with
  | .error e => some (cache, .rejected (.invariantFail e))
  | .ok new =>
    match cache[addr]? with
    | none => some (cache.insert addr new, .inserted)
    | some existing =>
      if isStrictlyNewerThan existing.learnedAt u.learnedAt then
        some (cache, .rejected (.staleHlc .ownerDeviceEntry u.learnedAt.deviceId))
      else if existing.learnedAt = u.learnedAt then
        if existing.devices = new.devices ∧ existing.deviceIdentityPubs = new.deviceIdentityPubs ∧
            existing.deviceTunnelContacts = new.deviceTunnelContacts then
          some (cache, .merged none)
        else some (cache, .rejected (.invariantFail (.devicesDiverge addr)))
      else
        match mergeExisting addr existing new with
        | .error .panic => none
        | .error (.reject e) => some (cache, .rejected (.invariantFail e))
        | .ok merged => some (cache.insert addr merged, .merged none)

/-! ### The walk is the join of runs -/

section Walk

variable {ε : Type}

theorem agreePubs_eq (failure : InvariantFailure) (a b : Option IdentityPub) :
    agreePubs failure a b = if (mergePub a b).isSome then .ok () else .error failure := by
  cases a with
  | none => cases b <;> rfl
  | some a =>
    cases b with
    | none => rfl
    | some b => by_cases hab : a = b <;> simp [agreePubs, mergePub, ensure, hab]

theorem mergePub_eq_some {a b c : Option IdentityPub} (h : mergePub a b = some c) :
    c = a.or b ∧ c = b.or a := by
  cases a with
  | none => cases b <;> cases h <;> simp
  | some a =>
    cases b with
    | none => cases h; simp
    | some b =>
      rw [mergePub] at h
      split_ifs at h with hab
      cases h
      simp [hab]

theorem joinRows_eq (addr : OwnerAddr) (prev row : DeviceRow) :
    joinRows addr prev row =
      match mergePub prev.identityPub row.identityPub with
      | none => .error (.conflictingIdentityPubs addr row.device)
      | some pub => .ok ⟨prev.device, pub, row.tunnelContact.or prev.tunnelContact⟩ := by
  rw [joinRows, agreePubs_eq]
  cases hpub : mergePub prev.identityPub row.identityPub with
  | none => rfl
  | some pub =>
    rw [(mergePub_eq_some hpub).1]
    rfl

theorem mergeStep_concat (conflict : DeviceIdentityHash → ε) (merged : List DeviceRow)
    (prev row : DeviceRow) :
    mergeStep conflict (merged ++ [prev]) row =
      if prev.device = row.device then
        match mergePub prev.identityPub row.identityPub with
        | none => .error (conflict row.device)
        | some pub => .ok (merged ++ [⟨prev.device, pub, row.tunnelContact.or prev.tunnelContact⟩])
      else .ok (merged ++ [prev] ++ [row]) := by
  have hcontact : (if row.tunnelContact.isSome then row.tunnelContact else prev.tunnelContact) =
      row.tunnelContact.or prev.tunnelContact := by
    cases row.tunnelContact <;> rfl
  simp only [mergeStep, List.getLast?_concat, List.dropLast_concat, hcontact]

theorem foldlM_mergeStep (addr : OwnerAddr) (rest merged : List DeviceRow) (prev : DeviceRow) :
    rest.foldlM (mergeStep (.conflictingIdentityPubs addr)) (merged ++ [prev]) =
      (joinRuns addr prev rest).map (merged ++ ·) := by
  induction rest generalizing merged prev with
  | nil => rfl
  | cons row rest ih =>
    rw [List.foldlM_cons, mergeStep_concat, joinRuns]
    split_ifs with hd
    · rw [joinRows_eq]
      cases mergePub prev.identityPub row.identityPub with
      | none => rfl
      | some pub => exact ih merged _
    · refine (ih (merged ++ [prev]) row).trans ?_
      cases joinRuns addr row rest with
      | error e => rfl
      | ok out => simp [Except.map]

theorem mergeSorted_eq_joinSorted (addr : OwnerAddr) (rows : List DeviceRow) :
    mergeSorted (.conflictingIdentityPubs addr) rows = joinSorted addr rows := by
  cases rows with
  | nil => rfl
  | cons row rest =>
    refine (foldlM_mergeStep addr rest [] row).trans ?_
    rw [joinSorted]
    cases joinRuns addr row rest <;> rfl

theorem mergeSorted_mapError (conflict : DeviceIdentityHash → ε) (rows : List DeviceRow) :
    mergeSorted conflict rows = (mergeSorted id rows).mapError conflict := by
  suffices h : ∀ merged, rows.foldlM (mergeStep conflict) merged =
      (rows.foldlM (mergeStep id) merged).mapError conflict from h []
  induction rows with
  | nil => exact fun _ => rfl
  | cons row rest ih =>
    intro merged
    have hstep : mergeStep conflict merged row = (mergeStep id merged row).mapError conflict := by
      unfold mergeStep
      cases merged.getLast? with
      | none => rfl
      | some prev =>
        by_cases hd : prev.device = row.device
        · simp only [if_pos hd]
          cases mergePub prev.identityPub row.identityPub <;> rfl
        · simp only [if_neg hd]
          rfl
    rw [List.foldlM_cons, List.foldlM_cons, hstep]
    cases mergeStep id merged row with
    | error e => rfl
    | ok merged' => exact ih merged'

end Walk

theorem ofRows_contacts_all (rows : List DeviceRow) (learnedAt : Hlc) :
    (DeviceVectors.ofRows rows learnedAt).deviceTunnelContacts.reduceOption.all
        DeviceTunnelContact.hasValidKeySizes =
      rows.all fun row => row.tunnelContact.all DeviceTunnelContact.hasValidKeySizes := by
  change (rows.map DeviceRow.tunnelContact).reduceOption.all _ = _
  induction rows with
  | nil => rfl
  | cons row rows ih =>
    rw [List.map_cons, List.all_cons, ← ih]
    cases hc : row.tunnelContact with
    | none => rw [List.reduceOption_cons_of_none, Option.all_none, Bool.true_and]
    | some c => rw [List.reduceOption_cons_of_some, List.all_cons, Option.all_some]

theorem sanitizeVectors_eq (keys : IdentityKeys) (addr : OwnerAddr) (u : DeviceUpdate) :
    sanitizeVectors keys addr u =
      (sanitize keys addr u).map (DeviceVectors.ofRows · u.learnedAt) := by
  unfold sanitizeVectors sanitize
  rw [mergeSorted_eq_joinSorted]
  cases joinSorted addr (sortBy DeviceRow.device u.zipped) with
  | error e => rfl
  | ok merged =>
    change ((merged.take maxDevicesPerOwner).forM (checkPub keys addr) >>= _) =
      ((merged.take maxDevicesPerOwner).forM (checkPub keys addr) >>= _).map _
    cases (merged.take maxDevicesPerOwner).forM (checkPub keys addr) with
    | error e => rfl
    | ok _ =>
      simp only [ofRows_contacts_all]
      cases (merged.take maxDevicesPerOwner).all fun row =>
        row.tunnelContact.all DeviceTunnelContact.hasValidKeySizes <;> rfl

/-! ### A merge with the cached entry, row by row -/

section Existing

variable {addr : OwnerAddr} {cached : List DeviceRow} {learnedAt : Hlc}

theorem find?_of_binarySearch (hasc : Ascending DeviceRow.device cached) (d : DeviceIdentityHash) :
    match binarySearch (cached.map DeviceRow.device) d with
    | none => (cached.find? fun c => c.device = d) = none
    | some idx => ∃ old, cached[idx]? = some old ∧ (cached.find? fun c => c.device = d) = some old := by
  have hsorted : (cached.map DeviceRow.device).Pairwise (· < ·) := List.pairwise_map.mpr hasc
  cases hs : binarySearch (cached.map DeviceRow.device) d with
  | none =>
    have hnone := (binarySearch_eq_none hsorted).mp hs
    simpa using hnone
  | some idx =>
    have hidx := (binarySearch_eq_some hsorted).mp hs
    rw [List.getElem?_map, Option.map_eq_some_iff] at hidx
    obtain ⟨old, hold, hd⟩ := hidx
    exact ⟨old, hold, hd ▸ find_device_eq hasc (List.mem_of_getElem? hold)⟩

theorem mergedPub_eq (hasc : Ascending DeviceRow.device cached) (row : DeviceRow) :
    mergedPub addr (.ofRows cached learnedAt) row.device row.identityPub =
      match preserveRow addr cached row with
      | .error e => .error (.reject e)
      | .ok r => .ok r.identityPub := by
  have hfind := find?_of_binarySearch hasc row.device
  simp only [mergedPub, preserveRow, DeviceVectors.ofRows]
  cases hs : binarySearch (cached.map DeviceRow.device) row.device with
  | none =>
    rw [hs] at hfind
    rw [hfind]
  | some idx =>
    rw [hs] at hfind
    obtain ⟨old, hold, hf⟩ := hfind
    rw [hf]
    simp only [List.getElem?_map, hold, Option.map_some, agreePubs_eq]
    cases hpub : mergePub old.identityPub row.identityPub with
    | none => rfl
    | some pub =>
      rw [(mergePub_eq_some hpub).2]
      rfl

theorem mergedContact_eq (hasc : Ascending DeviceRow.device cached) (row : DeviceRow) :
    mergedContact (.ofRows cached learnedAt) row.device row.tunnelContact =
      .ok (overlay cached row).tunnelContact := by
  have hfind := find?_of_binarySearch hasc row.device
  simp only [mergedContact, overlay, DeviceVectors.ofRows]
  cases hs : binarySearch (cached.map DeviceRow.device) row.device with
  | none =>
    rw [hs] at hfind
    rw [hfind]
  | some idx =>
    rw [hs] at hfind
    obtain ⟨old, hold, hf⟩ := hfind
    rw [hf]
    simp only [List.getElem?_map, hold, Option.map_some]
    cases row.tunnelContact <;> cases old.tunnelContact <;> rfl

theorem preserveRow_ok {row r : DeviceRow} (h : preserveRow addr cached row = .ok r) :
    r = overlay cached row := by
  unfold preserveRow at h
  unfold overlay
  cases hf : cached.find? fun c => c.device = row.device with
  | none =>
    rw [hf] at h
    exact (Except.ok.inj h).symm
  | some old =>
    rw [hf] at h
    simp only [bind_eq_ok, pure_eq_ok] at h
    obtain ⟨-, -, rfl⟩ := h
    rfl

theorem mapM_preserveRow {β : Type} {g : DeviceRow → Except Stop β} {k : DeviceRow → β}
    (h : ∀ row, g row = match preserveRow addr cached row with
      | .error e => .error (.reject e)
      | .ok r => .ok (k r)) (rows : List DeviceRow) :
    rows.mapM g = match rows.mapM (preserveRow addr cached) with
      | .error e => .error (.reject e)
      | .ok rs => .ok (rs.map k) := by
  induction rows with
  | nil => rfl
  | cons row rows ih =>
    rw [List.mapM_cons, List.mapM_cons, h row, ih]
    cases preserveRow addr cached row with
    | error e => rfl
    | ok r => cases rows.mapM (preserveRow addr cached) <;> rfl

theorem mapM_preserveRow_ok {rows merged : List DeviceRow}
    (h : rows.mapM (preserveRow addr cached) = .ok merged) : merged = rows.map (overlay cached) := by
  induction rows generalizing merged with
  | nil => exact (Except.ok.inj h).symm
  | cons row rows ih =>
    rw [List.mapM_cons] at h
    simp only [bind_eq_ok, pure_eq_ok] at h
    obtain ⟨r, hr, rest, hrest, rfl⟩ := h
    rw [preserveRow_ok hr, ih hrest, List.map_cons]

theorem mergeExisting_eq (hasc : Ascending DeviceRow.device cached) (rows : List DeviceRow)
    (newer : Hlc) :
    mergeExisting addr (.ofRows cached learnedAt) (.ofRows rows newer) =
      match rows.mapM (preserveRow addr cached) with
      | .error e => .error (.reject e)
      | .ok merged => .ok (.ofRows merged newer) := by
  have hpubs : ((rows.map DeviceRow.device).zip (rows.map DeviceRow.identityPub)).mapM (fun p =>
      mergedPub addr (.ofRows cached learnedAt) p.1 p.2) =
        match rows.mapM (preserveRow addr cached) with
        | .error e => .error (.reject e)
        | .ok merged => .ok (merged.map DeviceRow.identityPub) := by
    rw [List.zip_map', List.mapM_map]
    exact mapM_preserveRow (mergedPub_eq hasc) rows
  have hcontacts : ((rows.map DeviceRow.device).zip (rows.map DeviceRow.tunnelContact)).mapM
      (fun p => mergedContact (.ofRows cached learnedAt) p.1 p.2) =
        .ok (rows.map fun row => (overlay cached row).tunnelContact) := by
    rw [List.zip_map', List.mapM_map]
    exact mapM_eq_ok fun row _ => mergedContact_eq hasc row
  change (((rows.map DeviceRow.device).zip (rows.map DeviceRow.identityPub)).mapM (fun p =>
      mergedPub addr (.ofRows cached learnedAt) p.1 p.2) >>= fun pubs =>
    ((rows.map DeviceRow.device).zip (rows.map DeviceRow.tunnelContact)).mapM
      (fun p => mergedContact (.ofRows cached learnedAt) p.1 p.2) >>= fun contacts =>
        Except.ok { DeviceVectors.ofRows rows newer with
          deviceIdentityPubs := pubs
          deviceTunnelContacts := contacts }) = _
  rw [hpubs, hcontacts]
  cases hm : rows.mapM (preserveRow addr cached) with
  | error e => rfl
  | ok merged =>
    obtain rfl := mapM_preserveRow_ok hm
    simp [DeviceVectors.ofRows, bind, Except.bind]

end Existing

/-! ### The update of rows -/

/-- The vectors of a cache of rows. -/
def Represents (cache : BTreeMap OwnerAddr DeviceVectors) (rows : BTreeMap OwnerAddr OwnerDeviceEntry) :
    Prop :=
  ∀ addr : OwnerAddr, cache[addr]? = rows[addr]?.map DeviceVectors.ofEntry

theorem ofRows_injective {rows rows' : List DeviceRow} {t t' : Hlc}
    (hd : (DeviceVectors.ofRows rows t).devices = (DeviceVectors.ofRows rows' t').devices)
    (hp : (DeviceVectors.ofRows rows t).deviceIdentityPubs =
      (DeviceVectors.ofRows rows' t').deviceIdentityPubs)
    (hc : (DeviceVectors.ofRows rows t).deviceTunnelContacts =
      (DeviceVectors.ofRows rows' t').deviceTunnelContacts) : rows = rows' := by
  simp only [DeviceVectors.ofRows] at hd hp hc
  induction rows generalizing rows' with
  | nil => simpa using hd
  | cons row rows ih =>
    cases rows' with
    | nil => simp at hd
    | cons row' rows' =>
      simp only [List.map_cons, List.cons.injEq] at hd hp hc
      rw [ih hd.2 hp.2 hc.2]
      obtain ⟨device, pub, contact⟩ := row
      obtain ⟨device', pub', contact'⟩ := row'
      simp only at hd hp hc
      rw [hd.1, hp.1, hc.1]

theorem Represents.insert {cache : BTreeMap OwnerAddr DeviceVectors}
    {rows : BTreeMap OwnerAddr OwnerDeviceEntry} (h : Represents cache rows) (addr : OwnerAddr)
    (e : OwnerDeviceEntry) : Represents (cache.insert addr (.ofEntry e)) (rows.insert addr e) := by
  intro a
  rw [BTreeMap.get_insert, BTreeMap.get_insert, h a]
  split_ifs <;> rfl

theorem Represents.ext {cache cache' : BTreeMap OwnerAddr DeviceVectors}
    {rows : BTreeMap OwnerAddr OwnerDeviceEntry} (h : Represents cache rows)
    (h' : Represents cache' rows) : cache = cache' :=
  Std.ExtTreeMap.ext_getElem? fun a => (h a).trans (h' a).symm

/-- The vectors are updated as the rows are; where the cached devices ascend there is no
panic. -/
theorem applyVectors_refines {keys : IdentityKeys} {cache : BTreeMap OwnerAddr DeviceVectors}
    {rows : BTreeMap OwnerAddr OwnerDeviceEntry} (h : Represents cache rows) (addr : OwnerAddr)
    (hasc : ∀ e, rows[addr]? = some e → Ascending DeviceRow.device e.devices) (u : DeviceUpdate) :
    ∃ cache', applyVectors keys cache addr u = some (cache', (putDevices keys rows addr u).2) ∧
      Represents cache' (putDevices keys rows addr u).1 := by
  unfold applyVectors putDevices
  rw [sanitizeVectors_eq]
  cases hs : sanitize keys addr u with
  | error e => exact ⟨cache, rfl, h⟩
  | ok new =>
    have hcache := h addr
    cases hr : rows[addr]? with
    | none =>
      rw [hr, Option.map_none] at hcache
      simp only [Except.map, hcache]
      exact ⟨_, rfl, h.insert addr ⟨new, u.learnedAt⟩⟩
    | some existing =>
      rw [hr, Option.map_some] at hcache
      simp only [Except.map, hcache, DeviceVectors.ofEntry]
      change ∃ cache', (if isStrictlyNewerThan existing.learnedAt u.learnedAt then _ else
        if existing.learnedAt = u.learnedAt then _ else _) = _ ∧ _
      by_cases hnewer : isStrictlyNewerThan existing.learnedAt u.learnedAt = true
      · simp only [if_pos hnewer]
        exact ⟨cache, rfl, h⟩
      · simp only [if_neg hnewer]
        by_cases hequal : existing.learnedAt = u.learnedAt
        · simp only [if_pos hequal]
          by_cases hsame : existing.devices = new
          · rw [if_pos hsame, if_pos (by simp [hsame, DeviceVectors.ofRows])]
            exact ⟨cache, rfl, h⟩
          · rw [if_neg hsame, if_neg fun heq => hsame (ofRows_injective heq.1 heq.2.1 heq.2.2)]
            exact ⟨cache, rfl, h⟩
        · simp only [if_neg hequal, mergeExisting_eq (hasc existing hr)]
          cases new.mapM (preserveRow addr existing.devices) with
          | error e => exact ⟨cache, rfl, h⟩
          | ok merged => exact ⟨_, rfl, h.insert addr ⟨merged, u.learnedAt⟩⟩

end Harmony.Owner
