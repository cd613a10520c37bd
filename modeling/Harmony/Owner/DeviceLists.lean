import Harmony.Owner.DeviceVectors

/-! What the device cache holds. Entries come from updates and off the wire, where the
three vectors are read field by field, under a cap each, and joined as an update is. -/

namespace Harmony.Owner

open Harmony.Lib
open Harmony.Membership (OwnerAddr Hlc)

/-! ### An entry off the wire -/

/-- An array on the wire; a definite one tells its length beforehand. -/
structure WireArray (α : Type) where
  definite : Bool
  items : List α

/-- A field of the map that encodes an `OwnerDeviceEntry`. -/
inductive WireField where
  | v (devices : WireArray DeviceIdentityHash)
  | p (pubs : WireArray (Option IdentityPub))
  | l (learnedAt : Hlc)
  | t (contacts : WireArray (Option DeviceTunnelContact))
  | other

inductive DecodeError where
  | duplicateField (name : String)
  | missingField (name : String)
  | devicesTooLong
  | pubsTooLong
  | contactsTooLong
  | contactKeysTooLong
  | devicesOverCap
  | conflictingIdentityPubs (device : DeviceIdentityHash)
  | identityPubDerivesElsewhere (device derived : DeviceIdentityHash)
  | identityPubInvalid (device : DeviceIdentityHash)
deriving DecidableEq

/-- A capped sequence visitor: a length told beforehand is checked first, then each item
as it comes. -/
def readArray {α : Type} (tooLong : DecodeError) (check : α → Except DecodeError Unit)
    (a : WireArray α) : Except DecodeError (List α) := do
  ensure (!a.definite || a.items.length ≤ maxDevicesPerOwner) tooLong
  a.items.foldlM (fun out item => do
    ensure (out.length < maxDevicesPerOwner) tooLong
    check item
    pure (out ++ [item])) []

/-- Keys longer than their sizes are refused when read; shorter ones pass. -/
def checkContactKeys (contact : Option DeviceTunnelContact) : Except DecodeError Unit :=
  ensure (contact.all fun c => c.pqDsaPubkey.length ≤ 1952 ∧ c.pqKemPubkey.length ≤ 1184)
    .contactKeysTooLong

structure RawEntry where
  devices : Option (List DeviceIdentityHash) := none
  pubs : Option (List (Option IdentityPub)) := none
  learnedAt : Option Hlc := none
  contacts : Option (List (Option DeviceTunnelContact)) := none

def readField (raw : RawEntry) : WireField → Except DecodeError RawEntry
  | .v a => do
    ensure raw.devices.isNone (.duplicateField "v")
    let devices ← readArray .devicesTooLong (fun _ => .ok ()) a
    pure { raw with devices := some devices }
  | .p a => do
    ensure raw.pubs.isNone (.duplicateField "p")
    let pubs ← readArray .pubsTooLong (fun _ => .ok ()) a
    pure { raw with pubs := some pubs }
  | .l learnedAt => do
    ensure raw.learnedAt.isNone (.duplicateField "l")
    pure { raw with learnedAt := some learnedAt }
  | .t a => do
    ensure raw.contacts.isNone (.duplicateField "t")
    let contacts ← readArray .contactsTooLong checkContactKeys a
    pure { raw with contacts := some contacts }
  | .other => .ok raw

def fitTo {α : Type} (l : List (Option α)) (n : ℕ) : List (Option α) :=
  if l.length < n then resizeNone l n else if n < l.length then l.take n else l

/-- Every known pub must derive to the hash of its device. -/
def checkDecodedPub (keys : IdentityKeys) (row : DeviceRow) : Except DecodeError Unit :=
  match row.identityPub with
  | none => .ok ()
  | some p =>
    match keys.deriveDeviceHash p with
    | some derived =>
      ensure (derived = row.device) (.identityPubDerivesElsewhere row.device derived)
    | none => .error (.identityPubInvalid row.device)

/-- `OwnerDeviceEntry::deserialize`. -/
def deserializeEntry (keys : IdentityKeys) (fields : List WireField) :
    Except DecodeError DeviceVectors := do
  let raw ← fields.foldlM readField {}
  let devices ← raw.devices.elim (.error (.missingField "v")) .ok
  let learnedAt ← raw.learnedAt.elim (.error (.missingField "l")) .ok
  let pubs := fitTo (raw.pubs.getD []) devices.length
  let contacts := fitTo (raw.contacts.getD []) devices.length
  ensure (devices.length ≤ maxDevicesPerOwner) .devicesOverCap
  let zipped := (devices.zip (pubs.zip contacts)).map fun p => ⟨p.1, p.2.1, p.2.2⟩
  let merged ← mergeSorted .conflictingIdentityPubs (sortBy DeviceRow.device zipped)
  let merged := merged.take maxDevicesPerOwner
  merged.forM (checkDecodedPub keys)
  pure (DeviceVectors.ofRows merged learnedAt)

/-! ### Runs of the cache -/

/-- A way the cache changes: an update, or a whole cache decoded entry by entry. -/
inductive CacheOp where
  | update (addr : OwnerAddr) (u : DeviceUpdate)
  | load (entries : List (OwnerAddr × List WireField))

def decodeCache (keys : IdentityKeys) (entries : List (OwnerAddr × List WireField)) :
    Except DecodeError (BTreeMap OwnerAddr DeviceVectors) :=
  entries.foldlM (fun cache p => do pure (cache.insert p.1 (← deserializeEntry keys p.2))) ∅

/-- What fails to decode leaves the cache; none is a panic. -/
def CacheOp.run (keys : IdentityKeys) (cache : BTreeMap OwnerAddr DeviceVectors) :
    CacheOp → Option (BTreeMap OwnerAddr DeviceVectors)
  | update addr u => (applyVectors keys cache addr u).map Prod.fst
  | load entries => some ((decodeCache keys entries).toOption.getD cache)

def vectorRun (keys : IdentityKeys) (ops : List CacheOp) :
    Option (BTreeMap OwnerAddr DeviceVectors) :=
  ops.foldlM (CacheOp.run keys) ∅

/-! ### What is stored -/

def DeviceVectors.HoldsPub (e : DeviceVectors) (d : DeviceIdentityHash) (p : IdentityPub) : Prop :=
  ∃ i : ℕ, e.devices[i]? = some d ∧ e.deviceIdentityPubs[i]? = some (some p)

def DeviceVectors.HoldsContact (e : DeviceVectors) (d : DeviceIdentityHash)
    (c : DeviceTunnelContact) : Prop :=
  ∃ i : ℕ, e.devices[i]? = some d ∧ e.deviceTunnelContacts[i]? = some (some c)

/-- The update names the pub at an index of the device. -/
def DeviceUpdate.Supplies (u : DeviceUpdate) (d : DeviceIdentityHash) (p : IdentityPub) : Prop :=
  ∃ i : ℕ, u.devices[i]? = some d ∧ u.deviceIdentityPubs[i]? = some (some p)

/-- An entry that an update leaves under its owner, where `old` was. -/
structure StoredFrom (keys : IdentityKeys) (old : Option DeviceVectors) (u : DeviceUpdate)
    (e : DeviceVectors) : Prop where
  pubsLength : e.deviceIdentityPubs.length = e.devices.length
  contactsLength : e.deviceTunnelContacts.length = e.devices.length
  capped : e.devices.length ≤ maxDevicesPerOwner
  ascending : e.devices.Pairwise (· < ·)
  derives : ∀ d p, e.HoldsPub d p → keys.deriveDeviceHash p = some d
  source : ∀ d p, e.HoldsPub d p → u.Supplies d p ∨ ∃ o ∈ old, o.HoldsPub d p
  keepsPubs : ∀ o ∈ old, ∀ d p, o.HoldsPub d p → d ∈ e.devices → e.HoldsPub d p
  keepsContacts : ∀ o ∈ old, ∀ d c, o.HoldsContact d c → d ∈ e.devices → ∃ c', e.HoldsContact d c'
  smallest : e.devices = (u.devices.toFinset.sort (· ≤ ·)).take maxDevicesPerOwner

/-- An update is rejected and changes nothing, or it leaves an entry of its owner. -/
def UpdateStores (keys : IdentityKeys) (cache : BTreeMap OwnerAddr DeviceVectors) (addr : OwnerAddr)
    (u : DeviceUpdate) : Prop :=
  ∃ cache' outcome, applyVectors keys cache addr u = some (cache', outcome) ∧
    ((∃ reason, outcome = .rejected reason ∧ cache' = cache) ∨
      (∀ a : OwnerAddr, a ≠ addr → cache'[a]? = cache[a]?) ∧
        ∃ e, cache'[addr]? = some e ∧ StoredFrom keys cache[addr]? u e)

namespace WireField

def devicesOf : WireField → Option (List DeviceIdentityHash)
  | v a => some a.items
  | _ => none

def pubsOf : WireField → Option (List (Option IdentityPub))
  | p a => some a.items
  | _ => none

def learnedAtOf : WireField → Option Hlc
  | l learnedAt => some learnedAt
  | _ => none

def contactsOf : WireField → Option (List (Option DeviceTunnelContact))
  | t a => some a.items
  | _ => none

end WireField

/-- The map has the fields of the update once each, among others; an empty vector of pubs
or contacts may be missing. -/
structure Encodes (fields : List WireField) (u : DeviceUpdate) : Prop where
  devices : fields.filterMap WireField.devicesOf = [u.devices]
  learnedAt : fields.filterMap WireField.learnedAtOf = [u.learnedAt]
  pubs : fields.filterMap WireField.pubsOf = [u.deviceIdentityPubs] ∨
    fields.filterMap WireField.pubsOf = [] ∧ u.deviceIdentityPubs = []
  contacts : fields.filterMap WireField.contactsOf = [u.deviceTunnelContacts] ∨
    fields.filterMap WireField.contactsOf = [] ∧ u.deviceTunnelContacts = []

/-- Vectors within the cap, contacts of the right sizes. -/
structure DeviceUpdate.WellSized (u : DeviceUpdate) : Prop where
  devices : u.devices.length ≤ maxDevicesPerOwner
  pubs : u.deviceIdentityPubs.length ≤ maxDevicesPerOwner
  contacts : u.deviceTunnelContacts.length ≤ maxDevicesPerOwner
  keySizes : ∀ c, some c ∈ u.deviceTunnelContacts → c.hasValidKeySizes = true

/-- Decoding and an update of the empty cache accept the same triples and leave the same
vectors. -/
def DecodesAsApplied (keys : IdentityKeys) (fields : List WireField) (u : DeviceUpdate) : Prop :=
  ∀ addr, (∃ e, deserializeEntry keys fields = .ok e ∧
      applyVectors keys ∅ addr u = some ((∅ : BTreeMap OwnerAddr DeviceVectors).insert addr e, .inserted)) ∨
    ∃ failure reason, deserializeEntry keys fields = .error failure ∧
      applyVectors keys ∅ addr u = some (∅, .rejected reason)

/-! ### The rows of an update -/

section Rows

variable {keys : IdentityKeys} {addr : OwnerAddr}

/-- What a joined row knows, some row of its device knew. -/
structure RowsFrom (rows : List DeviceRow) (out : DeviceRow) : Prop where
  device : ∃ row ∈ rows, row.device = out.device
  pub : ∀ p, out.identityPub = some p → ∃ row ∈ rows, row.device = out.device ∧ row.identityPub = some p
  contact : ∀ c, out.tunnelContact = some c →
    ∃ row ∈ rows, row.device = out.device ∧ row.tunnelContact = some c

theorem RowsFrom.self {rows : List DeviceRow} {row : DeviceRow} (h : row ∈ rows) :
    RowsFrom rows row :=
  ⟨⟨row, h, rfl⟩, fun _ hp => ⟨row, h, rfl, hp⟩, fun _ hc => ⟨row, h, rfl, hc⟩⟩

theorem RowsFrom.mono {rows rows' : List DeviceRow} {out : DeviceRow} (h : RowsFrom rows out)
    (hsub : rows ⊆ rows') : RowsFrom rows' out := by
  obtain ⟨⟨row, hrow, hd⟩, hpub, hcontact⟩ := h
  refine ⟨⟨row, hsub hrow, hd⟩, fun p hp => ?_, fun c hc => ?_⟩
  · obtain ⟨r, hr, h⟩ := hpub p hp
    exact ⟨r, hsub hr, h⟩
  · obtain ⟨r, hr, h⟩ := hcontact c hc
    exact ⟨r, hsub hr, h⟩

theorem RowsFrom.trans {rows mid : List DeviceRow} {out : DeviceRow} (h : RowsFrom mid out)
    (hmid : ∀ row ∈ mid, RowsFrom rows row) : RowsFrom rows out := by
  refine ⟨?_, fun p hp => ?_, fun c hc => ?_⟩
  · obtain ⟨row, hrow, hd⟩ := h.device
    obtain ⟨r, hr, hrd⟩ := (hmid row hrow).device
    exact ⟨r, hr, hrd.trans hd⟩
  · obtain ⟨row, hrow, hd, hp⟩ := h.pub p hp
    obtain ⟨r, hr, hrd, hrp⟩ := (hmid row hrow).pub p hp
    exact ⟨r, hr, hrd.trans hd, hrp⟩
  · obtain ⟨row, hrow, hd, hc⟩ := h.contact c hc
    obtain ⟨r, hr, hrd, hrc⟩ := (hmid row hrow).contact c hc
    exact ⟨r, hr, hrd.trans hd, hrc⟩

theorem joinRows_from {prev row joined : DeviceRow} (hd : prev.device = row.device)
    (h : joinRows addr prev row = .ok joined) : RowsFrom [prev, row] joined := by
  unfold joinRows at h
  simp only [bind_eq_ok, pure_eq_ok] at h
  obtain ⟨-, -, rfl⟩ := h
  refine ⟨⟨prev, by simp, rfl⟩, fun p hp => ?_, fun c hc => ?_⟩
  · rcases Option.or_eq_some_iff.mp hp with hprev | ⟨-, hrow⟩
    · exact ⟨prev, by simp, rfl, hprev⟩
    · exact ⟨row, by simp, hd.symm, hrow⟩
  · rcases Option.or_eq_some_iff.mp hc with hrow | ⟨-, hprev⟩
    · exact ⟨row, by simp, hd.symm, hrow⟩
    · exact ⟨prev, by simp, rfl, hprev⟩

theorem joinRuns_from {prev : DeviceRow} {rest out : List DeviceRow}
    (h : joinRuns addr prev rest = .ok out) :
    (∀ row ∈ out, RowsFrom (prev :: rest) row) ∧
      ∀ row ∈ prev :: rest, row.device ∈ out.map DeviceRow.device := by
  induction rest generalizing prev out with
  | nil =>
    obtain rfl := Except.ok.inj h
    exact ⟨fun row hrow => RowsFrom.self hrow, fun row hrow => List.mem_map_of_mem hrow⟩
  | cons row rest ih =>
    rw [joinRuns] at h
    split_ifs at h with hd
    · simp only [bind_eq_ok] at h
      obtain ⟨joined, hj, hout⟩ := h
      obtain ⟨hfrom, hdevices⟩ := ih hout
      have hjd : joined.device = prev.device := joinRows_device hj
      refine ⟨fun r hr => (hfrom r hr).trans fun r' hr' => ?_, fun r hr => ?_⟩
      · rcases List.mem_cons.mp hr' with rfl | hr'
        · exact (joinRows_from hd hj).mono (by simp)
        · exact RowsFrom.self (by simp [hr'])
      · rcases List.mem_cons.mp hr with rfl | hr
        · exact hjd ▸ hdevices joined (by simp)
        · rcases List.mem_cons.mp hr with rfl | hr
          · exact hd ▸ hjd ▸ hdevices joined (by simp)
          · exact hdevices r (by simp [hr])
    · simp only [bind_eq_ok, pure_eq_ok] at h
      obtain ⟨out', hout, rfl⟩ := h
      obtain ⟨hfrom, hdevices⟩ := ih hout
      refine ⟨fun r hr => ?_, fun r hr => ?_⟩
      · rcases List.mem_cons.mp hr with rfl | hr
        · exact RowsFrom.self (by simp)
        · exact (hfrom r hr).mono (by simp)
      · rcases List.mem_cons.mp hr with rfl | hr
        · simp
        · exact List.mem_cons_of_mem _ (hdevices r hr)

theorem joinSorted_from {rows out : List DeviceRow} (h : joinSorted addr rows = .ok out) :
    (∀ row ∈ out, RowsFrom rows row) ∧ ∀ row ∈ rows, row.device ∈ out.map DeviceRow.device := by
  cases rows with
  | nil =>
    obtain rfl := Except.ok.inj h
    simp
  | cons row rest => exact joinRuns_from h

theorem joinSorted_devices {rows out : List DeviceRow}
    (h : joinSorted addr (sortBy DeviceRow.device rows) = .ok out) :
    out.map DeviceRow.device = (rows.map DeviceRow.device).toFinset.sort (· ≤ ·) := by
  obtain ⟨hfrom, hdevices⟩ := joinSorted_from h
  have hasc : (out.map DeviceRow.device).Pairwise (· < ·) :=
    List.pairwise_map.mpr (joinSorted_ascending (sortBy_sorted rows) h)
  refine hasc.sortedLT.eq_of_mem_iff (Finset.sortedLT_sort _) fun d => ?_
  rw [Finset.mem_sort, List.mem_toFinset, List.mem_map, List.mem_map]
  constructor
  · rintro ⟨row, hrow, rfl⟩
    obtain ⟨r, hr, hd⟩ := (hfrom row hrow).device
    exact ⟨r, mem_sortBy.mp hr, hd⟩
  · rintro ⟨row, hrow, rfl⟩
    exact List.mem_map.mp (hdevices row (mem_sortBy.mpr hrow))

theorem resizeNone_length {α : Type} (l : List (Option α)) (n : ℕ) : (resizeNone l n).length = n := by
  simp only [resizeNone, List.length_append, List.length_take, List.length_replicate]
  omega

theorem resizeNone_getElem {α : Type} {l : List (Option α)} {n i : ℕ} {a : α}
    (h : (resizeNone l n)[i]? = some (some a)) : l[i]? = some (some a) := by
  rw [resizeNone, List.getElem?_append] at h
  split_ifs at h with hi
  · rw [List.getElem?_take] at h
    split_ifs at h
    exact h
  · rw [List.getElem?_replicate] at h
    split_ifs at h
    cases h

theorem zipped_devices (u : DeviceUpdate) : u.zipped.map DeviceRow.device = u.devices := by
  simp only [DeviceUpdate.zipped, List.map_map, Function.comp_def]
  rw [List.map_fst_zip]
  simp [resizeNone_length]

theorem exists_index_of_mem_zipped {u : DeviceUpdate} {row : DeviceRow} (h : row ∈ u.zipped) :
    ∃ i : ℕ, u.devices[i]? = some row.device ∧
      (∀ p, row.identityPub = some p → u.deviceIdentityPubs[i]? = some (some p)) ∧
        ∀ c, row.tunnelContact = some c → u.deviceTunnelContacts[i]? = some (some c) := by
  obtain ⟨i, hi⟩ := List.mem_iff_getElem?.mp h
  simp only [DeviceUpdate.zipped, List.getElem?_map, Option.map_eq_some_iff,
    List.getElem?_zip_eq_some] at hi
  obtain ⟨⟨d, p, c⟩, ⟨hd, hp, hc⟩, rfl⟩ := hi
  refine ⟨i, hd, ?_, ?_⟩
  · rintro q rfl
    exact resizeNone_getElem hp
  · rintro q rfl
    exact resizeNone_getElem hc

theorem sanitize_from {u : DeviceUpdate} {rows : List DeviceRow}
    (h : sanitize keys addr u = .ok rows) :
    (∀ row ∈ rows, RowsFrom u.zipped row) ∧
      rows.map DeviceRow.device = (u.devices.toFinset.sort (· ≤ ·)).take maxDevicesPerOwner := by
  unfold sanitize at h
  simp only [bind_eq_ok, pure_eq_ok, ensure_eq_ok] at h
  obtain ⟨joined, hjoin, -, -, -, -, rfl⟩ := h
  constructor
  · intro row hrow
    refine ((joinSorted_from hjoin).1 row (List.mem_of_mem_take hrow)).mono fun r hr => ?_
    exact mem_sortBy.mp hr
  · rw [List.map_take, joinSorted_devices hjoin, zipped_devices]

end Rows

/-! ### The entry an update leaves -/

/-- What every stored row list is; contacts off the wire may be short of their sizes. -/
structure CanonicalRows (keys : IdentityKeys) (rows : List DeviceRow) : Prop where
  ascending : Ascending DeviceRow.device rows
  capped : rows.length ≤ maxDevicesPerOwner
  pubs : ∀ row ∈ rows, ∀ p, row.identityPub = some p → keys.deriveDeviceHash p = some row.device

theorem CleanRows.canonical {keys : IdentityKeys} {rows : List DeviceRow} (h : CleanRows keys rows) :
    CanonicalRows keys rows := ⟨h.ascending, h.capped, h.pubs⟩

section Stored

variable {keys : IdentityKeys} {addr : OwnerAddr} {cached new : List DeviceRow} {learnedAt : Hlc}

theorem CanonicalRows.overlay (hcached : CanonicalRows keys cached) (hnew : CanonicalRows keys new) :
    CanonicalRows keys (new.map (Owner.overlay cached)) where
  ascending := ascending_overlay hnew.ascending cached
  capped := by simpa using hnew.capped
  pubs := overlay_derives hcached.pubs hnew.pubs

theorem exists_index_map {β γ : Type} {f : DeviceRow → β} {g : DeviceRow → γ} {rows : List DeviceRow}
    {b : β} {c : γ} :
    (∃ i : ℕ, (rows.map f)[i]? = some b ∧ (rows.map g)[i]? = some c) ↔
      ∃ row ∈ rows, f row = b ∧ g row = c := by
  simp only [List.getElem?_map, Option.map_eq_some_iff]
  constructor
  · rintro ⟨i, ⟨row, hrow, hf⟩, ⟨row', hrow', hg⟩⟩
    obtain rfl := Option.some.inj (hrow.symm.trans hrow')
    exact ⟨row, List.mem_of_getElem? hrow, hf, hg⟩
  · rintro ⟨row, hrow, hf, hg⟩
    obtain ⟨i, hi⟩ := List.mem_iff_getElem?.mp hrow
    exact ⟨i, ⟨row, hi, hf⟩, ⟨row, hi, hg⟩⟩

theorem ofRows_holdsPub {rows : List DeviceRow} {d : DeviceIdentityHash} {p : IdentityPub} :
    (DeviceVectors.ofRows rows learnedAt).HoldsPub d p ↔
      ∃ row ∈ rows, row.device = d ∧ row.identityPub = some p := exists_index_map

theorem ofRows_holdsContact {rows : List DeviceRow} {d : DeviceIdentityHash} {c : DeviceTunnelContact} :
    (DeviceVectors.ofRows rows learnedAt).HoldsContact d c ↔
      ∃ row ∈ rows, row.device = d ∧ row.tunnelContact = some c := exists_index_map

/-- No row names a pub other than the cached one of its device. -/
def Agrees (cached new : List DeviceRow) : Prop :=
  ∀ row ∈ new, ∀ old ∈ cached, old.device = row.device → ∀ p, old.identityPub = some p →
    row.identityPub = none ∨ row.identityPub = some p

theorem exists_of_mapM_eq_ok {α β ε : Type} {f : α → Except ε β} {l : List α} {out : List β}
    (h : l.mapM f = .ok out) {a : α} (ha : a ∈ l) : ∃ b, f a = .ok b := by
  induction l generalizing out with
  | nil => cases ha
  | cons x l ih =>
    rw [List.mapM_cons] at h
    simp only [bind_eq_ok, pure_eq_ok] at h
    obtain ⟨b, hb, rest, hrest, -⟩ := h
    rcases List.mem_cons.mp ha with rfl | ha
    · exact ⟨b, hb⟩
    · exact ih hrest ha

theorem agrees_of_mapM (hasc : Ascending DeviceRow.device cached) {merged : List DeviceRow}
    (h : new.mapM (preserveRow addr cached) = .ok merged) : Agrees cached new := by
  intro row hrow old hold hd p hp
  obtain ⟨r, hr⟩ := exists_of_mapM_eq_ok h hrow
  have hfind := find_device_eq hasc hold
  rw [hd] at hfind
  rw [preserveRow, hfind] at hr
  simp only [bind_eq_ok, pure_eq_ok, agreePubs_eq] at hr
  obtain ⟨_, hagree, -⟩ := hr
  rw [hp] at hagree
  cases hpub : row.identityPub with
  | none => exact Or.inl rfl
  | some q =>
    rw [hpub, mergePub] at hagree
    by_cases hpq : p = q
    · exact Or.inr (hpq ▸ rfl)
    · simp [hpq] at hagree

theorem storedFrom_overlay {u : DeviceUpdate} (hs : sanitize keys addr u = .ok new)
    {old : Option OwnerDeviceEntry} (hold : ∀ e, old = some e → CanonicalRows keys e.devices)
    (hcached : cached = old.elim [] OwnerDeviceEntry.devices) (hagrees : Agrees cached new) (t : Hlc) :
    StoredFrom keys (old.map DeviceVectors.ofEntry) u (.ofRows (new.map (overlay cached)) t) := by
  obtain ⟨hfrom, hdevices⟩ := sanitize_from hs
  have hcanonical : CanonicalRows keys cached := by
    rw [hcached]
    cases old with
    | none => exact ⟨List.Pairwise.nil, Nat.zero_le _, by simp⟩
    | some e => exact hold e rfl
  have hout : CanonicalRows keys (new.map (overlay cached)) :=
    hcanonical.overlay (sanitize_clean hs).canonical
  have hsame : (new.map (overlay cached)).map DeviceRow.device = new.map DeviceRow.device := by
    simp [Function.comp_def]
  have hheld : ∀ o ∈ old.map DeviceVectors.ofEntry, ∃ e, o = DeviceVectors.ofRows cached e := by
    intro o ho
    obtain ⟨e, rfl, rfl⟩ := Option.map_eq_some_iff.mp ho
    exact ⟨e.learnedAt, by rw [hcached, Option.elim_some, DeviceVectors.ofEntry]⟩
  have hrow : ∀ d ∈ (new.map (overlay cached)).map DeviceRow.device, ∀ c ∈ cached, c.device = d →
      ∃ r ∈ new, r.device = d ∧ overlay cached r =
        ⟨d, r.identityPub.or c.identityPub, r.tunnelContact.or c.tunnelContact⟩ := by
    intro d hd c hc hcd
    rw [hsame] at hd
    obtain ⟨r, hr, rfl⟩ := List.mem_map.mp hd
    exact ⟨r, hr, rfl, overlay_of_mem hcanonical.ascending hc hcd⟩
  refine ⟨by simp [DeviceVectors.ofRows], by simp [DeviceVectors.ofRows], ?_, ?_, ?_, ?_, ?_, ?_, ?_⟩
  · simpa [DeviceVectors.ofRows] using hout.capped
  · exact List.pairwise_map.mpr hout.ascending
  · intro d p hholds
    obtain ⟨row, hrow, rfl, hp⟩ := ofRows_holdsPub.mp hholds
    exact hout.pubs row hrow p hp
  · intro d p hholds
    obtain ⟨row, hrow, rfl, hp⟩ := ofRows_holdsPub.mp hholds
    obtain ⟨r, hr, rfl⟩ := List.mem_map.mp hrow
    rw [overlay_device]
    rcases overlay_identityPub hp with hp | ⟨c, hc, hd, hp⟩
    · left
      obtain ⟨z, hz, hzd, hzp⟩ := (hfrom r hr).pub p hp
      obtain ⟨i, hi, hpub, -⟩ := exists_index_of_mem_zipped hz
      exact ⟨i, hzd ▸ hi, hpub p hzp⟩
    · right
      rw [hcached] at hc
      cases old with
      | none => cases hc
      | some e => exact ⟨.ofEntry e, rfl, ofRows_holdsPub.mpr ⟨c, hc, hd, hp⟩⟩
  · intro o ho d p hp hd
    obtain ⟨e, rfl⟩ := hheld o ho
    obtain ⟨c, hc, hcd, hcp⟩ := ofRows_holdsPub.mp hp
    obtain ⟨r, hr, hrd, hover⟩ := hrow d hd c hc hcd
    refine ofRows_holdsPub.mpr ⟨overlay cached r, List.mem_map_of_mem hr, by rw [hover], ?_⟩
    rw [hover, hcp]
    rcases hagrees r hr c hc (hcd.trans hrd.symm) p hcp with hnone | hsome
    · rw [hnone, Option.none_or]
    · rw [hsome, Option.some_or]
  · intro o ho d c' hc' hd
    obtain ⟨e, rfl⟩ := hheld o ho
    obtain ⟨c, hc, hcd, hcc⟩ := ofRows_holdsContact.mp hc'
    obtain ⟨r, hr, hrd, hover⟩ := hrow d hd c hc hcd
    have hknown : (r.tunnelContact.or (some c')).isSome = true := by simp
    obtain ⟨c'', hc''⟩ := Option.isSome_iff_exists.mp hknown
    refine ⟨c'', ofRows_holdsContact.mpr ⟨overlay cached r, List.mem_map_of_mem hr, by rw [hover], ?_⟩⟩
    rw [hover, hcc]
    exact hc''
  · exact hsame.trans hdevices

theorem map_overlay_nil (rows : List DeviceRow) : rows.map (overlay []) = rows := List.map_id rows

theorem map_overlay_self {rows : List DeviceRow} (hasc : Ascending DeviceRow.device rows) :
    rows.map (overlay rows) = rows := by
  refine (List.map_congr_left fun row hrow => ?_).trans (List.map_id rows)
  rw [overlay_of_mem hasc hrow rfl, Option.or_self, Option.or_self]
  rfl

theorem agrees_self {rows : List DeviceRow} (hasc : Ascending DeviceRow.device rows) :
    Agrees rows rows := by
  intro row hrow old hold hd p hp
  rw [hasc.keyNodup.inj hold hrow hd] at hp
  exact Or.inr hp

/-- A change of the row cache lays the sanitized update over the cached rows. -/
structure Lays (keys : IdentityKeys) (rows : BTreeMap OwnerAddr OwnerDeviceEntry) (addr : OwnerAddr)
    (u : DeviceUpdate) (rows' : BTreeMap OwnerAddr OwnerDeviceEntry) (new : List DeviceRow) : Prop where
  sanitized : sanitize keys addr u = .ok new
  agrees : Agrees (rows[addr]?.elim [] OwnerDeviceEntry.devices) new
  entry : rows'[addr]? =
    some ⟨new.map (overlay (rows[addr]?.elim [] OwnerDeviceEntry.devices)), u.learnedAt⟩
  others : ∀ a : OwnerAddr, a ≠ addr → rows'[a]? = rows[a]?

theorem putDevices_cases (rows : BTreeMap OwnerAddr OwnerDeviceEntry) (addr : OwnerAddr)
    (u : DeviceUpdate) (hasc : ∀ e, rows[addr]? = some e → Ascending DeviceRow.device e.devices) :
    (∃ reason, putDevices keys rows addr u = (rows, .rejected reason)) ∨
      ∃ new, Lays keys rows addr u (putDevices keys rows addr u).1 new := by
  unfold putDevices
  cases hs : sanitize keys addr u with
  | error e => exact Or.inl ⟨_, rfl⟩
  | ok new =>
    have hinsert : ∀ (e : OwnerDeviceEntry) (a : OwnerAddr), a ≠ addr →
        (rows.insert addr e)[a]? = rows[a]? := by
      intro e a ha
      rw [BTreeMap.get_insert, if_neg ha.symm]
    cases hr : rows[addr]? with
    | none =>
      refine Or.inr ⟨new, hs, ?_, ?_, hinsert _⟩
      · rw [hr]
        exact fun _ _ _ hold => by cases hold
      · rw [hr, BTreeMap.get_insert, if_pos rfl]
        rw [Option.elim_none, map_overlay_nil]
    | some existing =>
      dsimp only
      have hexisting := hasc existing hr
      split_ifs with hnewer hequal hsame
      · exact Or.inl ⟨_, rfl⟩
      · refine Or.inr ⟨new, hs, ?_, ?_, fun _ _ => rfl⟩
        · rw [hr, Option.elim_some, hsame]
          exact agrees_self (hsame ▸ hexisting)
        · rw [hr, Option.elim_some, hsame, map_overlay_self (hsame ▸ hexisting), ← hsame, ← hequal]
      · exact Or.inl ⟨_, rfl⟩
      · cases hm : new.mapM (preserveRow addr existing.devices) with
        | error e => exact Or.inl ⟨_, rfl⟩
        | ok merged =>
          refine Or.inr ⟨new, hs, ?_, ?_, hinsert _⟩
          · rw [hr, Option.elim_some]
            exact agrees_of_mapM hexisting hm
          · rw [hr, Option.elim_some, BTreeMap.get_insert, if_pos rfl, mapM_preserveRow_ok hm]

def CanonicalCache (keys : IdentityKeys) (cache : BTreeMap OwnerAddr DeviceVectors) : Prop :=
  ∃ rows, Represents cache rows ∧
    ∀ (addr : OwnerAddr) (e : OwnerDeviceEntry), rows[addr]? = some e → CanonicalRows keys e.devices

theorem CanonicalCache.updateStores {cache : BTreeMap OwnerAddr DeviceVectors}
    (h : CanonicalCache keys cache) (addr : OwnerAddr) (u : DeviceUpdate) :
    UpdateStores keys cache addr u := by
  obtain ⟨rows, hrep, hcanonical⟩ := h
  obtain ⟨cache', happly, hrep'⟩ :=
    applyVectors_refines hrep addr (fun e he => (hcanonical addr e he).ascending) u
  refine ⟨cache', _, happly, ?_⟩
  rcases putDevices_cases rows addr u fun e he => (hcanonical addr e he).ascending with
    ⟨reason, hrejected⟩ | ⟨new, hlays⟩
  · left
    rw [hrejected] at hrep' ⊢
    exact ⟨reason, rfl, hrep'.ext hrep⟩
  · right
    refine ⟨fun a ha => by rw [hrep' a, hrep a, hlays.others a ha], ?_⟩
    rw [hrep' addr, hrep addr, hlays.entry]
    exact ⟨_, rfl, storedFrom_overlay hlays.sanitized (hcanonical addr) rfl hlays.agrees u.learnedAt⟩

theorem CanonicalCache.applyVectors {cache cache' : BTreeMap OwnerAddr DeviceVectors}
    (h : CanonicalCache keys cache) {addr : OwnerAddr} {u : DeviceUpdate} {outcome : ApplyOutcome}
    (happly : applyVectors keys cache addr u = some (cache', outcome)) :
    CanonicalCache keys cache' := by
  obtain ⟨rows, hrep, hcanonical⟩ := h
  obtain ⟨cache'', happly', hrep'⟩ :=
    applyVectors_refines hrep addr (fun e he => (hcanonical addr e he).ascending) u
  obtain ⟨rfl, -⟩ := Prod.mk.inj (Option.some.inj (happly.symm.trans happly'))
  refine ⟨_, hrep', fun a e he => ?_⟩
  rcases putDevices_cases rows addr u fun e he => (hcanonical addr e he).ascending with
    ⟨reason, hrejected⟩ | ⟨new, hlays⟩
  · rw [hrejected] at he
    exact hcanonical a e he
  · by_cases ha : a = addr
    · subst ha
      rw [hlays.entry, Option.some.injEq] at he
      subst he
      refine CanonicalRows.overlay ?_ (sanitize_clean hlays.sanitized).canonical
      cases hr : rows[a]? with
      | none => exact ⟨List.Pairwise.nil, Nat.zero_le _, by simp⟩
      | some old => exact hcanonical a old hr
    · rw [hlays.others a ha] at he
      exact hcanonical a e he

end Stored

/-! ### Decoding -/

section Decode

variable {keys : IdentityKeys} {fields : List WireField} {u : DeviceUpdate}

theorem fitTo_eq {α : Type} (l : List (Option α)) (n : ℕ) : fitTo l n = resizeNone l n := by
  unfold fitTo resizeNone
  split_ifs with hshort hlong
  · rfl
  · rw [Nat.sub_eq_zero_of_le hlong.le, List.replicate_zero, List.append_nil]
  · have hn : n = l.length := by omega
    rw [hn, List.take_length, Nat.sub_self, List.replicate_zero, List.append_nil]

theorem readArray_eq_ok {α : Type} {tooLong : DecodeError} {check : α → Except DecodeError Unit}
    {a : WireArray α} (hlen : a.items.length ≤ maxDevicesPerOwner)
    (hcheck : ∀ item ∈ a.items, check item = .ok ()) : readArray tooLong check a = .ok a.items := by
  have hloop : ∀ (items out : List α), out.length + items.length ≤ maxDevicesPerOwner →
      (∀ item ∈ items, check item = .ok ()) →
        items.foldlM (fun out item => do
          ensure (out.length < maxDevicesPerOwner) tooLong
          check item
          pure (out ++ [item])) out = .ok (out ++ items) := by
    intro items
    induction items with
    | nil => intro out _ _; exact congrArg Except.ok (List.append_nil out).symm
    | cons item items ih =>
      intro out hout hitems
      rw [List.length_cons] at hout
      have hroom : ensure (out.length < maxDevicesPerOwner) tooLong = .ok () :=
        ensure_eq_ok.mpr (decide_eq_true (by omega))
      rw [List.foldlM_cons, hroom, hitems item (by simp)]
      refine (ih (out ++ [item]) ?_ fun i hi => hitems i (by simp [hi])).trans ?_
      · rw [List.length_append, List.length_singleton]
        omega
      · rw [List.append_assoc, List.singleton_append]
  unfold readArray
  simp only [bind_eq_ok, ensure_eq_ok]
  exact ⟨(), by simp [hlen], hloop a.items [] (by simpa using hlen) hcheck⟩

theorem checkContactKeys_eq_ok {contact : Option DeviceTunnelContact}
    (h : ∀ c, contact = some c → c.hasValidKeySizes = true) : checkContactKeys contact = .ok () := by
  cases contact with
  | none => rfl
  | some c =>
    have hc := h c rfl
    simp only [DeviceTunnelContact.hasValidKeySizes, decide_eq_true_eq] at hc
    simp only [checkContactKeys, Option.all_some, ensure_eq_ok, decide_eq_true_eq]
    omega

theorem checkDecodedPub_eq_ok {row : DeviceRow} :
    checkDecodedPub keys row = .ok () ↔
      ∀ p, row.identityPub = some p → keys.deriveDeviceHash p = some row.device := by
  unfold checkDecodedPub
  cases hp : row.identityPub with
  | none => simp
  | some p => cases hd : keys.deriveDeviceHash p <;> simp [hd]

/-- A slot of the record after the fields read and those to come. -/
def Slot {α : Type} (read : Option α) (coming : List α) (value : α) : Prop :=
  read.toList ++ coming = [value]

theorem Slot.read_next {α : Type} {read : Option α} {a value : α} {coming : List α}
    (h : Slot read (a :: coming) value) : read = none ∧ a = value ∧ Slot (some a) coming value := by
  cases read with
  | none =>
    obtain ⟨rfl, rfl⟩ := List.cons.inj h
    exact ⟨rfl, rfl, rfl⟩
  | some b => simp [Slot] at h

theorem Slot.done {α : Type} {read : Option α} {value : α} (h : Slot read [] value) :
    read = some value := by
  cases read with
  | none => cases h
  | some a => rw [List.cons.inj h |>.1]

/-- A slot that may stay empty for an empty vector. -/
def OptionalSlot {α : Type} (read : Option (List α)) (coming : List (List α)) (value : List α) : Prop :=
  Slot read coming value ∨ read = none ∧ coming = [] ∧ value = []

theorem OptionalSlot.read_next {α : Type} {read : Option (List α)} {a value : List α}
    {coming : List (List α)} (h : OptionalSlot read (a :: coming) value) :
    read = none ∧ a = value ∧ OptionalSlot (some a) coming value := by
  rcases h with h | ⟨-, hnil, -⟩
  · obtain ⟨hread, ha, hnext⟩ := h.read_next
    exact ⟨hread, ha, Or.inl hnext⟩
  · cases hnil

theorem OptionalSlot.done {α : Type} {read : Option (List α)} {value : List α}
    (h : OptionalSlot read [] value) : read.getD [] = value := by
  rcases h with h | ⟨rfl, -, rfl⟩
  · rw [h.done, Option.getD_some]
  · rfl

structure Reads (raw : RawEntry) (fields : List WireField) (u : DeviceUpdate) : Prop where
  devices : Slot raw.devices (fields.filterMap WireField.devicesOf) u.devices
  learnedAt : Slot raw.learnedAt (fields.filterMap WireField.learnedAtOf) u.learnedAt
  pubs : OptionalSlot raw.pubs (fields.filterMap WireField.pubsOf) u.deviceIdentityPubs
  contacts : OptionalSlot raw.contacts (fields.filterMap WireField.contactsOf) u.deviceTunnelContacts

theorem Reads.readField {raw : RawEntry} {field : WireField} (h : Reads raw (field :: fields) u)
    (hsized : u.WellSized) : ∃ raw', readField raw field = .ok raw' ∧ Reads raw' fields u := by
  obtain ⟨hdevices, hlearned, hpubs, hcontacts⟩ := h
  cases field with
  | v a =>
    obtain ⟨hread, ha, hnext⟩ := hdevices.read_next
    have hlen : a.items.length ≤ maxDevicesPerOwner := ha ▸ hsized.devices
    refine ⟨{ raw with devices := some a.items }, ?_, hnext, hlearned, hpubs, hcontacts⟩
    simp [Owner.readField, hread, readArray_eq_ok hlen fun _ _ => rfl]
  | p a =>
    obtain ⟨hread, ha, hnext⟩ := hpubs.read_next
    have hlen : a.items.length ≤ maxDevicesPerOwner := ha ▸ hsized.pubs
    refine ⟨{ raw with pubs := some a.items }, ?_, hdevices, hlearned, hnext, hcontacts⟩
    simp [Owner.readField, hread, readArray_eq_ok hlen fun _ _ => rfl]
  | l learnedAt =>
    obtain ⟨hread, -, hnext⟩ := hlearned.read_next
    refine ⟨{ raw with learnedAt := some learnedAt }, ?_, hdevices, hnext, hpubs, hcontacts⟩
    simp [Owner.readField, hread]
  | t a =>
    obtain ⟨hread, ha, hnext⟩ := hcontacts.read_next
    have hlen : a.items.length ≤ maxDevicesPerOwner := ha ▸ hsized.contacts
    have hkeys : ∀ item ∈ a.items, checkContactKeys item = .ok () := by
      intro item hitem
      refine checkContactKeys_eq_ok fun c hc => hsized.keySizes c ?_
      rw [← ha, ← hc]
      exact hitem
    refine ⟨{ raw with contacts := some a.items }, ?_, hdevices, hlearned, hpubs, hnext⟩
    simp [Owner.readField, hread, readArray_eq_ok hlen hkeys]
  | other => exact ⟨raw, rfl, hdevices, hlearned, hpubs, hcontacts⟩

theorem Reads.readFields {raw : RawEntry} (h : Reads raw fields u) (hsized : u.WellSized) :
    ∃ raw', fields.foldlM Owner.readField raw = .ok raw' ∧ raw'.devices = some u.devices ∧
      raw'.learnedAt = some u.learnedAt ∧ raw'.pubs.getD [] = u.deviceIdentityPubs ∧
        raw'.contacts.getD [] = u.deviceTunnelContacts := by
  induction fields generalizing raw with
  | nil => exact ⟨raw, rfl, h.devices.done, h.learnedAt.done, h.pubs.done, h.contacts.done⟩
  | cons field fields ih =>
    obtain ⟨raw', hread, hnext⟩ := h.readField hsized
    obtain ⟨raw'', hrest, hdone⟩ := ih hnext
    refine ⟨raw'', ?_, hdone⟩
    rw [List.foldlM_cons, hread]
    exact hrest

theorem Encodes.reads (h : Encodes fields u) : Reads {} fields u where
  devices := h.devices
  learnedAt := h.learnedAt
  pubs := h.pubs.imp id fun ⟨hnone, hempty⟩ => ⟨rfl, hnone, hempty⟩
  contacts := h.contacts.imp id fun ⟨hnone, hempty⟩ => ⟨rfl, hnone, hempty⟩

theorem mapError_eq_ok {α ε ε' : Type} {f : ε → ε'} {x : Except ε α} {a : α} :
    x.mapError f = .ok a ↔ x = .ok a := by
  cases x <;> simp [Except.mapError]

theorem mergeSorted_eq_ok {ε : Type} {conflict : DeviceIdentityHash → ε} {rows merged : List DeviceRow}
    (addr : OwnerAddr) : mergeSorted conflict rows = .ok merged ↔ joinSorted addr rows = .ok merged := by
  rw [← mergeSorted_eq_joinSorted, mergeSorted_mapError conflict, mapError_eq_ok,
    mergeSorted_mapError (InvariantFailure.conflictingIdentityPubs addr), mapError_eq_ok]

theorem forM_checks_eq_ok {addr : OwnerAddr} {rows : List DeviceRow} :
    rows.forM (checkDecodedPub keys) = .ok () ↔ rows.forM (checkPub keys addr) = .ok () := by
  rw [forM_eq_ok, forM_eq_ok]
  exact forall₂_congr fun row _ => checkDecodedPub_eq_ok.trans checkPub_eq_ok.symm

theorem joined_keySizes (hsized : u.WellSized) {addr : OwnerAddr} {joined : List DeviceRow}
    (hjoin : joinSorted addr (sortBy DeviceRow.device u.zipped) = .ok joined) :
    ((joined.take maxDevicesPerOwner).all fun row =>
      row.tunnelContact.all DeviceTunnelContact.hasValidKeySizes) = true := by
  rw [List.all_eq_true]
  intro row hrow
  rw [Option.all_eq_true]
  intro c hc
  obtain ⟨z, hz, -, hzc⟩ := ((joinSorted_from hjoin).1 row (List.mem_of_mem_take hrow)).contact c hc
  obtain ⟨i, -, -, hcontact⟩ := exists_index_of_mem_zipped (mem_sortBy.mp hz)
  exact hsized.keySizes c (List.mem_of_getElem? (hcontact c hzc))

theorem elim_eq_ok {α ε : Type} {failure : ε} {o : Option α} {a : α} :
    o.elim (.error failure) Except.ok = .ok a ↔ o = some a := by
  cases o <;> simp

/-- What a decoded entry is made of. -/
theorem deserializeEntry_eq_ok (addr : OwnerAddr) {e : DeviceVectors} :
    deserializeEntry keys fields = .ok e ↔
      ∃ raw devices learnedAt joined, fields.foldlM readField {} = .ok raw ∧
        raw.devices = some devices ∧ raw.learnedAt = some learnedAt ∧
          devices.length ≤ maxDevicesPerOwner ∧
            joinSorted addr (sortBy DeviceRow.device (DeviceUpdate.zipped
              ⟨devices, raw.pubs.getD [], raw.contacts.getD [], learnedAt⟩)) = .ok joined ∧
            (joined.take maxDevicesPerOwner).forM (checkPub keys addr) = .ok () ∧
              e = .ofRows (joined.take maxDevicesPerOwner) learnedAt := by
  unfold deserializeEntry
  simp only [bind_eq_ok, pure_eq_ok, ensure_eq_ok, elim_eq_ok, fitTo_eq, mergeSorted_eq_ok addr,
    decide_eq_true_eq, DeviceUpdate.zipped]
  constructor
  · rintro ⟨raw, hread, devices, hdevices, learnedAt, hlearned, _, hlen, joined, hjoin, _, hchecks, rfl⟩
    exact ⟨raw, devices, learnedAt, joined, hread, hdevices, hlearned, hlen, hjoin,
      forM_checks_eq_ok.mp hchecks, rfl⟩
  · rintro ⟨raw, devices, learnedAt, joined, hread, hdevices, hlearned, hlen, hjoin, hchecks, rfl⟩
    exact ⟨raw, hread, devices, hdevices, learnedAt, hlearned, (), hlen, joined, hjoin, (),
      forM_checks_eq_ok.mpr hchecks, rfl⟩

theorem deserializeEntry_canonical {e : DeviceVectors} (h : deserializeEntry keys fields = .ok e) :
    ∃ rows learnedAt, e = .ofRows rows learnedAt ∧ CanonicalRows keys rows := by
  obtain ⟨raw, devices, learnedAt, joined, -, -, -, -, hjoin, hchecks, rfl⟩ :=
    (deserializeEntry_eq_ok 0).mp h
  have hasc : Ascending DeviceRow.device joined := joinSorted_ascending (sortBy_sorted _) hjoin
  refine ⟨_, learnedAt, rfl, hasc.sublist (List.take_sublist _ _), List.length_take_le _ _, ?_⟩
  exact fun row hrow => checkPub_eq_ok.mp (forM_eq_ok.mp hchecks row hrow)

theorem deserializeEntry_eq_ok_iff (h : Encodes fields u) (hsized : u.WellSized) (addr : OwnerAddr)
    {e : DeviceVectors} :
    deserializeEntry keys fields = .ok e ↔ sanitizeVectors keys addr u = .ok e := by
  obtain ⟨raw, hread, hdevices, hlearned, hpubs, hcontacts⟩ := h.reads.readFields hsized
  rw [deserializeEntry_eq_ok addr, sanitizeVectors_eq]
  constructor
  · rintro ⟨raw', devices, learnedAt, joined, hread', hdevices', hlearned', -, hjoin, hchecks, rfl⟩
    obtain rfl := Except.ok.inj (hread.symm.trans hread')
    obtain rfl := Option.some.inj (hdevices.symm.trans hdevices')
    obtain rfl := Option.some.inj (hlearned.symm.trans hlearned')
    rw [hpubs, hcontacts] at hjoin
    have hsanitize : sanitize keys addr u = .ok (joined.take maxDevicesPerOwner) := by
      unfold sanitize
      simp only [bind_eq_ok, pure_eq_ok, ensure_eq_ok]
      exact ⟨joined, hjoin, (), hchecks, (), joined_keySizes hsized hjoin, rfl⟩
    rw [hsanitize]
    rfl
  · intro hsanitize
    cases hs : sanitize keys addr u with
    | error failure =>
      rw [hs] at hsanitize
      cases hsanitize
    | ok rows =>
      rw [hs] at hsanitize
      obtain rfl := Except.ok.inj hsanitize
      unfold sanitize at hs
      simp only [bind_eq_ok, pure_eq_ok, ensure_eq_ok] at hs
      obtain ⟨joined, hjoin, _, hchecks, _, -, rfl⟩ := hs
      refine ⟨raw, u.devices, u.learnedAt, joined, hread, hdevices, hlearned, hsized.devices, ?_,
        hchecks, rfl⟩
      rw [hpubs, hcontacts]
      exact hjoin

theorem decodesAsApplied (keys : IdentityKeys) (h : Encodes fields u) (hsized : u.WellSized) :
    DecodesAsApplied keys fields u := by
  intro addr
  have hiff : ∀ e, deserializeEntry keys fields = .ok e ↔ sanitizeVectors keys addr u = .ok e :=
    fun e => deserializeEntry_eq_ok_iff h hsized addr
  have hempty : (∅ : BTreeMap OwnerAddr DeviceVectors)[addr]? = none := Std.ExtTreeMap.getElem?_empty
  unfold applyVectors
  cases hs : sanitizeVectors keys addr u with
  | ok e =>
    left
    refine ⟨e, (hiff e).mpr hs, ?_⟩
    simp only [hempty]
  | error failure =>
    right
    cases hd : deserializeEntry keys fields with
    | ok e =>
      rw [(hiff e).mp hd] at hs
      cases hs
    | error failure' => exact ⟨failure', _, rfl, rfl⟩

end Decode

/-! ### Every run -/

theorem canonicalCache_empty (keys : IdentityKeys) : CanonicalCache keys ∅ := by
  refine ⟨∅, fun a => ?_, fun a e he => ?_⟩
  · simp
  · simp at he

theorem CanonicalCache.insert {keys : IdentityKeys} {cache : BTreeMap OwnerAddr DeviceVectors}
    (h : CanonicalCache keys cache) (addr : OwnerAddr) {rows : List DeviceRow}
    (hrows : CanonicalRows keys rows) (learnedAt : Hlc) :
    CanonicalCache keys (cache.insert addr (.ofRows rows learnedAt)) := by
  obtain ⟨entries, hrep, hcanonical⟩ := h
  refine ⟨_, hrep.insert addr ⟨rows, learnedAt⟩, fun a e he => ?_⟩
  rw [BTreeMap.get_insert] at he
  split_ifs at he
  · obtain rfl := Option.some.inj he
    exact hrows
  · exact hcanonical a e he

theorem canonicalCache_decodeCache {keys : IdentityKeys} {entries : List (OwnerAddr × List WireField)}
    {cache : BTreeMap OwnerAddr DeviceVectors} (h : decodeCache keys entries = .ok cache) :
    CanonicalCache keys cache := by
  suffices hloop : ∀ start, CanonicalCache keys start →
      entries.foldlM (fun cache p => do pure (cache.insert p.1 (← deserializeEntry keys p.2))) start =
        .ok cache → CanonicalCache keys cache from hloop ∅ (canonicalCache_empty keys) h
  clear h
  induction entries with
  | nil =>
    intro start hstart hcache
    exact Except.ok.inj hcache ▸ hstart
  | cons p entries ih =>
    intro start hstart hcache
    rw [List.foldlM_cons] at hcache
    simp only [bind_eq_ok, pure_eq_ok] at hcache
    obtain ⟨next, ⟨e, he, rfl⟩, hrest⟩ := hcache
    obtain ⟨rows, learnedAt, rfl, hrows⟩ := deserializeEntry_canonical he
    exact ih _ (hstart.insert p.1 hrows learnedAt) hrest

theorem canonicalCache_vectorRun (keys : IdentityKeys) (ops : List CacheOp) :
    ∃ cache, vectorRun keys ops = some cache ∧ CanonicalCache keys cache := by
  induction ops using List.reverseRecOn with
  | nil => exact ⟨∅, rfl, canonicalCache_empty keys⟩
  | append_singleton ops op ih =>
    obtain ⟨cache, hrun, hcache⟩ := ih
    have hstep : vectorRun keys (ops ++ [op]) = op.run keys cache := by
      unfold vectorRun at hrun ⊢
      rw [List.foldlM_append, hrun]
      exact bind_pure (op.run keys cache)
    rw [hstep]
    cases op with
    | update addr u =>
      obtain ⟨cache', outcome, happly, -⟩ := hcache.updateStores addr u
      exact ⟨cache', by rw [CacheOp.run, happly]; rfl, hcache.applyVectors happly⟩
    | load entries =>
      cases hd : decodeCache keys entries with
      | error failure => exact ⟨cache, by rw [CacheOp.run, hd]; rfl, hcache⟩
      | ok loaded => exact ⟨loaded, by rw [CacheOp.run, hd]; rfl, canonicalCache_decodeCache hd⟩

/-- After every run, an update of the cache is rejected without a trace or leaves a canonical
entry that lost nothing, and what is well sized decodes as it is applied. -/
theorem device_lists_canonical (keys : IdentityKeys) (ops : List CacheOp) :
    ∃ cache, vectorRun keys ops = some cache ∧
      (∀ addr u, UpdateStores keys cache addr u) ∧
        ∀ fields u, Encodes fields u → u.WellSized → DecodesAsApplied keys fields u := by
  obtain ⟨cache, hrun, hcache⟩ := canonicalCache_vectorRun keys ops
  exact ⟨cache, hrun, hcache.updateStores, fun _ _ h hsized => decodesAsApplied keys h hsized⟩

def sampleContact : DeviceTunnelContact :=
  ⟨9, some "https://relay", List.replicate 1952 0, List.replicate 1184 0⟩

def sampleUpdate : DeviceUpdate :=
  ⟨[2, 1], [none, some 17], [some sampleContact, none], ⟨10, 0, "a"⟩⟩

/-- Its fields in another order, the pubs of unknown length, and a field of a later version. -/
def sampleFields : List WireField :=
  [.other, .l ⟨10, 0, "a"⟩, .t ⟨true, [some sampleContact, none]⟩, .v ⟨true, [2, 1]⟩,
    .p ⟨false, [none, some 17]⟩]

theorem device_lists_canonical_two :
    UpdateStores sampleKeys ∅ 5 sampleUpdate ∧ DecodesAsApplied sampleKeys sampleFields sampleUpdate ∧
      ((deserializeEntry sampleKeys sampleFields).toOption.map DeviceVectors.devices) =
        some [1, 2] := by
  obtain ⟨cache, hrun, hupdate, hdecode⟩ := device_lists_canonical sampleKeys []
  obtain rfl : ∅ = cache := Option.some.inj hrun
  have hencodes : Encodes sampleFields sampleUpdate := ⟨rfl, rfl, .inl rfl, .inl rfl⟩
  have hsizes : sampleContact.hasValidKeySizes = true := by decide +kernel
  have hsized : sampleUpdate.WellSized := by
    refine ⟨by decide, by decide, by decide, fun c hc => ?_⟩
    obtain rfl : c = sampleContact := by simpa [sampleUpdate] using hc
    exact hsizes
  refine ⟨hupdate 5 sampleUpdate, hdecode _ _ hencodes hsized, ?_⟩
  decide +kernel

end Harmony.Owner
