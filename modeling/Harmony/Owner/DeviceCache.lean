import Harmony.Owner.Merge

/-! The device cache of one owner on two replicas. An update is a list of rows with
a stamp; the newest list replaces the cached one, except that what is cached of a
device survives where the newer row knows less. Two replicas that exchange
snapshots agree for every arrival order exactly when the newest update carries
every pub and contact that some update carries for one of its devices. -/

namespace Harmony.Owner

open Harmony.Lib
open Harmony.Membership (OwnerAddr SpaceId Hlc Bytes)

section Sanitize

variable {keys : IdentityKeys} {addr : OwnerAddr}

/-- What sanitizing establishes and every stored entry keeps. -/
structure CleanRows (keys : IdentityKeys) (rows : List DeviceRow) : Prop where
  ascending : Ascending DeviceRow.device rows
  capped : rows.length ≤ maxDevicesPerOwner
  pubs : ∀ row ∈ rows, ∀ p, row.identityPub = some p → keys.deriveDeviceHash p = some row.device
  contacts : ∀ row ∈ rows, ∀ c, row.tunnelContact = some c → c.hasValidKeySizes = true

theorem checkPub_eq_ok {row : DeviceRow} :
    checkPub keys addr row = .ok () ↔
      ∀ p, row.identityPub = some p → keys.deriveDeviceHash p = some row.device := by
  unfold checkPub
  cases hp : row.identityPub with
  | none => simp
  | some p => cases hd : keys.deriveDeviceHash p <;> simp [hd]

theorem forM_eq_ok {α ε : Type} {f : α → Except ε Unit} {l : List α} :
    l.forM f = .ok () ↔ ∀ a ∈ l, f a = .ok () := by
  induction l with
  | nil => simp
  | cons a l ih =>
    change (f a >>= fun _ => l.forM f) = .ok () ↔ _
    rw [bind_eq_ok, List.forall_mem_cons, ← ih]
    exact ⟨fun ⟨_, ha, hl⟩ => ⟨ha, hl⟩, fun ⟨ha, hl⟩ => ⟨(), ha, hl⟩⟩

theorem joinRows_device {prev row joined : DeviceRow} (h : joinRows addr prev row = .ok joined) :
    joined.device = prev.device := by
  unfold joinRows at h
  simp only [bind_eq_ok, pure_eq_ok] at h
  obtain ⟨-, -, rfl⟩ := h
  rfl

theorem joinRuns_ascending {prev : DeviceRow} {rest out : List DeviceRow}
    (hs : (prev :: rest).Pairwise fun a b => a.device ≤ b.device)
    (h : joinRuns addr prev rest = .ok out) :
    Ascending DeviceRow.device out ∧ ∀ row ∈ out, prev.device ≤ row.device := by
  induction rest generalizing prev out with
  | nil =>
    simp only [joinRuns, Except.ok.injEq] at h
    subst h
    simp [Ascending]
  | cons row rest ih =>
    rw [List.pairwise_cons, List.pairwise_cons] at hs
    obtain ⟨hprev, hrow, hrest⟩ := hs
    rw [joinRuns] at h
    split_ifs at h with hd
    · simp only [bind_eq_ok] at h
      obtain ⟨joined, hj, hout⟩ := h
      have hjd := joinRows_device hj
      have := ih (List.pairwise_cons.mpr ⟨fun b hb => hjd ▸ hprev b (by simp [hb]), hrest⟩) hout
      rwa [hjd] at this
    · simp only [bind_eq_ok, pure_eq_ok] at h
      obtain ⟨out', hout, rfl⟩ := h
      obtain ⟨hasc, hge⟩ := ih (List.pairwise_cons.mpr ⟨hrow, hrest⟩) hout
      have hlt : prev.device < row.device := lt_of_le_of_ne (hprev row (by simp)) hd
      refine ⟨List.pairwise_cons.mpr ⟨fun b hb => hlt.trans_le (hge b hb), hasc⟩, ?_⟩
      intro b hb
      rcases List.mem_cons.mp hb with rfl | hb
      · exact le_rfl
      · exact hlt.le.trans (hge b hb)

theorem joinSorted_ascending {rows out : List DeviceRow}
    (hs : rows.Pairwise fun a b => a.device ≤ b.device) (h : joinSorted addr rows = .ok out) :
    Ascending DeviceRow.device out := by
  cases rows with
  | nil =>
    obtain rfl := Except.ok.inj h
    exact List.Pairwise.nil
  | cons row rest => exact (joinRuns_ascending hs h).1

theorem sanitize_clean {u : DeviceUpdate} {rows : List DeviceRow}
    (h : sanitize keys addr u = .ok rows) : CleanRows keys rows := by
  unfold sanitize at h
  simp only [bind_eq_ok, pure_eq_ok, ensure_eq_ok] at h
  obtain ⟨joined, hjoin, ⟨⟩, hpubs, ⟨⟩, hcontacts, rfl⟩ := h
  have hasc : Ascending DeviceRow.device joined :=
    joinSorted_ascending (sortBy_sorted u.zipped) hjoin
  refine ⟨hasc.sublist (List.take_sublist _ _), List.length_take_le _ _, ?_, ?_⟩
  · intro row hrow
    exact checkPub_eq_ok.mp (forM_eq_ok.mp hpubs row hrow)
  · intro row hrow c hc
    have := List.all_eq_true.mp hcontacts row hrow
    simpa [hc] using this

theorem joinRuns_of_ascending {prev : DeviceRow} {rest : List DeviceRow}
    (h : Ascending DeviceRow.device (prev :: rest)) :
    joinRuns addr prev rest = .ok (prev :: rest) := by
  induction rest generalizing prev with
  | nil => rfl
  | cons row rest ih =>
    obtain ⟨hprev, hrest⟩ := List.pairwise_cons.mp h
    rw [joinRuns, if_neg (hprev row (by simp)).ne, ih hrest]
    rfl

theorem zipped_toUpdate (e : OwnerDeviceEntry) : e.toUpdate.zipped = e.devices := by
  have hresize : ∀ {α : Type} (f : DeviceRow → Option α),
      resizeNone (e.devices.map f) (e.devices.map DeviceRow.device).length = e.devices.map f := by
    intro α f
    simp [resizeNone, List.take_of_length_le]
  simp only [DeviceUpdate.zipped, OwnerDeviceEntry.toUpdate, hresize]
  induction e.devices with
  | nil => rfl
  | cons row rows ih => simpa using ih

theorem sanitize_toUpdate {e : OwnerDeviceEntry} (h : CleanRows keys e.devices) :
    sanitize keys addr e.toUpdate = .ok e.devices := by
  unfold sanitize
  simp only [bind_eq_ok, pure_eq_ok, ensure_eq_ok]
  refine ⟨e.devices, ?_, (), ?_, (), ?_, List.take_of_length_le h.capped⟩
  · rw [zipped_toUpdate, ← eq_sortBy h.ascending.keyNodup (List.Perm.refl _)
      (h.ascending.imp fun hlt => le_of_lt hlt)]
    cases hd : e.devices with
    | nil => rfl
    | cons row rest => exact joinRuns_of_ascending (hd ▸ h.ascending)
  · rw [List.take_of_length_le h.capped]
    exact forM_eq_ok.mpr fun row hrow => checkPub_eq_ok.mpr (h.pubs row hrow)
  · rw [List.take_of_length_le h.capped, List.all_eq_true]
    intro row hrow
    rw [Option.all_eq_true]
    exact h.contacts row hrow

end Sanitize

/-- What an update of already sanitized rows leaves of an owner's entry. -/
def adopt (addr : OwnerAddr) (old : Option OwnerDeviceEntry) (new : OwnerDeviceEntry) :
    Option OwnerDeviceEntry :=
  match old with
  | none => some new
  | some e =>
    if new.learnedAt ≤ e.learnedAt then some e
    else ((new.devices.mapM (preserveRow addr e.devices)).toOption.map
      fun merged => ⟨merged, new.learnedAt⟩).or (some e)

def acceptedRows (keys : IdentityKeys) (addr : OwnerAddr) (u : DeviceUpdate) :
    Option (List DeviceRow) :=
  (sanitize keys addr u).toOption

section Entry

variable {keys : IdentityKeys} {addr : OwnerAddr}

theorem acceptedRows_eq_some {u : DeviceUpdate} {rows : List DeviceRow} :
    acceptedRows keys addr u = some rows ↔ sanitize keys addr u = .ok rows := by
  cases h : sanitize keys addr u <;> simp [acceptedRows, h, Except.toOption]

theorem putDevices_get (cache : BTreeMap OwnerAddr OwnerDeviceEntry) (k : OwnerAddr)
    (u : DeviceUpdate) (a : OwnerAddr) :
    (putDevices keys cache k u).1[a]? =
      if k = a then
        (acceptedRows keys k u).elim cache[a]? fun rows => adopt k cache[a]? ⟨rows, u.learnedAt⟩
      else cache[a]? := by
  unfold putDevices
  cases hs : sanitize keys k u with
  | error e => simp [acceptedRows, hs, Except.toOption]
  | ok rows =>
    rw [acceptedRows_eq_some.mpr hs, Option.elim_some]
    by_cases hk : k = a
    · subst hk
      rw [if_pos rfl]
      cases hc : cache[k]? with
      | none => simp [adopt]
      | some e =>
        simp only [isStrictlyNewerThan_iff, adopt]
        by_cases hlt : u.learnedAt < e.learnedAt
        · simp [hlt, hlt.le, hc]
        · by_cases heq : e.learnedAt = u.learnedAt
          · by_cases hd : e.devices = rows <;> simp [heq, hd, hc]
          · have hgt : ¬u.learnedAt ≤ e.learnedAt := fun hle =>
              heq (le_antisymm (not_lt.mp hlt) hle)
            cases rows.mapM (preserveRow k e.devices) <;> simp [hlt, heq, hgt, hc, Except.toOption]
    · rw [if_neg hk]
      repeat' split
      all_goals simp [BTreeMap.get_insert, hk]

theorem apply_cache_get (s : OwnerState) (u : DeviceUpdate) :
    (s.applyOwnerDeviceUpdate keys addr u).1.ownerDeviceCache[addr]? =
      (acceptedRows keys addr u).elim s.ownerDeviceCache[addr]? fun rows =>
        adopt addr s.ownerDeviceCache[addr]? ⟨rows, u.learnedAt⟩ := by
  refine (putDevices_get s.ownerDeviceCache addr u addr).trans ?_
  rw [if_pos rfl]

/-- A merge adopts the entry of the remote state, if the stamp is acceptable. -/
theorem merge_cache_get (now : Option ℕ) (s remote : OwnerState) :
    (s.mergeRemoteIntoLocal keys now remote).ownerDeviceCache[addr]? =
      remote.ownerDeviceCache[addr]?.elim s.ownerDeviceCache[addr]? fun e =>
        if wallExceedsForwardSkew e.learnedAt.wallMs now then s.ownerDeviceCache[addr]?
        else (acceptedRows keys addr e.toUpdate).elim s.ownerDeviceCache[addr]? fun rows =>
          adopt addr s.ownerDeviceCache[addr]? ⟨rows, e.learnedAt⟩ := by
  have hstep : StepsAtKey (fun (m : BTreeMap OwnerAddr OwnerDeviceEntry) k => m[k]?)
      (mergeDevices keys now) fun k e old =>
        if wallExceedsForwardSkew e.learnedAt.wallMs now then old
        else (acceptedRows keys k e.toUpdate).elim old fun rows =>
          adopt k old ⟨rows, e.learnedAt⟩ := by
    intro m k e a
    simp only [mergeDevices]
    by_cases hskew : wallExceedsForwardSkew e.learnedAt.wallMs now = true
    · simp [hskew]
    · simp only [hskew, Bool.false_eq_true, if_false]
      exact putDevices_get m k e.toUpdate a
  have hsame : (s.mergeConversations now remote).ownerDeviceCache[addr]? =
      s.ownerDeviceCache[addr]? :=
    congrArg (fun t => t.ownerDeviceCache[addr]?) (s.mergeConversations_rest now remote)
  have hfold := hstep.foldl remote.ownerDeviceCache
    (s.mergeConversations now remote).ownerDeviceCache addr
  simp only [hsame] at hfold
  exact hfold

def overlay (cached : List DeviceRow) (row : DeviceRow) : DeviceRow :=
  match cached.find? fun c => c.device = row.device with
  | none => row
  | some old =>
    ⟨row.device, row.identityPub.or old.identityPub, row.tunnelContact.or old.tunnelContact⟩

@[simp] theorem overlay_device (cached : List DeviceRow) (row : DeviceRow) :
    (overlay cached row).device = row.device := by
  unfold overlay
  split <;> rfl

theorem find_device {cached : List DeviceRow} {row old : DeviceRow}
    (h : (cached.find? fun c => c.device = row.device) = some old) :
    old ∈ cached ∧ old.device = row.device :=
  ⟨List.mem_of_find?_eq_some h, by simpa using List.find?_some h⟩

theorem find_device_eq {cached : List DeviceRow} (hasc : Ascending DeviceRow.device cached)
    {old : DeviceRow} (hold : old ∈ cached) :
    (cached.find? fun c => c.device = old.device) = some old := by
  cases hf : cached.find? fun c => c.device = old.device with
  | none => exact absurd (decide_eq_true rfl) (List.find?_eq_none.mp hf old hold)
  | some other =>
    have hother : other.device = old.device := by simpa using List.find?_some hf
    rw [hasc.keyNodup.inj (List.mem_of_find?_eq_some hf) hold hother]

/-- What a completed row knows comes from the row or from a cached row of its device. -/
theorem overlay_identityPub {cached : List DeviceRow} {row : DeviceRow} {p : IdentityPub}
    (h : (overlay cached row).identityPub = some p) :
    row.identityPub = some p ∨
      ∃ old ∈ cached, old.device = row.device ∧ old.identityPub = some p := by
  unfold overlay at h
  split at h
  · exact Or.inl h
  · next old hold =>
    obtain ⟨hmem, hdev⟩ := find_device hold
    cases hp : row.identityPub with
    | none => exact Or.inr ⟨old, hmem, hdev, by simpa [hp] using h⟩
    | some q => exact Or.inl (by simpa [hp] using h)

theorem overlay_tunnelContact {cached : List DeviceRow} {row : DeviceRow} {c : DeviceTunnelContact}
    (h : (overlay cached row).tunnelContact = some c) :
    row.tunnelContact = some c ∨
      ∃ old ∈ cached, old.device = row.device ∧ old.tunnelContact = some c := by
  unfold overlay at h
  split at h
  · exact Or.inl h
  · next old hold =>
    obtain ⟨hmem, hdev⟩ := find_device hold
    cases hp : row.tunnelContact with
    | none => exact Or.inr ⟨old, hmem, hdev, by simpa [hp] using h⟩
    | some q => exact Or.inl (by simpa [hp] using h)

theorem ascending_overlay {new : List DeviceRow} (h : Ascending DeviceRow.device new)
    (cached : List DeviceRow) : Ascending DeviceRow.device (new.map (overlay cached)) := by
  rw [Ascending, List.pairwise_map]
  simpa [Ascending] using h

/-- Completed rows only hold pubs of their devices if both lists do. -/
theorem overlay_derives {cached new : List DeviceRow}
    (hcached : ∀ row ∈ cached, ∀ p, row.identityPub = some p →
      keys.deriveDeviceHash p = some row.device)
    (hnew : ∀ row ∈ new, ∀ p, row.identityPub = some p → keys.deriveDeviceHash p = some row.device) :
    ∀ row ∈ new.map (overlay cached), ∀ p, row.identityPub = some p →
      keys.deriveDeviceHash p = some row.device := by
  intro row hrow p hp
  obtain ⟨r, hr, rfl⟩ := List.mem_map.mp hrow
  rw [overlay_device]
  rcases overlay_identityPub hp with hp | ⟨old, hold, hd, hp⟩
  · exact hnew r hr p hp
  · exact hd ▸ hcached old hold p hp

theorem preserveRow_eq_ok {cached : List DeviceRow} {row : DeviceRow}
    (h : ∀ old ∈ cached, old.device = row.device → ∀ a b, old.identityPub = some a →
      row.identityPub = some b → a = b) :
    preserveRow addr cached row = .ok (overlay cached row) := by
  unfold preserveRow overlay
  cases hf : cached.find? fun c => c.device = row.device with
  | none => rfl
  | some old =>
    obtain ⟨hmem, hdev⟩ := find_device hf
    have hok : agreePubs (.conflictingCachedPub addr row.device) old.identityPub row.identityPub =
        .ok () := by
      cases hold : old.identityPub with
      | none => rfl
      | some a =>
        cases hrow : row.identityPub with
        | none => rfl
        | some b => simpa [agreePubs] using h old hmem hdev a b hold hrow
    simp [hok]

theorem mapM_eq_ok {α β ε : Type} {f : α → Except ε β} {g : α → β} {l : List α}
    (h : ∀ a ∈ l, f a = .ok (g a)) : l.mapM f = .ok (l.map g) := by
  induction l with
  | nil => rfl
  | cons a l ih =>
    rw [List.mapM_cons, h a (by simp), ih fun b hb => h b (by simp [hb])]
    rfl

end Entry

/-- The updates accepted for an owner, with the pubs and contacts they carry. -/
structure Carried (keys : IdentityKeys) (addr : OwnerAddr) (updates : Finset DeviceUpdate)
    (u : DeviceUpdate) (rows : List DeviceRow) : Prop where
  mem : u ∈ updates
  accepted : acceptedRows keys addr u = some rows

/-- No two accepted updates name different pubs for one device. -/
def NoConflict (keys : IdentityKeys) (addr : OwnerAddr) (updates : Finset DeviceUpdate) : Prop :=
  ∀ u ∈ updates, ∀ rows ∈ acceptedRows keys addr u, ∀ u' ∈ updates,
    ∀ rows' ∈ acceptedRows keys addr u', ∀ row ∈ rows, ∀ row' ∈ rows', row.device = row'.device →
      ∀ p ∈ row.identityPub, ∀ p' ∈ row'.identityPub, p = p'

/-- The newest accepted update knows of each of its devices what any update knows. -/
def NewestCarriesAll (keys : IdentityKeys) (addr : OwnerAddr) (updates : Finset DeviceUpdate) :
    Prop :=
  ∀ n ∈ updates, ∀ nrows ∈ acceptedRows keys addr n,
    (∀ u ∈ updates, acceptedRows keys addr u ≠ none → u.learnedAt ≤ n.learnedAt) →
      ∀ u ∈ updates, ∀ rows ∈ acceptedRows keys addr u, ∀ row ∈ rows, ∀ nrow ∈ nrows,
        row.device = nrow.device →
          (row.identityPub ≠ none → nrow.identityPub ≠ none) ∧
            (row.tunnelContact ≠ none → nrow.tunnelContact ≠ none)

section Invariant

variable {keys : IdentityKeys} {addr : OwnerAddr} {updates : Finset DeviceUpdate}

/-- What every stored entry is: the device list of one accepted update, with pubs
and contacts that accepted updates carry for these devices. -/
structure EntryOf (keys : IdentityKeys) (addr : OwnerAddr) (updates : Finset DeviceUpdate)
    (e : OwnerDeviceEntry) : Prop where
  clean : CleanRows keys e.devices
  source : ∃ u rows, Carried keys addr updates u rows ∧ e.learnedAt = u.learnedAt ∧
    e.devices.map DeviceRow.device = rows.map DeviceRow.device
  pubs : ∀ row ∈ e.devices, ∀ p, row.identityPub = some p → ∃ u rows, Carried keys addr updates u rows ∧
    ∃ row' ∈ rows, row'.device = row.device ∧ row'.identityPub = some p
  contacts : ∀ row ∈ e.devices, ∀ c, row.tunnelContact = some c →
    ∃ u rows, Carried keys addr updates u rows ∧
      ∃ row' ∈ rows, row'.device = row.device ∧ row'.tunnelContact = some c

theorem Carried.entryOf {u : DeviceUpdate} {rows : List DeviceRow}
    (h : Carried keys addr updates u rows) : EntryOf keys addr updates ⟨rows, u.learnedAt⟩ where
  clean := sanitize_clean (acceptedRows_eq_some.mp h.accepted)
  source := ⟨u, rows, h, rfl, rfl⟩
  pubs row hrow _ hp := ⟨u, rows, h, row, hrow, rfl, hp⟩
  contacts row hrow _ hc := ⟨u, rows, h, row, hrow, rfl, hc⟩

theorem EntryOf.agree (hnc : NoConflict keys addr updates) {e e' : OwnerDeviceEntry}
    (h : EntryOf keys addr updates e) (h' : EntryOf keys addr updates e') {old row : DeviceRow}
    (hold : old ∈ e.devices) (hrow : row ∈ e'.devices) (hd : old.device = row.device)
    {a b : IdentityPub} (ha : old.identityPub = some a) (hb : row.identityPub = some b) : a = b := by
  obtain ⟨u, rows, hc, r, hr, hrd, hrp⟩ := h.pubs old hold a ha
  obtain ⟨u', rows', hc', r', hr', hrd', hrp'⟩ := h'.pubs row hrow b hb
  exact hnc u hc.mem rows hc.accepted u' hc'.mem rows' hc'.accepted r hr r' hr'
    (by rw [hrd, hd, hrd']) a hrp b hrp'

theorem EntryOf.overlay {e e' : OwnerDeviceEntry} (h : EntryOf keys addr updates e)
    (h' : EntryOf keys addr updates e') :
    EntryOf keys addr updates ⟨e'.devices.map (overlay e.devices), e'.learnedAt⟩ where
  clean := by
    refine ⟨ascending_overlay h'.clean.ascending _, ?_,
      overlay_derives h.clean.pubs h'.clean.pubs, ?_⟩
    · simpa using h'.clean.capped
    · intro row hrow c hc
      obtain ⟨r, hr, rfl⟩ := List.mem_map.mp hrow
      rcases overlay_tunnelContact hc with hc | ⟨old, hold, -, hc⟩
      · exact h'.clean.contacts r hr c hc
      · exact h.clean.contacts old hold c hc
  source := by
    obtain ⟨u, rows, hc, ht, hd⟩ := h'.source
    exact ⟨u, rows, hc, ht, by simpa [Function.comp_def] using hd⟩
  pubs row hrow p hp := by
    obtain ⟨r, hr, rfl⟩ := List.mem_map.mp hrow
    rw [overlay_device]
    rcases overlay_identityPub hp with hp | ⟨old, hold, hd, hp⟩
    · exact h'.pubs r hr p hp
    · exact hd ▸ h.pubs old hold p hp
  contacts row hrow c hc := by
    obtain ⟨r, hr, rfl⟩ := List.mem_map.mp hrow
    rw [overlay_device]
    rcases overlay_tunnelContact hc with hc | ⟨old, hold, hd, hc⟩
    · exact h'.contacts r hr c hc
    · exact hd ▸ h.contacts old hold c hc

/-- Between entries of consistent updates, a newer one is always adopted. -/
theorem EntryOf.adopt_eq (hnc : NoConflict keys addr updates) {e e' : OwnerDeviceEntry}
    (h : EntryOf keys addr updates e) (h' : EntryOf keys addr updates e') :
    adopt addr (some e) e' =
      if e'.learnedAt ≤ e.learnedAt then some e
      else some ⟨e'.devices.map (Owner.overlay e.devices), e'.learnedAt⟩ := by
  have hm : e'.devices.mapM (preserveRow addr e.devices) =
      .ok (e'.devices.map (Owner.overlay e.devices)) :=
    mapM_eq_ok fun row hrow => preserveRow_eq_ok fun old hold hd _ _ ha hb =>
      h.agree hnc h' hold hrow hd ha hb
  unfold adopt
  split_ifs with hle
  · simp [hle]
  · simp [hle, hm, Except.toOption]

theorem EntryOf.merge_get (now : Option ℕ) (s remote : OwnerState) {e : OwnerDeviceEntry}
    (hr : remote.ownerDeviceCache[addr]? = some e) (he : EntryOf keys addr updates e)
    (hskew : wallExceedsForwardSkew e.learnedAt.wallMs now = false) :
    (s.mergeRemoteIntoLocal keys now remote).ownerDeviceCache[addr]? =
      adopt addr s.ownerDeviceCache[addr]? e := by
  rw [merge_cache_get, hr, Option.elim_some, hskew,
    acceptedRows_eq_some.mpr (sanitize_toUpdate he.clean)]
  rfl

end Invariant

/-! Two replicas, indexed by `Bool`. -/

inductive CacheStep where
  | apply (side : Bool) (u : DeviceUpdate)
  | merge (side : Bool) (now : Option ℕ)

def cacheStep (keys : IdentityKeys) (addr : OwnerAddr) (s : Bool → OwnerState) :
    CacheStep → Bool → OwnerState
  | .apply side u => Function.update s side ((s side).applyOwnerDeviceUpdate keys addr u).1
  | .merge side now =>
    Function.update s side ((s side).mergeRemoteIntoLocal keys now (s !side))

def cacheRun (keys : IdentityKeys) (addr : OwnerAddr) (steps : List CacheStep) : Bool → OwnerState :=
  steps.foldl (cacheStep keys addr) fun _ => {}

/-- The receiver's clock lets the stamps of all updates pass. -/
def ClockAdmits (updates : Finset DeviceUpdate) (now : Option ℕ) : Prop :=
  ∀ u ∈ updates, wallExceedsForwardSkew u.learnedAt.wallMs now = false

/-- Only the given updates are applied, and no merge meets a stamp ahead of its clock. -/
def CacheStep.Allowed (updates : Finset DeviceUpdate) : CacheStep → Prop
  | .apply _ u => u ∈ updates
  | .merge _ now => ClockAdmits updates now

/-- A run of allowed steps in which every update is applied on some side. -/
structure CacheSchedule (updates : Finset DeviceUpdate) (steps : List CacheStep) : Prop where
  allowed : ∀ step ∈ steps, step.Allowed updates
  applied : ∀ u ∈ updates, ∃ side, CacheStep.apply side u ∈ steps

/-- Neither side changes when it merges the other's snapshot. -/
def Exchanged (keys : IdentityKeys) (addr : OwnerAddr) (now : Option ℕ) (s : Bool → OwnerState) :
    Prop :=
  ∀ side, ((s side).mergeRemoteIntoLocal keys now (s !side)).ownerDeviceCache[addr]? =
    (s side).ownerDeviceCache[addr]?

/-- After any schedule and exchange both replicas hold the same entry, and a pub
that some update carries for a device of the newest list is known in it. -/
structure DeviceCacheConverges (keys : IdentityKeys) (addr : OwnerAddr)
    (updates : Finset DeviceUpdate) : Prop where
  agree : ∀ steps now, CacheSchedule updates steps → ClockAdmits updates now →
    Exchanged keys addr now (cacheRun keys addr steps) →
      (cacheRun keys addr steps false).ownerDeviceCache[addr]? =
        (cacheRun keys addr steps true).ownerDeviceCache[addr]?
  pubsKnown : ∀ steps now, CacheSchedule updates steps → ClockAdmits updates now →
    Exchanged keys addr now (cacheRun keys addr steps) →
      ∀ side e, (cacheRun keys addr steps side).ownerDeviceCache[addr]? = some e →
        ∀ u ∈ updates, ∀ rows ∈ acceptedRows keys addr u, ∀ row ∈ rows, ∀ p ∈ row.identityPub,
          row.device ∈ e.devices.map DeviceRow.device →
            ∃ row' ∈ e.devices, row'.device = row.device ∧ row'.identityPub = some p

section Runs

variable {keys : IdentityKeys} {addr : OwnerAddr} {updates : Finset DeviceUpdate}

theorem cacheRun_snoc (steps : List CacheStep) (step : CacheStep) :
    cacheRun keys addr (steps ++ [step]) = cacheStep keys addr (cacheRun keys addr steps) step := by
  simp only [cacheRun, List.foldl_append, List.foldl_cons, List.foldl_nil]

def EntriesOf (keys : IdentityKeys) (addr : OwnerAddr) (updates : Finset DeviceUpdate)
    (s : Bool → OwnerState) : Prop :=
  ∀ side e, (s side).ownerDeviceCache[addr]? = some e → EntryOf keys addr updates e

/-- What a step leaves on a side: the old entry, or what it adopts from an entry
that an accepted update or the other side supplies. -/
theorem cacheStep_get {s : Bool → OwnerState} {step : CacheStep}
    (hs : EntriesOf keys addr updates s) (hstep : step.Allowed updates) (side : Bool) :
    (cacheStep keys addr s step side).ownerDeviceCache[addr]? = (s side).ownerDeviceCache[addr]? ∨
      ∃ e, (cacheStep keys addr s step side).ownerDeviceCache[addr]? =
          adopt addr (s side).ownerDeviceCache[addr]? e ∧ EntryOf keys addr updates e ∧
        ((∃ u rows, Carried keys addr updates u rows ∧ e = ⟨rows, u.learnedAt⟩) ∨
          ∃ other, (s other).ownerDeviceCache[addr]? = some e) := by
  cases step with
  | apply at_ u =>
    by_cases hside : side = at_
    · subst hside
      simp only [cacheStep, Function.update_self]
      rw [apply_cache_get]
      cases hrows : acceptedRows keys addr u with
      | none => exact Or.inl rfl
      | some rows =>
        have hc : Carried keys addr updates u rows := ⟨hstep, hrows⟩
        exact Or.inr ⟨_, rfl, hc.entryOf, Or.inl ⟨u, rows, hc, rfl⟩⟩
    · exact Or.inl (by simp only [cacheStep, Function.update_of_ne hside])
  | merge at_ now =>
    by_cases hside : side = at_
    · subst hside
      simp only [cacheStep, Function.update_self]
      cases hr : (s !side).ownerDeviceCache[addr]? with
      | none => exact Or.inl (by rw [merge_cache_get, hr]; rfl)
      | some e =>
        have he := hs _ e hr
        obtain ⟨u, rows, hc, ht, -⟩ := he.source
        have hskew : wallExceedsForwardSkew e.learnedAt.wallMs now = false := by
          rw [ht]
          exact hstep u hc.mem
        exact Or.inr ⟨e, he.merge_get now _ _ hr hskew, he, Or.inr ⟨_, hr⟩⟩
    · exact Or.inl (by simp only [cacheStep, Function.update_of_ne hside])

/-- What an adoption leaves is the old entry, or the new one completed from it. -/
theorem adopt_cases (hnc : NoConflict keys addr updates) {old : Option OwnerDeviceEntry}
    {e : OwnerDeviceEntry} (hold : ∀ e₀, old = some e₀ → EntryOf keys addr updates e₀)
    (he : EntryOf keys addr updates e) :
    (old = none ∧ adopt addr old e = some e) ∨
      ∃ e₀, old = some e₀ ∧
        ((e.learnedAt ≤ e₀.learnedAt ∧ adopt addr old e = some e₀) ∨
          (e₀.learnedAt < e.learnedAt ∧
            adopt addr old e = some ⟨e.devices.map (overlay e₀.devices), e.learnedAt⟩)) := by
  cases old with
  | none => exact Or.inl ⟨rfl, rfl⟩
  | some e₀ =>
    refine Or.inr ⟨e₀, rfl, ?_⟩
    rw [(hold e₀ rfl).adopt_eq hnc he]
    rcases le_or_gt e.learnedAt e₀.learnedAt with hle | hlt
    · exact Or.inl ⟨hle, by rw [if_pos hle]⟩
    · exact Or.inr ⟨hlt, by rw [if_neg (not_le.mpr hlt)]⟩

theorem EntriesOf.cacheStep (hnc : NoConflict keys addr updates) {s : Bool → OwnerState}
    {step : CacheStep} (hs : EntriesOf keys addr updates s) (hstep : step.Allowed updates) :
    EntriesOf keys addr updates (cacheStep keys addr s step) := by
  intro side e he
  rcases cacheStep_get hs hstep side with h | ⟨e', h, he', -⟩
  · exact hs side e (h ▸ he)
  · rw [h] at he
    rcases adopt_cases hnc (hs side) he' with ⟨-, ha⟩ | ⟨e₀, h₀, ⟨-, ha⟩ | ⟨-, ha⟩⟩
    · exact Option.some.inj (ha.symm.trans he) ▸ he'
    · exact Option.some.inj (ha.symm.trans he) ▸ hs side e₀ h₀
    · exact Option.some.inj (ha.symm.trans he) ▸ (hs side e₀ h₀).overlay he'

theorem entriesOf_cacheRun (hnc : NoConflict keys addr updates) {steps : List CacheStep}
    (hsteps : ∀ step ∈ steps, step.Allowed updates) :
    EntriesOf keys addr updates (cacheRun keys addr steps) := by
  induction steps using List.reverseRecOn with
  | nil =>
    intro side e he
    simp [cacheRun] at he
  | append_singleton steps step ih =>
    rw [cacheRun_snoc]
    exact (ih fun t ht => hsteps t (by simp [ht])).cacheStep hnc (hsteps step (by simp))

def HoldsFrom (addr : OwnerAddr) (t : Hlc) (s : Bool → OwnerState) (side : Bool) : Prop :=
  ∃ e, (s side).ownerDeviceCache[addr]? = some e ∧ t ≤ e.learnedAt

theorem holdsFrom_of_adopt (hnc : NoConflict keys addr updates) {old : Option OwnerDeviceEntry}
    {e : OwnerDeviceEntry} (hold : ∀ e₀, old = some e₀ → EntryOf keys addr updates e₀)
    (he : EntryOf keys addr updates e) :
    ∃ e', adopt addr old e = some e' ∧ e.learnedAt ≤ e'.learnedAt ∧
      ∀ e₀, old = some e₀ → e₀.learnedAt ≤ e'.learnedAt := by
  rcases adopt_cases hnc hold he with ⟨hn, ha⟩ | ⟨e₀, h₀, ⟨hle, ha⟩ | ⟨hlt, ha⟩⟩
  · exact ⟨e, ha, le_rfl, fun e₀ h₀ => by simp [hn] at h₀⟩
  · exact ⟨e₀, ha, hle, fun e₁ h₁ => by rw [Option.some.inj (h₀.symm.trans h₁)]⟩
  · exact ⟨_, ha, le_rfl, fun e₁ h₁ => Option.some.inj (h₀.symm.trans h₁) ▸ hlt.le⟩

theorem HoldsFrom.cacheStep (hnc : NoConflict keys addr updates) {s : Bool → OwnerState}
    {step : CacheStep} (hs : EntriesOf keys addr updates s) (hstep : step.Allowed updates) {t : Hlc}
    {side : Bool} (h : HoldsFrom addr t s side) :
    HoldsFrom addr t (cacheStep keys addr s step) side := by
  obtain ⟨e, he, hle⟩ := h
  rcases cacheStep_get hs hstep side with hg | ⟨e', hg, he', -⟩
  · exact ⟨e, hg.trans he, hle⟩
  · obtain ⟨e'', ha, -, hge⟩ := holdsFrom_of_adopt hnc (hs side) he'
    exact ⟨e'', hg.trans ha, hle.trans (hge e he)⟩

/-- Once applied on a side, a stamp is never lost there. -/
theorem holdsFrom_cacheRun (hnc : NoConflict keys addr updates) {steps : List CacheStep}
    (hsteps : ∀ step ∈ steps, step.Allowed updates) {side : Bool} {u : DeviceUpdate}
    {rows : List DeviceRow} (hu : acceptedRows keys addr u = some rows)
    (hmem : CacheStep.apply side u ∈ steps) :
    HoldsFrom addr u.learnedAt (cacheRun keys addr steps) side := by
  induction steps using List.reverseRecOn with
  | nil => simp at hmem
  | append_singleton steps step ih =>
    have hprev : ∀ t ∈ steps, t.Allowed updates := fun t ht => hsteps t (by simp [ht])
    have hs : EntriesOf keys addr updates (cacheRun keys addr steps) := entriesOf_cacheRun hnc hprev
    have hallowed := hsteps step (by simp)
    rw [cacheRun_snoc]
    rcases List.mem_append.mp hmem with hmem | hmem
    · exact (ih hprev hmem).cacheStep hnc hs hallowed
    · obtain rfl := (List.mem_singleton.mp hmem).symm
      have hc : Carried keys addr updates u rows := ⟨hallowed, hu⟩
      obtain ⟨e', ha, hle, -⟩ := holdsFrom_of_adopt hnc (hs side) hc.entryOf
      refine ⟨e', ?_, hle⟩
      rw [Owner.cacheStep, Function.update_self, apply_cache_get, hu]
      exact ha

/-- The newest accepted update, and what it knows. -/
structure Newest (keys : IdentityKeys) (addr : OwnerAddr) (updates : Finset DeviceUpdate)
    (n : DeviceUpdate) (nrows : List DeviceRow) : Prop where
  carried : Carried keys addr updates n nrows
  latest : ∀ u rows, Carried keys addr updates u rows → u.learnedAt ≤ n.learnedAt

theorem exists_newest {u : DeviceUpdate} {rows : List DeviceRow}
    (h : Carried keys addr updates u rows) : ∃ n nrows, Newest keys addr updates n nrows := by
  have hne : (updates.filter fun u => acceptedRows keys addr u ≠ none).Nonempty :=
    ⟨u, Finset.mem_filter.mpr ⟨h.mem, by simp [h.accepted]⟩⟩
  obtain ⟨n, hn, hmax⟩ := Finset.exists_max_image _ DeviceUpdate.learnedAt hne
  obtain ⟨hmem, hacc⟩ := Finset.mem_filter.mp hn
  obtain ⟨nrows, hrows⟩ := Option.ne_none_iff_exists'.mp hacc
  refine ⟨n, nrows, ⟨hmem, hrows⟩, fun v vrows hv => hmax v ?_⟩
  exact Finset.mem_filter.mpr ⟨hv.mem, by simp [hv.accepted]⟩

section Newest

variable {n : DeviceUpdate} {nrows : List DeviceRow}

theorem Newest.carriesAll (hn : Newest keys addr updates n nrows)
    (hall : NewestCarriesAll keys addr updates) {u : DeviceUpdate} {rows : List DeviceRow}
    (hu : Carried keys addr updates u rows) {row nrow : DeviceRow} (hrow : row ∈ rows)
    (hnrow : nrow ∈ nrows) (hd : row.device = nrow.device) :
    (row.identityPub ≠ none → nrow.identityPub ≠ none) ∧
      (row.tunnelContact ≠ none → nrow.tunnelContact ≠ none) := by
  refine hall n hn.carried.mem nrows hn.carried.accepted (fun v hv hacc => ?_) u hu.mem rows
    hu.accepted row hrow nrow hnrow hd
  obtain ⟨vrows, hvrows⟩ := Option.ne_none_iff_exists'.mp hacc
  exact hn.latest v vrows ⟨hv, hvrows⟩

theorem Newest.overlay_eq (hn : Newest keys addr updates n nrows)
    (hall : NewestCarriesAll keys addr updates) {e : OwnerDeviceEntry}
    (he : EntryOf keys addr updates e) {row : DeviceRow} (hrow : row ∈ nrows) :
    overlay e.devices row = row := by
  unfold overlay
  split
  · rfl
  · next old hold =>
    obtain ⟨hmem, hdev⟩ := find_device hold
    have hpub : row.identityPub.or old.identityPub = row.identityPub := by
      cases hp : old.identityPub with
      | none => simp
      | some p =>
        obtain ⟨u, rows, hc, r, hr, hrd, hrp⟩ := he.pubs old hmem p hp
        have hne := (hn.carriesAll hall hc hr hrow (hrd.trans hdev)).1 (by simp [hrp])
        obtain ⟨q, hq⟩ := Option.ne_none_iff_exists'.mp hne
        simp [hq]
    have hcontact : row.tunnelContact.or old.tunnelContact = row.tunnelContact := by
      cases hp : old.tunnelContact with
      | none => simp
      | some c =>
        obtain ⟨u, rows, hc, r, hr, hrd, hrp⟩ := he.contacts old hmem c hp
        have hne := (hn.carriesAll hall hc hr hrow (hrd.trans hdev)).2 (by simp [hrp])
        obtain ⟨q, hq⟩ := Option.ne_none_iff_exists'.mp hne
        simp [hq]
    rw [hpub, hcontact]

/-- Wherever the newest stamp stands, the newest rows stand unchanged. -/
def ExactNewest (addr : OwnerAddr) (n : DeviceUpdate) (nrows : List DeviceRow)
    (s : Bool → OwnerState) : Prop :=
  ∀ side e, (s side).ownerDeviceCache[addr]? = some e → e.learnedAt = n.learnedAt →
    e.devices = nrows

theorem ExactNewest.cacheStep (hnc : NoConflict keys addr updates)
    (hinj : Set.InjOn DeviceUpdate.learnedAt updates) (hn : Newest keys addr updates n nrows)
    (hall : NewestCarriesAll keys addr updates) {s : Bool → OwnerState} {step : CacheStep}
    (hs : EntriesOf keys addr updates s) (hstep : step.Allowed updates)
    (h : ExactNewest addr n nrows s) :
    ExactNewest addr n nrows (cacheStep keys addr s step) := by
  intro side e he ht
  rcases cacheStep_get hs hstep side with hg | ⟨e', hg, he', hsource⟩
  · exact h side e (hg ▸ he) ht
  -- the adopted entry is exact where it carries the newest stamp
  have hexact : e'.learnedAt = n.learnedAt → e'.devices = nrows := by
    intro ht'
    rcases hsource with ⟨u, rows, hc, rfl⟩ | ⟨other, ho⟩
    · obtain rfl : u = n := hinj hc.mem hn.carried.mem ht'
      exact Option.some.inj (hc.accepted.symm.trans hn.carried.accepted)
    · exact h other e' ho ht'
  rw [hg] at he
  rcases adopt_cases hnc (hs side) he' with ⟨-, ha⟩ | ⟨e₀, h₀, ⟨-, ha⟩ | ⟨-, ha⟩⟩
  · obtain rfl := Option.some.inj (ha.symm.trans he)
    exact hexact ht
  · obtain rfl := Option.some.inj (ha.symm.trans he)
    exact h side _ h₀ ht
  · obtain rfl := Option.some.inj (ha.symm.trans he)
    have hd := hexact ht
    change e'.devices.map (overlay e₀.devices) = nrows
    rw [hd]
    exact (List.map_congr_left fun row hrow => hn.overlay_eq hall (hs side e₀ h₀) hrow).trans
      (List.map_id _)

theorem exactNewest_cacheRun (hnc : NoConflict keys addr updates)
    (hinj : Set.InjOn DeviceUpdate.learnedAt updates) (hn : Newest keys addr updates n nrows)
    (hall : NewestCarriesAll keys addr updates) {steps : List CacheStep}
    (hsteps : ∀ step ∈ steps, step.Allowed updates) :
    ExactNewest addr n nrows (cacheRun keys addr steps) := by
  induction steps using List.reverseRecOn with
  | nil =>
    intro side e he
    simp [cacheRun] at he
  | append_singleton steps step ih =>
    have hprev : ∀ t ∈ steps, t.Allowed updates := fun t ht => hsteps t (by simp [ht])
    rw [cacheRun_snoc]
    exact (ih hprev).cacheStep hnc hinj hn hall (entriesOf_cacheRun hnc hprev)
      (hsteps step (by simp))

/-- After the exchange both sides hold the newest stamp. -/
theorem holds_newest (hnc : NoConflict keys addr updates) (hn : Newest keys addr updates n nrows)
    {steps : List CacheStep} {now : Option ℕ} (hsched : CacheSchedule updates steps)
    (hnow : ClockAdmits updates now) (hex : Exchanged keys addr now (cacheRun keys addr steps))
    (side : Bool) :
    ∃ e, (cacheRun keys addr steps side).ownerDeviceCache[addr]? = some e ∧
      e.learnedAt = n.learnedAt := by
  set s := cacheRun keys addr steps
  have hs : EntriesOf keys addr updates s := entriesOf_cacheRun hnc hsched.allowed
  have hupper : ∀ side e, (s side).ownerDeviceCache[addr]? = some e →
      e.learnedAt ≤ n.learnedAt := by
    intro side e he
    obtain ⟨u, rows, hc, ht, -⟩ := (hs side e he).source
    exact ht ▸ hn.latest u rows hc
  obtain ⟨first, happlied⟩ := hsched.applied n hn.carried.mem
  obtain ⟨e, he, hle⟩ := holdsFrom_cacheRun hnc hsched.allowed hn.carried.accepted happlied
  have het : e.learnedAt = n.learnedAt := le_antisymm (hupper first e he) hle
  by_cases hside : side = first
  · exact ⟨e, hside ▸ he, het⟩
  -- the other side would change if it held anything older
  have hother : (!side) = first := by cases side <;> cases first <;> simp_all
  have hskew : wallExceedsForwardSkew e.learnedAt.wallMs now = false := by
    rw [het]
    exact hnow n hn.carried.mem
  have hmerge := (hs first e he).merge_get now (s side) (s first) he hskew
  have hstay := hex side
  rw [hother, hmerge] at hstay
  obtain ⟨e', ha, hge, -⟩ := holdsFrom_of_adopt hnc (hs side) (hs first e he)
  refine ⟨e', hstay.symm.trans ha, le_antisymm (hupper side e' (hstay.symm.trans ha)) ?_⟩
  exact het ▸ hge

end Newest

theorem DeviceCacheConverges.of_newestCarriesAll (hnc : NoConflict keys addr updates)
    (hinj : Set.InjOn DeviceUpdate.learnedAt updates)
    (hall : NewestCarriesAll keys addr updates) : DeviceCacheConverges keys addr updates := by
  refine ⟨?_, ?_⟩
  · intro steps now hsched hnow hex
    by_cases hnew : ∃ n nrows, Newest keys addr updates n nrows
    · obtain ⟨n, nrows, hn⟩ := hnew
      have hexact := exactNewest_cacheRun hnc hinj hn hall hsched.allowed
      obtain ⟨e, he, ht⟩ := holds_newest hnc hn hsched hnow hex false
      obtain ⟨e', he', ht'⟩ := holds_newest hnc hn hsched hnow hex true
      have hsame : e = e' := by
        obtain ⟨rows, t⟩ := e
        obtain ⟨rows', t'⟩ := e'
        have h1 : rows = nrows := hexact _ _ he ht
        have h2 : rows' = nrows := hexact _ _ he' ht'
        have h3 : t = n.learnedAt := ht
        have h4 : t' = n.learnedAt := ht'
        rw [h1, h2, h3, h4]
      rw [he, he', hsame]
    · have hnone : ∀ side, (cacheRun keys addr steps side).ownerDeviceCache[addr]? = none := by
        intro side
        by_contra hsome
        obtain ⟨e, he⟩ := Option.ne_none_iff_exists'.mp hsome
        obtain ⟨u, rows, hc, -⟩ := (entriesOf_cacheRun hnc hsched.allowed side e he).source
        exact hnew (exists_newest hc)
      rw [hnone false, hnone true]
  · intro steps now hsched hnow hex side e he u hu rows hrows row hrow p hp hd
    have hc : Carried keys addr updates u rows := ⟨hu, hrows⟩
    obtain ⟨n, nrows, hn⟩ := exists_newest hc
    obtain ⟨e', he', ht⟩ := holds_newest hnc hn hsched hnow hex side
    obtain rfl := Option.some.inj (he.symm.trans he')
    have hdev := exactNewest_cacheRun hnc hinj hn hall hsched.allowed side e he ht
    rw [hdev] at hd ⊢
    obtain ⟨nrow, hnrow, hnd⟩ := List.mem_map.mp hd
    refine ⟨nrow, hnrow, hnd, ?_⟩
    have hne := (hn.carriesAll hall hc hrow hnrow hnd.symm).1 (by simp [show _ = some p from hp])
    obtain ⟨q, hq⟩ := Option.ne_none_iff_exists'.mp hne
    rw [hq, hnc u hu rows hrows n hn.carried.mem nrows hn.carried.accepted row hrow nrow hnrow
      hnd.symm p hp q hq]

/-! The converse: one replica learns the older update first, the other learns the
newest one only; the entries then carry the same stamp and never merge again. -/

theorem adopt_of_le {e new : OwnerDeviceEntry} (h : new.learnedAt ≤ e.learnedAt) :
    adopt addr (some e) new = some e := by
  simp [adopt, h]

/-- Updates that are not newer leave both sides as they are. -/
theorem foldl_apply_get {s : Bool → OwnerState} {side : Bool} {e : OwnerDeviceEntry}
    (he : (s side).ownerDeviceCache[addr]? = some e) {l : List DeviceUpdate}
    (hl : ∀ u ∈ l, acceptedRows keys addr u ≠ none → u.learnedAt ≤ e.learnedAt) (first : Bool) :
    ((l.map (CacheStep.apply first)).foldl (cacheStep keys addr) s side).ownerDeviceCache[addr]? =
      some e := by
  induction l generalizing s with
  | nil => exact he
  | cons u l ih =>
    refine ih ?_ fun v hv => hl v (by simp [hv])
    by_cases hside : side = first
    · subst hside
      rw [cacheStep, Function.update_self, apply_cache_get, he]
      cases hrows : acceptedRows keys addr u with
      | none => rfl
      | some rows => exact adopt_of_le (hl u (by simp) (by simp [hrows]))
    · rw [cacheStep, Function.update_of_ne hside]
      exact he

theorem overlay_of_mem {rows : List DeviceRow} (hasc : Ascending DeviceRow.device rows)
    {row nrow : DeviceRow} (hrow : row ∈ rows) (hd : row.device = nrow.device) :
    overlay rows nrow =
      ⟨nrow.device, nrow.identityPub.or row.identityPub,
        nrow.tunnelContact.or row.tunnelContact⟩ := by
  have hfind := find_device_eq hasc hrow
  rw [hd] at hfind
  simp [overlay, hfind]

/-- One side learns the older update, then the newest; the other the newest only.
What else there is comes too late. -/
def stuckSchedule (late : List DeviceUpdate) (u n : DeviceUpdate) : List CacheStep :=
  [.apply false u, .apply false n, .apply true n] ++ late.map (CacheStep.apply false)

theorem stuckSchedule_schedule {u n : DeviceUpdate} (hu : u ∈ updates) (hn : n ∈ updates) :
    CacheSchedule updates (stuckSchedule updates.toList u n) where
  allowed step hstep := by
    simp only [stuckSchedule, List.mem_append, List.mem_cons, List.not_mem_nil, or_false,
      List.mem_map, Finset.mem_toList] at hstep
    rcases hstep with (rfl | rfl | rfl) | ⟨v, hv, rfl⟩
    exacts [hu, hn, hn, hv]
  applied v hv := ⟨false, by simp [stuckSchedule, hv]⟩

section Stuck

variable {u n : DeviceUpdate} {rows nrows : List DeviceRow}
  (hn : Newest keys addr updates n nrows) (hu : Carried keys addr updates u rows)
include hn

/-- From the third step on, an entry with the newest stamp stays. -/
theorem stuckSchedule_get {side : Bool} {devices : List DeviceRow}
    (he : (cacheRun keys addr [.apply false u, .apply false n, .apply true n]
      side).ownerDeviceCache[addr]? = some ⟨devices, n.learnedAt⟩) :
    (cacheRun keys addr (stuckSchedule updates.toList u n) side).ownerDeviceCache[addr]? =
      some ⟨devices, n.learnedAt⟩ := by
  rw [cacheRun, stuckSchedule, List.foldl_append]
  refine foldl_apply_get he (fun v hv hacc => ?_) false
  obtain ⟨vrows, hvrows⟩ := Option.ne_none_iff_exists'.mp hacc
  exact hn.latest v vrows ⟨Finset.mem_toList.mp hv, hvrows⟩

theorem stuckSchedule_true :
    (cacheRun keys addr (stuckSchedule updates.toList u n) true).ownerDeviceCache[addr]? =
      some ⟨nrows, n.learnedAt⟩ := by
  refine stuckSchedule_get hn ?_
  simp only [cacheRun, List.foldl_cons, List.foldl_nil, cacheStep, Function.update_self,
    Function.update_of_ne (show true ≠ false by decide), apply_cache_get, hn.carried.accepted,
    Option.elim_some]
  simp [adopt]

include hu in
theorem stuckSchedule_false (hnc : NoConflict keys addr updates)
    (hlt : u.learnedAt < n.learnedAt) :
    (cacheRun keys addr (stuckSchedule updates.toList u n) false).ownerDeviceCache[addr]? =
      some ⟨nrows.map (overlay rows), n.learnedAt⟩ := by
  refine stuckSchedule_get hn ?_
  have hfirst : adopt addr ({} : OwnerState).ownerDeviceCache[addr]? ⟨rows, u.learnedAt⟩ =
      some ⟨rows, u.learnedAt⟩ := by simp [adopt]
  simp only [cacheRun, List.foldl_cons, List.foldl_nil, cacheStep, Function.update_self,
    Function.update_of_ne (show false ≠ true by decide), apply_cache_get, hu.accepted,
    hn.carried.accepted, Option.elim_some]
  rw [hfirst, hu.entryOf.adopt_eq hnc hn.carried.entryOf, if_neg (not_le.mpr hlt)]

include hu in
theorem stuckSchedule_exchanged (hnc : NoConflict keys addr updates)
    (hlt : u.learnedAt < n.learnedAt) :
    Exchanged keys addr none (cacheRun keys addr (stuckSchedule updates.toList u n)) := by
  have hentries : EntriesOf keys addr updates (cacheRun keys addr (stuckSchedule updates.toList u n)) :=
    entriesOf_cacheRun hnc (stuckSchedule_schedule hu.mem hn.carried.mem).allowed
  have htrue := stuckSchedule_true (u := u) hn
  have hfalse := stuckSchedule_false hn hu hnc hlt
  intro side
  cases side with
  | false =>
    refine ((hentries true _ htrue).merge_get none _ _ htrue rfl).trans ?_
    rw [hfalse]
    exact adopt_of_le le_rfl
  | true =>
    refine ((hentries false _ hfalse).merge_get none _ _ hfalse rfl).trans ?_
    rw [htrue]
    exact adopt_of_le le_rfl

end Stuck

theorem DeviceCacheConverges.newestCarriesAll (hnc : NoConflict keys addr updates)
    (hinj : Set.InjOn DeviceUpdate.learnedAt updates)
    (h : DeviceCacheConverges keys addr updates) : NewestCarriesAll keys addr updates := by
  intro n hn nrows hnrows hmax u hu rows hrows row hrow nrow hnrow hd
  have hcu : Carried keys addr updates u rows := ⟨hu, hrows⟩
  have hnew : Newest keys addr updates n nrows :=
    ⟨⟨hn, hnrows⟩, fun v vrows hv => hmax v hv.mem (by simp [hv.accepted])⟩
  have hasc : Ascending DeviceRow.device rows := hcu.entryOf.clean.ascending
  by_cases hun : u = n
  · subst hun
    obtain rfl := Option.some.inj (hcu.accepted.symm.trans hnew.carried.accepted)
    rw [hasc.keyNodup.inj hrow hnrow hd]
    exact ⟨fun hne => hne, fun hne => hne⟩
  have hlt : u.learnedAt < n.learnedAt :=
    lt_of_le_of_ne (hnew.latest u rows hcu) fun heq => hun (hinj hu hn heq)
  have hagree := h.agree (stuckSchedule updates.toList u n) none (stuckSchedule_schedule hu hn)
    (fun _ _ => rfl) (stuckSchedule_exchanged hnew hcu hnc hlt)
  rw [stuckSchedule_false hnew hcu hnc hlt, stuckSchedule_true hnew] at hagree
  have hrows' : nrows.map (overlay rows) = nrows.map id := by
    rw [List.map_id]
    exact congrArg OwnerDeviceEntry.devices (Option.some.inj hagree)
  have hover := List.map_inj_left.mp hrows' nrow hnrow
  rw [overlay_of_mem hasc hrow hd] at hover
  refine ⟨fun hne hnone => hne ?_, fun hne hnone => hne ?_⟩
  · have hpub := congrArg DeviceRow.identityPub hover
    simpa [hnone] using hpub
  · have hcontact := congrArg DeviceRow.tunnelContact hover
    simpa [hnone] using hcontact

end Runs

/-- Two replicas converge on an owner's devices, whatever the arrival order, exactly
when the newest accepted update carries every pub and contact that an accepted
update carries for one of its devices. -/
theorem deviceCacheConverges_iff (keys : IdentityKeys) (addr : OwnerAddr)
    (updates : Finset DeviceUpdate) (hinj : Set.InjOn DeviceUpdate.learnedAt updates)
    (hnc : NoConflict keys addr updates) :
    DeviceCacheConverges keys addr updates ↔ NewestCarriesAll keys addr updates :=
  ⟨fun h => h.newestCarriesAll hnc hinj, fun h => .of_newestCarriesAll hnc hinj h⟩

/-- Pubs of one digit after the device they belong to. -/
def sampleKeys : IdentityKeys := ⟨fun p => some (p / 10), fun master => master⟩

/-- An update with the pub of device 1, and a newer one that lists the device without it. -/
def updateWithPub : DeviceUpdate := ⟨[1], [some 17], [], ⟨10, 0, "a"⟩⟩

def updateWithoutPub : DeviceUpdate := ⟨[1], [], [], ⟨20, 0, "b"⟩⟩

theorem injOn_learnedAt_pair {u v : DeviceUpdate} (h : u.learnedAt ≠ v.learnedAt) :
    Set.InjOn DeviceUpdate.learnedAt ({u, v} : Finset DeviceUpdate) := by
  intro a ha b hb hab
  simp only [Finset.coe_insert, Finset.coe_singleton, Set.mem_insert_iff,
    Set.mem_singleton_iff] at ha hb
  rcases ha with rfl | rfl <;> rcases hb with rfl | rfl
  · rfl
  · exact absurd hab h
  · exact absurd hab.symm h
  · rfl

theorem sampleUpdates_injOn :
    Set.InjOn DeviceUpdate.learnedAt ({updateWithPub, updateWithoutPub} : Finset DeviceUpdate) :=
  injOn_learnedAt_pair (by decide)

theorem sampleUpdates_noConflict : NoConflict sampleKeys 5 {updateWithPub, updateWithoutPub} := by
  unfold NoConflict
  decide +kernel

theorem sampleUpdates_not_carried :
    ¬NewestCarriesAll sampleKeys 5 {updateWithPub, updateWithoutPub} := by
  unfold NewestCarriesAll
  decide +kernel

/-- A newer update that lists another device beside the first, with the pub. -/
def updateWithBoth : DeviceUpdate := ⟨[1, 2], [some 17, none], [], ⟨20, 0, "b"⟩⟩

theorem deviceCacheConverges_iff_twoUpdates :
    (DeviceCacheConverges sampleKeys 5 {updateWithPub, updateWithoutPub} ↔
      NewestCarriesAll sampleKeys 5 {updateWithPub, updateWithoutPub}) ∧
    DeviceCacheConverges sampleKeys 5 {updateWithPub, updateWithBoth} := by
  refine ⟨deviceCacheConverges_iff sampleKeys 5 _ sampleUpdates_injOn sampleUpdates_noConflict, ?_⟩
  refine (deviceCacheConverges_iff sampleKeys 5 _ ?_ ?_).mpr ?_
  · exact injOn_learnedAt_pair (by decide)
  · unfold NoConflict
    decide +kernel
  · unfold NewestCarriesAll
    decide +kernel

theorem devices_diverge :
    ¬DeviceCacheConverges sampleKeys 5 {updateWithPub, updateWithoutPub} := fun h =>
  sampleUpdates_not_carried (h.newestCarriesAll sampleUpdates_noConflict sampleUpdates_injOn)

end Harmony.Owner
