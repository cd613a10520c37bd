import Harmony.Owner.Skew

/-! Sharing a file and taking the share back. A grant is a row with two stamps, active while
the grant is the later one; sharing and revoking push one stamp past the other, a merge
joins both. -/

namespace Harmony.Owner

open Harmony.Lib
open Harmony.Membership (OwnerAddr saturatingAdd)

/-! ### Rows by grantee -/

def rowOf (rows : List GrantEntry) (grantee : OwnerAddr) : Option GrantEntry :=
  rows.find? fun e => e.granteeOwner = grantee

def upsertRow (rows : List GrantEntry) (grantee : OwnerAddr) (update : GrantEntry → GrantEntry)
    (fresh : GrantEntry) : List GrantEntry :=
  if rows.any fun e => e.granteeOwner = grantee then
    rows.modify (rows.findIdx fun e => e.granteeOwner = grantee) update
  else rows ++ [fresh]

def OneRowEach (rows : List GrantEntry) : Prop := (rows.map GrantEntry.granteeOwner).Nodup

section Rows

variable {rows : List GrantEntry} {grantee : OwnerAddr} {update : GrantEntry → GrantEntry}
  {fresh : GrantEntry}

theorem rowOf_eq_none : rowOf rows grantee = none ↔ grantee ∉ rows.map GrantEntry.granteeOwner := by
  simp [rowOf]

theorem rowOf_eq_some (h : OneRowEach rows) {e : GrantEntry} :
    rowOf rows grantee = some e ↔ e ∈ rows ∧ e.granteeOwner = grantee := by
  constructor
  · intro he
    exact ⟨List.mem_of_find?_eq_some he, by simpa using List.find?_some he⟩
  · rintro ⟨hmem, rfl⟩
    cases hrow : rowOf rows e.granteeOwner with
    | none => exact absurd (List.mem_map_of_mem hmem) (rowOf_eq_none.mp hrow)
    | some e' =>
      have hmem' := List.mem_of_find?_eq_some hrow
      have hkey : e'.granteeOwner = e.granteeOwner := by simpa using List.find?_some hrow
      rw [List.inj_on_of_nodup_map h hmem' hmem hkey]

theorem rowOf_perm (h : OneRowEach rows) {rows' : List GrantEntry} (hp : rows'.Perm rows)
    (grantee : OwnerAddr) : rowOf rows' grantee = rowOf rows grantee := by
  have h' : OneRowEach rows' := (hp.map _).nodup_iff.mpr h
  refine Option.ext fun e => ?_
  rw [rowOf_eq_some h', rowOf_eq_some h, hp.mem_iff]

/-- Updating the first row of the grantee updates what is found under it, and nothing else. -/
theorem modify_findIdx (hupdate : ∀ e, (update e).granteeOwner = e.granteeOwner)
    (rows : List GrantEntry) (grantee : OwnerAddr) :
    (rows.modify (rows.findIdx fun e => e.granteeOwner = grantee) update).map
        GrantEntry.granteeOwner = rows.map GrantEntry.granteeOwner ∧
      ∀ a, rowOf (rows.modify (rows.findIdx fun e => e.granteeOwner = grantee) update) a =
        if a = grantee then (rowOf rows grantee).map update else rowOf rows a := by
  induction rows with
  | nil => simp [rowOf]
  | cons e rows ih =>
    obtain ⟨hkeys, hrow⟩ := ih
    rw [List.findIdx_cons]
    by_cases he : e.granteeOwner = grantee
    · simp only [he, decide_true, cond_true, List.modify_zero_cons, List.map_cons, hupdate,
        true_and]
      intro a
      by_cases ha : a = grantee
      · simp [rowOf, ha, he, hupdate]
      · have hne : grantee ≠ a := fun h => ha h.symm
        simp [rowOf, ha, he, hupdate, hne]
    · simp only [he, decide_false, cond_false, List.modify_succ_cons, List.map_cons, hkeys,
        true_and]
      intro a
      have hrow := hrow a
      by_cases hea : e.granteeOwner = a
      · have ha : a ≠ grantee := fun h => he (hea.trans h)
        simp [rowOf, hea, ha]
      · simp only [rowOf, List.find?_cons, hea, he, decide_false] at hrow ⊢
        exact hrow

theorem upsertRow_keys (hupdate : ∀ e, (update e).granteeOwner = e.granteeOwner)
    (hfresh : fresh.granteeOwner = grantee) (h : OneRowEach rows) :
    OneRowEach (upsertRow rows grantee update fresh) := by
  unfold upsertRow
  split
  · rw [OneRowEach, (modify_findIdx hupdate rows grantee).1]
    exact h
  · next hnone =>
    have hnotin : grantee ∉ rows.map GrantEntry.granteeOwner := by simpa using hnone
    rw [OneRowEach, List.map_append, List.map_singleton, hfresh]
    exact List.nodup_append.mpr ⟨h, List.nodup_singleton _, fun a ha b hb => by
      rw [List.mem_singleton.mp hb]
      exact fun hab => hnotin (hab ▸ ha)⟩

theorem rowOf_upsertRow (hupdate : ∀ e, (update e).granteeOwner = e.granteeOwner)
    (hfresh : fresh.granteeOwner = grantee) (a : OwnerAddr) :
    rowOf (upsertRow rows grantee update fresh) a =
      if a = grantee then some ((rowOf rows grantee).elim fresh update) else rowOf rows a := by
  unfold upsertRow
  split
  · next hany =>
    rw [(modify_findIdx hupdate rows grantee).2 a]
    split_ifs
    · cases hrow : rowOf rows grantee with
      | none => exact absurd (by simpa using hany) (rowOf_eq_none.mp hrow)
      | some e => rfl
    · rfl
  · next hnone =>
    have hnotin : rowOf rows grantee = none := rowOf_eq_none.mpr (by simpa using hnone)
    rw [hnotin, Option.elim_none, rowOf, List.find?_append]
    split_ifs with ha
    · subst ha
      rw [← rowOf, hnotin]
      simp [hfresh]
    · have hne : grantee ≠ a := fun h => ha h.symm
      simp [hfresh, hne, rowOf]

theorem modify_eq_upsertRow {e : GrantEntry} (hrow : rowOf rows grantee = some e) :
    rows.modify (rows.findIdx fun e => e.granteeOwner = grantee) update =
      upsertRow rows grantee update fresh := by
  have hany : rows.any (fun e => e.granteeOwner = grantee) = true := by
    by_contra hnone
    rw [rowOf_eq_none.mpr (by simpa using hnone)] at hrow
    cases hrow
  rw [upsertRow, if_pos hany]

/-- The stamps are `u64`. -/
def GrantEntry.FitsU64 (e : GrantEntry) : Prop := e.grantedAt < 2 ^ 64 ∧ e.revokedAt < 2 ^ 64

/-- Neither stamp is lower in the second row. -/
def GrantEntry.UpTo (e e' : GrantEntry) : Prop :=
  e.grantedAt ≤ e'.grantedAt ∧ e.revokedAt ≤ e'.revokedAt

/-- What holds of a grant list at all times. -/
structure GrantRows (rows : List GrantEntry) : Prop where
  oneRow : OneRowEach rows
  fits : ∀ a e, rowOf rows a = some e → e.FitsU64

/-- Every row of the first list is in the second, no lower. -/
def RowsUpTo (rows rows' : List GrantEntry) : Prop :=
  ∀ a e, rowOf rows a = some e → ∃ e', rowOf rows' a = some e' ∧ e.UpTo e'

theorem RowsUpTo.refl (rows : List GrantEntry) : RowsUpTo rows rows :=
  fun _ e he => ⟨e, he, le_refl _, le_refl _⟩

theorem RowsUpTo.trans {rows' rows'' : List GrantEntry} (h : RowsUpTo rows rows')
    (h' : RowsUpTo rows' rows'') : RowsUpTo rows rows'' := by
  intro a e he
  obtain ⟨e', he', hup⟩ := h a e he
  obtain ⟨e'', he'', hup'⟩ := h' a e' he'
  exact ⟨e'', he'', hup.1.trans hup'.1, hup.2.trans hup'.2⟩

theorem GrantRows.nil : GrantRows [] := ⟨List.nodup_nil, fun _ _ h => by cases h⟩

/-- An update that raises both stamps within `u64` keeps the list and raises it. -/
theorem GrantRows.upsertRow (h : GrantRows rows)
    (hfits : ∀ e : GrantEntry, e.FitsU64 → (update e).FitsU64)
    (hup : ∀ e, rowOf rows grantee = some e → e.UpTo (update e))
    (hupdate : ∀ e, (update e).granteeOwner = e.granteeOwner) (hfresh : fresh.granteeOwner = grantee) (hnew : fresh.FitsU64) :
    GrantRows (upsertRow rows grantee update fresh) ∧
      RowsUpTo rows (Owner.upsertRow rows grantee update fresh) := by
  refine ⟨⟨upsertRow_keys hupdate hfresh h.oneRow, ?_⟩, ?_⟩
  · intro a e he
    rw [rowOf_upsertRow hupdate hfresh] at he
    split_ifs at he with ha
    · obtain rfl := Option.some.inj he
      cases hrow : rowOf rows grantee with
      | none => exact hnew
      | some old => exact hfits old (h.fits _ _ hrow)
    · exact h.fits _ _ he
  · intro a e he
    rw [rowOf_upsertRow hupdate hfresh]
    split_ifs with ha
    · rw [← ha, he]
      exact ⟨update e, rfl, hup e (ha ▸ he)⟩
    · exact ⟨e, he, le_refl _, le_refl _⟩

theorem GrantRows.joinGrant (h : GrantRows rows) {g : GrantEntry} (hg : g.FitsU64) :
    GrantRows (joinGrant rows g) ∧ RowsUpTo rows (Owner.joinGrant rows g) := by
  refine h.upsertRow (fun e he => ?_) (fun e _ => ?_) (fun _ => rfl) rfl hg
  · obtain ⟨he1, he2⟩ := he
    obtain ⟨hg1, hg2⟩ := hg
    constructor <;> dsimp only <;> split <;> assumption
  · constructor <;> dsimp only <;> split <;> omega

theorem GrantRows.foldl_joinGrant (h : GrantRows rows) {gs : List GrantEntry}
    (hgs : ∀ g ∈ gs, g.FitsU64) :
    GrantRows (gs.foldl Owner.joinGrant rows) ∧ RowsUpTo rows (gs.foldl Owner.joinGrant rows) := by
  induction gs generalizing rows with
  | nil => exact ⟨h, RowsUpTo.refl rows⟩
  | cons g gs ih =>
    rw [List.forall_mem_cons] at hgs
    obtain ⟨hjoin, hup⟩ := h.joinGrant hgs.1
    obtain ⟨hrest, hup'⟩ := ih hjoin hgs.2
    exact ⟨hrest, hup.trans hup'⟩

theorem GrantRows.perm (h : GrantRows rows) {rows' : List GrantEntry} (hp : rows'.Perm rows) :
    GrantRows rows' ∧ RowsUpTo rows rows' := by
  refine ⟨⟨(hp.map _).nodup_iff.mpr h.oneRow, fun a e he => ?_⟩, fun a e he => ?_⟩
  · rw [rowOf_perm h.oneRow hp] at he
    exact h.fits a e he
  · exact ⟨e, (rowOf_perm h.oneRow hp a).trans he, le_refl _, le_refl _⟩

end Rows

/-! ### Sharing, revoking, merging -/

namespace OwnerState

def grantsOf (s : OwnerState) (cid : ContentId) : List GrantEntry := s.fileGrants[cid]?.getD []

/-- The row of a re-share: pushed forward, past its revocation as far as `u64` goes. -/
def reshare (grantedAt : ℕ) (existing : GrantEntry) : GrantEntry :=
  { existing with
    grantedAt := max (max grantedAt existing.grantedAt) (saturatingAdd existing.revokedAt 1) }

def recordGrant (s : OwnerState) (cid : ContentId) (granteeOwner : OwnerAddr) (grantedAt : ℕ) :
    OwnerState :=
  let entries := upsertRow (s.grantsOf cid) granteeOwner (reshare grantedAt)
    ⟨granteeOwner, grantedAt, 0⟩
  { s with fileGrants := s.fileGrants.insert cid entries }

def retract (nowMs : ℕ) (entry : GrantEntry) : GrantEntry :=
  { entry with revokedAt := max nowMs entry.grantedAt }

/-- Only an active grant is revoked, which the result tells. -/
def revokeGrantInner (s : OwnerState) (cid : ContentId) (granteeOwner : OwnerAddr) (nowMs : ℕ) :
    OwnerState × Bool :=
  match s.fileGrants[cid]? with
  | none => (s, false)
  | some grants =>
    match rowOf grants granteeOwner with
    | none => (s, false)
    | some entry =>
      if entry.grantedAt ≤ entry.revokedAt then (s, false)
      else
        let index := grants.findIdx fun e => e.granteeOwner = granteeOwner
        let grants := grants.modify index (retract nowMs)
        ({ s with fileGrants := s.fileGrants.insert cid grants }, true)

def grant (s : OwnerState) (cid : ContentId) (grantee : OwnerAddr) : Option GrantEntry :=
  rowOf (s.grantsOf cid) grantee

variable {s : OwnerState}

theorem recordGrant_grantsOf (cid : ContentId) (grantee : OwnerAddr) (grantedAt : ℕ)
    (cid' : ContentId) :
    (s.recordGrant cid grantee grantedAt).grantsOf cid' =
      if cid = cid' then
        upsertRow (s.grantsOf cid) grantee (reshare grantedAt) ⟨grantee, grantedAt, 0⟩
      else s.grantsOf cid' := by
  simp only [recordGrant, grantsOf, BTreeMap.get_insert]
  split_ifs <;> rfl

/-- A revocation updates an active row, or there is none and nothing changes. -/
theorem revokeGrantInner_cases (s : OwnerState) (cid : ContentId) (grantee : OwnerAddr)
    (nowMs : ℕ) :
    ((s.revokeGrantInner cid grantee nowMs).1 = s ∧
      ∀ e, s.grant cid grantee = some e → e.grantedAt ≤ e.revokedAt) ∨
    (∃ e, s.grant cid grantee = some e ∧ e.revokedAt < e.grantedAt) ∧
      ∀ fresh cid', (s.revokeGrantInner cid grantee nowMs).1.grantsOf cid' =
        if cid = cid' then upsertRow (s.grantsOf cid) grantee (retract nowMs) fresh
        else s.grantsOf cid' := by
  cases hheld : s.fileGrants[cid]? with
  | none =>
    exact Or.inl ⟨by simp only [revokeGrantInner, hheld], by simp [grant, grantsOf, hheld, rowOf]⟩
  | some grants =>
    have hgrants : s.grantsOf cid = grants := by rw [grantsOf, hheld, Option.getD_some]
    cases hrow : rowOf grants grantee with
    | none =>
      exact Or.inl ⟨by simp only [revokeGrantInner, hheld, hrow], by simp [grant, hgrants, hrow]⟩
    | some entry =>
      by_cases hinactive : entry.grantedAt ≤ entry.revokedAt
      · left
        refine ⟨by simp only [revokeGrantInner, hheld, hrow, if_pos hinactive], fun e he => ?_⟩
        rw [grant, hgrants, hrow, Option.some.injEq] at he
        exact he ▸ hinactive
      · right
        refine ⟨⟨entry, by rw [grant, hgrants, hrow], not_le.mp hinactive⟩, fun fresh cid' => ?_⟩
        rw [hgrants, ← modify_eq_upsertRow hrow]
        simp only [revokeGrantInner, hheld, hrow, if_neg hinactive, grantsOf, BTreeMap.get_insert]
        split_ifs <;> rfl

/-- A merge joins the accepted records of the snapshot into the held list and sorts it;
burned content holds no list. -/
theorem mergeRemoteIntoLocal_grantsOf (keys : IdentityKeys) (now : Option ℕ) (remote : OwnerState)
    (cid : ContentId) :
    cid ∈ (s.mergeRemoteIntoLocal keys now remote).burnedContent ∨
      ∃ gs : List GrantEntry, (∀ g ∈ gs, g ∈ remote.grantsOf cid) ∧
        ((s.mergeRemoteIntoLocal keys now remote).grantsOf cid).Perm
          (gs.foldl joinGrant (s.grantsOf cid)) := by
  obtain ⟨hgrants, hburned⟩ :
      ((s.mergeConversations now remote).mergePeers keys now remote).fileGrants = s.fileGrants ∧
        ((s.mergeConversations now remote).mergePeers keys now remote).burnedContent =
          s.burnedContent := mergePeers_files s remote
  by_cases hburn : cid ∈ s.burnedContent ∪ remote.burnedContent
  · left
    simp only [mergeRemoteIntoLocal, mergeFiles, hburned]
    exact hburn
  · right
    have hget : (s.mergeRemoteIntoLocal keys now remote).fileGrants[cid]? =
        (remote.fileGrants.foldl (mergeFileGrants now) s.fileGrants)[cid]? := by
      simp only [mergeRemoteIntoLocal, mergeFiles, hgrants, hburned, Std.ExtTreeMap.getElem?_filter',
        hburn, not_false_eq_true, decide_true]
      cases (remote.fileGrants.foldl (mergeFileGrants now) s.fileGrants)[cid]? <;> rfl
    have hlist : (s.mergeRemoteIntoLocal keys now remote).grantsOf cid =
        (remote.fileGrants.foldl (mergeFileGrants now) s.fileGrants)[cid]?.getD [] := by
      rw [grantsOf, hget]
    rw [hlist, mergeFileGrants_get]
    cases hr : remote.fileGrants[cid]? with
    | none => exact ⟨[], by simp, List.Perm.refl _⟩
    | some grants =>
      refine ⟨grants.filter (grantInTime now), fun g hg => ?_, sortBy_perm _⟩
      rw [grantsOf, hr]
      exact List.mem_of_mem_filter hg

theorem mergeRemoteIntoLocal_grantsOf_burned (keys : IdentityKeys) (now : Option ℕ)
    (remote : OwnerState) {cid : ContentId}
    (hburn : cid ∈ (s.mergeRemoteIntoLocal keys now remote).burnedContent) :
    (s.mergeRemoteIntoLocal keys now remote).grantsOf cid = [] := by
  simp only [mergeRemoteIntoLocal, mergeFiles] at hburn
  simp only [mergeRemoteIntoLocal, mergeFiles, grantsOf, Std.ExtTreeMap.getElem?_filter']
  simp [hburn]

end OwnerState

/-- A call that changes the grants. -/
inductive GrantOp where
  | share (cid : ContentId) (granteeOwner : OwnerAddr) (grantedAt : ℕ)
  | revoke (cid : ContentId) (granteeOwner : OwnerAddr) (nowMs : ℕ)
  | merge (receiverNow : Option ℕ) (remote : OwnerState)

namespace GrantOp

def apply (keys : IdentityKeys) (s : OwnerState) : GrantOp → OwnerState
  | share cid granteeOwner grantedAt => s.recordGrant cid granteeOwner grantedAt
  | revoke cid granteeOwner nowMs => (s.revokeGrantInner cid granteeOwner nowMs).1
  | merge receiverNow remote => s.mergeRemoteIntoLocal keys receiverNow remote

def FitsU64 : GrantOp → Prop
  | share _ _ grantedAt => grantedAt < 2 ^ 64
  | revoke _ _ nowMs => nowMs < 2 ^ 64
  | merge _ remote => ∀ cid, ∀ e ∈ remote.grantsOf cid, e.FitsU64

/-- What the call is for: the grant active after sharing, inactive after revoking. -/
def Effective (s' : OwnerState) : GrantOp → Prop
  | share cid grantee _ => ∃ e, s'.grant cid grantee = some e ∧ e.revokedAt < e.grantedAt
  | revoke cid grantee _ => ∀ e, s'.grant cid grantee = some e → e.grantedAt ≤ e.revokedAt
  | merge _ _ => True

/-- A row that is there stays, with stamps no lower, unless its content is burned. -/
def Forward (s s' : OwnerState) : Prop :=
  ∀ cid grantee e, s.grant cid grantee = some e → cid ∈ s'.burnedContent ∨
    ∃ e', s'.grant cid grantee = some e' ∧ e.UpTo e'

/-- One call does what the grants promise. -/
structure Holds (keys : IdentityKeys) (s : OwnerState) (op : GrantOp) : Prop where
  effective : op.Effective (op.apply keys s)
  oneRow : ∀ cid, OneRowEach ((op.apply keys s).grantsOf cid)
  forward : Forward s (op.apply keys s)

/-- A first share is stamped after zero, a later one finds a revocation short of the last
stamp. -/
def Clear (s : OwnerState) : GrantOp → Prop
  | share cid grantee grantedAt =>
    match s.grant cid grantee with
    | none => 0 < grantedAt
    | some e => e.revokedAt < 2 ^ 64 - 1
  | revoke _ _ _ => True
  | merge _ _ => True

end GrantOp

def grantRun (keys : IdentityKeys) (ops : List GrantOp) : OwnerState :=
  ops.foldl (GrantOp.apply keys) {}

section Calls

variable {s : OwnerState} {keys : IdentityKeys}

def GrantLists (s : OwnerState) : Prop := ∀ cid, GrantRows (s.grantsOf cid)

theorem reshare_grantee (grantedAt : ℕ) (e : GrantEntry) :
    (OwnerState.reshare grantedAt e).granteeOwner = e.granteeOwner := rfl

theorem retract_grantee (nowMs : ℕ) (e : GrantEntry) :
    (OwnerState.retract nowMs e).granteeOwner = e.granteeOwner := rfl

theorem reshare_fits {grantedAt : ℕ} (hfits : grantedAt < 2 ^ 64) (e : GrantEntry) (he : e.FitsU64) :
    (OwnerState.reshare grantedAt e).FitsU64 := by
  obtain ⟨he1, he2⟩ := he
  simp only [GrantEntry.FitsU64, OwnerState.reshare, saturatingAdd]
  omega

theorem reshare_upTo (grantedAt : ℕ) (e : GrantEntry) : e.UpTo (OwnerState.reshare grantedAt e) :=
  ⟨(le_max_right _ _).trans (le_max_left _ _), le_refl _⟩

theorem retract_fits {nowMs : ℕ} (hfits : nowMs < 2 ^ 64) (e : GrantEntry) (he : e.FitsU64) :
    (OwnerState.retract nowMs e).FitsU64 := ⟨he.1, max_lt hfits he.1⟩

theorem GrantLists.apply (h : GrantLists s) {op : GrantOp} (hfits : op.FitsU64) :
    GrantLists (op.apply keys s) ∧ GrantOp.Forward s (op.apply keys s) := by
  suffices hcid : ∀ cid, GrantRows ((op.apply keys s).grantsOf cid) ∧
      (cid ∈ (op.apply keys s).burnedContent ∨
        RowsUpTo (s.grantsOf cid) ((op.apply keys s).grantsOf cid)) from
    ⟨fun cid => (hcid cid).1, fun cid grantee e he => (hcid cid).2.imp_right fun hup => hup grantee e he⟩
  intro cid'
  cases op with
  | share cid grantee grantedAt =>
    rw [GrantOp.apply, OwnerState.recordGrant_grantsOf]
    split_ifs with hcid
    · obtain rfl := hcid
      have hnew : (⟨grantee, grantedAt, 0⟩ : GrantEntry).FitsU64 := ⟨hfits, by norm_num⟩
      obtain ⟨hrows, hup⟩ := (h cid).upsertRow (reshare_fits hfits)
        (fun e _ => reshare_upTo grantedAt e) (reshare_grantee grantedAt) rfl hnew
      exact ⟨hrows, Or.inr hup⟩
    · exact ⟨h cid', Or.inr (RowsUpTo.refl _)⟩
  | revoke cid grantee nowMs =>
    rw [GrantOp.apply]
    obtain ⟨hsame, -⟩ | ⟨⟨e, he, hactive⟩, hcall⟩ := s.revokeGrantInner_cases cid grantee nowMs
    · rw [hsame]
      exact ⟨h cid', Or.inr (RowsUpTo.refl _)⟩
    · rw [hcall ⟨grantee, 0, 0⟩]
      split_ifs with hcid
      · obtain rfl := hcid
        have hnew : (⟨grantee, 0, 0⟩ : GrantEntry).FitsU64 := ⟨by norm_num, by norm_num⟩
        have hup : ∀ e', rowOf (s.grantsOf cid) grantee = some e' →
            e'.UpTo (OwnerState.retract nowMs e') := by
          intro e' he'
          obtain rfl := Option.some.inj (he.symm.trans he')
          exact ⟨le_refl _, hactive.le.trans (le_max_right _ _)⟩
        obtain ⟨hrows, hup⟩ := (h cid).upsertRow (retract_fits hfits) hup
          (retract_grantee nowMs) rfl hnew
        exact ⟨hrows, Or.inr hup⟩
      · exact ⟨h cid', Or.inr (RowsUpTo.refl _)⟩
  | merge now remote =>
    rw [GrantOp.apply]
    by_cases hburn : cid' ∈ (s.mergeRemoteIntoLocal keys now remote).burnedContent
    · rw [OwnerState.mergeRemoteIntoLocal_grantsOf_burned keys now remote hburn]
      exact ⟨GrantRows.nil, Or.inl hburn⟩
    · obtain ⟨gs, hgs, hperm⟩ :=
        (OwnerState.mergeRemoteIntoLocal_grantsOf keys now remote cid').resolve_left hburn
      obtain ⟨hjoin, hup⟩ := (h cid').foldl_joinGrant fun g hg => hfits cid' g (hgs g hg)
      obtain ⟨hrows, hup'⟩ := hjoin.perm hperm
      exact ⟨hrows, Or.inr (hup.trans hup')⟩

theorem recordGrant_grant (cid : ContentId) (grantee : OwnerAddr) (grantedAt : ℕ) :
    (s.recordGrant cid grantee grantedAt).grant cid grantee =
      some ((s.grant cid grantee).elim ⟨grantee, grantedAt, 0⟩ (OwnerState.reshare grantedAt)) := by
  have hfresh : (⟨grantee, grantedAt, 0⟩ : GrantEntry).granteeOwner = grantee := rfl
  rw [OwnerState.grant, OwnerState.recordGrant_grantsOf, if_pos rfl,
    rowOf_upsertRow (reshare_grantee grantedAt) hfresh, if_pos rfl, OwnerState.grant]

theorem revokeGrantInner_grant (cid : ContentId) (grantee : OwnerAddr) (nowMs : ℕ) {e : GrantEntry}
    (he : (s.revokeGrantInner cid grantee nowMs).1.grant cid grantee = some e) :
    e.grantedAt ≤ e.revokedAt := by
  obtain ⟨hsame, hinactive⟩ | ⟨⟨old, hold, -⟩, hcall⟩ := s.revokeGrantInner_cases cid grantee nowMs
  · rw [hsame] at he
    exact hinactive e he
  · have hfresh : (⟨grantee, 0, 0⟩ : GrantEntry).granteeOwner = grantee := rfl
    rw [OwnerState.grant, hcall ⟨grantee, 0, 0⟩, if_pos rfl,
      rowOf_upsertRow (retract_grantee nowMs) hfresh, if_pos rfl, ← OwnerState.grant, hold, Option.elim_some, Option.some.injEq] at he
    rw [← he]
    exact le_max_right _ _

theorem reshare_active_iff {grantedAt : ℕ} (hfits : grantedAt < 2 ^ 64) {e : GrantEntry}
    (he : e.FitsU64) :
    (OwnerState.reshare grantedAt e).revokedAt < (OwnerState.reshare grantedAt e).grantedAt ↔
      e.revokedAt < 2 ^ 64 - 1 := by
  obtain ⟨he1, he2⟩ := he
  simp only [OwnerState.reshare, saturatingAdd]
  omega

theorem effective_iff_clear (h : GrantLists s) {op : GrantOp} (hfits : op.FitsU64) :
    op.Effective (op.apply keys s) ↔ op.Clear s := by
  cases op with
  | share cid grantee grantedAt =>
    simp only [GrantOp.Effective, GrantOp.apply, GrantOp.Clear, recordGrant_grant,
      Option.some.injEq, exists_eq_left']
    cases hrow : s.grant cid grantee with
    | none => rfl
    | some e => exact reshare_active_iff hfits ((h cid).fits grantee e hrow)
  | revoke cid grantee nowMs =>
    exact iff_of_true (fun e he => revokeGrantInner_grant cid grantee nowMs he) trivial
  | merge now remote => exact iff_of_true trivial trivial

theorem holds_iff_clear (h : GrantLists s) {op : GrantOp} (hfits : op.FitsU64) :
    op.Holds keys s ↔ op.Clear s := by
  obtain ⟨hlists, hforward⟩ :
      GrantLists (op.apply keys s) ∧ GrantOp.Forward s (op.apply keys s) := h.apply hfits
  have heffective : op.Effective (op.apply keys s) ↔ op.Clear s := effective_iff_clear h hfits
  rw [← heffective]
  exact ⟨GrantOp.Holds.effective, fun heff => ⟨heff, fun cid => (hlists cid).oneRow, hforward⟩⟩

end Calls

theorem grantLists_grantRun (keys : IdentityKeys) {ops : List GrantOp}
    (hfits : ∀ op ∈ ops, op.FitsU64) : GrantLists (grantRun keys ops) := by
  induction ops using List.reverseRecOn with
  | nil => exact fun _ => GrantRows.nil
  | append_singleton ops op ih =>
    rw [grantRun, List.foldl_concat]
    have hprev : GrantLists (grantRun keys ops) :=
      ih fun o ho => hfits o (List.mem_append_left _ ho)
    exact (hprev.apply (hfits op (by simp))).1

/-- Along a run every call does what the grants promise exactly when no first share is
stamped zero and no share follows a revocation at the last stamp. -/
theorem grants_hold_iff (keys : IdentityKeys) {ops : List GrantOp}
    (hfits : ∀ op ∈ ops, op.FitsU64) :
    (∀ before op rest, ops = before ++ op :: rest → op.Holds keys (grantRun keys before)) ↔
      ∀ before op rest, ops = before ++ op :: rest → op.Clear (grantRun keys before) := by
  refine forall₃_congr fun before op rest => forall_congr' fun hops => ?_
  have hbefore : ∀ o ∈ before, o.FitsU64 := fun o ho => hfits o (by simp [hops, ho])
  exact holds_iff_clear (grantLists_grantRun keys hbefore) (hfits op (by simp [hops]))

def sharedAgain : List GrantOp := [.share 5 1 10, .revoke 5 1 20, .share 5 1 3]

def noKeys : IdentityKeys := ⟨fun _ => none, fun master => master⟩

theorem grants_hold_sharedAgain :
    GrantOp.Holds noKeys (grantRun noKeys (sharedAgain.take 2)) (.share 5 1 3) := by
  have hfits : ∀ op ∈ sharedAgain, op.FitsU64 := by simp [sharedAgain, GrantOp.FitsU64]
  have hrow : (grantRun noKeys (sharedAgain.take 2)).grant 5 1 = some ⟨1, 10, 20⟩ := by
    decide +kernel
  refine (grants_hold_iff noKeys hfits).mpr ?_ (sharedAgain.take 2) _ [] rfl
  intro before op rest hops
  rw [sharedAgain] at hops
  obtain _ | ⟨a, _ | ⟨b, _ | ⟨c, before⟩⟩⟩ := before
  · injection hops with hop
    have hnone : (grantRun noKeys []).grant 5 1 = none := by decide +kernel
    rw [← hop, GrantOp.Clear, hnone]
    norm_num
  · injection hops with _ hops
    injection hops with hop
    rw [← hop]
    trivial
  · injection hops with ha hops
    injection hops with hb hops
    injection hops with hop
    rw [sharedAgain, List.take, List.take, List.take, ha, hb] at hrow
    rw [← hop, GrantOp.Clear, hrow]
    norm_num
  · simp at hops

/-- A first share at stamp zero, and a share after a revocation at the last stamp. -/
theorem share_left_inactive :
    ¬GrantOp.Holds noKeys (grantRun noKeys []) (.share 5 1 0) ∧
      ¬GrantOp.Holds noKeys
        (grantRun noKeys [.share 5 1 10, .revoke 5 1 (2 ^ 64 - 1)]) (.share 5 1 20) := by
  constructor
  · intro h
    obtain ⟨e, he, hactive⟩ := h.effective
    have hrow : (GrantOp.apply noKeys (grantRun noKeys []) (.share 5 1 0)).grant 5 1 =
        some ⟨1, 0, 0⟩ := by
      decide +kernel
    obtain rfl := Option.some.inj (hrow.symm.trans he)
    exact lt_irrefl _ hactive
  · intro h
    obtain ⟨e, he, hactive⟩ := h.effective
    have hrow : (GrantOp.apply noKeys
        (grantRun noKeys [.share 5 1 10, .revoke 5 1 (2 ^ 64 - 1)]) (.share 5 1 20)).grant 5 1 =
          some ⟨1, 2 ^ 64 - 1, 2 ^ 64 - 1⟩ := by
      decide +kernel
    obtain rfl := Option.some.inj (hrow.symm.trans he)
    exact lt_irrefl _ hactive

end Harmony.Owner
