import Harmony.Owner.Merge

/-! Received file grants under merges in any order and grouping. The register of
one file is the pair of its grant and its dismissal. A dismissal switches the rule
that picks between two grants, so the outcome may depend on when the dismissal
became known; it never does exactly when one active grant sorts before every other
grant, or when all of them are dismissed. -/

namespace Harmony.Owner

open Harmony.Lib
open Harmony.Membership (OwnerAddr SpaceId Hlc Bytes)

/-- How snapshots come together: a snapshot of some device, or the merge of a
remote state into a local one under the receiver's clock. -/
inductive MergeTree where
  | leaf (snapshot : OwnerState)
  | node (now : Option ℕ) (receiver remote : MergeTree)

namespace MergeTree

def eval (keys : IdentityKeys) : MergeTree → OwnerState
  | leaf snapshot => snapshot
  | node now receiver remote =>
    (receiver.eval keys).mergeRemoteIntoLocal keys now (remote.eval keys)

def snapshots : MergeTree → List OwnerState
  | leaf snapshot => [snapshot]
  | node _ receiver remote => receiver.snapshots ++ remote.snapshots

def clocks : MergeTree → List (Option ℕ)
  | leaf _ => []
  | node now receiver remote => now :: (receiver.clocks ++ remote.clocks)

/-- The snapshots folded, one after the other, into an empty state. -/
def chain (l : List OwnerState) : MergeTree :=
  l.foldl (fun t s => node none t (leaf s)) (leaf {})

theorem chain_snoc (l : List OwnerState) (s : OwnerState) :
    chain (l ++ [s]) = node none (chain l) (leaf s) := by
  rw [chain, List.foldl_append]
  rfl

theorem mem_snapshots_chain {l : List OwnerState} {s : OwnerState} :
    s ∈ (chain l).snapshots ↔ s = {} ∨ s ∈ l := by
  induction l using List.reverseRecOn with
  | nil => simp [chain, snapshots]
  | append_singleton l a ih =>
    rw [chain_snoc]
    simp [snapshots, ih, or_assoc]

theorem eq_none_of_mem_clocks_chain {l : List OwnerState} {now : Option ℕ}
    (h : now ∈ (chain l).clocks) : now = none := by
  induction l using List.reverseRecOn with
  | nil => simp [chain, clocks] at h
  | append_singleton l a ih =>
    rw [chain_snoc] at h
    simp only [clocks, List.append_nil, List.mem_cons] at h
    exact h.elim id ih

end MergeTree

section Register

def joinDismissal (l r : Option ℕ) : Option ℕ := r.elim l fun d => some (max (l.getD 0) d)

def joinReceived (dismissed : Option ℕ) (l r : Option ReceivedFileGrant) :
    Option ReceivedFileGrant :=
  (r.elim l fun g => if l.all fun e => incomingWins dismissed g e then some g else l).filter
    fun g => activeAt dismissed g.receivedAt

variable (keys : IdentityKeys) {now : Option ℕ} (s : OwnerState) {remote : OwnerState}
  {cid : ContentId}

theorem merge_dismissed
    (hd : ∀ d, remote.dismissedReceivedGrants[cid]? = some d → wallExceedsForwardSkew d now = false) :
    (s.mergeRemoteIntoLocal keys now remote).dismissedReceivedGrants[cid]? =
      joinDismissal s.dismissedReceivedGrants[cid]? remote.dismissedReceivedGrants[cid]? := by
  have hstep : StepsAtKey (fun (m : BTreeMap ContentId ℕ) k => m[k]?) (mergeDismissed now)
      fun _ d old => if wallExceedsForwardSkew d now then old else some (max (old.getD 0) d) := by
    intro m k v a
    simp only [mergeDismissed]
    split_ifs with h1 h2 h2 <;> simp_all [BTreeMap.get_insert]
  have hsame : (s.mergeConversations now remote).dismissedReceivedGrants[cid]? =
      s.dismissedReceivedGrants[cid]? :=
    congrArg (fun t => t.dismissedReceivedGrants[cid]?) (s.mergeConversations_rest now remote)
  have hfold := hstep.foldl remote.dismissedReceivedGrants
    (s.mergeConversations now remote).dismissedReceivedGrants cid
  simp only [hsame] at hfold
  refine hfold.trans ?_
  cases hr : remote.dismissedReceivedGrants[cid]? with
  | none => rfl
  | some d => simp [joinDismissal, hd d hr]

theorem merge_received
    (hd : ∀ d, remote.dismissedReceivedGrants[cid]? = some d → wallExceedsForwardSkew d now = false)
    (hg : ∀ g, remote.receivedFileGrants[cid]? = some g →
      wallExceedsForwardSkew g.receivedAt now = false) :
    (s.mergeRemoteIntoLocal keys now remote).receivedFileGrants[cid]? =
      joinReceived
        (joinDismissal s.dismissedReceivedGrants[cid]? remote.dismissedReceivedGrants[cid]?)
        s.receivedFileGrants[cid]? remote.receivedFileGrants[cid]? := by
  rw [← merge_dismissed keys s hd]
  set dismissed := (s.mergeRemoteIntoLocal keys now remote).dismissedReceivedGrants
  have hstep : StepsAtKey (fun (m : BTreeMap ContentId ReceivedFileGrant) k => m[k]?)
      (mergeReceivedGrant now dismissed) fun k g old =>
        if wallExceedsForwardSkew g.receivedAt now then old
        else if old.all fun e => incomingWins dismissed[k]? g e then some g else old := by
    intro m k v a
    simp only [mergeReceivedGrant]
    split_ifs with h1 h2 h3 h3 <;> simp_all [BTreeMap.get_insert]
  have hsame : (s.mergeConversations now remote).receivedFileGrants[cid]? =
      s.receivedFileGrants[cid]? :=
    congrArg (fun t => t.receivedFileGrants[cid]?) (s.mergeConversations_rest now remote)
  have hfold := hstep.foldl remote.receivedFileGrants
    (s.mergeConversations now remote).receivedFileGrants cid
  simp only [hsame] at hfold
  refine (Std.ExtTreeMap.getElem?_filter').trans ?_
  refine (congrArg (Option.filter fun g => activeAt dismissed[cid]? g.receivedAt) hfold).trans ?_
  cases hr : remote.receivedFileGrants[cid]? with
  | none => rfl
  | some g => simp [joinReceived, hg g hr]

end Register

section Joins

variable {l r : Option ℕ} {d : ℕ}

theorem joinDismissal_eq_some (h : joinDismissal l r = some d) : l = some d ∨ r = some d := by
  cases r with
  | none => exact Or.inl h
  | some b =>
    simp only [joinDismissal, Option.elim_some, Option.some.injEq] at h
    cases l with
    | none => exact Or.inr (by simpa using h)
    | some a => rcases max_choice a b with hm | hm <;> simp_all

theorem le_joinDismissal (h : l = some d ∨ r = some d) : ∃ d', joinDismissal l r = some d' ∧ d ≤ d' := by
  rcases h with rfl | rfl
  · cases r with
    | none => exact ⟨d, rfl, le_rfl⟩
    | some b => exact ⟨_, rfl, le_max_left _ _⟩
  · exact ⟨_, rfl, le_max_right _ _⟩

variable {dismissed : Option ℕ} {gl gr : Option ReceivedFileGrant} {g : ReceivedFileGrant}

theorem joinReceived_eq_some (h : joinReceived dismissed gl gr = some g) :
    (gl = some g ∨ gr = some g) ∧ activeAt dismissed g.receivedAt = true := by
  obtain ⟨hpick, hactive⟩ := Option.filter_eq_some_iff.mp h
  refine ⟨?_, hactive⟩
  cases gr with
  | none => exact Or.inl hpick
  | some b =>
    rw [Option.elim_some] at hpick
    split_ifs at hpick
    · exact Or.inr hpick
    · exact Or.inl hpick

/-- An active grant that sorts before every other grant present is the one kept. -/
theorem joinReceived_of_least (hactive : activeAt dismissed g.receivedAt = true)
    (hmem : gl = some g ∨ gr = some g)
    (hl : ∀ e, gl = some e → e ≠ g → g.rank < e.rank)
    (hr : ∀ e, gr = some e → e ≠ g → g.rank < e.rank) :
    joinReceived dismissed gl gr = some g := by
  refine Option.filter_eq_some_iff.mpr ⟨?_, hactive⟩
  cases gr with
  | none => simpa using hmem
  | some b =>
    cases gl with
    | none => simpa using hmem
    | some a =>
      rw [Option.elim_some]
      by_cases hab : a = g
      · subst hab
        have hlose : incomingWins dismissed b a = false ∨ b = a := by
          by_cases hb : b = a
          · exact Or.inr hb
          · have hlt := hr b rfl hb
            left
            cases h : activeAt dismissed b.receivedAt <;>
              simp [incomingWins, h, hactive, hlt.le]
        rcases hlose with h | rfl <;> simp [*]
      · have hbg : b = g := by simpa [hab] using hmem
        subst hbg
        have hlt := hl a rfl hab
        have hwin : incomingWins dismissed b a = true := by
          cases h : activeAt dismissed a.receivedAt <;> simp [incomingWins, h, hactive, hlt]
        simp [hwin]

end Joins

/-- The tree folds snapshots that carry exactly these grants and dismissals of the
file, with at least one merge and no stamp ahead of a receiver's clock. -/
structure MergeTree.Carries (t : MergeTree) (cid : ContentId) (grants : Finset ReceivedFileGrant)
    (dismissals : Finset ℕ) : Prop where
  mem_grants : ∀ g, g ∈ grants ↔ ∃ s ∈ t.snapshots, s.receivedFileGrants[cid]? = some g
  mem_dismissals : ∀ d, d ∈ dismissals ↔ ∃ s ∈ t.snapshots, s.dismissedReceivedGrants[cid]? = some d
  merged : ∃ now receiver remote, t = .node now receiver remote
  grantsWithinSkew : ∀ now ∈ t.clocks, ∀ g ∈ grants, wallExceedsForwardSkew g.receivedAt now = false
  dismissalsWithinSkew : ∀ now ∈ t.clocks, ∀ d ∈ dismissals, wallExceedsForwardSkew d now = false

/-- Every way to fold the snapshots leaves the same entry, and an active one when
some grant is newer than every dismissal. -/
structure ReceivedGrantsConverge (keys : IdentityKeys) (cid : ContentId)
    (grants : Finset ReceivedFileGrant) (dismissals : Finset ℕ) : Prop where
  agree : ∀ t t' : MergeTree, t.Carries cid grants dismissals → t'.Carries cid grants dismissals →
    (t.eval keys).receivedFileGrants[cid]? = (t'.eval keys).receivedFileGrants[cid]?
  kept : (∃ g ∈ grants, ∀ d ∈ dismissals, d < g.receivedAt) →
    ∀ t : MergeTree, t.Carries cid grants dismissals →
      ∃ g, (t.eval keys).receivedFileGrants[cid]? = some g ∧ ∀ d ∈ dismissals, d < g.receivedAt

/-- All grants are dismissed, or an active one sorts strictly before every other. -/
def ReceivedGrantsSettled (grants : Finset ReceivedFileGrant) (dismissals : Finset ℕ) : Prop :=
  (∀ g ∈ grants, ∃ d ∈ dismissals, g.receivedAt ≤ d) ∨
    ∃ g ∈ grants, (∀ d ∈ dismissals, d < g.receivedAt) ∧ ∀ h ∈ grants, h ≠ g → g.rank < h.rank

instance (grants : Finset ReceivedFileGrant) (dismissals : Finset ℕ) :
    Decidable (ReceivedGrantsSettled grants dismissals) :=
  inferInstanceAs (Decidable (_ ∨ _))

namespace MergeTree

/-- What a subtree inherits of `Carries`. -/
structure Covered (t : MergeTree) (cid : ContentId) (grants : Finset ReceivedFileGrant)
    (dismissals : Finset ℕ) : Prop where
  grants_sub : ∀ s ∈ t.snapshots, ∀ g, s.receivedFileGrants[cid]? = some g → g ∈ grants
  dismissals_sub : ∀ s ∈ t.snapshots, ∀ d, s.dismissedReceivedGrants[cid]? = some d → d ∈ dismissals
  grantsWithinSkew : ∀ now ∈ t.clocks, ∀ g ∈ grants, wallExceedsForwardSkew g.receivedAt now = false
  dismissalsWithinSkew : ∀ now ∈ t.clocks, ∀ d ∈ dismissals, wallExceedsForwardSkew d now = false

variable {cid : ContentId} {grants : Finset ReceivedFileGrant} {dismissals : Finset ℕ}
  {t receiver remote : MergeTree} {now : Option ℕ}

theorem Carries.covered (h : t.Carries cid grants dismissals) : t.Covered cid grants dismissals where
  grants_sub s hs g hg := (h.mem_grants g).mpr ⟨s, hs, hg⟩
  dismissals_sub s hs d hd := (h.mem_dismissals d).mpr ⟨s, hs, hd⟩
  grantsWithinSkew := h.grantsWithinSkew
  dismissalsWithinSkew := h.dismissalsWithinSkew

theorem Covered.left (h : (node now receiver remote).Covered cid grants dismissals) :
    receiver.Covered cid grants dismissals where
  grants_sub s hs := h.grants_sub s (List.mem_append_left _ hs)
  dismissals_sub s hs := h.dismissals_sub s (List.mem_append_left _ hs)
  grantsWithinSkew n hn := h.grantsWithinSkew n (by simp [clocks, hn])
  dismissalsWithinSkew n hn := h.dismissalsWithinSkew n (by simp [clocks, hn])

theorem Covered.right (h : (node now receiver remote).Covered cid grants dismissals) :
    remote.Covered cid grants dismissals where
  grants_sub s hs := h.grants_sub s (List.mem_append_right _ hs)
  dismissals_sub s hs := h.dismissals_sub s (List.mem_append_right _ hs)
  grantsWithinSkew n hn := h.grantsWithinSkew n (by simp [clocks, hn])
  dismissalsWithinSkew n hn := h.dismissalsWithinSkew n (by simp [clocks, hn])

variable (keys : IdentityKeys)

theorem Covered.provenance (h : t.Covered cid grants dismissals) :
    (∀ d, (t.eval keys).dismissedReceivedGrants[cid]? = some d → d ∈ dismissals) ∧
      ∀ g, (t.eval keys).receivedFileGrants[cid]? = some g → g ∈ grants := by
  induction t with
  | leaf s => exact ⟨h.dismissals_sub s (by simp [snapshots]), h.grants_sub s (by simp [snapshots])⟩
  | node now receiver remote ihl ihr =>
    obtain ⟨hdl, hgl⟩ := ihl h.left
    obtain ⟨hdr, hgr⟩ := ihr h.right
    have hd := fun d hd => h.dismissalsWithinSkew now (by simp [clocks]) d (hdr d hd)
    have hg := fun g hg => h.grantsWithinSkew now (by simp [clocks]) g (hgr g hg)
    constructor
    · intro d hd'
      rw [eval, merge_dismissed keys _ hd] at hd'
      exact (joinDismissal_eq_some hd').elim (hdl d) (hdr d)
    · intro g hg'
      rw [eval, merge_received keys _ hd hg] at hg'
      exact (joinReceived_eq_some hg').1.elim (hgl g) (hgr g)

theorem Covered.eval_dismissed (h : (node now receiver remote).Covered cid grants dismissals) :
    ((node now receiver remote).eval keys).dismissedReceivedGrants[cid]? =
      joinDismissal (receiver.eval keys).dismissedReceivedGrants[cid]?
        (remote.eval keys).dismissedReceivedGrants[cid]? :=
  merge_dismissed keys _ fun d hd =>
    h.dismissalsWithinSkew now (by simp [clocks]) d ((h.right.provenance keys).1 d hd)

theorem Covered.eval_received (h : (node now receiver remote).Covered cid grants dismissals) :
    ((node now receiver remote).eval keys).receivedFileGrants[cid]? =
      joinReceived ((node now receiver remote).eval keys).dismissedReceivedGrants[cid]?
        (receiver.eval keys).receivedFileGrants[cid]? (remote.eval keys).receivedFileGrants[cid]? := by
  rw [h.eval_dismissed keys]
  exact merge_received keys _
    (fun d hd => h.dismissalsWithinSkew now (by simp [clocks]) d ((h.right.provenance keys).1 d hd))
    (fun g hg => h.grantsWithinSkew now (by simp [clocks]) g ((h.right.provenance keys).2 g hg))

theorem Covered.dismissed_ge (h : t.Covered cid grants dismissals) {s : OwnerState}
    (hs : s ∈ t.snapshots) {d : ℕ} (hd : s.dismissedReceivedGrants[cid]? = some d) :
    ∃ d', (t.eval keys).dismissedReceivedGrants[cid]? = some d' ∧ d ≤ d' := by
  induction t with
  | leaf s' =>
    obtain rfl : s = s' := by simpa [snapshots] using hs
    exact ⟨d, hd, le_rfl⟩
  | node now receiver remote ihl ihr =>
    rw [h.eval_dismissed keys]
    rcases List.mem_append.mp hs with hs | hs
    · obtain ⟨d₁, h₁, hle⟩ := ihl h.left hs
      obtain ⟨d', hd', hle'⟩ := le_joinDismissal (Or.inl h₁)
      exact ⟨d', hd', hle.trans hle'⟩
    · obtain ⟨d₁, h₁, hle⟩ := ihr h.right hs
      obtain ⟨d', hd', hle'⟩ := le_joinDismissal (Or.inr h₁)
      exact ⟨d', hd', hle.trans hle'⟩

/-- An active grant that sorts before every other wins wherever it occurs. -/
theorem Covered.received_eq_least (h : t.Covered cid grants dismissals) {g : ReceivedFileGrant}
    (hactive : ∀ d ∈ dismissals, d < g.receivedAt)
    (hleast : ∀ e ∈ grants, e ≠ g → g.rank < e.rank)
    (hg : ∃ s ∈ t.snapshots, s.receivedFileGrants[cid]? = some g) :
    (t.eval keys).receivedFileGrants[cid]? = some g := by
  induction t with
  | leaf s =>
    obtain ⟨s', hs', hg⟩ := hg
    obtain rfl : s' = s := by simpa [snapshots] using hs'
    exact hg
  | node now receiver remote ihl ihr =>
    rw [h.eval_received keys]
    have hact : activeAt ((node now receiver remote).eval keys).dismissedReceivedGrants[cid]?
        g.receivedAt = true := by
      rw [activeAt, Option.all_eq_true]
      intro d hd
      exact decide_eq_true (hactive d ((h.provenance keys).1 d hd))
    have hside : (receiver.eval keys).receivedFileGrants[cid]? = some g ∨
        (remote.eval keys).receivedFileGrants[cid]? = some g := by
      obtain ⟨s, hs, hsg⟩ := hg
      rcases List.mem_append.mp hs with hs | hs
      · exact Or.inl (ihl h.left ⟨s, hs, hsg⟩)
      · exact Or.inr (ihr h.right ⟨s, hs, hsg⟩)
    exact joinReceived_of_least hact hside
      (fun e he => hleast e ((h.left.provenance keys).2 e he))
      (fun e he => hleast e ((h.right.provenance keys).2 e he))

theorem Carries.received_active (h : t.Carries cid grants dismissals) {g : ReceivedFileGrant}
    (hg : (t.eval keys).receivedFileGrants[cid]? = some g) : ∀ d ∈ dismissals, d < g.receivedAt := by
  obtain ⟨now, receiver, remote, rfl⟩ := h.merged
  intro d hd
  obtain ⟨s, hs, hsd⟩ := (h.mem_dismissals d).mp hd
  obtain ⟨d', hd', hle⟩ := h.covered.dismissed_ge keys hs hsd
  rw [h.covered.eval_received keys] at hg
  have hact := (joinReceived_eq_some hg).2
  rw [hd'] at hact
  exact hle.trans_lt (by simpa [activeAt] using hact)

end MergeTree

theorem ReceivedGrantsSettled.converge {cid : ContentId} {grants : Finset ReceivedFileGrant}
    {dismissals : Finset ℕ} (keys : IdentityKeys) (h : ReceivedGrantsSettled grants dismissals) :
    ReceivedGrantsConverge keys cid grants dismissals := by
  rcases h with hall | ⟨g, hg, hactive, hleast⟩
  · have hnone : ∀ t : MergeTree, t.Carries cid grants dismissals →
        (t.eval keys).receivedFileGrants[cid]? = none := by
      intro t ht
      by_contra hsome
      obtain ⟨g, hg⟩ := Option.ne_none_iff_exists'.mp hsome
      obtain ⟨d, hd, hle⟩ := hall g ((ht.covered.provenance keys).2 g hg)
      exact absurd (ht.received_active keys hg d hd) (not_lt.mpr hle)
    refine ⟨fun t t' ht ht' => (hnone t ht).trans (hnone t' ht').symm, ?_⟩
    rintro ⟨g, hg, hnew⟩
    obtain ⟨d, hd, hle⟩ := hall g hg
    exact absurd (hnew d hd) (not_lt.mpr hle)
  · have hwin : ∀ t : MergeTree, t.Carries cid grants dismissals →
        (t.eval keys).receivedFileGrants[cid]? = some g := fun t ht =>
      ht.covered.received_eq_least keys hactive hleast ((ht.mem_grants g).mp hg)
    exact ⟨fun t t' ht ht' => (hwin t ht).trans (hwin t' ht').symm,
      fun _ t ht => ⟨g, hwin t ht, hactive⟩⟩

/-! The converse: the grants of an unsettled set, folded once behind their
dismissals and once ahead of them, leave different entries. -/

section Chains

def grantSnapshot (cid : ContentId) (g : ReceivedFileGrant) : OwnerState where
  receivedFileGrants := (∅ : BTreeMap ContentId ReceivedFileGrant).insert cid g

def dismissalSnapshot (cid : ContentId) (d : ℕ) : OwnerState where
  dismissedReceivedGrants := (∅ : BTreeMap ContentId ℕ).insert cid d

variable (keys : IdentityKeys) (cid : ContentId)

def chainGrant (l : List OwnerState) : Option ReceivedFileGrant :=
  ((MergeTree.chain l).eval keys).receivedFileGrants[cid]?

def chainDismissal (l : List OwnerState) : Option ℕ :=
  ((MergeTree.chain l).eval keys).dismissedReceivedGrants[cid]?

theorem chainDismissal_snoc (l : List OwnerState) (s : OwnerState) :
    chainDismissal keys cid (l ++ [s]) =
      joinDismissal (chainDismissal keys cid l) s.dismissedReceivedGrants[cid]? := by
  rw [chainDismissal, MergeTree.chain_snoc]
  exact merge_dismissed keys _ fun _ _ => rfl

theorem chainGrant_snoc (l : List OwnerState) (s : OwnerState) :
    chainGrant keys cid (l ++ [s]) =
      joinReceived (chainDismissal keys cid (l ++ [s])) (chainGrant keys cid l)
        s.receivedFileGrants[cid]? := by
  rw [chainDismissal_snoc, chainGrant, MergeTree.chain_snoc]
  exact merge_received keys _ (fun _ _ => rfl) fun _ _ => rfl

theorem chainDismissal_append_grants (l : List OwnerState) (gs : List ReceivedFileGrant) :
    chainDismissal keys cid (l ++ gs.map (grantSnapshot cid)) = chainDismissal keys cid l := by
  induction gs using List.reverseRecOn with
  | nil => simp
  | append_singleton gs g ih =>
    rw [List.map_append, List.map_singleton, ← List.append_assoc, chainDismissal_snoc, ih]
    simp [grantSnapshot, joinDismissal]

theorem chainGrant_dismissals (ds : List ℕ) :
    chainGrant keys cid (ds.map (dismissalSnapshot cid)) = none := by
  induction ds using List.reverseRecOn with
  | nil => simp [chainGrant, MergeTree.chain, MergeTree.eval]
  | append_singleton ds d ih =>
    rw [List.map_append, List.map_singleton, chainGrant_snoc, ih]
    simp [dismissalSnapshot, joinReceived]

/-- Behind the dismissals, the first grant stays when it is active and no active
grant sorts before it. -/
theorem chainGrant_behind {l : List OwnerState} {m : ReceivedFileGrant}
    (hl : chainGrant keys cid l = none)
    (hm : activeAt (chainDismissal keys cid l) m.receivedAt = true) {gs : List ReceivedFileGrant}
    (hgs : ∀ g ∈ gs, activeAt (chainDismissal keys cid l) g.receivedAt = true → m.rank ≤ g.rank) :
    chainGrant keys cid (l ++ (m :: gs).map (grantSnapshot cid)) = some m := by
  induction gs using List.reverseRecOn with
  | nil =>
    have hd := chainDismissal_append_grants keys cid l [m]
    rw [List.map_singleton] at hd ⊢
    rw [chainGrant_snoc, hd, hl]
    simp [joinReceived, grantSnapshot, hm]
  | append_singleton gs g ih =>
    have hd := chainDismissal_append_grants keys cid l (m :: (gs ++ [g]))
    rw [← List.cons_append, List.map_append, List.map_singleton, ← List.append_assoc] at hd ⊢
    rw [chainGrant_snoc, hd, ih fun e he => hgs e (by simp [he])]
    have hlose : incomingWins (chainDismissal keys cid l) g m = false := by
      cases hg : activeAt (chainDismissal keys cid l) g.receivedAt with
      | false => simp [incomingWins, hg, hm]
      | true => simpa [incomingWins, hg, hm] using hgs g (by simp) hg
    simp [joinReceived, grantSnapshot, hlose, hm]

theorem chainGrant_ahead (h : ReceivedFileGrant) (gs : List ReceivedFileGrant) :
    ∃ x, chainGrant keys cid ((h :: gs).map (grantSnapshot cid)) = some x ∧
      (x = h ∨ x.rank < h.rank) := by
  have hnone : ∀ l : List ReceivedFileGrant,
      chainDismissal keys cid (l.map (grantSnapshot cid)) = none := fun l => by
    simpa [chainDismissal, MergeTree.chain, MergeTree.eval]
      using chainDismissal_append_grants keys cid [] l
  induction gs using List.reverseRecOn with
  | nil =>
    refine ⟨h, ?_, Or.inl rfl⟩
    have hsnoc := chainGrant_snoc keys cid [] (grantSnapshot cid h)
    have hd := hnone [h]
    rw [List.nil_append] at hsnoc
    rw [List.map_singleton] at hd ⊢
    rw [hsnoc, hd]
    simp [joinReceived, grantSnapshot, chainGrant, MergeTree.chain, MergeTree.eval, activeAt]
  | append_singleton gs g ih =>
    obtain ⟨x, hx, hxh⟩ := ih
    have hd := hnone (h :: (gs ++ [g]))
    rw [← List.cons_append, List.map_append, List.map_singleton] at hd ⊢
    rw [chainGrant_snoc, hd, hx]
    by_cases hlt : g.rank < x.rank
    · refine ⟨g, by simp [joinReceived, grantSnapshot, incomingWins, activeAt, hlt], Or.inr ?_⟩
      rcases hxh with rfl | hxh
      · exact hlt
      · exact hlt.trans hxh
    · exact ⟨x, by simp [joinReceived, grantSnapshot, incomingWins, activeAt, hlt], hxh⟩

theorem chainGrant_append_dismissals {l : List OwnerState} {x : ReceivedFileGrant}
    (hl : chainGrant keys cid l = some x) (ds : List ℕ) :
    chainGrant keys cid (l ++ ds.map (dismissalSnapshot cid)) = some x ∨
      chainGrant keys cid (l ++ ds.map (dismissalSnapshot cid)) = none := by
  induction ds using List.reverseRecOn with
  | nil => exact Or.inl (by simpa using hl)
  | append_singleton ds d ih =>
    rw [List.map_append, List.map_singleton, ← List.append_assoc, chainGrant_snoc]
    set dis := chainDismissal keys cid _
    rcases ih with ih | ih
    · rw [ih]
      cases hact : activeAt dis x.receivedAt <;>
        simp [joinReceived, dismissalSnapshot, Option.filter, hact]
    · exact Or.inr (by rw [ih]; simp [joinReceived, dismissalSnapshot])

theorem carries_chain {grants : Finset ReceivedFileGrant} {dismissals : Finset ℕ}
    {l : List OwnerState} (hne : l ≠ [])
    (hl : ∀ s, s ∈ l ↔ (∃ g ∈ grants, s = grantSnapshot cid g) ∨
      ∃ d ∈ dismissals, s = dismissalSnapshot cid d) :
    (MergeTree.chain l).Carries cid grants dismissals where
  mem_grants g := by
    simp only [MergeTree.mem_snapshots_chain, hl]
    constructor
    · intro hg
      exact ⟨_, Or.inr (Or.inl ⟨g, hg, rfl⟩), by simp [grantSnapshot]⟩
    · rintro ⟨s, rfl | ⟨g', hg', rfl⟩ | ⟨d, -, rfl⟩, hs⟩
      · simp at hs
      · obtain rfl : g' = g := by simpa [grantSnapshot] using hs
        exact hg'
      · simp [dismissalSnapshot] at hs
  mem_dismissals d := by
    simp only [MergeTree.mem_snapshots_chain, hl]
    constructor
    · intro hd
      exact ⟨_, Or.inr (Or.inr ⟨d, hd, rfl⟩), by simp [dismissalSnapshot]⟩
    · rintro ⟨s, rfl | ⟨g, -, rfl⟩ | ⟨d', hd', rfl⟩, hs⟩
      · simp at hs
      · simp [grantSnapshot] at hs
      · obtain rfl : d' = d := by simpa [dismissalSnapshot] using hs
        exact hd'
  merged := by
    obtain ⟨init, last, rfl⟩ := List.eq_nil_or_concat' l |>.resolve_left hne
    exact ⟨none, _, _, MergeTree.chain_snoc _ _⟩
  grantsWithinSkew now hnow _ _ := by
    rw [MergeTree.eq_none_of_mem_clocks_chain hnow]
    rfl
  dismissalsWithinSkew now hnow _ _ := by
    rw [MergeTree.eq_none_of_mem_clocks_chain hnow]
    rfl

theorem activeAt_chainDismissal (ds : List ℕ) (receivedAt : ℕ) :
    activeAt (chainDismissal keys cid (ds.map (dismissalSnapshot cid))) receivedAt = true ↔
      ∀ d ∈ ds, d < receivedAt := by
  induction ds using List.reverseRecOn with
  | nil => simp [activeAt, chainDismissal, MergeTree.chain, MergeTree.eval]
  | append_singleton ds d ih =>
    rw [List.map_append, List.map_singleton, chainDismissal_snoc]
    have hd : (dismissalSnapshot cid d).dismissedReceivedGrants[cid]? = some d := by
      simp [dismissalSnapshot]
    rw [hd]
    cases hc : chainDismissal keys cid (ds.map (dismissalSnapshot cid)) with
    | none =>
      rw [hc] at ih
      have hds : ∀ e ∈ ds, e < receivedAt := ih.mp rfl
      simp only [joinDismissal, activeAt, List.mem_append, List.mem_singleton]
      simp only [Option.elim_some, Option.all_some, Option.getD_none, Nat.zero_max,
        decide_eq_true_eq]
      exact ⟨fun h e he => he.elim (hds e) (fun he => he ▸ h), fun h => h d (Or.inr rfl)⟩
    | some c =>
      rw [hc] at ih
      simp only [activeAt, Option.all_some, decide_eq_true_eq] at ih
      simp only [joinDismissal, activeAt, List.mem_append, List.mem_singleton, Option.elim_some,
        Option.all_some, Option.getD_some, decide_eq_true_eq, max_lt_iff, ih]
      exact ⟨fun h e he => he.elim (h.1 e) (fun he => he ▸ h.2),
        fun h => ⟨fun e he => h e (Or.inl he), h d (Or.inr rfl)⟩⟩

end Chains

theorem ReceivedGrantsConverge.settled {keys : IdentityKeys} {cid : ContentId}
    {grants : Finset ReceivedFileGrant} {dismissals : Finset ℕ}
    (hconv : ReceivedGrantsConverge keys cid grants dismissals) :
    ReceivedGrantsSettled grants dismissals := by
  by_contra hns
  rw [ReceivedGrantsSettled, not_or] at hns
  obtain ⟨hsome, hnone⟩ := hns
  -- the least of the active grants
  have hne : (grants.filter fun g => ∀ d ∈ dismissals, d < g.receivedAt).Nonempty := by
    push Not at hsome
    obtain ⟨g, hg, hd⟩ := hsome
    exact ⟨g, Finset.mem_filter.mpr ⟨hg, hd⟩⟩
  obtain ⟨m, hm, hmin⟩ := Finset.exists_min_image _ ReceivedFileGrant.rank hne
  obtain ⟨hmg, hmd⟩ := Finset.mem_filter.mp hm
  push Not at hnone
  obtain ⟨h, hh, hhm, hle⟩ := hnone m hmg hmd
  set gs := grants.toList
  set ds := dismissals.toList
  have hactive := activeAt_chainDismissal keys cid ds
  have hbehind : chainGrant keys cid
      (ds.map (dismissalSnapshot cid) ++ (m :: gs).map (grantSnapshot cid)) = some m := by
    refine chainGrant_behind keys cid (chainGrant_dismissals keys cid ds)
      ((hactive _).mpr (by simpa [ds] using hmd)) fun g hg hact => ?_
    refine hmin g (Finset.mem_filter.mpr ⟨by simpa [gs] using hg, ?_⟩)
    simpa [ds] using (hactive _).mp hact
  obtain ⟨x, hx, hxh⟩ := chainGrant_ahead keys cid h gs
  have hxm : x ≠ m := by
    rintro rfl
    rcases hxh with rfl | hlt
    · exact hhm rfl
    · exact absurd hlt (not_lt.mpr hle)
  have hagree : chainGrant keys cid
      (ds.map (dismissalSnapshot cid) ++ (m :: gs).map (grantSnapshot cid)) =
        chainGrant keys cid ((h :: gs).map (grantSnapshot cid) ++ ds.map (dismissalSnapshot cid)) :=
    hconv.agree _ _
    (carries_chain cid (l := ds.map (dismissalSnapshot cid) ++ (m :: gs).map (grantSnapshot cid))
      (by simp) fun s => by simp [gs, ds]; grind)
    (carries_chain cid (l := (h :: gs).map (grantSnapshot cid) ++ ds.map (dismissalSnapshot cid))
      (by simp) fun s => by simp [gs, ds]; grind)
  have hahead := chainGrant_append_dismissals keys cid hx ds
  rw [← hagree, hbehind] at hahead
  rcases hahead with hahead | hahead
  · exact hxm (Option.some.inj hahead).symm
  · exact absurd hahead (by simp)

/-- Received grants converge, and a re-share is kept, exactly when all grants are
dismissed or an active one sorts strictly before every other grant. -/
theorem receivedGrantsConverge_iff (keys : IdentityKeys) (cid : ContentId)
    (grants : Finset ReceivedFileGrant) (dismissals : Finset ℕ) :
    ReceivedGrantsConverge keys cid grants dismissals ↔
      ReceivedGrantsSettled grants dismissals :=
  ⟨fun h => h.settled, fun h => h.converge keys⟩

def dismissedGrant : ReceivedFileGrant := ⟨1, 7, "notes", 10, "text/plain", [1], 10⟩

def reshare : ReceivedFileGrant := ⟨1, 7, "notes", 10, "text/plain", [2], 20⟩

theorem reshare_lost :
    ¬ReceivedGrantsConverge ⟨fun _ => none, fun master => master⟩ 7 {dismissedGrant, reshare} {15} :=
  fun h => absurd h.settled (by decide)

end Harmony.Owner
