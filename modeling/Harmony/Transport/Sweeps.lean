import Harmony.Owner.Survival
import Harmony.Transport.Outhold

/-! Runs of the sweeper. Between two sweeps the hold and the owner state take what other
devices send. A row is looked up under the conversation id that its key was made with,
while the outbox entry of its message follows its conversation when two ids of one
conversation are collapsed; the row then counts as an orphan, and its window runs out
although the message is still to be delivered. -/

namespace Harmony.Transport.Outhold

open Harmony.Lib
open Harmony.Membership (SpaceId Bytes)
open Harmony.Owner (ContentId OutboxEntryId OutboxEntry OwnerState Space IdentityKeys)

structure Replica where
  doc : DmOutholdDoc
  owner : OwnerState
  orphanFirstSeen : BTreeMap String ℕ := ∅

inductive Action where
  | sweep (casPut : String → ContentId → Bytes → Bool) (nowMs : ℕ)
  | mergeOuthold (remote : DmOutholdDoc)
  | applyOutbox (e : OutboxEntry)
  | applySpace (sp : Space)
  | mergeOwner (receiverNow : Option ℕ) (remote : OwnerState)

section Step

variable (keys : IdentityKeys) (forBook : Bytes → Option ContentId)

def Replica.step (r : Replica) : Action → Replica
  | .sweep casPut nowMs =>
    let swept := sweepOnce r.owner casPut nowMs r.orphanFirstSeen r.doc
    { r with doc := swept.doc, orphanFirstSeen := swept.orphanFirstSeen }
  | .mergeOuthold remote => { r with doc := (r.doc.mergeFrom forBook remote).1 }
  | .applyOutbox e => { r with owner := (r.owner.applyOutbox e).1 }
  | .applySpace sp => { r with owner := (r.owner.applySpaceWithCanonicalization sp).1 }
  | .mergeOwner receiverNow remote =>
    { r with owner := r.owner.mergeRemoteIntoLocal keys receiverNow remote }

/-- A sweep that took place, with the states before and after it. -/
structure Sweep where
  nowMs : ℕ
  before : Replica
  after : Replica

/-- The present state, the states before it and the sweeps so far, the newest first. -/
structure History where
  present : Replica
  past : List Replica := []
  sweeps : List Sweep := []

def History.step (h : History) (a : Action) : History :=
  let next := h.present.step keys forBook a
  { present := next
    past := h.present :: h.past
    sweeps :=
      match a with
      | .sweep _ nowMs => ⟨nowMs, h.present, next⟩ :: h.sweeps
      | _ => h.sweeps }

def run (doc : DmOutholdDoc) (owner : OwnerState) (actions : List Action) : History :=
  actions.foldl (History.step keys forBook) { present := { doc, owner } }

end Step

/-! ### What the hold promises -/

def undelivered (owner : OwnerState) (cid : ContentId) : Bool :=
  owner.outbox.toList.any fun p => p.2.messageCid = some cid && isLive p.2.deliveryStatus

def Replica.owes (r : Replica) (k : String) : Bool :=
  r.doc.entries[k]?.isSome && (parseOutholdKey k).any fun ids => undelivered r.owner ids.2

/-- The row was owed in each of the states since it entered the document. -/
def owedSince (k : String) : List Replica → Bool
  | [] => true
  | r :: earlier => r.doc.entries[k]?.isNone || r.owes k && owedSince k earlier

def History.owed (h : History) (k : String) : Bool := h.present.owes k && owedSince k h.past

def Sweep.sawOrphan (k : String) (w : Sweep) : Bool :=
  w.after.doc.entries[k]?.isSome && decide (rowStatus w.before.owner k = some none)

/-- A sweep at least the grace period ago saw the row as an orphan; so did each sweep
since, and none of them read an earlier clock. -/
def History.Overdue (h : History) (nowMs : ℕ) (k : String) : Prop :=
  ∃ w, SeenSince (Sweep.sawOrphan k) Sweep.nowMs h.sweeps w ∧ w.nowMs + outholdOrphanGcGraceMs ≤ nowMs

/-- What a sweep leaves of the document. -/
structure Keeps (h : History) (nowMs : ℕ) (after : DmOutholdDoc) : Prop where
  owed : ∀ k, h.owed k = true → after.entries[k]?.isSome = true
  orphan : ∀ k spaceId cid, parseOutholdKey k = some (spaceId, cid) →
    (∀ (id : OutboxEntryId) (e : OutboxEntry), h.present.owner.outbox[id]? = some e →
      e.messageCid ≠ some cid) →
    h.present.doc.entries[k]?.isSome = true → after.entries[k]? = none → h.Overdue nowMs k

/-- The first entry filed under the row's own ids is still to be delivered, or there is
none and the grace period is not over. -/
def History.Sheltered (h : History) (nowMs : ℕ) (k : String) : Prop :=
  ∃ spaceId cid, parseOutholdKey k = some (spaceId, cid) ∧
    ((∃ (id : OutboxEntryId) (e : OutboxEntry), h.present.owner.outbox[id]? = some e ∧
        filedUnder spaceId cid e ∧ isLive e.deliveryStatus = true ∧
          ∀ (id' : OutboxEntryId) (e' : OutboxEntry), h.present.owner.outbox[id']? = some e' →
            id' < id → ¬filedUnder spaceId cid e') ∨
      (∀ (id : OutboxEntryId) (e : OutboxEntry), h.present.owner.outbox[id]? = some e →
        ¬filedUnder spaceId cid e) ∧ ¬h.Overdue nowMs k)

section Runs

variable (keys : IdentityKeys) (forBook : Bytes → Option ContentId) (doc : DmOutholdDoc)
  (owner : OwnerState)

/-- Every sweep of the run keeps what is owed and waits for orphans. -/
def RunKeeps (actions : List Action) : Prop :=
  ∀ pre casPut nowMs post, actions = pre ++ .sweep casPut nowMs :: post →
    Keeps (run keys forBook doc owner pre) nowMs
      (run keys forBook doc owner (pre ++ [.sweep casPut nowMs])).present.doc

/-- Every sweep of the run finds each row that is owed sheltered. -/
def RunSheltered (actions : List Action) : Prop :=
  ∀ pre casPut nowMs post, actions = pre ++ .sweep casPut nowMs :: post →
    ∀ k, (run keys forBook doc owner pre).owed k = true →
      (run keys forBook doc owner pre).Sheltered nowMs k

end Runs

/-! ### Rows and their keys -/

section Rows

variable {keys : IdentityKeys} {forBook : Bytes → Option ContentId} {r : Replica}

theorem Replica.step_binds (a : Action)
    (h : ∀ k e, r.doc.entries[k]? = some e → DmOutholdDoc.Binds forBook k e) (k : String)
    (e : DmOutholdEntry) (he : (r.step keys forBook a).doc.entries[k]? = some e) :
    DmOutholdDoc.Binds forBook k e := by
  cases a with
  | sweep casPut nowMs =>
    have hget : (if _ then none else r.doc.entries[k]?) = some e :=
      (sweepOnce_get _ _ _ _ _ k).symm.trans he
    split_ifs at hget
    exact h k e hget
  | mergeOuthold remote => exact DmOutholdDoc.mergeFrom_binds remote h he
  | applyOutbox _ => exact h k e he
  | applySpace _ => exact h k e he
  | mergeOwner _ _ => exact h k e he

/-- Each row of a run stands under the key of its payload, if the first rows do. -/
theorem run_binds {doc : DmOutholdDoc} (owner : OwnerState) (actions : List Action)
    (h : ∀ k e, doc.entries[k]? = some e → DmOutholdDoc.Binds forBook k e) (k : String)
    (e : DmOutholdEntry) (he : (run keys forBook doc owner actions).present.doc.entries[k]? = some e) :
    DmOutholdDoc.Binds forBook k e := by
  revert k e
  unfold run
  exact List.foldlRecOn actions _ (motive := fun h : History => ∀ k e,
    h.present.doc.entries[k]? = some e → DmOutholdDoc.Binds forBook k e) h
    fun h hh a _ => Replica.step_binds a hh

end Rows

/-! ### The tracker -/

/-- The tracker holds the window of each row. -/
def History.Tracked (h : History) : Prop :=
  ∀ k, h.present.orphanFirstSeen[k]? = firstSeen (Sweep.sawOrphan k) Sweep.nowMs h.sweeps

section Tracker

variable {keys : IdentityKeys} {forBook : Bytes → Option ContentId} {h : History}

theorem History.Tracked.step (ht : h.Tracked) (a : Action) : (h.step keys forBook a).Tracked := by
  intro k
  cases a with
  | sweep casPut nowMs =>
    have hwindow := sweepOnce_orphanFirstSeen h.present.owner casPut nowMs
      h.present.orphanFirstSeen h.present.doc k
    rw [ht k] at hwindow
    refine hwindow.trans ?_
    simp only [History.step, firstSeen, Sweep.sawOrphan, Replica.step, Bool.and_eq_true,
      decide_eq_true_eq]
  | mergeOuthold remote => exact ht k
  | applyOutbox e => exact ht k
  | applySpace sp => exact ht k
  | mergeOwner receiverNow remote => exact ht k

theorem run_tracked (doc : DmOutholdDoc) (owner : OwnerState) (actions : List Action) :
    (run keys forBook doc owner actions).Tracked := by
  unfold run
  refine List.foldlRecOn actions _ (motive := History.Tracked) ?_ fun h ht a _ => ht.step a
  intro k
  rfl

theorem History.Tracked.lapsed_iff (ht : h.Tracked) (nowMs : ℕ) (k : String) :
    lapsed outholdOrphanGcGraceMs nowMs h.present.orphanFirstSeen[k]? = true ↔ h.Overdue nowMs k := by
  rw [ht k]
  exact lapsed_firstSeen_iff

theorem History.Tracked.goes_eq_false_iff (ht : h.Tracked) (nowMs : ℕ) (k : String) :
    goes nowMs h.present.orphanFirstSeen[k]? (rowStatus h.present.owner k) = false ↔
      h.Sheltered nowMs k := by
  unfold rowStatus History.Sheltered
  cases hkey : parseOutholdKey k with
  | none => simp [goes]
  | some ids =>
    obtain ⟨spaceId, cid⟩ := ids
    simp only [Option.map_some, Option.some.injEq, Prod.mk.injEq]
    cases hstatus : outboxStatus h.present.owner spaceId cid with
    | none =>
      have hnone := outboxStatus_eq_none_iff.mp hstatus
      rw [goes, Bool.eq_false_iff, ne_eq, ht.lapsed_iff]
      constructor
      · intro hdue
        exact ⟨spaceId, cid, ⟨rfl, rfl⟩, Or.inr ⟨hnone, hdue⟩⟩
      · rintro ⟨_, _, ⟨rfl, rfl⟩, ⟨id, e, he, hfiled, -⟩ | ⟨-, hdue⟩⟩
        · exact absurd hfiled (hnone id e he)
        · exact hdue
    | some status =>
      obtain ⟨id, e, he, hfiled, rfl, hfirst⟩ := outboxStatus_eq_some_iff.mp hstatus
      rw [goes, Bool.not_eq_false']
      constructor
      · intro hlive
        exact ⟨spaceId, cid, ⟨rfl, rfl⟩, Or.inl ⟨id, e, he, hfiled, hlive, hfirst⟩⟩
      · rintro ⟨_, _, ⟨rfl, rfl⟩, ⟨id', e', he', hfiled', hlive, hfirst'⟩ | ⟨hnone, -⟩⟩
        · -- both are the first entry
          have hid : id = id' := by
            rcases lt_trichotomy id id' with hlt | heq | hlt
            · exact absurd hfiled (hfirst' id e he hlt)
            · exact heq
            · exact absurd hfiled' (hfirst id' e' he' hlt)
          subst hid
          rw [he] at he'
          rw [Option.some.inj he']
          exact hlive
        · exact absurd hfiled (hnone id e he)

theorem History.Tracked.keeps_iff (ht : h.Tracked) (casPut : String → ContentId → Bytes → Bool)
    (nowMs : ℕ) :
    Keeps h nowMs (h.step keys forBook (.sweep casPut nowMs)).present.doc ↔
      ∀ k, h.owed k = true → h.Sheltered nowMs k := by
  have hget : ∀ k, (h.step keys forBook (.sweep casPut nowMs)).present.doc.entries[k]? =
      if goes nowMs h.present.orphanFirstSeen[k]? (rowStatus h.present.owner k) then none
      else h.present.doc.entries[k]? := fun k => sweepOnce_get _ _ _ _ _ k
  constructor
  · intro hkeeps k howed
    rw [← ht.goes_eq_false_iff, Bool.eq_false_iff]
    intro hgoes
    have hheld := hkeeps.owed k howed
    rw [hget, if_pos hgoes] at hheld
    cases hheld
  · intro hshelter
    refine ⟨fun k howed => ?_, fun k spaceId cid hkey hnone hheld hgone => ?_⟩
    · have hstays := (ht.goes_eq_false_iff nowMs k).mpr (hshelter k howed)
      rw [hget, hstays]
      simp only [History.owed, Replica.owes, Bool.and_eq_true] at howed
      exact howed.1.1
    · have hstatus : rowStatus h.present.owner k = some none := by
        rw [rowStatus, hkey, Option.map_some, Option.some.injEq, outboxStatus_eq_none_iff]
        exact fun id e he hfiled => hnone id e he hfiled.2
      rw [← ht.lapsed_iff]
      by_contra hyoung
      rw [hget, hstatus, goes, if_neg hyoung] at hgone
      rw [hgone] at hheld
      cases hheld

end Tracker

/-- The hold keeps its promise in the runs whose sweeps find every owed row sheltered, and
in no others. -/
theorem runKeeps_iff_runSheltered (keys : IdentityKeys) (forBook : Bytes → Option ContentId)
    (doc : DmOutholdDoc) (owner : OwnerState) (actions : List Action) :
    RunKeeps keys forBook doc owner actions ↔ RunSheltered keys forBook doc owner actions := by
  refine forall₅_congr fun pre casPut nowMs post _ => ?_
  have hstep : run keys forBook doc owner (pre ++ [.sweep casPut nowMs]) =
      (run keys forBook doc owner pre).step keys forBook (.sweep casPut nowMs) := by
    simp only [run, List.foldl_append, List.foldl_cons, List.foldl_nil]
  rw [hstep]
  exact (run_tracked doc owner pre).keeps_iff casPut nowMs

/-! ### A conversation with two ids -/

/-- The message is sent under the second id of the conversation, which then becomes the
first. -/
def collapsedRun : List Action :=
  let at0 : Harmony.Membership.Hlc := ⟨0, 0, "device"⟩
  [.applySpace (Owner.directMessage 2 1),
    .applyOutbox ⟨1, 2, [2], some 7, at0, ∅, .pending⟩,
    .mergeOuthold ⟨(∅ : BTreeMap String DmOutholdEntry).insert (DmOutholdDoc.key 2 7) ⟨[1], 2, at0⟩⟩,
    .sweep (fun _ _ _ => true) 0,
    .applySpace (Owner.directMessage 1 1),
    .sweep (fun _ _ _ => true) 1000]

/-- The blob goes ten minutes later, with the message still pending. -/
theorem collapsed_row_removed :
    (run Owner.plainKeys (fun _ => some 7) {} {} collapsedRun).owed (DmOutholdDoc.key 2 7) = true ∧
      ¬RunKeeps Owner.plainKeys (fun _ => some 7) {} {}
        (collapsedRun ++ [.sweep (fun _ _ _ => true) (1000 + outholdOrphanGcGraceMs)]) := by
  have howed : (run Owner.plainKeys (fun _ => some 7) {} {} collapsedRun).owed
      (DmOutholdDoc.key 2 7) = true := by decide +kernel
  refine ⟨howed, fun hkeeps => ?_⟩
  have hheld := (hkeeps collapsedRun _ _ [] rfl).owed _ howed
  revert hheld
  decide +kernel

end Harmony.Transport.Outhold
