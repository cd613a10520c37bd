import Harmony.Lib.Keyed
import Harmony.Owner.Types

/-! Pending invites to direct messages. An invite of someone who is no active friend waits
for the user; unacknowledged messages bring it again with every sweep. A space keeps its
first invite, and a decline remembers the message that invite came with. -/

namespace Harmony.Transport

open Harmony.Lib
open Harmony.Membership (SpaceId)
open Harmony.Owner (ContentId)

structure DmInviteSigned where
  spaceId : SpaceId
deriving DecidableEq

/-- `sourceCid` is the message the invite came with on a path that sweeps deliver again. -/
structure StagedDmInvite where
  signed : DmInviteSigned
  receivedAtMs : ℕ
  refreshOwnerDeviceCache : Bool
  sourceCid : Option ContentId
deriving DecidableEq

def StagedDmInvite.spaceId (staged : StagedDmInvite) : SpaceId := staged.signed.spaceId

structure PendingDmInvites where
  pending : BTreeMap SpaceId StagedDmInvite := ∅
  declined : Finset (SpaceId × ContentId) := ∅

namespace PendingDmInvites

/-- Whether a decline has recorded the message of an invite. -/
def silenced (s : PendingDmInvites) (staged : StagedDmInvite) : Bool :=
  staged.sourceCid.any fun cid => (staged.spaceId, cid) ∈ s.declined

/-- True when the invite is newly staged. -/
def stage (s : PendingDmInvites) (staged : StagedDmInvite) : Bool × PendingDmInvites :=
  if s.silenced staged then (false, s)
  else if s.pending[staged.spaceId]?.isSome then (false, s)
  else (true, { s with pending := s.pending.insert staged.spaceId staged })

def list (s : PendingDmInvites) : List StagedDmInvite := s.pending.toList.map Prod.snd

/-- An accept; it records nothing. -/
def take (s : PendingDmInvites) (space : SpaceId) : Option StagedDmInvite × PendingDmInvites :=
  (s.pending[space]?, { s with pending := s.pending.erase space })

def decline (s : PendingDmInvites) (space : SpaceId) : Option StagedDmInvite × PendingDmInvites :=
  let removed := s.pending[space]?
  let declined := match removed.bind (·.sourceCid) with
    | some cid => insert (space, cid) s.declined
    | none => s.declined
  (removed, { pending := s.pending.erase space, declined })

/-- The events that go to the user interface. -/
def stageAndEmitStagedInvite (pending : Option PendingDmInvites) (staged : StagedDmInvite) :
    List String × Option PendingDmInvites :=
  match pending with
  | none => ([], none)
  | some s =>
    let (newly, s') := s.stage staged
    (if newly then ["dm-invite-received", "dm-invite-list-changed"] else [], some s')

def purgeStaleStagedOnAccept (pending : Option PendingDmInvites) (space : SpaceId) :
    List String × Option PendingDmInvites :=
  match pending with
  | none => ([], none)
  | some s =>
    let (removed, s') := s.take space
    (if removed.isSome then ["dm-invite-list-changed"] else [], some s')

variable {s : PendingDmInvites} {staged : StagedDmInvite}

theorem stage_eq_true_iff : (s.stage staged).1 = true ↔
    s.silenced staged = false ∧ s.pending[staged.spaceId]? = none := by
  rw [stage]
  split_ifs with h1 h2
  · simp [h1]
  · simp only [Option.isSome_iff_ne_none, ne_eq] at h2
    simp [h2]
  · simp_all

@[simp] theorem stage_declined : (s.stage staged).2.declined = s.declined := by
  rw [stage]
  split_ifs <;> rfl

theorem stage_pending (space : SpaceId) : (s.stage staged).2.pending[space]? =
    if (s.stage staged).1 = true ∧ staged.spaceId = space then some staged
    else s.pending[space]? := by
  rw [stage]
  split_ifs with h1 h2 h3 h4 <;> simp_all [BTreeMap.get_insert]

theorem take_pending (space other : SpaceId) : (s.take space).2.pending[other]? =
    if space = other then none else s.pending[other]? :=
  BTreeMap.get_erase s.pending space other

theorem decline_pending (space other : SpaceId) : (s.decline space).2.pending[other]? =
    if space = other then none else s.pending[other]? :=
  BTreeMap.get_erase s.pending space other

theorem mem_decline_declined (space other : SpaceId) (cid : ContentId) :
    (other, cid) ∈ (s.decline space).2.declined ↔
      (space = other ∧ ∃ inv, s.pending[space]? = some inv ∧ inv.sourceCid = some cid) ∨
        (other, cid) ∈ s.declined := by
  simp only [decline]
  cases h : s.pending[space]? with
  | none => simp
  | some inv =>
    cases hcid : inv.sourceCid with
    | none => simp [hcid]
    | some c => simp [hcid, eq_comm]

theorem stageAndEmit_tells_iff :
    "dm-invite-list-changed" ∈ (stageAndEmitStagedInvite (some s) staged).1 ↔
      (s.stage staged).2.pending ≠ s.pending := by
  have htold : "dm-invite-list-changed" ∈ (stageAndEmitStagedInvite (some s) staged).1 ↔
      (s.stage staged).1 = true := by
    cases h : (s.stage staged).1 <;> simp [stageAndEmitStagedInvite, h]
  rw [htold]
  constructor
  · intro hnew heq
    have hget : (s.stage staged).2.pending[staged.spaceId]? = _ := stage_pending staged.spaceId
    rw [if_pos ⟨hnew, rfl⟩, heq, (stage_eq_true_iff.mp hnew).2] at hget
    cases hget
  · intro hne
    by_contra hold
    refine hne (Std.ExtTreeMap.ext_getElem? fun space => ?_)
    rw [stage_pending, if_neg fun h => hold h.1]

theorem purgeStaleStaged_tells_iff (space : SpaceId) :
    "dm-invite-list-changed" ∈ (purgeStaleStagedOnAccept (some s) space).1 ↔
      (s.take space).2.pending ≠ s.pending := by
  have htold : "dm-invite-list-changed" ∈ (purgeStaleStagedOnAccept (some s) space).1 ↔
      s.pending[space]? ≠ none := by
    cases h : s.pending[space]? <;> simp [purgeStaleStagedOnAccept, take, h]
  rw [htold]
  constructor
  · intro hsome heq
    have hget := take_pending (s := s) space space
    rw [if_pos rfl, heq] at hget
    exact hsome hget
  · intro hne hnone
    refine hne (Std.ExtTreeMap.ext_getElem? fun other => ?_)
    rw [take_pending]
    split_ifs with h
    · rw [← h, hnone]
    · rfl

/-! ### Sequences of calls -/

inductive Call where
  | stage (staged : StagedDmInvite)
  | take (space : SpaceId)
  | decline (space : SpaceId)
deriving DecidableEq

def call (s : PendingDmInvites) : Call → PendingDmInvites
  | .stage staged => (s.stage staged).2
  | .take space => (s.take space).2
  | .decline space => (s.decline space).2

/-- The store a session's calls leave. -/
def after (calls : List Call) : PendingDmInvites := calls.foldl call {}

@[simp] theorem after_snoc (calls : List Call) (c : Call) :
    after (calls ++ [c]) = (after calls).call c := by
  simp [after]

/-- The invite was newly staged, and its space was neither taken nor declined since. -/
def Holds (calls : List Call) (inv : StagedDmInvite) : Prop :=
  ∃ pre suf, calls = pre ++ .stage inv :: suf ∧ ((after pre).stage inv).1 = true ∧
    ∀ c ∈ suf, c ≠ .take inv.spaceId ∧ c ≠ .decline inv.spaceId

/-- A decline of the space returned an invite that came with the message. -/
def Declined (calls : List Call) (space : SpaceId) (cid : ContentId) : Prop :=
  ∃ pre suf inv, calls = pre ++ .decline space :: suf ∧
    ((after pre).decline space).1 = some inv ∧ inv.sourceCid = some cid

theorem exists_split_snoc {α : Type} {l : List α} {a b : α} {P : List α → List α → Prop} :
    (∃ pre suf, l ++ [b] = pre ++ a :: suf ∧ P pre suf) ↔
      (b = a ∧ P l []) ∨ ∃ pre suf, l = pre ++ a :: suf ∧ P pre (suf ++ [b]) := by
  refine ⟨fun ⟨pre, suf, h, hP⟩ => ?_, ?_⟩
  · rcases List.eq_nil_or_concat suf with rfl | ⟨suf, c, rfl⟩
    · obtain ⟨rfl, hba⟩ := List.append_inj' h rfl
      exact .inl ⟨by simpa using hba, hP⟩
    · rw [List.concat_eq_append, ← List.cons_append, ← List.append_assoc] at h
      obtain ⟨hl, hbc⟩ := List.append_inj' h rfl
      rw [List.singleton_inj] at hbc
      exact .inr ⟨pre, suf, hl, by rwa [List.concat_eq_append, ← hbc] at hP⟩
  · rintro (⟨rfl, hP⟩ | ⟨pre, suf, rfl, hP⟩)
    · exact ⟨l, [], rfl, hP⟩
    · exact ⟨pre, suf ++ [b], by simp, hP⟩

theorem holds_snoc {calls : List Call} {c : Call} {inv : StagedDmInvite} :
    Holds (calls ++ [c]) inv ↔ (c = .stage inv ∧ ((after calls).stage inv).1 = true) ∨
      (Holds calls inv ∧ c ≠ .take inv.spaceId ∧ c ≠ .decline inv.spaceId) := by
  rw [Holds, exists_split_snoc]
  refine or_congr (by simp) ⟨?_, ?_⟩
  · rintro ⟨pre, suf, h, hnew, hsuf⟩
    exact ⟨⟨pre, suf, h, hnew, fun d hd => hsuf d (by simp [hd])⟩, hsuf c (by simp)⟩
  · rintro ⟨⟨pre, suf, h, hnew, hsuf⟩, hc⟩
    refine ⟨pre, suf, h, hnew, fun d hd => ?_⟩
    rcases List.mem_append.mp hd with hd | hd
    · exact hsuf d hd
    · exact List.mem_singleton.mp hd ▸ hc

theorem declined_snoc {calls : List Call} {c : Call} {space : SpaceId} {cid : ContentId} :
    Declined (calls ++ [c]) space cid ↔
      (c = .decline space ∧ ∃ inv, ((after calls).decline space).1 = some inv ∧
        inv.sourceCid = some cid) ∨ Declined calls space cid := by
  have hsplit := exists_split_snoc (l := calls) (b := c) (a := .decline space)
    (P := fun pre _ => ∃ inv, ((after pre).decline space).1 = some inv ∧ inv.sourceCid = some cid)
  simpa only [Declined, exists_and_left] using hsplit

/-- What the store holds after a session's calls. -/
structure Ledger (calls : List Call) (s : PendingDmInvites) : Prop where
  pending : ∀ space inv, s.pending[space]? = some inv ↔ inv.spaceId = space ∧ Holds calls inv
  declined : ∀ space cid, (space, cid) ∈ s.declined ↔ Declined calls space cid

variable {calls : List Call}

/-- A space that was taken or declined holds nothing. -/
theorem Ledger.erase (h : Ledger calls (after calls)) {c : Call} {removed : SpaceId}
    (hc : ∀ inv, Holds (calls ++ [c]) inv ↔ Holds calls inv ∧ removed ≠ inv.spaceId)
    (space : SpaceId) (inv : StagedDmInvite) :
    (if removed = space then none else (after calls).pending[space]?) = some inv ↔
      inv.spaceId = space ∧ Holds (calls ++ [c]) inv := by
  rw [hc]
  split_ifs with hspace
  · refine iff_of_false (by simp) ?_
    rintro ⟨hinv, -, hne⟩
    exact hne (hspace.trans hinv.symm)
  · rw [h.pending]
    refine and_congr_right fun hinv => (and_iff_left ?_).symm
    rwa [hinv]

theorem Ledger.call (h : Ledger calls (after calls)) (c : Call) :
    Ledger (calls ++ [c]) ((after calls).call c) := by
  cases c with
  | stage staged =>
    refine ⟨fun space inv => ?_, fun space cid => ?_⟩
    · rw [PendingDmInvites.call, stage_pending, holds_snoc]
      split_ifs with hnew
      · obtain ⟨hnew, rfl⟩ := hnew
        -- nothing was pending for the space, so no earlier staging still holds
        have hfree := (stage_eq_true_iff.mp hnew).2
        have hnone : ∀ inv, inv.spaceId = staged.spaceId → ¬ Holds calls inv := by
          intro inv hinv hholds
          rw [(h.pending _ inv).mpr ⟨hinv, hholds⟩] at hfree
          cases hfree
        constructor
        · rintro ⟨rfl⟩
          exact ⟨rfl, .inl ⟨rfl, hnew⟩⟩
        · rintro ⟨hinv, ⟨heq, -⟩ | ⟨hholds, -⟩⟩
          · rw [Call.stage.injEq] at heq
            rw [heq]
          · exact absurd hholds (hnone inv hinv)
      · rw [h.pending]
        refine and_congr_right fun hinv => ?_
        constructor
        · intro hholds
          exact .inr ⟨hholds, by simp, by simp⟩
        · rintro (⟨heq, htrue⟩ | ⟨hholds, -⟩)
          · rw [Call.stage.injEq] at heq
            exact absurd ⟨heq ▸ htrue, heq ▸ hinv⟩ hnew
          · exact hholds
    · rw [PendingDmInvites.call, stage_declined, declined_snoc, h.declined]
      simp
  | take space =>
    refine ⟨fun other inv => ?_, fun other cid => ?_⟩
    · rw [PendingDmInvites.call, take_pending]
      exact h.erase (fun inv => by simp [holds_snoc]) other inv
    · rw [declined_snoc, ← h.declined]
      simp [PendingDmInvites.call, take]
  | decline space =>
    refine ⟨fun other inv => ?_, fun other cid => ?_⟩
    · rw [PendingDmInvites.call, decline_pending]
      exact h.erase (fun inv => by simp [holds_snoc]) other inv
    · rw [PendingDmInvites.call, mem_decline_declined, declined_snoc,
        h.declined, Call.decline.injEq]
      refine or_congr (and_congr_right fun hspace => ?_) Iff.rfl
      rw [hspace]
      rfl

theorem ledger_after (calls : List Call) : Ledger calls (after calls) := by
  induction calls using List.reverseRecOn with
  | nil =>
    refine ⟨fun space inv => ?_, fun space cid => ?_⟩
    · simp [after, Holds]
    · simp [after, Declined]
  | append_singleton calls c ih =>
    rw [after_snoc]
    exact ih.call c

/-- A stage succeeds when nothing is pending for the space and no decline returned an invite
of the same message. -/
theorem stage_after_iff (calls : List Call) (staged : StagedDmInvite) :
    ((after calls).stage staged).1 = true ↔
      (after calls).pending[staged.spaceId]? = none ∧
        ∀ cid, staged.sourceCid = some cid → ¬ Declined calls staged.spaceId cid := by
  rw [stage_eq_true_iff, and_comm, silenced]
  refine and_congr_right fun _ => ?_
  cases hcid : staged.sourceCid with
  | none => simp
  | some cid => simp [(ledger_after calls).declined]

theorem Declined.exists_staged {space : SpaceId} {cid : ContentId} (h : Declined calls space cid) :
    ∃ inv, .stage inv ∈ calls ∧ inv.spaceId = space ∧ inv.sourceCid = some cid := by
  obtain ⟨pre, suf, inv, rfl, hinv, hcid⟩ := h
  obtain ⟨hspace, start, mid, rfl, -⟩ := ((ledger_after pre).pending space inv).mp hinv
  exact ⟨inv, by simp, hspace, hcid⟩

theorem mem_list_after (calls : List Call) (inv : StagedDmInvite) :
    inv ∈ (after calls).list ↔ Holds calls inv := by
  simp only [list, List.mem_map, mem_toList_iff, (ledger_after calls).pending,
    Prod.exists]
  refine ⟨?_, fun h => ⟨inv.spaceId, inv, ⟨rfl, h⟩, rfl⟩⟩
  rintro ⟨space, inv, ⟨-, h⟩, rfl⟩
  exact h

theorem nodup_list_after (calls : List Call) :
    ((after calls).list.map StagedDmInvite.spaceId).Nodup := by
  have hkeys : (after calls).list.map StagedDmInvite.spaceId =
      (after calls).pending.toList.map Prod.fst := by
    rw [list, List.map_map]
    refine List.map_congr_left fun p hp => ?_
    exact (((ledger_after calls).pending p.1 p.2).mp (mem_toList_iff.mp hp)).1
  rw [hkeys]
  exact nodup_keys_toList _

/-- Declines silence the message of the invite they return; other messages prompt when their
space is free. A space has one invite at most, as it was first staged. -/
theorem decline_silences :
    (∀ (pre mid : List Call) (space : SpaceId) (cid : ContentId) (inv staged : StagedDmInvite),
      ((after pre).decline space).1 = some inv → inv.sourceCid = some cid →
      staged.spaceId = space → staged.sourceCid = some cid →
      ((after (pre ++ .decline space :: mid)).stage staged).1 = false) ∧
    (∀ (calls : List Call) (staged : StagedDmInvite),
      (after calls).pending[staged.spaceId]? = none →
      (∀ cid, staged.sourceCid = some cid → ¬ Declined calls staged.spaceId cid) →
      ((after calls).stage staged).1 = true) ∧
    (∀ (calls : List Call) (staged : StagedDmInvite) (cid : ContentId),
      (after calls).pending[staged.spaceId]? = none → staged.sourceCid = some cid →
      (∀ earlier, .stage earlier ∈ calls → earlier.spaceId = staged.spaceId →
        earlier.sourceCid ≠ some cid) →
      ((after calls).stage staged).1 = true) ∧
    ∀ calls : List Call, ((after calls).list.map StagedDmInvite.spaceId).Nodup ∧
      ∀ inv, inv ∈ (after calls).list ↔ Holds calls inv := by
  refine ⟨?_, ?_, ?_, fun calls => ⟨nodup_list_after calls, mem_list_after calls⟩⟩
  · intro pre mid space cid inv staged hinv hcid hspace hstaged
    have hdeclined : Declined (pre ++ .decline space :: mid) space cid :=
      ⟨pre, mid, inv, rfl, hinv, hcid⟩
    rw [Bool.eq_false_iff, ne_eq, stage_after_iff, hspace, not_and]
    exact fun _ hsilent => hsilent cid hstaged hdeclined
  · intro calls staged hfree hsilent
    exact (stage_after_iff calls staged).mpr ⟨hfree, hsilent⟩
  · intro calls staged cid hfree hstaged hnew
    refine (stage_after_iff calls staged).mpr ⟨hfree, fun cid' hcid' hdeclined => ?_⟩
    obtain ⟨earlier, hmem, hspace, hcid⟩ := hdeclined.exists_staged
    rw [hstaged, Option.some.injEq] at hcid'
    exact hnew earlier hmem hspace (hcid' ▸ hcid)

/-- An invite came with message 7 and was declined; the next sweep brings it again. -/
theorem decline_silences_redelivery :
    ((after [.stage ⟨⟨1⟩, 100, false, some 7⟩, .decline 1, .stage ⟨⟨2⟩, 200, true, some 9⟩]).stage
        ⟨⟨1⟩, 300, false, some 7⟩).1 = false ∧
      ((after [.stage ⟨⟨1⟩, 100, false, some 7⟩, .decline 1]).stage
        ⟨⟨1⟩, 300, false, some 8⟩).1 = true := by
  obtain ⟨hsilent, -, hfresh, -⟩ := decline_silences
  refine ⟨hsilent [.stage ⟨⟨1⟩, 100, false, some 7⟩] [.stage ⟨⟨2⟩, 200, true, some 9⟩] 1 7
    ⟨⟨1⟩, 100, false, some 7⟩ ⟨⟨1⟩, 300, false, some 7⟩ (by decide) rfl rfl rfl, ?_⟩
  refine hfresh _ ⟨⟨1⟩, 300, false, some 8⟩ 8 (by decide) rfl ?_
  simp

/-- The message refused while another is pending prompts again after the decline. -/
theorem refused_message_prompts :
    ¬ ∀ (pre mid : List Call) (space : SpaceId) (cid : ContentId)
        (inv earlier staged : StagedDmInvite),
      (∀ s, .stage s ∈ pre ++ mid → s.sourceCid ≠ none) →
      ((after pre).decline space).1 = some inv → .stage earlier ∈ pre →
      earlier.spaceId = space → earlier.sourceCid = some cid →
      staged.spaceId = space → staged.sourceCid = some cid →
      ((after (pre ++ .decline space :: mid)).stage staged).1 = false := by
  intro h
  have hfalse := h [.stage ⟨⟨1⟩, 100, false, some 7⟩, .stage ⟨⟨1⟩, 200, false, some 8⟩] [] 1 8
    ⟨⟨1⟩, 100, false, some 7⟩ ⟨⟨1⟩, 200, false, some 8⟩ ⟨⟨1⟩, 300, false, some 8⟩
    (by simp) (by decide) (by simp) rfl rfl rfl rfl
  revert hfalse
  decide

end PendingDmInvites

end Harmony.Transport
