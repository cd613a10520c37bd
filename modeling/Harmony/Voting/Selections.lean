import Harmony.Voting.PollRuns
import Harmony.Voting.Warrants

/-! The mini-public a node seats. Whichever way the selection came in, it is what a beacon of
the poll's own seed and epoch draws from the electorate the PollCreate froze. -/

namespace Harmony.Voting

open Harmony.Lib
open Harmony.Membership (OwnerAddr SpaceId EventId Digest Bytes Hlc)
open Tier3PollState (stepped)
open VotingLogEngine (run run_induct run_sameFrame recorded_tier tier3Kind)

variable {cx : Codec} {cv : Curve} {rng : Digest → ℕ → ℕ → ℕ}
  {known : Digest → ℕ → Digest → Prop} {s t : Tier3PollState} {ev : SignedVotingEvent}

/-! ### Draws -/

theorem drawn_of_select {draw : ℕ → ℕ} {electorate : List OwnerAddr} {primarySize backupSize : ℕ}
    {result : SortitionResult} (hnd : electorate.Nodup)
    (h : fisherYatesSelect draw electorate primarySize backupSize = some result) :
    Drawn electorate primarySize backupSize result := by
  have hrun := h
  unfold fisherYatesSelect at hrun
  split_ifs at hrun with hsize
  obtain ⟨pool, hshuffle, -⟩ := Option.map_eq_some_iff.mp hrun
  have hd : Draws draw electorate.length (primarySize + backupSize) := by
    rw [← (canonicalElectorateOrder_perm electorate).length_eq]
    exact draws_of_shuffle hshuffle
  obtain ⟨result', hresult, hdrawn⟩ := exists_drawn hnd (not_lt.mp hsize) hd
  obtain rfl := Option.some.inj (h.symm.trans hresult)
  exact hdrawn

/-- A known beacon of the poll draws these seats. -/
def DrawnBy (cx : Codec) (rng : Digest → ℕ → ℕ → ℕ) (known : Digest → ℕ → Digest → Prop)
    (s : Tier3PollState) (sr : SortitionResult) : Prop :=
  ∃ vrfOutput, known (s.beaconSeed cx) s.meta.communityEpoch vrfOutput ∧
    s.drawSeats rng vrfOutput = some sr

theorem SameFrame.drawnBy (h : SameFrame s t) {sr : SortitionResult} :
    DrawnBy cx rng known s sr ↔ DrawnBy cx rng known t sr := by
  simp only [DrawnBy, Tier3PollState.beaconSeed, Tier3PollState.drawSeats, h.meta, h.electorate]

/-- The seats a poll has are drawn by a beacon, from an electorate without repetitions. -/
structure SeatedBy (cx : Codec) (rng : Digest → ℕ → ℕ → ℕ) (known : Digest → ℕ → Digest → Prop)
    (s : Tier3PollState) : Prop where
  nodup : s.eligibleElectorateSnapshot.Nodup
  drawn : ∀ sr, s.sortitionResult = some sr → DrawnBy cx rng known s sr

/-- An event that a selection of the poll can be taken from. -/
def Selects (cx : Codec) (rng : Digest → ℕ → ℕ → ℕ) (known : Digest → ℕ → Digest → Prop)
    (s : Tier3PollState) (ev : SignedVotingEvent) : Prop :=
  ∀ payload, cx.sortitionSelection ev.payload = .ok payload →
    DrawnBy cx rng known s ⟨payload.primary, payload.backup⟩

theorem SeatedBy.applyEvent (h : SeatedBy cx rng known s)
    (hselects : ev.kind = .sortitionSelection → Selects cx rng known s ev) :
    SeatedBy cx rng known (s.applyEvent cx cv ev).1 := by
  have hframe : SameFrame s (s.applyEvent cx cv ev).1 := applyEvent_sameFrame cx cv s ev
  refine ⟨by rw [hframe.electorate]; exact h.nodup, fun sr hsr => ?_⟩
  rw [← hframe.drawnBy]
  rw [(stepped cx cv s ev).sortitionResult] at hsr
  cases hsel : s.selectionOf cx ev with
  | none =>
    rw [hsel, Option.none_or] at hsr
    exact h.drawn sr hsr
  | some selection =>
    rw [hsel, Option.some_or] at hsr
    obtain rfl := Option.some.inj hsr
    unfold Tier3PollState.selectionOf at hsel
    split_ifs at hsel with hadmitted
    obtain ⟨payload, hpayload, rfl⟩ := Option.map_eq_some_iff.mp hsel
    refine hselects hadmitted.2 payload ?_
    cases hdecode : cx.sortitionSelection ev.payload with
    | error reason => simp [hdecode, Except.toOption] at hpayload
    | ok decoded =>
      rw [hdecode] at hpayload
      rw [Option.some.inj hpayload]

/-! ### Runs -/

section Runs

variable {P : VotingLogEngineParams} {pid : PollId} {p : PollState} {t3 : Tier3PollState}

theorem recorded_selects {steps : List EngineStep} (hsound : SoundRun P known steps)
    (hp : (run P steps).node.log.polls[pid]? = some p) (hstate : p.tierState = .tier3 t3)
    {e : SignedVotingEvent} (he : e ∈ p.events) (hk : e.kind = .sortitionSelection) :
    Selects P.cx P.rng known t3 e := by
  intro payload hpayload
  have htier : e.tier = .sortition := recorded_tier steps hp he (by simp [hk, tier3Kind])
  obtain ⟨pre, post, t, rfl, hpoll, hwarrant⟩ :=
    ((run_vetted steps hsound fun _ _ => trivial).recorded pid p hp e he htier
      (gated_of_ne_close (by simp [hk, gatedKind]) (by simp [hk]))).of_run
  obtain ⟨q, hq, hqstate⟩ := tier3Of_eq_some hpoll
  obtain ⟨payload', vrfOutput, hpayload', hknown, hdraw⟩ := hwarrant.drawn hk
  obtain rfl := Except.ok.inj (hpayload.symm.trans hpayload')
  exact (run_sameFrame pre post hq hqstate hp hstate).drawnBy.mp ⟨vrfOutput, hknown, hdraw⟩

theorem run_seatedBy (steps : List EngineStep) (hsound : SoundRun P known steps)
    (hp : (run P steps).node.log.polls[pid]? = some p) (hstate : p.tierState = .tier3 t3) :
    SeatedBy P.cx P.rng known t3 := by
  refine run_induct (P := P) (Q := fun steps _ _ t3 => SoundRun P known steps →
    SeatedBy P.cx P.rng known t3) ?_ steps pid p t3 hp hstate hsound
  intro steps s ih pid p' t3' hp' hstate' horigin hsound
  cases horigin with
  | created hs hnone hfresh =>
    refine ⟨hfresh.nodup, fun sr hsr => ?_⟩
    rw [hfresh.state] at hsr
    simp [Tier3PollState.newFromCreate] at hsr
  | kept hp hstate haudited hkept =>
    obtain ⟨voided, oracle, rfl⟩ := hkept.eq
    have hold := ih _ _ _ hp hstate hsound.of_append
    exact ⟨hold.nodup, hold.drawn⟩
  | @applied p t3 _ event hs hp hstate htier happly hevents heffect =>
    have hold := ih _ _ _ hp hstate hsound.of_append
    have hseated : SameFrame t3 t3' ∧ SeatedBy P.cx P.rng known t3' := by
      refine heffect.induct (Q := fun t => SameFrame t3 t ∧ SeatedBy P.cx P.rng known t)
        ⟨.refl t3, hold⟩ (fun t ht => ?_) fun e he t ht => ?_
      · exact ⟨ht.1.trans ⟨rfl, rfl⟩, ht.2.nodup, fun sr hsr => by
          simp [Tier3PollState.reset, Tier3PollState.newFromCreate] at hsr⟩
      · refine ⟨ht.1.trans (applyEvent_sameFrame P.cx P.cv t e), ht.2.applyEvent fun hk => ?_⟩
        intro payload hpayload
        have hselects := recorded_selects hsound hp' hstate' (hevents ▸ he) hk payload hpayload
        exact (ht.1.drawnBy.symm.trans heffect.sameFrame.drawnBy).mpr hselects
    exact hseated.2

end Runs

/-- A seated mini-public was drawn by a known beacon of the poll: as many distinct members of
its electorate as there are seats, and as many substitutes. -/
theorem mini_public_drawn (P : VotingLogEngineParams) (known : Digest → ℕ → Digest → Prop)
    (steps : List EngineStep) (hsound : SoundRun P known steps) {pid : PollId} {p : PollState}
    {t3 : Tier3PollState} {sr : SortitionResult}
    (hp : (run P steps).node.log.polls[pid]? = some p) (hstate : p.tierState = .tier3 t3)
    (hsr : t3.sortitionResult = some sr) :
    (∃ vrfOutput, known (t3.beaconSeed P.cx) t3.meta.communityEpoch vrfOutput ∧
        t3.drawSeats P.rng vrfOutput = some sr) ∧
      Drawn t3.eligibleElectorateSnapshot t3.meta.config.sortitionSize
        t3.meta.config.sortitionSize sr := by
  have hseated : SeatedBy P.cx P.rng known t3 := run_seatedBy steps hsound hp hstate
  obtain ⟨vrfOutput, hknown, hdraw⟩ := hseated.drawn sr hsr
  exact ⟨⟨vrfOutput, hknown, hdraw⟩, drawn_of_select hseated.nodup hdraw⟩

/-- Nodes that froze the same electorate seat the same mini-public. -/
theorem mini_public_agreement {P P' : VotingLogEngineParams} (hcx : P'.cx = P.cx)
    (hrng : P'.rng = P.rng) (known : Digest → ℕ → Digest → Prop)
    (hknown : ∀ seed epoch a b, known seed epoch a → known seed epoch b → a = b)
    {steps steps' : List EngineStep} (hsound : SoundRun P known steps)
    (hsound' : SoundRun P' known steps') {pid : PollId} {p p' : PollState} {x y : Tier3PollState}
    (hp : (run P steps).node.log.polls[pid]? = some p) (hx : p.tierState = .tier3 x)
    (hp' : (run P' steps').node.log.polls[pid]? = some p') (hy : p'.tierState = .tier3 y)
    (hmeta : y.meta = x.meta)
    (helectorate : y.eligibleElectorateSnapshot.Perm x.eligibleElectorateSnapshot)
    {sr sr' : SortitionResult} (hsr : x.sortitionResult = some sr)
    (hsr' : y.sortitionResult = some sr') : sr' = sr := by
  obtain ⟨a, ha, hdraw⟩ := (run_seatedBy steps hsound hp hx).drawn sr hsr
  obtain ⟨b, hb, hdraw'⟩ := (run_seatedBy steps' hsound' hp' hy).drawn sr' hsr'
  rw [Tier3PollState.beaconSeed, hmeta, hcx] at hb
  obtain rfl := hknown _ _ a b ha hb
  rw [Tier3PollState.drawSeats, hmeta, hrng, helectorate.length_eq,
    fisherYatesSelect_perm helectorate] at hdraw'
  exact Option.some.inj (hdraw'.symm.trans hdraw)

/-- The poll of the sample has its seats. -/
theorem secretSteps_seated : ∃ p t3, (run secretParams secretSteps).node.log.polls[secretPoll]? =
    some p ∧ p.tierState = .tier3 t3 ∧ t3.sortitionResult = some secretSeats := by
  have hseats : ((run secretParams secretSteps).node.log.tier3Of secretPoll).bind
      (·.sortitionResult) = some secretSeats := by decide +kernel
  obtain ⟨t3, hpoll, hseats⟩ := Option.bind_eq_some_iff.mp hseats
  obtain ⟨p, hp, hstate⟩ := tier3Of_eq_some hpoll
  exact ⟨p, t3, hp, hstate, hseats⟩

theorem mini_public_drawn_sample : ∃ t3 : Tier3PollState, t3.sortitionResult = some secretSeats ∧
    t3.drawSeats secretParams.rng 7 = some secretSeats ∧
    Drawn t3.eligibleElectorateSnapshot t3.meta.config.sortitionSize
      t3.meta.config.sortitionSize secretSeats := by
  obtain ⟨p, t3, hp, hstate, hsr⟩ := secretSteps_seated
  obtain ⟨⟨vrfOutput, rfl, hdraw⟩, hdrawn⟩ :=
    mini_public_drawn secretParams _ secretSteps secretSteps_sound hp hstate hsr
  exact ⟨t3, hsr, hdraw, hdrawn⟩

/-- Two nodes, the second of which has heard of a reset of an older committee. -/
theorem mini_public_agreement_sample : ∃ sr, ((run secretParams
    (secretSteps ++ [.reset 0 9])).node.log.tier3Of secretPoll).bind (·.sortitionResult) = some sr ∧
      sr = secretSeats := by
  obtain ⟨p, x, hp, hx, hsr⟩ := secretSteps_seated
  have hsound : SoundRun secretParams (fun _ _ vrfOutput => vrfOutput = 7)
      (secretSteps ++ [.reset 0 9]) := by
    intro ns hns
    rw [trace_snoc, List.mem_append, List.mem_singleton] at hns
    rcases hns with hns | rfl
    · exact secretSteps_sound ns hns
    · trivial
  have hseats : ((run secretParams (secretSteps ++ [.reset 0 9])).node.log.tier3Of
      secretPoll).bind (·.sortitionResult) = some secretSeats := by decide +kernel
  obtain ⟨y, hpoll, hsr'⟩ := Option.bind_eq_some_iff.mp hseats
  obtain ⟨p', hp', hy⟩ := tier3Of_eq_some hpoll
  have hframe : SameFrame x y := run_sameFrame secretSteps [.reset 0 9] hp hx hp' hy
  refine ⟨secretSeats, hseats, ?_⟩
  exact mini_public_agreement rfl rfl _ (fun _ _ a b ha hb => ha.trans hb.symm) secretSteps_sound
    hsound hp hx hp' hy hframe.meta (by rw [hframe.electorate]) hsr hsr'

end Harmony.Voting
