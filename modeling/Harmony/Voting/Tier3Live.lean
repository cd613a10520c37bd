import Harmony.Lib.StableSort
import Harmony.Voting.Drops
import Harmony.Voting.Tier3Deliberation
import Harmony.Voting.Tier3Drafting

/-! The live state of a Tier-3 poll against the fold of its recorded events. -/

namespace Harmony.Voting.Tier3PollState

open Harmony.Lib
open Harmony.Membership (OwnerAddr SpaceId Digest Hlc)

variable {cx : Codec} {cv : Curve} {r s x y : Tier3PollState} {e f : SignedVotingEvent}
  {A B events : List SignedVotingEvent}

/-! ### Same states conflict in the same way -/

theorem SameParts.firstWith (h : SameParts x y) (hash : Digest) :
    x.firstWith hash = y.firstWith hash := by
  rw [Tier3PollState.firstWith, Tier3PollState.firstWith, ← List.head?_filter, ← List.head?_filter,
    h.candidates]

theorem SameParts.counted (h : SameParts x y) : x.counted cx f = y.counted cx f := by
  simp only [Tier3PollState.counted, h.declines.mem_iff, h.statements, h.votes, h.firstWith,
    h.ratificationBallots.mem_iff]

theorem SameParts.capReached (h : SameParts x y) : x.capReached e = y.capReached e := by
  simp only [Tier3PollState.capReached, h.declinesPerActor, h.statementsPerAuthor,
    h.candidatesPerActor, h.ballotsPerActor]

theorem SameParts.lifts (h : SameParts x y) : x.lifts cx e = y.lifts cx e := by
  simp only [Tier3PollState.lifts, h.firstWith, h.meta]

theorem SameParts.ballotSize (h : SameParts x y) : x.ballotSize cx = y.ballotSize cx := by
  rw [Tier3PollState.ballotSize, Tier3PollState.ballotSize, h.ordering]

theorem Same.eligible (h : Same x y) (hv : SameVerdict cx cv x y e) :
    x.eligible cx cv e = y.eligible cx cv e := by
  have hform : x.wellFormedBallot cx cv e = y.wellFormedBallot cx cv e :=
    wellFormedBallot_congr h.admits h.meta hv fun _ => h.ballotSize
  simp only [Tier3PollState.eligible, h.mayDeliberate, (h.writes h.admits hv).vote, hform]

theorem Same.select (h : Same x y) (selection : Option SortitionResult) :
    Same { x with sortitionResult := selection } { y with sortitionResult := selection } :=
  ⟨{ h.toSameParts with sortitionResult := rfl }, h.lastReceivedHlc, h.maxApplied⟩

theorem Same.outranks (h : Same x y) (hv : SameVerdict cx cv x y e) :
    x.outranks cx cv events e f = y.outranks cx cv events e f := by
  have hselect := (h.select (selectionBefore cx events e)).eligible hv
  rw [Tier3PollState.outranks, Tier3PollState.outranks, hselect]

theorem Same.conflicts (h : Same x y) (hv : SameVerdict cx cv x y e) :
    x.conflicts cx cv events e f = y.conflicts cx cv events e f := by
  simp only [Tier3PollState.conflicts, h.outranks hv, h.counted, h.capReached, h.lifts,
    h.mayDeliberate, h.eligible hv, h.meta]

/-! ### An event in its place -/

theorem outcome_of_dispatch {s' : Tier3PollState} (hg : s.guard e = none)
    (hd : s.dispatch cx cv e = .ok (s', true)) : (s.applyEvent cx cv e).2 = .ok .applied := by
  simp [applyEvent, hg, hd]

theorem applied_of_selection (ha : s.admits cx e = true) (hk : e.kind = .sortitionSelection) :
    (s.applyEvent cx cv e).2 = .ok .applied := by
  obtain ⟨hg, hd⟩ := admits_eq_true.mp ha
  simp only [decodes, hk, isOk_iff] at hd
  obtain ⟨payload, hp⟩ := hd
  have hh : s.dispatch cx cv e = .ok ({ s with
      sortitionResult := some ⟨payload.primary, payload.backup⟩ }, true) := by
    simp [dispatch, hk, applySortitionSelection, hp, decode]
  exact outcome_of_dispatch hg hh

theorem applied_of_statement (ha : s.admits cx e = true) (hk : e.kind = .deliberationStatement)
    (hw : (s.statementOf cx e).isSome = true) : (s.applyEvent cx cv e).2 = .ok .applied := by
  obtain ⟨heligible, hcap⟩ := (Arrival.statementOf_isSome_iff cv ha hk).mp hw
  rw [Arrival.eligible_statement hk, Bool.and_eq_true] at heligible
  obtain ⟨hmay, htext⟩ := heligible
  obtain ⟨hg, hd⟩ := admits_eq_true.mp ha
  simp only [decodes, hk, isOk_iff] at hd
  obtain ⟨payload, hp⟩ := hd
  simp only [hp, Except.toOption, Option.any_some] at htext
  have hh : s.dispatch cx cv e = .ok ({ s with
      deliberation := insertStatement s.deliberation (sha256OfSigningBytes cx e)
        ⟨sha256OfSigningBytes cx e, e.actor, payload.text, e.hlc⟩ }, true) := by
    simp [dispatch, hk, applyDeliberationStatement, hp, decode, hmay, htext, not_le.mpr hcap]
  exact outcome_of_dispatch hg hh

/-- What the drop of an event says about its writes. -/
structure Dropped (cx : Codec) (cv : Curve) (s : Tier3PollState) (e : SignedVotingEvent) : Prop where
  selection : e.kind ≠ .sortitionSelection
  decline : s.declineOf cx e = none
  statement : s.statementOf cx e = none
  votes : (s.applyEvent cx cv e).1.deliberation.votes = s.deliberation.votes

theorem finish_of_dropped (ha : s.admits cx e = true)
    (h : (s.applyEvent cx cv e).2 = .ok .dropped) :
    (s.applyEvent cx cv e).1 = s.finish e false := by
  have hg : s.guard e = none := (admits_eq_true.mp ha).1
  rw [applyEvent, hg] at h ⊢
  cases hd : s.dispatch cx cv e with
  | error err => simp [hd] at h
  | ok handled =>
    obtain ⟨s', advance⟩ := handled
    cases advance with
    | true => simp [hd] at h
    | false => rw [dropsKeep_dispatch s' hd]

theorem dropped_of_outcome (ha : s.admits cx e = true)
    (h : (s.applyEvent cx cv e).2 = .ok .dropped) : Dropped cx cv s e := by
  have hframe : (s.applyEvent cx cv e).1 = s.finish e false := finish_of_dropped ha h
  have happlied : (s.applyEvent cx cv e).2 ≠ .ok .applied := by simp [h]
  refine ⟨fun hk => happlied (applied_of_selection ha hk), ?_, ?_, by rw [hframe]; rfl⟩
  · have hdeclines := (stepped cx cv s e).declines
    rw [hframe] at hdeclines
    simpa [finish] using hdeclines
  · by_contra hsome
    have hk : e.kind = .deliberationStatement := by
      by_contra hne
      exact hsome (statementOf_of_ne hne)
    exact happlied (applied_of_statement ha hk (Option.isSome_iff_ne_none.mpr hsome))

theorem Dropped.same (h : Dropped cx cv x e) (hxy : Same x y) (hv : SameVerdict cx cv x y e) :
    Dropped cx cv y e where
  selection := h.selection
  decline := by rw [← (hxy.writes hxy.admits hv).decline, h.decline]
  statement := by rw [← (hxy.writes hxy.admits hv).statement, h.statement]
  votes := by rw [← (hxy.applyEvent hv).votes, h.votes, hxy.votes]

/-- An event without a conflict leaves the poll as if it had arrived in its place, unless it
would start a rebuild. -/
theorem Arrival.same (h : Arrival cx cv r A B e)
    (hevents : sortBy (canonicalKey cx) events = A ++ B)
    (hpath : (∀ f ∈ B, Tier3PollState.decodes cx f = false) ∨ VotingLog.triggerKind e.kind = false ∨
      Dropped cx cv (r.replay cx cv (A ++ B)) e)
    (hc : ∀ f ∈ B, (r.replay cx cv (A ++ B)).conflicts cx cv events e f = false) :
    Same (r.replay cx cv (A ++ e :: B)) ((r.replay cx cv (A ++ B)).applyEvent cx cv e).1 := by
  rcases hpath with hB | hpath
  · have hfirst : r.replay cx cv (A ++ B) = r.replay cx cv A := by
      rw [replay_append, replay_of_undecoded hB]
    rw [hfirst, replay_append]
    change Same (((r.replay cx cv A).applyEvent cx cv e).1.replay cx cv B) _
    rw [replay_of_undecoded hB]
  · have hd : Tier3PollState.decodes cx e = true := h.decodes
    have hdropped : VotingLog.triggerKind e.kind = true →
        Dropped cx cv (r.replay cx cv (A ++ B)) e := fun ht =>
      hpath.resolve_left (by simp [ht])
    cases hk : e.kind with
    | sortitionSelection => exact absurd hk (hdropped (by simp [VotingLog.triggerKind, hk])).selection
    | miniPublicDecline =>
      exact h.same_of_decline hk (hdropped (by simp [VotingLog.triggerKind, hk])).decline hc
    | deliberationStatement =>
      exact h.same_of_statement hk hevents
        (hdropped (by simp [VotingLog.triggerKind, hk])).statement hc
    | deliberationVote =>
      exact h.same_of_vote hk hevents (hdropped (by simp [VotingLog.triggerKind, hk])).votes hc
    | draftCandidate => exact h.same_of_candidate hk hc
    | draftApproval => exact h.same_of_approval hk hc
    | sortitionFailed => exact h.same_of_end (.inr hk) hc
    | ratificationBallot => exact h.same_of_ballot hk hc
    | pollResult => exact h.same_of_end (.inl hk) hc
    | tallyShare | pollClose =>
      have hquiet : ∀ {x : Tier3PollState}, x.admits cx e = true →
          SameParts (x.applyEvent cx cv e).1 x := fun ha =>
        sameParts_of_nothing ha (by simp [hk]) (by simp [hk]) (by simp [hk]) (by simp [hk])
          (by simp [hk]) (by simp [lateWrite, hk])
      exact h.same_of_quiet (hquiet h.admits_first) (hquiet h.admitted)
    | _ => simp [Tier3PollState.decodes, hk] at hd

/-! ### Folds of the same events -/

theorem Same.replay {l : List SignedVotingEvent} (h : Same x y) (hfree : CollisionFree cx l)
    (hv : ∀ f ∈ l, SameVerdict cx cv x y f) : Same (x.replay cx cv l) (y.replay cx cv l) := by
  induction l generalizing x y with
  | nil => exact h
  | cons f l ih =>
    refine ih (h.applyEvent (hv f (by simp))) hfree.tail fun g hg => ?_
    have hkept : ∀ s : Tier3PollState, SameVerdict cx cv (s.applyEvent cx cv f).1 s g := fun s =>
      sameVerdict_applyEvent (hfree f (by simp) g (by simp [hg]))
    exact (hkept x).trans ((hv g (by simp [hg])).trans (hkept y).symm)

/-- What a rebuild keeps of a state and reads. -/
structure SameRoot (x y : Tier3PollState) : Prop where
  «meta» : y.meta = x.meta
  committeeOracle : y.committeeOracle = x.committeeOracle
  voided : y.voided = x.voided

theorem SameRoot.trans {z : Tier3PollState} (h : SameRoot x y) (h' : SameRoot y z) :
    SameRoot x z :=
  ⟨h'.meta.trans h.meta, h'.committeeOracle.trans h.committeeOracle, h'.voided.trans h.voided⟩

theorem Outside.sameRoot (h : Outside x y) : SameRoot x y := ⟨h.meta, h.committeeOracle, h.voided⟩

theorem sameRoot_rebuild (x : Tier3PollState) (events : List SignedVotingEvent) :
    SameRoot x (x.rebuildFromEvents cx cv events) := by
  obtain ⟨hmeta, -, horacle, -, hvoided⟩ : Outside x.reset (x.rebuildFromEvents cx cv events) :=
    replay_outside _
  exact ⟨hmeta, horacle, hvoided⟩

theorem SameRoot.reset (h : SameRoot x y) : Same y.reset x.reset := by
  constructor
  case toSameParts =>
    constructor <;> simp [Tier3PollState.reset, newFromCreate, h.meta, h.committeeOracle, h.voided]
  all_goals exact fun _ => rfl

theorem SameRoot.rebuild (h : SameRoot x y) (hfree : CollisionFree cx events)
    (hv : ∀ f ∈ events, SameVerdict cx cv y x f) :
    Same (y.rebuildFromEvents cx cv events) (x.rebuildFromEvents cx cv events) :=
  h.reset.replay hfree.sortBy fun f hf => hv f (mem_sortBy.mp hf)

end Harmony.Voting.Tier3PollState

namespace Harmony.Voting

open Harmony.Lib
open Harmony.Membership (OwnerAddr SpaceId Digest Hlc)
open Tier3PollState (Same SameParts SameVerdict Arrival Dropped)

variable {cx : Codec} {cv : Curve} {p p' : PollState} {t3 t3' : Tier3PollState}
  {event : SignedVotingEvent}

/-- The live state of the poll is the fold of its recorded events, as far as events tell. -/
structure Settled (cx : Codec) (cv : Curve) (p : PollState) (t3 : Tier3PollState) : Prop where
  state : p.tierState = .tier3 t3
  size : 20 ≤ t3.meta.config.sortitionSize
  same : Same t3 (t3.rebuildFromEvents cx cv p.events)

theorem admits_of_ok {outcome : ApplyOutcome}
    (h : (t3.applyEvent cx cv event).2 = .ok outcome) : t3.admits cx event = true := by
  rw [Tier3PollState.applyEvent] at h
  refine Tier3PollState.admits_eq_true.mpr ?_
  cases hg : t3.guard event with
  | some err => simp [hg] at h
  | none =>
    rw [hg] at h
    cases hd : Tier3PollState.decodes cx event with
    | true => exact ⟨rfl, rfl⟩
    | false =>
      obtain ⟨err, herr⟩ : ∃ err, t3.dispatch cx cv event = .error err :=
        Tier3PollState.dispatch_of_not_decodes hd
      simp [herr] at h

section Split

variable (cx) (events : List SignedVotingEvent) (event : SignedVotingEvent)

def upTo : List SignedVotingEvent :=
  (sortBy (canonicalKey cx) events).filter fun g => canonicalKey cx g ≤ canonicalKey cx event

def behind : List SignedVotingEvent :=
  (sortBy (canonicalKey cx) events).filter fun g => canonicalKey cx event < canonicalKey cx g

theorem upTo_append_behind : upTo cx events event ++ behind cx events event =
    sortBy (canonicalKey cx) events := filter_append_filter (sortBy_sorted events) event

theorem sortBy_arrived : sortBy (canonicalKey cx) (events ++ [event]) =
    upTo cx events event ++ event :: behind cx events event := sortBy_concat _ _ _

variable {cx events event}

theorem mem_behind {f : SignedVotingEvent} : f ∈ behind cx events event ↔
    f ∈ events ∧ canonicalKey cx event < canonicalKey cx f := by
  simp [behind]

end Split

theorem Settled.arrival (h : Settled cx cv p t3) (hfree : CollisionFree cx (p.events ++ [event]))
    (ha : t3.admits cx event = true) :
    Arrival cx cv t3.reset (upTo cx p.events event) (behind cx p.events event) event where
  lanes := rfl
  unselected := rfl
  silent := rfl
  sorted := by
    rw [upTo_append_behind]
    exact sortBy_sorted p.events
  le _ hg := by simpa using (List.mem_filter.mp hg).2
  lt _ hg := (mem_behind.mp hg).2
  free := by
    rw [← sortBy_arrived]
    exact hfree.sortBy
  admitted := by
    rw [upTo_append_behind]
    exact h.same.admits.symm.trans ha
  threshold := by
    have hsize : 20 ≤ t3.meta.config.sortitionSize := h.size
    change 2 ≤ (t3.meta.config.sortitionSize + 1) / 2
    omega

/-- The highest key received is at least that of every recorded event that decodes. -/
theorem Settled.key_le_maxApplied (h : Settled cx cv p t3)
    (hfree : CollisionFree cx (p.events ++ [event])) (ha : t3.admits cx event = true)
    {f : SignedVotingEvent} (hf : f ∈ p.events) (hd : Tier3PollState.decodes cx f = true) :
    ∃ m, t3.maxApplied = some m ∧ f.key ≤ m := by
  have harrival := h.arrival hfree ha
  obtain ⟨pre, post, hl⟩ : ∃ pre post, sortBy (canonicalKey cx) p.events = pre ++ f :: post :=
    List.append_of_mem (mem_sortBy.mpr hf)
  have hadmits : (t3.reset.replay cx cv pre).admits cx f = true :=
    harrival.admits_at ((upTo_append_behind cx p.events event).trans hl) hd
  have hstep : ((t3.reset.replay cx cv pre).applyEvent cx cv f).1.maxApplied =
      some ((t3.reset.replay cx cv pre).maxApplied.elim f.key (max f.key)) := by
    rw [(Tier3PollState.stepped cx cv _ f).maxApplied, if_pos hadmits]
  obtain ⟨m, hm, hle⟩ : ∃ m, (((t3.reset.replay cx cv pre).applyEvent cx cv f).1.replay cx cv
      post).maxApplied = some m ∧ _ ≤ m := Tier3PollState.replay_maxApplied hstep
  refine ⟨m, ?_, le_trans ?_ hle⟩
  · have hopen : ¬t3.Terminal := (Tier3PollState.admits_eq_true_iff.mp ha).1
    rw [h.same.maxApplied hopen, Tier3PollState.rebuildFromEvents, hl, Tier3PollState.replay_append]
    exact hm
  · cases (t3.reset.replay cx cv pre).maxApplied with
    | none => exact le_rfl
    | some old => exact le_max_left _ _

/-- An event that is let in and starts no rebuild is behind all others, of a kind that never
starts one, or dropped. -/
theorem Settled.no_rebuild (h : Settled cx cv p t3)
    (hfree : CollisionFree cx (p.events ++ [event])) {outcome : ApplyOutcome}
    (hok : (t3.applyEvent cx cv event).2 = .ok outcome)
    (hkeep : ¬(t3.maxApplied.any (event.key ≤ ·) = true ∧ outcome = .applied ∧
      VotingLog.triggerKind event.kind = true)) :
    (∀ f ∈ behind cx p.events event, Tier3PollState.decodes cx f = false) ∨
      VotingLog.triggerKind event.kind = false ∨ Dropped cx cv t3 event := by
  by_contra hnot
  push Not at hnot
  obtain ⟨⟨f, hf, hd⟩, htrigger, hdropped⟩ := hnot
  have ha : t3.admits cx event = true := admits_of_ok hok
  obtain ⟨hmem, hlt⟩ := mem_behind.mp hf
  obtain ⟨m, hm, hle⟩ := h.key_le_maxApplied hfree ha hmem (Bool.eq_true_of_not_eq_false hd)
  have hany : t3.maxApplied.any (event.key ≤ ·) = true := by
    rw [hm, Option.any_some, decide_eq_true_eq]
    exact (key_le_of_canonicalKey_le hlt.le).trans hle
  cases outcome with
  | dropped => exact hdropped (Tier3PollState.dropped_of_outcome ha hok)
  | applied => exact hkeep ⟨hany, rfl, Bool.eq_true_of_not_eq_false htrigger⟩

/-- Settled polls stay settled under events that conflict with none of the recorded ones. -/
theorem Settled.step (h : Settled cx cv p t3) (hfree : CollisionFree cx (p.events ++ [event]))
    (happly : VotingLog.applyTier3To cx cv p t3 event = (p', .ok ()))
    (hc : t3.admits cx event = true → ∀ f ∈ p.events, canonicalKey cx event < canonicalKey cx f →
      t3.conflicts cx cv p.events event f = false) : ∃ t3', Settled cx cv p' t3' := by
  obtain ⟨t3', hstate, heffect⟩ := VotingLog.applyTier3To_effect happly
  have hevents : p'.events = p.events ++ [event] := (VotingLog.applyTier3To_of_ok happly).1
  have hout : Tier3PollState.Outside t3 (t3.applyEvent cx cv event).1 :=
    Tier3PollState.applyEvent_outside cx cv t3 event
  cases heffect with
  | rebuilt =>
    refine ⟨_, hstate, ?_, ?_⟩
    · have hmeta : ((t3.applyEvent cx cv event).1.rebuildFromEvents cx cv
          (p.events ++ [event])).meta = (t3.applyEvent cx cv event).1.meta :=
        (Tier3PollState.replay_outside _).meta
      rw [hmeta, hout.meta]
      exact h.size
    · rw [hevents, Tier3PollState.rebuildFromEvents_twice hfree]
      exact ⟨by constructor <;> first | rfl | exact fun _ => rfl, fun _ => rfl, fun _ => rfl⟩
  | applied outcome hok hkeep =>
    refine ⟨_, hstate, hout.meta ▸ h.size, ?_⟩
    rw [hevents]
    have ha : t3.admits cx event = true := admits_of_ok hok
    have hverdict : ∀ f ∈ p.events ++ [event],
        SameVerdict cx cv (t3.applyEvent cx cv event).1 t3 f := fun f hf =>
      Tier3PollState.sameVerdict_applyEvent (hfree event (by simp) f hf)
    have hfolded : SameVerdict cx cv t3 (t3.rebuildFromEvents cx cv p.events) event :=
      (Tier3PollState.sameVerdict_replay (s := t3.reset) hfree
        (fun g hg => List.mem_append_left _ (mem_sortBy.mp hg)) (by simp)).symm
    have hinplace : Same (t3.reset.replay cx cv (upTo cx p.events event ++
        event :: behind cx p.events event))
        ((t3.reset.replay cx cv (upTo cx p.events event ++
          behind cx p.events event)).applyEvent cx cv event).1 := by
      refine (h.arrival hfree ha).same (upTo_append_behind cx p.events event).symm ?_ fun f hf => ?_
      · rw [upTo_append_behind]
        exact (h.no_rebuild hfree hok hkeep).imp_right (.imp_right fun hd => hd.same h.same hfolded)
      · rw [upTo_append_behind]
        obtain ⟨hmem, hlt⟩ := mem_behind.mp hf
        rw [← hc ha f hmem hlt]
        exact (h.same.conflicts hfolded).symm
    rw [upTo_append_behind, ← sortBy_arrived] at hinplace
    exact (h.same.applyEvent hfolded).trans (hinplace.symm.trans (hout.sameRoot.rebuild hfree hverdict).symm)

end Harmony.Voting
