import Harmony.Membership.Types
import Harmony.Transport.WindowRuns

/-! Admission of inbound zenoh connections from strangers. A slot belongs to a connection: a
peer that connects again hands its slot to the new connection, and a release frees a slot
only for the connection that owns it. New slots draw on one rate window. -/

namespace Harmony.Transport

open Harmony.Lib Std
open Harmony.Membership (Digest)
open KeyedSlidingWindow (Tracks admissions)

instance lawfulEqOrd_unit : LawfulEqOrd Unit := ⟨fun _ => rfl⟩

inductive StrangerVerdict where
  | admitted
  | shedOccupancy
  | shedRate
deriving DecidableEq

/-- `strangers` holds the `stable_id` of the connection that owns the slot of a peer. -/
structure ZenohInboundAdmission where
  cap : ℕ
  strangers : BTreeMap Digest ℕ := ∅
  rate : KeyedSlidingWindow Unit

namespace ZenohInboundAdmission

def withCaps (cap rateMax rateWindowMs : ℕ) : ZenohInboundAdmission :=
  { cap, rate := ⟨rateMax, rateWindowMs, ∅⟩ }

/-- A panic is `none`. -/
def tryAdmitStrangerAt (s : ZenohInboundAdmission) (sel : NthSelection (ℕ × Unit) Prod.fst)
    (peer : Digest) (connId nowMs : ℕ) : Option (StrangerVerdict × ZenohInboundAdmission) :=
  if peer ∈ s.strangers then
    some (.admitted, { s with strangers := s.strangers.insert peer connId })
  else if s.cap ≤ s.strangers.size then some (.shedOccupancy, s)
  else
    (s.rate.admitKey sel () nowMs).map fun p =>
      if p.1 then (.admitted, { s with strangers := s.strangers.insert peer connId, rate := p.2 })
      else (.shedRate, { s with rate := p.2 })

def release (s : ZenohInboundAdmission) (peer : Digest) (connId : ℕ) : ZenohInboundAdmission :=
  if s.strangers[peer]? = some connId then { s with strangers := s.strangers.erase peer } else s

/-! ### Interleavings -/

inductive Request where
  | tryAdmit (peer : Digest) (connId nowMs : ℕ) (selection : NthSelection (ℕ × Unit) Prod.fst)
  | release (peer : Digest) (connId : ℕ)

/-- A call that returned; `fresh` when the peer had no slot before. -/
inductive Event where
  | tried (peer : Digest) (connId nowMs : ℕ) (verdict : StrangerVerdict) (fresh : Bool)
  | released (peer : Digest) (connId : ℕ)
deriving DecidableEq

def step (s : ZenohInboundAdmission × List Event) :
    Request → Option (ZenohInboundAdmission × List Event)
  | .tryAdmit peer connId nowMs sel =>
    (s.1.tryAdmitStrangerAt sel peer connId nowMs).map fun p =>
      (p.2, .tried peer connId nowMs p.1 (decide (peer ∉ s.1.strangers)) :: s.2)
  | .release peer connId => some (s.1.release peer connId, .released peer connId :: s.2)

/-- The events come newest first. -/
def run (s : ZenohInboundAdmission) (requests : List Request) :
    Option (ZenohInboundAdmission × List Event) :=
  requests.foldlM step (s, [])

def Request.time : Request → Option ℕ
  | .tryAdmit _ _ nowMs _ => some nowMs
  | .release _ _ => none

def grants (log : List Event) : List ℕ :=
  log.filterMap fun
    | .tried _ _ nowMs .admitted true => some nowMs
    | _ => none

def Event.Admits (e : Event) (peer : Digest) (connId : ℕ) : Prop :=
  ∃ nowMs fresh, e = .tried peer connId nowMs .admitted fresh

/-- The connection is the latest of the peer to be admitted, and was not released since. -/
def Owns (log : List Event) (peer : Digest) (connId : ℕ) : Prop :=
  ∃ newer e older, log = newer ++ e :: older ∧ e.Admits peer connId ∧
    ∀ e' ∈ newer, (∀ c, ¬ e'.Admits peer c) ∧ e' ≠ .released peer connId

theorem owns_cons {e : Event} {log : List Event} {peer : Digest} {connId : ℕ} :
    Owns (e :: log) peer connId ↔ e.Admits peer connId ∨
      ((∀ c, ¬ e.Admits peer c) ∧ e ≠ .released peer connId) ∧ Owns log peer connId := by
  constructor
  · rintro ⟨newer, e', older, hlog, hadmits, hnewer⟩
    cases newer with
    | nil =>
      obtain ⟨rfl, rfl⟩ := List.cons.inj hlog
      exact .inl hadmits
    | cons e'' newer =>
      obtain ⟨rfl, rfl⟩ := List.cons.inj hlog
      exact .inr ⟨hnewer e (.head _), newer, e', older, rfl, hadmits,
        fun e' he' => hnewer e' (.tail _ he')⟩
  · rintro (hadmits | ⟨he, newer, e', older, rfl, hadmits, hnewer⟩)
    · exact ⟨[], e, log, rfl, hadmits, by simp⟩
    · refine ⟨e :: newer, e', older, rfl, hadmits, fun e'' he'' => ?_⟩
      rcases List.mem_cons.mp he'' with rfl | he''
      · exact he
      · exact hnewer e'' he''

/-- What a run of calls leaves at `now`. -/
structure Sound (s : ZenohInboundAdmission) (now : ℕ) (log : List Event) : Prop where
  bounded : s.strangers.size ≤ s.cap
  owns : ∀ peer connId, s.strangers[peer]? = some connId ↔ Owns log peer connId
  rate : ∃ rateLog, Tracks s.rate now rateLog ∧ admissions () rateLog = grants log

variable {s : ZenohInboundAdmission} {now : ℕ} {log : List Event}

theorem Sound.mono {later : ℕ} (h : Sound s now log) (hle : now ≤ later) : Sound s later log := by
  obtain ⟨rateLog, htracks, hgrants⟩ := h.rate
  exact ⟨h.bounded, h.owns, rateLog, htracks.mono hle, hgrants⟩

@[simp] theorem admits_tried {peer p : Digest} {connId c nowMs : ℕ} {verdict : StrangerVerdict}
    {fresh : Bool} : (Event.tried peer connId nowMs verdict fresh).Admits p c ↔
      verdict = .admitted ∧ peer = p ∧ connId = c := by
  simp only [Event.Admits, Event.tried.injEq]
  constructor
  · rintro ⟨_, _, rfl, rfl, -, rfl, -⟩
    exact ⟨rfl, rfl, rfl⟩
  · rintro ⟨rfl, rfl, rfl⟩
    exact ⟨nowMs, fresh, rfl, rfl, rfl, rfl, rfl⟩

@[simp] theorem not_admits_released {peer p : Digest} {connId c : ℕ} :
    ¬ (Event.released peer connId).Admits p c := by
  simp [Event.Admits]

theorem owns_released {peer p : Digest} {connId c : ℕ} :
    Owns (.released peer connId :: log) p c ↔ ¬ (peer = p ∧ connId = c) ∧ Owns log p c := by
  rw [owns_cons]
  simp

theorem owns_admitted {peer p : Digest} {connId c nowMs : ℕ} {fresh : Bool} :
    Owns (.tried peer connId nowMs .admitted fresh :: log) p c ↔
      (peer = p ∧ connId = c) ∨ peer ≠ p ∧ Owns log p c := by
  rw [owns_cons]
  simp

theorem owns_shed {peer p : Digest} {connId c nowMs : ℕ} {fresh : Bool}
    {verdict : StrangerVerdict} (hshed : verdict ≠ .admitted) :
    Owns (.tried peer connId nowMs verdict fresh :: log) p c ↔ Owns log p c := by
  rw [owns_cons]
  simp [hshed]

theorem Sound.release (h : Sound s now log) (peer : Digest) (connId : ℕ) :
    Sound (s.release peer connId) now (.released peer connId :: log) := by
  obtain ⟨rateLog, htracks, hgrants⟩ := h.rate
  rw [ZenohInboundAdmission.release]
  split_ifs with howner
  · refine ⟨ExtTreeMap.size_erase_le.trans h.bounded, fun p c => ?_, rateLog, htracks, hgrants⟩
    rw [BTreeMap.get_erase, owns_released, ← h.owns]
    split_ifs with hp
    · subst hp
      simp [howner]
    · simp [hp]
  · refine ⟨h.bounded, fun p c => ?_, rateLog, htracks, hgrants⟩
    rw [owns_released, ← h.owns]
    refine (and_iff_right_of_imp fun hc => ?_).symm
    rintro ⟨rfl, rfl⟩
    exact howner hc

theorem not_evicts_unit {limit window : ℕ} {e : KeyedSlidingWindow.Event Unit}
    {older : List (KeyedSlidingWindow.Event Unit)}
    (h : KeyedSlidingWindow.ExactAt limit window e older) : ¬ e.Evicts () := by
  intro hgone
  cases hverdict : e.admitted with
  | false =>
    obtain ⟨hbefore | ⟨-, hadmitted⟩, hafter⟩ := hgone
    · exact hafter ((h.keys hverdict ()).mpr hbefore)
    · rw [hverdict] at hadmitted
      cases hadmitted
  | true =>
    have hnow : e.nowMs ∈ KeyedSlidingWindow.everAdmitted () (e :: older) :=
      KeyedSlidingWindow.mem_everAdmitted.mpr ⟨e, .head _, rfl, hverdict, rfl⟩
    have hflood := h.flood hgone hnow (Nat.le_add_right _ _)
    have hone := Finset.card_le_one_of_subsingleton
      (KeyedSlidingWindow.liveKeys window e.nowMs (e :: older))
    have hcap : 1 < maxWindowKeys := by decide
    omega

theorem Sound.tryAdmit (h : Sound s now log) (sel : NthSelection (ℕ × Unit) Prod.fst)
    (peer : Digest) (connId : ℕ) :
    ∃ verdict s', s.tryAdmitStrangerAt sel peer connId now = some (verdict, s') ∧
      s'.cap = s.cap ∧ s'.rate.max = s.rate.max ∧ s'.rate.windowMs = s.rate.windowMs ∧
      Sound s' now (.tried peer connId now verdict (decide (peer ∉ s.strangers)) :: log) := by
  obtain ⟨rateLog, htracks, hgrants⟩ := h.rate
  have howns : ∀ fresh p c, (s.strangers.insert peer connId)[p]? = some c ↔
      Owns (.tried peer connId now .admitted fresh :: log) p c := by
    intro fresh p c
    rw [BTreeMap.get_insert, owns_admitted, ← h.owns]
    split_ifs with hp <;> simp [hp]
  rw [tryAdmitStrangerAt]
  split_ifs with hheld hfull
  · refine ⟨_, _, rfl, rfl, rfl, rfl, ?_, howns _, rateLog, htracks, ?_⟩
    · change ExtTreeMap.size (ExtTreeMap.insert _ _ _) ≤ _
      rw [ExtTreeMap.size_insert, if_pos (ExtTreeMap.mem_iff_contains.mp hheld)]
      exact h.bounded
    · simpa [grants, hheld] using hgrants
  · refine ⟨_, _, rfl, rfl, rfl, rfl, h.bounded, fun p c => ?_, rateLog, htracks, hgrants⟩
    rw [owns_shed (by simp), h.owns]
  · obtain ⟨e, hstep, -, ⟨hmax, hwindow⟩, htracks', hexact⟩ :=
      Tracks.step (r := ⟨(), now, sel⟩) htracks
    have hadmissions : admissions () (e :: rateLog) = e.recorded () ++ grants log := by
      rw [KeyedSlidingWindow.admissions_of_not_evicts (not_evicts_unit hexact), hgrants]
    obtain ⟨⟨recorded, w'⟩, hrun, heq⟩ := Option.map_eq_some_iff.mp hstep
    obtain ⟨rfl, -⟩ := List.cons.inj (Prod.mk.inj heq).2
    rw [hrun, Option.map_some]
    cases recorded with
    | true =>
      refine ⟨_, _, rfl, rfl, hmax, hwindow, ?_, howns _, _, htracks', ?_⟩
      · refine ExtTreeMap.size_insert_le.trans ?_
        exact Nat.lt_of_not_le hfull
      · rw [hadmissions]
        simp [grants, hheld, KeyedSlidingWindow.Event.recorded]
    | false =>
      refine ⟨_, _, rfl, rfl, hmax, hwindow, h.bounded, fun p c => ?_, _, htracks', ?_⟩
      · rw [owns_shed (by simp)]
        exact h.owns p c
      · rw [hadmissions]
        simp [grants, KeyedSlidingWindow.Event.recorded]

theorem run_snoc (s : ZenohInboundAdmission) (requests : List Request) (r : Request) :
    run s (requests ++ [r]) = (run s requests).bind fun s => step s r := by
  rw [run, List.foldlM_append]
  simp only [List.foldlM_cons, List.foldlM_nil, bind_pure]
  rfl

def Event.call : Event → Digest × ℕ × Option ℕ
  | .tried peer connId nowMs _ _ => (peer, connId, some nowMs)
  | .released peer connId => (peer, connId, none)

def Request.call : Request → Digest × ℕ × Option ℕ
  | .tryAdmit peer connId nowMs _ => (peer, connId, some nowMs)
  | .release peer connId => (peer, connId, none)

/-- What holds after a run, whatever time it is by then. -/
structure Ran (cap rateMax rateWindowMs : ℕ) (requests : List Request)
    (s : ZenohInboundAdmission) (log : List Event) : Prop where
  cap : s.cap = cap
  rateMax : s.rate.max = rateMax
  rateWindowMs : s.rate.windowMs = rateWindowMs
  sound : ∀ now, (∀ t ∈ requests.filterMap (·.time), t ≤ now) → Sound s now log
  calls : log.map (·.call) = (requests.map (·.call)).reverse

theorem exists_run (cap rateMax rateWindowMs : ℕ) {requests : List Request}
    (hclock : (requests.filterMap (·.time)).Pairwise (· ≤ ·)) :
    ∃ s log, run (withCaps cap rateMax rateWindowMs) requests = some (s, log) ∧
      Ran cap rateMax rateWindowMs requests s log := by
  induction requests using List.reverseRecOn with
  | nil =>
    refine ⟨_, [], rfl, rfl, rfl, rfl, fun now _ => ⟨by simp [withCaps], ?_, ?_⟩, rfl⟩
    · intro peer connId
      simp [withCaps, Owns]
    · exact ⟨[], Tracks.new _ _ _, rfl⟩
  | append_singleton requests r ih =>
    rw [List.filterMap_append, List.pairwise_append] at hclock
    obtain ⟨s, log, hrun, hran⟩ := ih hclock.1
    have hpast : ∀ now, (∀ t ∈ (requests ++ [r]).filterMap (·.time), t ≤ now) →
        ∀ t ∈ requests.filterMap (·.time), t ≤ now := by
      intro now h t ht
      exact h t (by rw [List.filterMap_append]; exact List.mem_append_left _ ht)
    cases r with
    | tryAdmit peer connId nowMs sel =>
      have hbefore : ∀ t ∈ requests.filterMap (·.time), t ≤ nowMs :=
        fun t ht => hclock.2.2 t ht nowMs (by simp [Request.time])
      obtain ⟨verdict, s', htry, hcap, hmax, hwindow, hsound⟩ :=
        (hran.sound nowMs hbefore).tryAdmit sel peer connId
      refine ⟨s', _, ?_, hcap.trans hran.cap, hmax.trans hran.rateMax,
        hwindow.trans hran.rateWindowMs, fun now h => hsound.mono ?_, ?_⟩
      · rw [run_snoc, hrun, Option.bind_some, step, htry]
        rfl
      · exact h nowMs (by simp [Request.time])
      · rw [List.map_cons, hran.calls, List.map_append, List.reverse_append]
        rfl
    | release peer connId =>
      have hfields : (s.release peer connId).cap = s.cap ∧
          (s.release peer connId).rate = s.rate := by
        rw [release]
        split_ifs <;> exact ⟨rfl, rfl⟩
      refine ⟨s.release peer connId, _, ?_, hfields.1.trans hran.cap, ?_, ?_,
        fun now h => (hran.sound now (hpast now h)).release peer connId, ?_⟩
      · rw [run_snoc, hrun]
        rfl
      · rw [hfields.2, hran.rateMax]
      · rw [hfields.2, hran.rateWindowMs]
      · rw [List.map_cons, hran.calls, List.map_append, List.reverse_append]
        rfl

theorem Ran.exists_sound {cap rateMax rateWindowMs : ℕ} {requests : List Request}
    (h : Ran cap rateMax rateWindowMs requests s log) : ∃ now, Sound s now log :=
  ⟨_, h.sound (requests.filterMap (·.time)).sum fun t ht =>
    List.single_le_sum (fun _ _ => Nat.zero_le _) t ht⟩

theorem Ran.spread {cap rateMax rateWindowMs : ℕ} {requests : List Request}
    (h : Ran cap rateMax rateWindowMs requests s log) :
    Spread rateWindowMs rateMax (grants log) := by
  obtain ⟨now, hsound⟩ := h.exists_sound
  obtain ⟨rateLog, htracks, hgrants⟩ := hsound.rate
  rw [← hgrants, ← h.rateMax, ← h.rateWindowMs]
  exact htracks.spread ()

/-- The second connection of a peer takes its slot over: the release of the first frees
nothing, its own does. -/
example : ((withCaps 1 100 60).run [.tryAdmit 1 10 0 (.sort _), .tryAdmit 1 11 1 (.sort _),
      .release 1 10, .tryAdmit 2 20 2 (.sort _), .release 1 11, .tryAdmit 2 20 3 (.sort _)]).map
        (·.2) =
    some [.tried 2 20 3 .admitted true, .released 1 11, .tried 2 20 2 .shedOccupancy true,
      .released 1 10, .tried 1 11 1 .admitted false, .tried 1 10 0 .admitted true] := by
  decide

end ZenohInboundAdmission

/-- Under a clock that does not step back every call of the keyed limiter is exact for its
key and leaves a bounded number of keys; the admission of strangers on top of it keeps to its
slots, to their owners and to its rate. -/
theorem limiter_exact {K : Type} [Ord K] [TransOrd K] [LawfulEqOrd K] [DecidableEq K] :
    (∀ (limit window : ℕ) (requests : List (KeyedSlidingWindow.Request K)),
      (requests.map (·.nowMs)).Pairwise (· ≤ ·) →
      ∃ w log, KeyedSlidingWindow.run ⟨limit, window, ∅⟩ requests = some (w, log) ∧
        log.map (fun e => (e.key, e.nowMs)) =
          (requests.map fun r => (r.key, r.nowMs)).reverse ∧
        ∀ e older, e :: older <:+ log →
          KeyedSlidingWindow.ExactAt limit window e older ∧
          ∃ earlier, earlier <+: requests ∧
            KeyedSlidingWindow.run ⟨limit, window, ∅⟩ earlier = some (e.before, older)) ∧
    ∀ (cap rateMax rateWindowMs : ℕ) (requests : List ZenohInboundAdmission.Request),
      (requests.filterMap (·.time)).Pairwise (· ≤ ·) →
      ∃ s log, (ZenohInboundAdmission.withCaps cap rateMax rateWindowMs).run requests =
          some (s, log) ∧
        log.map (·.call) = (requests.map (·.call)).reverse ∧
        s.strangers.size ≤ cap ∧
        (∀ peer connId, s.strangers[peer]? = some connId ↔
          ZenohInboundAdmission.Owns log peer connId) ∧
        Spread rateWindowMs rateMax (ZenohInboundAdmission.grants log) := by
  refine ⟨fun limit window requests hclock => ?_, fun cap rateMax window requests hclock => ?_⟩
  · obtain ⟨w, log, hrun, hran⟩ := KeyedSlidingWindow.exists_run limit window hclock
    exact ⟨w, log, hrun, hran.calls, hran.exact_at⟩
  · obtain ⟨s, log, hrun, hran⟩ := ZenohInboundAdmission.exists_run cap rateMax window hclock
    obtain ⟨now, hsound⟩ := hran.exists_sound
    exact ⟨s, log, hrun, hran.calls, hran.cap ▸ hsound.bounded, hsound.owns, hran.spread⟩

def flood (n : ℕ) : List (KeyedSlidingWindow.Request ℕ) :=
  (List.range n).map fun k => ⟨k, k, .sort _⟩

theorem flood_clock (n : ℕ) : ((flood n).map (·.nowMs)).Pairwise (· ≤ ·) := by
  rw [flood, List.map_map]
  simpa [Function.comp_def] using List.pairwise_le_range (n := n)

theorem flood_card (n : ℕ) : ((flood n).map (·.key)).toFinset.card = n := by
  have hkeys : (flood n).map (·.key) = List.range n := by
    rw [flood, List.map_map]
    exact List.map_id _
  rw [hkeys, List.toFinset_card_of_nodup List.nodup_range, List.length_range]

/-- One key too many within a window, so that some call evicts; and the admission of strangers
with one slot. -/
theorem limiter_exact_nat :
    let sel : NthSelection (ℕ × Unit) Prod.fst := .sort _
    (∃ w log, KeyedSlidingWindow.run ⟨1, 10000, ∅⟩ (flood (maxWindowKeys + 1)) = some (w, log) ∧
      ∃ e older k, e :: older <:+ log ∧ e.Evicts k ∧
        KeyedSlidingWindow.ExactAt 1 10000 e older) ∧
    ∃ s log, (ZenohInboundAdmission.withCaps 1 2 10).run
        [.tryAdmit 1 10 0 sel, .tryAdmit 1 11 1 sel, .release 1 10, .tryAdmit 2 20 2 sel] =
          some (s, log) ∧
      s.strangers.size ≤ 1 ∧ Spread 10 2 (ZenohInboundAdmission.grants log) := by
  intro sel
  have hclock := flood_clock (maxWindowKeys + 1)
  obtain ⟨w, log, hrun, -, hexact⟩ := (limiter_exact (K := ℕ)).1 1 10000 _ hclock
  obtain ⟨w', log', hrun', hran⟩ := KeyedSlidingWindow.exists_run 1 10000 hclock
  obtain ⟨rfl, rfl⟩ := Prod.mk.inj (Option.some.inj (hrun'.symm.trans hrun))
  obtain ⟨e, older, k, hsuffix, hevicts⟩ := hran.exists_evicts one_pos (by
    rw [flood_card]
    exact Nat.lt_succ_self _)
  obtain ⟨s, log, hrun', -, hsize, -, hspread⟩ := (limiter_exact (K := ℕ)).2 1 2 10
    [.tryAdmit 1 10 0 sel, .tryAdmit 1 11 1 sel, .release 1 10, .tryAdmit 2 20 2 sel]
    (by simp [ZenohInboundAdmission.Request.time])
  exact ⟨⟨w', log', hrun, e, older, k, hsuffix, hevicts, (hexact e older hsuffix).1⟩,
    s, log, hrun', hsize, hspread⟩

end Harmony.Transport
