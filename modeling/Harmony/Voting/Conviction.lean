import Harmony.Lib.ByteArr

/-! Conviction of one voter on one proposal, in Q96.32 fixed point. Integers are
unbounded here: wall clocks fit 64 bits and half-lives 42, so the `i128` arithmetic
never overflows. -/

namespace Harmony.Voting

def q32 : ℤ := 2 ^ 32

/-- `ln 2` in Q96.32, rounded up. -/
def ln2Q32 : ℤ := 2977044472

/-- The Taylor loop: divisions truncate, and a zero term ends it. -/
def taylorLoop (xReduced : ℤ) : List ℤ → ℤ → ℤ → ℤ
  | [], _, sum => sum
  | n :: ns, term, sum =>
    let term := Int.tdiv (-(term * xReduced)) (q32 * n)
    if term = 0 then sum + term else taylorLoop xReduced ns term (sum + term)

/-- `exp (-x)`: the argument is halved eight times, the result squared as often. -/
def expNegQ32 (x : ℤ) : ℤ :=
  if x ≤ 0 then q32
  else if 20 * q32 < x then 0
  else
    let sum := taylorLoop (x / 2 ^ 8) [1, 2, 3, 4, 5, 6, 7] q32 q32
    (fun r => r * r / 2 ^ 32)^[8] (max sum 0)

/-- `0.5 ^ (t / halfLife)`. -/
def powHalfQ32 (tMs halfLifeMs : ℤ) : ℤ :=
  if tMs ≤ 0 then q32
  else if halfLifeMs ≤ 0 then 0
  else expNegQ32 (Int.tdiv (tMs * ln2Q32) halfLifeMs)

def chargeQ32 (durationMs halfLifeMs : ℤ) : ℤ :=
  if durationMs ≤ 0 ∨ halfLifeMs ≤ 0 then 0
  else Int.tdiv ((q32 - powHalfQ32 durationMs halfLifeMs) * halfLifeMs) ln2Q32

def decayQ32 (conviction dtMs halfLifeMs : ℤ) : ℤ :=
  if dtMs ≤ 0 ∨ halfLifeMs ≤ 0 then conviction
  else conviction * powHalfQ32 dtMs halfLifeMs / 2 ^ 32

@[simp] theorem chargeQ32_zero (halfLifeMs : ℤ) : chargeQ32 0 halfLifeMs = 0 := by
  simp [chargeQ32]

@[simp] theorem zero_decayQ32 (dtMs halfLifeMs : ℤ) : decayQ32 0 dtMs halfLifeMs = 0 := by
  simp [decayQ32]

/-- `(wall_ms, logical)`, compared in this order. -/
abbrev HlcOrdinal := ℕ ×ₗ ℕ

structure VoterConvictionState where
  isSupporting : Bool := false
  supportStartedAtMs : ℤ := 0
  accumulatedConviction : ℤ := 0
  lastEventAtMs : ℤ := 0
  lastEventOrdinal : Option HlcOrdinal := none
deriving DecidableEq

namespace VoterConvictionState

/-- The high-water mark moves on every fresh event. -/
def bump (st : VoterConvictionState) (ord : HlcOrdinal) : VoterConvictionState :=
  { st with lastEventOrdinal := some ord }

/-- What a fresh event does to the session. -/
def toggle (st : VoterConvictionState) (support : Bool) (eventHlcMs halfLifeMs : ℤ) :
    VoterConvictionState :=
  if support = st.isSupporting then st
  else if support then
    { st with
      accumulatedConviction :=
        decayQ32 st.accumulatedConviction (eventHlcMs - st.lastEventAtMs) halfLifeMs
      isSupporting := true
      supportStartedAtMs := eventHlcMs
      lastEventAtMs := eventHlcMs }
  else
    let sessionDur := eventHlcMs - st.supportStartedAtMs
    { st with
      accumulatedConviction := decayQ32 st.accumulatedConviction sessionDur halfLifeMs +
        chargeQ32 sessionDur halfLifeMs
      isSupporting := false
      lastEventAtMs := eventHlcMs }

/-- The ordinal of an event; the cast keeps the low 64 bits of the wall clock. -/
def eventOrd (eventHlcMs : ℤ) (eventHlcLogical : ℕ) : HlcOrdinal :=
  toLex ((eventHlcMs % 2 ^ 64).toNat, eventHlcLogical)

def applySignal (st : VoterConvictionState) (support : Bool) (eventHlcMs : ℤ)
    (eventHlcLogical : ℕ) (halfLifeMs : ℤ) : VoterConvictionState :=
  if eventHlcMs < 0 then st
  else
    let ord := eventOrd eventHlcMs eventHlcLogical
    if ∃ last ∈ st.lastEventOrdinal, ord ≤ last then st
    else (st.bump ord).toggle support eventHlcMs halfLifeMs

def convictionAt (st : VoterConvictionState) (tMs halfLifeMs : ℤ) : ℤ :=
  if st.isSupporting then
    decayQ32 st.accumulatedConviction (tMs - st.lastEventAtMs) halfLifeMs +
      chargeQ32 (tMs - st.supportStartedAtMs) halfLifeMs
  else decayQ32 st.accumulatedConviction (tMs - st.lastEventAtMs) halfLifeMs

end VoterConvictionState

/-- A Signal of the voter, as the log hands it on. -/
structure SignalEvent where
  support : Bool
  wallMs : Fin (2 ^ 64)
  logical : Fin (2 ^ 32)
deriving DecidableEq

namespace SignalEvent

def ordinal (e : SignalEvent) : HlcOrdinal := toLex (e.wallMs.val, e.logical.val)

theorem wall_le_of_ordinal {a b : SignalEvent} (h : a.ordinal ≤ b.ordinal) :
    a.wallMs ≤ b.wallMs := by
  rcases Prod.Lex.le_iff.mp h with h | h
  · exact le_of_lt h
  · exact le_of_eq (Fin.ext h.1)

end SignalEvent

open VoterConvictionState

/-- The voter's state after the signals, delivered in this order. -/
def signalRun (halfLifeMs : ℤ) (order : List SignalEvent) : VoterConvictionState :=
  order.foldl (fun st e => st.applySignal e.support e.wallMs.val e.logical halfLifeMs) {}

section Delivery

variable {halfLifeMs : ℤ}

theorem eventOrd_eq (e : SignalEvent) : eventOrd e.wallMs.val e.logical = e.ordinal := by
  have hlt := e.wallMs.isLt
  unfold eventOrd SignalEvent.ordinal
  congr 2
  omega

theorem applySignal_eq (st : VoterConvictionState) (e : SignalEvent) :
    st.applySignal e.support e.wallMs.val e.logical halfLifeMs =
      if ∃ last ∈ st.lastEventOrdinal, e.ordinal ≤ last then st
      else (st.bump e.ordinal).toggle e.support e.wallMs.val halfLifeMs := by
  unfold applySignal
  rw [if_neg (by omega), eventOrd_eq]

@[simp] theorem toggle_lastEventOrdinal (st : VoterConvictionState) (support : Bool)
    (eventHlcMs halfLifeMs : ℤ) :
    (st.toggle support eventHlcMs halfLifeMs).lastEventOrdinal = st.lastEventOrdinal := by
  unfold toggle
  split
  · rfl
  · split <;> rfl

theorem signalRun_snoc (halfLifeMs : ℤ) (l : List SignalEvent) (e : SignalEvent) :
    signalRun halfLifeMs (l ++ [e]) =
      (signalRun halfLifeMs l).applySignal e.support e.wallMs.val e.logical halfLifeMs := by
  simp [signalRun]

theorem lastEventOrdinal_mem {l : List SignalEvent} {ord : HlcOrdinal}
    (h : ord ∈ (signalRun halfLifeMs l).lastEventOrdinal) : ∃ e ∈ l, e.ordinal = ord := by
  induction l using List.reverseRecOn with
  | nil => simp [signalRun] at h
  | append_singleton l e ih =>
    rw [signalRun_snoc, applySignal_eq] at h
    split at h
    · obtain ⟨a, ha, hord⟩ := ih h
      exact ⟨a, by simp [ha], hord⟩
    · exact ⟨e, by simp, by simpa [bump] using h⟩

theorem foldl_stale {st : VoterConvictionState} {ord : HlcOrdinal}
    (hst : st.lastEventOrdinal = some ord) {l : List SignalEvent}
    (hl : ∀ e ∈ l, e.ordinal ≤ ord) :
    l.foldl (fun st e => st.applySignal e.support e.wallMs.val e.logical halfLifeMs) st = st := by
  induction l with
  | nil => rfl
  | cons e l ih =>
    have hstale : ∃ last ∈ st.lastEventOrdinal, e.ordinal ≤ last :=
      ⟨ord, hst, hl e (by simp)⟩
    rw [List.foldl_cons, applySignal_eq, if_pos hstale]
    exact ih fun a ha => hl a (by simp [ha])

theorem signalRun_newest {pre post : List SignalEvent} {m : SignalEvent}
    (hpre : ∀ e ∈ pre, e.ordinal < m.ordinal) (hpost : ∀ e ∈ post, e.ordinal ≤ m.ordinal) :
    signalRun halfLifeMs (pre ++ m :: post) =
      ((signalRun halfLifeMs pre).bump m.ordinal).toggle m.support m.wallMs.val halfLifeMs := by
  have hfresh : ¬∃ last ∈ (signalRun halfLifeMs pre).lastEventOrdinal, m.ordinal ≤ last := by
    rintro ⟨last, hlast, hle⟩
    obtain ⟨e, he, rfl⟩ := lastEventOrdinal_mem hlast
    exact absurd hle (not_le.mpr (hpre e he))
  have hm := signalRun_snoc halfLifeMs pre m
  rw [applySignal_eq, if_neg hfresh] at hm
  rw [← hm, List.append_cons, signalRun, List.foldl_append]
  exact foldl_stale (by rw [← signalRun, hm]; simp [bump]) hpost

/-- No conviction has accrued and every session began at `wall`. -/
structure Flat (wall : ℤ) (st : VoterConvictionState) : Prop where
  accumulated : st.accumulatedConviction = 0
  session : (st.isSupporting = false ∧ st.supportStartedAtMs = 0 ∧ st.lastEventAtMs = 0) ∨
    (st.supportStartedAtMs = wall ∧ st.lastEventAtMs = wall)
  ordinal : st.isSupporting = true → ∃ ord ∈ st.lastEventOrdinal, wall ≤ (ofLex ord).1

theorem Flat.bump {st : VoterConvictionState} {m : SignalEvent} (h : Flat m.wallMs.val st) :
    Flat m.wallMs.val (st.bump m.ordinal) :=
  ⟨h.accumulated, h.session, fun _ => ⟨_, rfl, le_rfl⟩⟩

theorem flat_default (wall : ℤ) : Flat wall {} :=
  ⟨rfl, Or.inl ⟨rfl, rfl, rfl⟩, fun h => by simp at h⟩

theorem Flat.toggle_start {wall : ℤ} {st : VoterConvictionState} (h : Flat wall st) :
    st.toggle true wall halfLifeMs = ⟨true, wall, 0, wall, st.lastEventOrdinal⟩ := by
  unfold toggle
  cases hs : st.isSupporting with
  | false => simp [h.accumulated]
  | true =>
    have hsess : st.supportStartedAtMs = wall ∧ st.lastEventAtMs = wall := by
      rcases h.session with hn | hn
      · simp [hs] at hn
      · exact hn
    have hacc := h.accumulated
    cases st
    simp_all

theorem Flat.toggle_stop (halfLifeMs : ℤ) {wall : ℤ} {st : VoterConvictionState}
    (h : Flat wall st) :
    Flat wall (st.toggle false wall halfLifeMs) ∧
      (st.toggle false wall halfLifeMs).isSupporting = false := by
  unfold toggle
  cases hs : st.isSupporting with
  | false => exact ⟨by simpa using h, by simp [hs]⟩
  | true =>
    have hsess : st.supportStartedAtMs = wall ∧ st.lastEventAtMs = wall := by
      rcases h.session with hn | hn
      · simp [hs] at hn
      · exact hn
    exact ⟨⟨by simp [h.accumulated, hsess], by simp [hsess], by simp⟩, by simp⟩

theorem Flat.toggle_stop_zero {st : VoterConvictionState} (h : Flat 0 st) :
    st.toggle false 0 halfLifeMs = { lastEventOrdinal := st.lastEventOrdinal } := by
  obtain ⟨hflat, hs⟩ := h.toggle_stop halfLifeMs
  have hord := toggle_lastEventOrdinal st false 0 halfLifeMs
  have hsess : (st.toggle false 0 halfLifeMs).supportStartedAtMs = 0 ∧
      (st.toggle false 0 halfLifeMs).lastEventAtMs = 0 := by
    rcases hflat.session with hn | hn
    · exact hn.2
    · exact hn
  have hacc := hflat.accumulated
  generalize st.toggle false 0 halfLifeMs = st' at *
  cases st'
  simp_all

/-- As long as support is only signalled at the wall of the newest signal, nothing
accrues: a session that ends before it does so in the same millisecond. -/
theorem flat_signalRun {m : SignalEvent} {l : List SignalEvent}
    (hle : ∀ e ∈ l, e.ordinal ≤ m.ordinal)
    (hwall : ∀ e ∈ l, e.support = true → e.wallMs = m.wallMs) :
    Flat m.wallMs.val (signalRun halfLifeMs l) := by
  induction l using List.reverseRecOn with
  | nil => exact flat_default _
  | append_singleton l e ih =>
    have ih := ih (fun a ha => hle a (by simp [ha])) fun a ha => hwall a (by simp [ha])
    rw [signalRun_snoc, applySignal_eq]
    split
    · exact ih
    · rename_i hfresh
      have hm : e.wallMs ≤ m.wallMs := SignalEvent.wall_le_of_ordinal (hle e (by simp))
      have hord : (signalRun halfLifeMs l).isSupporting = true → m.wallMs ≤ e.wallMs := by
        intro hs
        obtain ⟨ord, hmem, hw⟩ := ih.ordinal hs
        obtain ⟨a, -, rfl⟩ := lastEventOrdinal_mem hmem
        have hlt : a.ordinal < e.ordinal := not_le.mp fun hge => hfresh ⟨_, hmem, hge⟩
        have hae := SignalEvent.wall_le_of_ordinal hlt.le
        have hw : (m.wallMs.val : ℤ) ≤ a.wallMs.val := hw
        exact Fin.le_def.mpr (le_trans (by exact_mod_cast hw) (Fin.le_def.mp hae))
      have hflat : Flat m.wallMs.val ((signalRun halfLifeMs l).bump e.ordinal) :=
        ⟨ih.accumulated, ih.session, fun hs => ⟨_, rfl, by exact_mod_cast hord hs⟩⟩
      cases he : e.support with
      | true =>
        have hw : e.wallMs = m.wallMs := hwall e (by simp) he
        rw [hw, hflat.toggle_start]
        refine ⟨rfl, Or.inr ⟨rfl, rfl⟩, fun _ => ⟨_, rfl, ?_⟩⟩
        change (m.wallMs.val : ℤ) ≤ (e.wallMs.val : ℕ)
        rw [hw]
      | false =>
        by_cases hs : (signalRun halfLifeMs l).isSupporting = true
        · rw [le_antisymm hm (hord hs)]
          exact (hflat.toggle_stop halfLifeMs).1
        · rwa [toggle, if_pos (by simpa [bump] using hs)]

theorem signalRun_unsupported {l : List SignalEvent} (h : ∀ e ∈ l, e.support = false) :
    signalRun halfLifeMs l =
      { lastEventOrdinal := (signalRun halfLifeMs l).lastEventOrdinal } := by
  induction l using List.reverseRecOn with
  | nil => rfl
  | append_singleton l e ih =>
    have ih := ih fun a ha => h a (by simp [ha])
    rw [signalRun_snoc, applySignal_eq, h e (by simp)]
    split
    · exact ih
    · rw [ih]
      simp [toggle, bump]

end Delivery

/-- Support is signalled only in the millisecond of the newest signal if that one
signals it, and not at all or only at time zero if it does not. -/
def Mergeable (events : List SignalEvent) : Prop :=
  ∀ m ∈ events, (∀ e ∈ events, e.ordinal ≤ m.ordinal) →
    if m.support then ∀ e ∈ events, e.support = true → e.wallMs = m.wallMs
    else (∀ e ∈ events, e.support = false) ∨ m.wallMs = 0

instance (events : List SignalEvent) : Decidable (Mergeable events) :=
  inferInstanceAs (Decidable (∀ m ∈ events, _))

/-- Where the newest signal stands in an order, everything else is older. -/
theorem split_at_newest {events order : List SignalEvent}
    (hd : (events.map SignalEvent.ordinal).Nodup) (hp : order.Perm events) {m : SignalEvent}
    (hm : m ∈ events) (hmax : ∀ e ∈ events, e.ordinal ≤ m.ordinal) :
    ∃ pre post, order = pre ++ m :: post ∧ (∀ e ∈ pre, e.ordinal < m.ordinal) ∧
      ∀ e ∈ post, e.ordinal ≤ m.ordinal := by
  obtain ⟨pre, post, rfl⟩ := List.append_of_mem (hp.mem_iff.mpr hm)
  have hd' : ((pre ++ m :: post).map SignalEvent.ordinal).Nodup :=
    (hp.map SignalEvent.ordinal).nodup_iff.mpr hd
  rw [List.map_append, List.nodup_append] at hd'
  refine ⟨pre, post, rfl, fun e he => ?_, fun e he => hmax e (hp.mem_iff.mp (by simp [he]))⟩
  exact lt_of_le_of_ne (hmax e (hp.mem_iff.mp (by simp [he])))
    (hd'.2.2 _ (List.mem_map_of_mem he) _ (by simp))

theorem signalRun_singleton (halfLifeMs : ℤ) (m : SignalEvent) :
    signalRun halfLifeMs [m] =
      (VoterConvictionState.bump {} m.ordinal).toggle m.support m.wallMs.val halfLifeMs :=
  signalRun_newest (List.forall_mem_nil _) (by simp)

/-- The state all orders end in when they agree: that of the newest signal alone. -/
theorem signalRun_of_mergeable (halfLifeMs : ℤ) {events order : List SignalEvent}
    (hd : (events.map SignalEvent.ordinal).Nodup) (hp : order.Perm events)
    (hmerge : Mergeable events) {m : SignalEvent} (hm : m ∈ events)
    (hmax : ∀ e ∈ events, e.ordinal ≤ m.ordinal) :
    signalRun halfLifeMs order = signalRun halfLifeMs [m] := by
  obtain ⟨pre, post, rfl, hpre, hpost⟩ := split_at_newest hd hp hm hmax
  have hsub : ∀ e ∈ pre, e ∈ events := fun e he => hp.mem_iff.mp (by simp [he])
  have hmerge := hmerge m hm hmax
  rw [signalRun_newest hpre hpost, signalRun_singleton]
  cases hs : m.support with
  | true =>
    rw [hs, if_pos rfl] at hmerge
    have hflat : Flat m.wallMs.val (signalRun halfLifeMs pre) :=
      flat_signalRun (fun e he => (hpre e he).le) fun e he => hmerge e (hsub e he)
    rw [hflat.bump.toggle_start, (flat_default _).bump.toggle_start]
    rfl
  | false =>
    rw [hs, if_neg (by simp)] at hmerge
    rcases hmerge with hnone | hzero
    · rw [signalRun_unsupported fun e he => hnone e (hsub e he)]
      rfl
    · have hall : ∀ e ∈ pre, e.wallMs = m.wallMs := fun e he => by
        have hle := SignalEvent.wall_le_of_ordinal (hpre e he).le
        rw [hzero] at hle ⊢
        exact Fin.le_zero_iff.mp hle
      have hflat : Flat m.wallMs.val (signalRun halfLifeMs pre) :=
        flat_signalRun (fun e he => (hpre e he).le) fun e he _ => hall e he
      have h0 : (m.wallMs.val : ℤ) = 0 := by simp [hzero]
      have hb := hflat.bump
      have hb' := (flat_default m.wallMs.val).bump
      rw [h0] at hb hb' ⊢
      rw [hb.toggle_stop_zero, hb'.toggle_stop_zero]
      rfl

theorem exists_newest {events : List SignalEvent} (hne : events ≠ []) :
    ∃ m ∈ events, ∀ e ∈ events, e.ordinal ≤ m.ordinal := by
  obtain ⟨m, hm, hmax⟩ := events.toFinset.exists_max_image SignalEvent.ordinal
    (List.toFinset_nonempty_iff events |>.mpr hne)
  exact ⟨m, by simpa using hm, fun e he => hmax e (by simpa using he)⟩

theorem newest_first (halfLifeMs : ℤ) {m : SignalEvent} {rest : List SignalEvent}
    (hrest : ∀ e ∈ rest, e.ordinal ≤ m.ordinal) :
    signalRun halfLifeMs (m :: rest) = signalRun halfLifeMs [m] := by
  rw [signalRun_singleton]
  exact signalRun_newest (List.forall_mem_nil _) hrest

/-- The signals of a voter lead to one state in every order exactly when they are
mergeable. -/
theorem signals_converge_iff (halfLifeMs : ℤ) {events : List SignalEvent}
    (hd : (events.map SignalEvent.ordinal).Nodup) :
    (∀ order order' : List SignalEvent, order.Perm events → order'.Perm events →
      signalRun halfLifeMs order = signalRun halfLifeMs order') ↔ Mergeable events := by
  constructor
  · intro hconv m hm hmax
    -- an earlier support signal, delivered before the newest one or after it
    have hearly : ∀ e ∈ events, e.support = true → e ≠ m → signalRun halfLifeMs [m] =
        ((VoterConvictionState.mk true e.wallMs.val 0 e.wallMs.val (some e.ordinal)).bump
          m.ordinal).toggle m.support m.wallMs.val halfLifeMs := by
      intro e he hsupp hne
      have hem : e ∈ events.erase m := (List.mem_erase_of_ne hne).mpr he
      have hp : (m :: e :: (events.erase m).erase e).Perm events :=
        ((List.perm_cons_erase hem).symm.cons m).trans (List.perm_cons_erase hm).symm
      have hrest : ∀ a ∈ e :: (events.erase m).erase e, a.ordinal ≤ m.ordinal := fun a ha =>
        hmax a (hp.mem_iff.mp (List.mem_cons_of_mem _ ha))
      have hlt : e.ordinal < m.ordinal := lt_of_le_of_ne (hmax e he) fun heq =>
        hne (List.inj_on_of_nodup_map hd he hm heq)
      have hsame := hconv _ _ hp ((List.Perm.swap m e _).trans hp)
      rw [newest_first halfLifeMs hrest] at hsame
      rw [hsame, ← List.singleton_append (l := m :: (events.erase m).erase e),
        signalRun_newest (by simpa using hlt) fun a ha => hrest a (List.mem_cons_of_mem _ ha),
        signalRun_singleton, hsupp, (flat_default _).bump.toggle_start]
      rfl
    split
    · rename_i hs
      intro e he hsupp
      by_cases hne : e = m
      · rw [hne]
      · have h := congrArg supportStartedAtMs (hearly e he hsupp hne)
        rw [signalRun_singleton, hs, (flat_default _).bump.toggle_start] at h
        simp only [toggle, VoterConvictionState.bump, if_true] at h
        exact Fin.ext (by exact_mod_cast h.symm)
    · rename_i hs
      rw [Bool.not_eq_true] at hs
      by_contra hcon
      rw [not_or] at hcon
      obtain ⟨⟨e, he, hsupp⟩, hw⟩ : (∃ e ∈ events, e.support = true) ∧ m.wallMs ≠ 0 := by
        simpa using hcon
      have hne : e ≠ m := by
        rintro rfl
        simp [hs] at hsupp
      have h := congrArg lastEventAtMs (hearly e he hsupp hne)
      rw [signalRun_singleton, hs] at h
      simp only [toggle, VoterConvictionState.bump, Bool.false_eq_true, if_false, if_true] at h
      exact hw (by exact_mod_cast h.symm)
  · intro hmerge order order' hp hp'
    by_cases hne : events = []
    · subst hne
      rw [hp.eq_nil, hp'.eq_nil]
    · obtain ⟨m, hm, hmax⟩ := exists_newest hne
      rw [signalRun_of_mergeable halfLifeMs hd hp hmerge hm hmax,
        signalRun_of_mergeable halfLifeMs hd hp' hmerge hm hmax]

/-- Two mergeable signals: support withdrawn, then given anew. -/
theorem signals_converge_iff_resumed :
    let events : List SignalEvent := [⟨false, 1, 0⟩, ⟨true, 2, 0⟩]
    (∀ order order' : List SignalEvent, order.Perm events → order'.Perm events →
      signalRun 1000 order = signalRun 1000 order') ↔ Mergeable events :=
  signals_converge_iff 1000 (by decide)

/-- Of two support signals the later one hides when support began, if it comes first. -/
theorem signals_diverge :
    ¬∀ (halfLifeMs : ℤ) (events : List SignalEvent),
      (events.map SignalEvent.ordinal).Nodup →
        ∀ order order' : List SignalEvent, order.Perm events → order'.Perm events →
          signalRun halfLifeMs order = signalRun halfLifeMs order' := by
  intro h
  have h := h 1000 [⟨true, 1, 0⟩, ⟨true, 2, 0⟩] (by decide) [⟨true, 1, 0⟩, ⟨true, 2, 0⟩]
    [⟨true, 2, 0⟩, ⟨true, 1, 0⟩] (.refl _) (.swap _ _ _)
  revert h
  decide

end Harmony.Voting
