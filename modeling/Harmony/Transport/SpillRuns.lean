import Harmony.Transport.Spill

/-! What holds of the spill and its consumer in every order of their steps. What was
accepted is received, in the channel or in the buffer, in order; a payload is lost only with
the consumer, and dropped only at the cap. -/

namespace Harmony.Transport.System

variable {α : Type} {s s' : System α}

/-! ### What one step can do -/

def callOf (s : System α) (bytes : α) : Call α :=
  ⟨bytes, s.spill.buf.length, s.channel.full⟩

def dropping (s : System α) (bytes : α) : System α :=
  { s with
    spill := { s.spill with
      dropped := s.spill.dropped + 1
      peak := max s.spill.peak s.spill.buf.length }
    phase := .forwarding (s.callOf bytes) true }

def buffering (s : System α) (bytes : α) : System α :=
  { s with
    spill := { s.spill with buf := s.spill.buf ++ [bytes] }
    phase := .forwarding (s.callOf bytes) false }

def sent (s : System α) (x : α) (buf : List α) (phase : Phase α) : System α :=
  { s with
    channel := { s.channel with queue := s.channel.queue ++ [x] }
    spill := { s.spill with buf := buf }
    phase := phase }

def lost (s : System α) (call : Call α) (buf : List α) : System α :=
  { s with
    spill := { s.spill with buf := buf }
    phase := .idle
    returns := s.returns ++ [(call, .consumerGone)] }

theorem accept_cases {bytes : α} (h : s.step (.accept bytes) = some s') :
    s.phase = .idle ∧
    (s.spill.maxPending ≤ s.spill.buf.length ∧ s' = s.dropping bytes ∨
      s.spill.buf.length < s.spill.maxPending ∧ s' = s.buffering bytes) := by
  cases hphase : s.phase <;> simp only [step, hphase, reduceCtorEq] at h
  refine ⟨rfl, ?_⟩
  split_ifs at h with hcap
  · exact .inl ⟨hcap, (Option.some.inj h).symm⟩
  · exact .inr ⟨by omega, (Option.some.inj h).symm⟩

theorem trySend_cases (c : Channel α) (x : α) :
    c.closed = true ∧ c.trySend x = .error .closed ∨
    c.closed = false ∧ c.full = true ∧ c.trySend x = .error .full ∨
    c.closed = false ∧ c.full = false ∧
      c.trySend x = .ok { c with queue := c.queue ++ [x] } := by
  unfold Channel.trySend
  cases c.closed <;> cases c.full <;> simp

theorem forward_cases (h : s.step .forward = some s') :
    ∃ call dropping, s.phase = .forwarding call dropping ∧
    ((s.spill.buf = [] ∨ s.channel.closed = false ∧ s.channel.full = true) ∧
      s' = s.returned call dropping ∨
    ∃ x buf, s.spill.buf = x :: buf ∧
      (s.channel.closed = false ∧ s' = s.sent x buf s.phase ∨
        s.channel.closed = true ∧ s' = s.lost call buf)) := by
  cases hphase : s.phase with
  | forwarding call dropping =>
    refine ⟨call, dropping, rfl, ?_⟩
    cases hbuf : s.spill.buf with
    | nil =>
      simp only [step, hphase, hbuf] at h
      exact .inl ⟨.inl rfl, (Option.some.inj h).symm⟩
    | cons x buf =>
      simp only [step, hphase, hbuf] at h
      rcases trySend_cases s.channel x with ⟨hc, ht⟩ | ⟨hc, hf, ht⟩ | ⟨hc, hf, ht⟩
      · rw [ht] at h
        exact .inr ⟨x, buf, rfl, .inr ⟨hc, (Option.some.inj h).symm⟩⟩
      · rw [ht] at h
        exact .inl ⟨.inr ⟨hc, hf⟩, (Option.some.inj h).symm⟩
      · rw [ht] at h
        exact .inr ⟨x, buf, rfl, .inl ⟨hc, (Option.some.inj h).symm⟩⟩
  | _ => simp [step, hphase] at h

theorem receive_cases (h : s.step .receive = some s') :
    ∃ x queue, s.channel.queue = x :: queue ∧ s' = { s with
      channel := { s.channel with queue := queue }
      received := s.received ++ [x] } := by
  cases hqueue : s.channel.queue <;> simp only [step, hqueue, reduceCtorEq] at h
  exact ⟨_, _, rfl, (Option.some.inj h).symm⟩

theorem flush_cases (h : s.step .flush = some s') :
    s.phase = .idle ∧ s' = { s with phase := .checking } := by
  cases hphase : s.phase <;> simp only [step, hphase, reduceCtorEq] at h
  exact ⟨rfl, (Option.some.inj h).symm⟩

/-- Every check of the flag records it; only one that found it unset, with nothing left to
send, ends as flushed. -/
theorem check_cases {closing : Bool} (h : s.step (.check closing) = some s') :
    s.phase = .checking ∧ ∃ phase,
      s' = { s with phase := phase, lastCheck := some closing } ∧
      (phase = .finished .shutdownAbandoned ∨ phase = .parked ∨
        phase = .finished .flushed ∧ closing = false ∧ s.spill.buf = []) := by
  cases hphase : s.phase <;> simp only [step, hphase, reduceCtorEq] at h
  refine ⟨rfl, ?_⟩
  split_ifs at h with hclosing hempty
  · exact ⟨_, (Option.some.inj h).symm, .inl rfl⟩
  · exact ⟨_, (Option.some.inj h).symm,
      .inr (.inr ⟨rfl, by simpa using hclosing, List.isEmpty_iff.mp hempty⟩)⟩
  · exact ⟨_, (Option.some.inj h).symm, .inr (.inl rfl)⟩

theorem poll_cases {timer : Bool} (h : s.step (.poll timer) = some s') :
    s.phase = .parked ∧ ((∃ phase, s' = { s with phase := phase } ∧
      (phase = .checking ∨ phase = .parked ∨ phase = .finished .consumerGone)) ∨
    ∃ x buf, s.spill.buf = x :: buf ∧ s' = s.sent x buf .checking) := by
  cases hphase : s.phase with
  | parked =>
    refine ⟨rfl, ?_⟩
    cases hbuf : s.spill.buf with
    | nil => simp [step, hphase, hbuf] at h
    | cons x buf =>
      simp only [step, hphase, hbuf] at h
      rcases trySend_cases s.channel x with ⟨hc, ht⟩ | ⟨hc, hf, ht⟩ | ⟨hc, hf, ht⟩
      · rw [ht] at h
        exact .inl ⟨_, (Option.some.inj h).symm, .inr (.inr rfl)⟩
      · rw [ht] at h
        refine .inl ⟨_, (Option.some.inj h).symm, ?_⟩
        cases timer <;> simp
      · rw [ht] at h
        exact .inr ⟨x, buf, rfl, (Option.some.inj h).symm⟩
  | _ => simp [step, hphase] at h

/-! ### The books -/

/-- The payload of a running call that was buffered. -/
def inHand (s : System α) : List α :=
  match s.phase with
  | .forwarding call false => [call.bytes]
  | _ => []

/-- One if a running call dropped its payload. -/
def inDrop (s : System α) : ℕ :=
  match s.phase with
  | .forwarding _ true => 1
  | _ => 0

/-- No call has found the consumer gone. -/
def Kept (s : System α) : Prop := ∀ r ∈ s.returns, r.2 ≠ .consumerGone

/-- What was accepted is somewhere, in order, and the calls are all counted. -/
structure Balanced (s : System α) : Prop where
  conserved : s.Kept →
    s.received ++ s.channel.queue ++ s.spill.buf = s.accepted ++ s.inHand
  counted : s.Kept → s.returns.length + s.inDrop = s.accepted.length + s.spill.dropped
  /-- a loss takes a closed channel -/
  kept : s.channel.closed = false → s.Kept
  bounded : s.spill.buf.length ≤ s.spill.maxPending

@[simp] theorem accepted_returned (s : System α) (call : Call α) (dropping : Bool) :
    (s.returned call dropping).accepted =
      s.accepted ++ if dropping then [] else [call.bytes] := by
  cases dropping <;> simp [accepted, returned]

theorem kept_returned {call : Call α} {dropping : Bool} :
    (s.returned call dropping).Kept ↔ s.Kept := by
  unfold Kept returned
  cases dropping <;> simp [or_imp, forall_and]

theorem inHand_of_forwarding {call : Call α} {dropping : Bool}
    (h : s.phase = .forwarding call dropping) :
    s.inHand = if dropping then [] else [call.bytes] := by
  cases dropping <;> simp [inHand, h]

theorem inDrop_of_forwarding {call : Call α} {dropping : Bool}
    (h : s.phase = .forwarding call dropping) : s.inDrop = if dropping then 1 else 0 := by
  cases dropping <;> simp [inDrop, h]

theorem Balanced.returned (h : s.Balanced) {call : Call α} {dropping : Bool}
    (hphase : s.phase = .forwarding call dropping) : (s.returned call dropping).Balanced := by
  have hhand := inHand_of_forwarding hphase
  have hdrop := inDrop_of_forwarding hphase
  refine ⟨fun hkept => ?_, fun hkept => ?_, fun hopen => ?_, ?_⟩
  · have hall := h.conserved (kept_returned.mp hkept)
    rw [hhand] at hall
    rw [accepted_returned, ← hall]
    cases dropping <;> simp [System.returned, inHand]
  · have hall := h.counted (kept_returned.mp hkept)
    rw [hdrop] at hall
    rw [accepted_returned]
    cases dropping <;> simp [System.returned, inDrop] at hall ⊢ <;> omega
  · exact kept_returned.mpr (h.kept hopen)
  · cases dropping <;> exact h.bounded

theorem Balanced.sent (h : s.Balanced) {x : α} {buf : List α} {phase : Phase α}
    (hbuf : s.spill.buf = x :: buf) (hhand : (s.sent x buf phase).inHand = s.inHand)
    (hdrop : (s.sent x buf phase).inDrop = s.inDrop) : (s.sent x buf phase).Balanced := by
  refine ⟨fun hkept => ?_, fun hkept => ?_, h.kept, ?_⟩
  · have hall := h.conserved hkept
    rw [hbuf] at hall
    rw [hhand]
    change s.received ++ (s.channel.queue ++ [x]) ++ buf = s.accepted ++ s.inHand
    rw [← hall]
    simp
  · rw [hdrop]
    exact h.counted hkept
  · have hlen := h.bounded
    rw [hbuf, List.length_cons] at hlen
    change buf.length ≤ s.spill.maxPending
    omega

theorem Balanced.lost (h : s.Balanced) {x : α} {buf : List α} {call : Call α}
    (hbuf : s.spill.buf = x :: buf) (hclosed : s.channel.closed = true) :
    (s.lost call buf).Balanced := by
  have hgone : ¬(s.lost call buf).Kept :=
    fun hkept => hkept (call, .consumerGone) (by simp [System.lost]) rfl
  refine ⟨fun hkept => absurd hkept hgone, fun hkept => absurd hkept hgone, fun hopen => ?_, ?_⟩
  · have hstill : s.channel.closed = false := hopen
    rw [hclosed] at hstill
    cases hstill
  · have hlen := h.bounded
    rw [hbuf, List.length_cons] at hlen
    change buf.length ≤ s.spill.maxPending
    omega

theorem Balanced.of_phase (h : s.Balanced) (phase : Phase α) (check : Option Bool)
    (hhand : ({ s with phase := phase, lastCheck := check } : System α).inHand = s.inHand)
    (hdrop : ({ s with phase := phase, lastCheck := check } : System α).inDrop = s.inDrop) :
    ({ s with phase := phase, lastCheck := check } : System α).Balanced :=
  ⟨fun hkept => by rw [hhand]; exact h.conserved hkept,
    fun hkept => by rw [hdrop]; exact h.counted hkept, h.kept, h.bounded⟩

theorem balanced_init (maxPending capacity : ℕ) :
    (init maxPending capacity : System α).Balanced :=
  ⟨fun _ => rfl, fun _ => rfl, fun _ r hr => by simp [init] at hr, Nat.zero_le _⟩

theorem Balanced.step {a : Action α} (h : s.Balanced) (hstep : s.step a = some s') :
    s'.Balanced := by
  cases a with
  | accept bytes =>
    obtain ⟨hphase, ⟨hcap, rfl⟩ | ⟨hroom, rfl⟩⟩ := accept_cases hstep
    · have hhand : s.inHand = [] := by simp [inHand, hphase]
      have hdrop : s.inDrop = 0 := by simp [inDrop, hphase]
      refine ⟨fun hkept => ?_, fun hkept => ?_, h.kept, h.bounded⟩
      · have hall := h.conserved hkept
        rw [hhand] at hall
        exact hall
      · have hall := h.counted hkept
        rw [hdrop] at hall
        change s.returns.length + 1 = s.accepted.length + (s.spill.dropped + 1)
        omega
    · have hhand : s.inHand = [] := by simp [inHand, hphase]
      have hdrop : s.inDrop = 0 := by simp [inDrop, hphase]
      refine ⟨fun hkept => ?_, fun hkept => ?_, h.kept, ?_⟩
      · have hall := h.conserved hkept
        rw [hhand, List.append_nil] at hall
        change s.received ++ s.channel.queue ++ (s.spill.buf ++ [bytes]) = s.accepted ++ [bytes]
        rw [← List.append_assoc, hall]
      · have hall := h.counted hkept
        rw [hdrop] at hall
        exact hall
      · change (s.spill.buf ++ [bytes]).length ≤ s.spill.maxPending
        rw [List.length_append, List.length_singleton]
        omega
  | forward =>
    obtain ⟨call, dropping, hphase, ⟨-, rfl⟩ | ⟨x, buf, hbuf, ⟨-, rfl⟩ | ⟨hclosed, rfl⟩⟩⟩ :=
      forward_cases hstep
    · exact h.returned hphase
    · exact h.sent hbuf rfl rfl
    · exact h.lost hbuf hclosed
  | receive =>
    obtain ⟨x, queue, hqueue, rfl⟩ := receive_cases hstep
    refine ⟨fun hkept => ?_, h.counted, h.kept, h.bounded⟩
    have hall := h.conserved hkept
    rw [hqueue] at hall
    change s.received ++ [x] ++ queue ++ s.spill.buf = s.accepted ++ s.inHand
    rw [← hall]
    simp
  | close =>
    rw [← Option.some.inj hstep]
    exact ⟨h.conserved, h.counted, fun hopen => (nomatch hopen), h.bounded⟩
  | flush =>
    obtain ⟨hphase, rfl⟩ := flush_cases hstep
    exact h.of_phase .checking s.lastCheck (by simp [inHand, hphase]) (by simp [inDrop, hphase])
  | check closing =>
    obtain ⟨hphase, phase, rfl, hnext⟩ := check_cases hstep
    refine h.of_phase phase (some closing) ?_ ?_
    · rcases hnext with rfl | rfl | ⟨rfl, -, -⟩ <;> simp [inHand, hphase]
    · rcases hnext with rfl | rfl | ⟨rfl, -, -⟩ <;> simp [inDrop, hphase]
  | poll timer =>
    obtain ⟨hphase, ⟨phase, rfl, hnext⟩ | ⟨x, buf, hbuf, rfl⟩⟩ := poll_cases hstep
    · refine h.of_phase phase s.lastCheck ?_ ?_
      · rcases hnext with rfl | rfl | rfl <;> simp [inHand, hphase]
      · rcases hnext with rfl | rfl | rfl <;> simp [inDrop, hphase]
    · exact h.sent hbuf (by simp [inHand, hphase, System.sent])
        (by simp [inDrop, hphase, System.sent])

/-! ### Drops and flushes -/

/-- A call that finds the buffer at the cap finds the channel full, or closed with payloads
to lose; and the flush does not follow on a call that found the consumer gone. -/
def Meets (s : System α) : Action α → Prop
  | .accept _ => s.spill.maxPending ≤ s.spill.buf.length →
      s.channel.full = true ∨ s.channel.closed = true ∧ s.spill.buf ≠ []
  | .flush => s.Kept
  | _ => True

instance [DecidableEq α] (s : System α) : Decidable s.Kept :=
  inferInstanceAs (Decidable (∀ r ∈ s.returns, r.2 ≠ .consumerGone))

instance [DecidableEq α] (s : System α) : DecidablePred s.Meets
  | .accept _ => inferInstanceAs (Decidable (s.spill.maxPending ≤ s.spill.buf.length →
      s.channel.full = true ∨ s.channel.closed = true ∧ s.spill.buf ≠ []))
  | .flush => inferInstanceAs (Decidable s.Kept)
  | .forward => .isTrue trivial
  | .receive => .isTrue trivial
  | .close => .isTrue trivial
  | .check _ => .isTrue trivial
  | .poll _ => .isTrue trivial

def Flushing (s : System α) : Prop :=
  match s.phase with
  | .idle => False
  | .forwarding _ _ => False
  | _ => True

structure Guarded (s : System α) : Prop where
  /-- a running call that dropped its payload found the buffer at the cap -/
  dropping : ∀ call, s.phase = .forwarding call true → call.pendingAt = s.spill.maxPending ∧
    (call.fullAt = true ∨ s.channel.closed = true ∧ s.spill.buf ≠ [])
  dropped : ∀ r ∈ s.returns, r.2 = .droppedFull →
    r.1.pendingAt = s.spill.maxPending ∧ r.1.fullAt = true
  flushing : s.Flushing → s.Kept
  flushed : s.phase = .finished .flushed → s.spill.buf = [] ∧ s.lastCheck = some false

theorem guarded_init (maxPending capacity : ℕ) :
    (init maxPending capacity : System α).Guarded :=
  ⟨by simp [init], by simp [init], by simp [init, Flushing], by simp [init]⟩

theorem Guarded.step {a : Action α} (h : s.Guarded) (hb : s.Balanced) (hmeets : s.Meets a)
    (hstep : s.step a = some s') : s'.Guarded := by
  cases a with
  | accept bytes =>
    obtain ⟨hphase, ⟨hcap, rfl⟩ | ⟨hroom, rfl⟩⟩ := accept_cases hstep
    · refine ⟨fun call hcall => ?_, h.dropped, fun hf => False.elim hf, fun hf => (nomatch hf)⟩
      cases hcall
      exact ⟨le_antisymm hb.bounded hcap, hmeets hcap⟩
    · exact ⟨fun call hcall => (nomatch hcall), h.dropped, fun hf => False.elim hf, fun hf => (nomatch hf)⟩
  | forward =>
    obtain ⟨call, dropping, hphase, ⟨hdone, rfl⟩ | ⟨x, buf, hbuf, ⟨hopen, rfl⟩ | ⟨hclosed, rfl⟩⟩⟩ :=
      forward_cases hstep
    · refine ⟨fun c hc => (nomatch hc), fun r hr hdrop => ?_, fun hf => False.elim hf,
        fun hf => (nomatch hf)⟩
      have hcap : (s.returned call dropping).spill.maxPending = s.spill.maxPending := by
        cases dropping <;> rfl
      rw [hcap]
      rcases List.mem_append.mp hr with hr | hr
      · exact h.dropped r hr hdrop
      · rw [List.mem_singleton.mp hr] at hdrop ⊢
        cases dropping with
        | false => cases hdrop
        | true =>
          obtain ⟨hpending, hfull⟩ := h.dropping call hphase
          refine ⟨hpending, hfull.resolve_right ?_⟩
          rintro ⟨hclosed, hne⟩
          rcases hdone with hempty | ⟨hopen, -⟩
          · exact hne hempty
          · rw [hclosed] at hopen
            cases hopen
    · refine ⟨fun c hc => ?_, h.dropped, fun hf => ?_, fun hf => ?_⟩
      · obtain ⟨hpending, hfull⟩ := h.dropping c hc
        refine ⟨hpending, .inl (hfull.resolve_right ?_)⟩
        rintro ⟨hclosed, -⟩
        rw [hclosed] at hopen
        cases hopen
      · change (match s.phase with
          | .idle => False
          | .forwarding _ _ => False
          | _ => True) at hf
        rw [hphase] at hf
        exact False.elim hf
      · change s.phase = _ at hf
        rw [hphase] at hf
        cases hf
    · refine ⟨fun c hc => (nomatch hc), fun r hr hdrop => ?_, fun hf => False.elim hf,
        fun hf => (nomatch hf)⟩
      rcases List.mem_append.mp hr with hr | hr
      · exact h.dropped r hr hdrop
      · rw [List.mem_singleton.mp hr] at hdrop
        cases hdrop
  | receive =>
    obtain ⟨x, queue, hqueue, rfl⟩ := receive_cases hstep
    exact ⟨h.dropping, h.dropped, h.flushing, h.flushed⟩
  | close =>
    rw [← Option.some.inj hstep]
    refine ⟨fun c hc => ?_, h.dropped, h.flushing, h.flushed⟩
    obtain ⟨hpending, hfull⟩ := h.dropping c hc
    exact ⟨hpending, hfull.imp id fun hc => ⟨rfl, hc.2⟩⟩
  | flush =>
    obtain ⟨hphase, rfl⟩ := flush_cases hstep
    exact ⟨fun c hc => (nomatch hc), h.dropped, fun _ => hmeets, fun hf => (nomatch hf)⟩
  | check closing =>
    obtain ⟨hphase, phase, rfl, hnext⟩ := check_cases hstep
    have hkept : s.Kept := h.flushing (by simp [Flushing, hphase])
    refine ⟨fun c hc => ?_, h.dropped, fun _ => hkept, fun hf => ?_⟩
    · have hc' : phase = _ := hc
      rcases hnext with rfl | rfl | ⟨rfl, -, -⟩ <;> cases hc'
    · have hf' : phase = _ := hf
      rcases hnext with rfl | rfl | ⟨-, rfl, hempty⟩
      · cases hf'
      · cases hf'
      · exact ⟨hempty, rfl⟩
  | poll timer =>
    obtain ⟨hphase, ⟨phase, rfl, hnext⟩ | ⟨x, buf, hbuf, rfl⟩⟩ := poll_cases hstep
    · have hkept : s.Kept := h.flushing (by simp [Flushing, hphase])
      refine ⟨fun c hc => ?_, h.dropped, fun _ => hkept, fun hf => ?_⟩
      · have hc' : phase = _ := hc
        rcases hnext with rfl | rfl | rfl <;> cases hc'
      · have hf' : phase = _ := hf
        rcases hnext with rfl | rfl | rfl <;> cases hf'
    · have hkept : s.Kept := h.flushing (by simp [Flushing, hphase])
      exact ⟨fun c hc => (nomatch hc), h.dropped, fun _ => hkept, fun hf => (nomatch hf)⟩

/-! ### Runs -/

/-- Every step of the run meets the condition. -/
def MeetsAll (s : System α) : List (Action α) → Prop
  | [] => True
  | a :: actions => s.Meets a ∧
      match s.step a with
      | none => True
      | some s' => s'.MeetsAll actions

instance decidableMeetsAll [DecidableEq α] : ∀ (s : System α) (actions : List (Action α)),
    Decidable (s.MeetsAll actions)
  | _, [] => .isTrue trivial
  | s, a :: actions =>
    haveI : Decidable (match s.step a with
        | none => True
        | some s' => s'.MeetsAll actions) :=
      match s.step a with
      | none => .isTrue trivial
      | some s' => decidableMeetsAll s' actions
    inferInstanceAs (Decidable (s.Meets a ∧ match s.step a with
      | none => True
      | some s' => s'.MeetsAll actions))

theorem run_guarded {actions : List (Action α)} (hmeets : s.MeetsAll actions)
    (hrun : s.run actions = some s') (hb : s.Balanced) (hg : s.Guarded) :
    s'.Balanced ∧ s'.Guarded := by
  induction actions generalizing s with
  | nil =>
    cases hrun
    exact ⟨hb, hg⟩
  | cons a actions ih =>
    obtain ⟨hfirst, hrest⟩ := hmeets
    rw [run, List.foldlM_cons] at hrun
    obtain ⟨middle, hstep, hrun⟩ := Option.bind_eq_some_iff.mp hrun
    rw [hstep] at hrest
    exact ih hrest hrun (hb.step hstep) (hg.step hb hfirst hstep)

/-- Nothing that was accepted is lost, and nothing is dropped without need. -/
structure Lossless (s : System α) : Prop where
  conserved : s.channel.closed = false → (∀ call dropping, s.phase ≠ .forwarding call dropping) →
    s.received ++ s.channel.queue ++ s.spill.buf = s.accepted
  counted : s.channel.closed = false → (∀ call dropping, s.phase ≠ .forwarding call dropping) →
    s.returns.length = s.accepted.length + s.spill.dropped
  bounded : s.spill.pending ≤ s.spill.maxPending
  dropped : ∀ r ∈ s.returns, r.2 = .droppedFull →
    r.1.pendingAt = s.spill.maxPending ∧ r.1.fullAt = true
  flushed : s.phase = .finished .flushed →
    s.received ++ s.channel.queue = s.accepted ∧ s.lastCheck = some false

theorem inHand_of_not_forwarding (h : ∀ call dropping, s.phase ≠ .forwarding call dropping) :
    s.inHand = [] := by
  unfold inHand
  split
  · exact absurd ‹_› (h _ _)
  · rfl

theorem inDrop_of_not_forwarding (h : ∀ call dropping, s.phase ≠ .forwarding call dropping) :
    s.inDrop = 0 := by
  unfold inDrop
  split
  · exact absurd ‹_› (h _ _)
  · rfl

theorem lossless_of_guarded (hb : s.Balanced) (hg : s.Guarded) : s.Lossless := by
  refine ⟨fun hopen hphase => ?_, fun hopen hphase => ?_, hb.bounded, hg.dropped, fun hf => ?_⟩
  · rw [hb.conserved (hb.kept hopen), inHand_of_not_forwarding hphase, List.append_nil]
  · have hall := hb.counted (hb.kept hopen)
    rw [inDrop_of_not_forwarding hphase] at hall
    omega
  · obtain ⟨hempty, hcheck⟩ := hg.flushed hf
    have hkept : s.Kept := hg.flushing (by simp [Flushing, hf])
    have hall := hb.conserved hkept
    rw [hempty, List.append_nil, inHand_of_not_forwarding (by simp [hf]), List.append_nil] at hall
    exact ⟨hall, hcheck⟩

/-- In every run whose steps meet the condition, every state is lossless. The count of the
drops is exact up to `usize::MAX`, where the counter of the source stays. -/
theorem run_lossless (maxPending capacity : ℕ) (actions : List (Action α))
    (hmeets : (init maxPending capacity : System α).MeetsAll actions)
    (hrun : (init maxPending capacity).run actions = some s') : s'.Lossless := by
  obtain ⟨hb, hg⟩ := run_guarded hmeets hrun (balanced_init maxPending capacity)
    (guarded_init maxPending capacity)
  exact lossless_of_guarded hb hg

/-- One payload is buffered behind a full channel and delivered by the flush. -/
theorem run_lossless_flushed :
    ∃ s, (init 1 1 : System ℕ).run [.accept 0, .forward, .forward, .accept 1, .forward, .receive,
        .flush, .check false, .poll false, .check false] = some s ∧
      s.phase = .finished .flushed ∧ s.Lossless := by
  refine ⟨_, rfl, rfl, run_lossless 1 1 [.accept 0, .forward, .forward, .accept 1, .forward,
    .receive, .flush, .check false, .poll false, .check false] ?_ rfl⟩
  decide

/-- With the buffer at the cap, the consumer has made room in the channel before the third
call, which is dropped nevertheless. And a call that finds the consumer gone loses a payload
that was accepted, so that the flush ends with an empty buffer. -/
theorem not_lossless :
    (∃ s, (init 1 1 : System ℕ).run [.accept 0, .forward, .forward, .accept 1, .forward, .receive,
        .accept 2, .forward, .forward] = some s ∧
      s.returns.getLast? = some (⟨2, 1, false⟩, .droppedFull) ∧ ¬s.Lossless) ∧
    ∃ s, (init 1 1 : System ℕ).run [.accept 0, .forward, .forward, .accept 1, .forward, .close,
        .accept 2, .forward, .flush, .check false] = some s ∧
      s.phase = .finished .flushed ∧ s.accepted = [0, 1] ∧ s.received ++ s.channel.queue = [0] ∧
      ¬s.Lossless := by
  refine ⟨⟨_, rfl, rfl, fun h => ?_⟩, _, rfl, rfl, rfl, rfl, fun h => ?_⟩
  · have hdropped := h.dropped (⟨2, 1, false⟩, .droppedFull) (List.mem_of_getLast? rfl) rfl
    exact absurd hdropped.2 (by simp)
  · have hflushed := (h.flushed rfl).1
    exact absurd hflushed (by decide)

/-! ### Calls nobody interrupts -/

def settled (s : System α) (call : Call α) (dropping : Bool) : System α :=
  let (buf, c, alive) := ReplySpill.tryFlush s.spill.buf s.channel
  let s' : System α := { s with channel := c, spill := { s.spill with buf := buf } }
  if alive then s'.returned call dropping else s'.lost call buf

theorem run_forward {call : Call α} {dropping : Bool} {buf : List α} (hbuf : s.spill.buf = buf)
    (hphase : s.phase = .forwarding call dropping) :
    ∃ n, s.run (List.replicate n .forward) = some (s.settled call dropping) := by
  induction buf generalizing s with
  | nil =>
    have hsame : ({ s.spill with buf := [] } : ReplySpill α) = s.spill := by rw [← hbuf]
    refine ⟨1, ?_⟩
    simp only [run, step, hphase, hbuf, settled, ReplySpill.tryFlush, hsame, List.replicate,
      List.foldlM_cons, List.foldlM_nil]
    rfl
  | cons x buf ih =>
    rcases trySend_cases s.channel x with ⟨hc, ht⟩ | ⟨hc, hf, ht⟩ | ⟨hc, hf, ht⟩
    · refine ⟨1, ?_⟩
      simp [run, step, hphase, hbuf, settled, ReplySpill.tryFlush, ht, lost]
    · have hsame : ({ s.spill with buf := x :: buf } : ReplySpill α) = s.spill := by rw [← hbuf]
      refine ⟨1, ?_⟩
      simp only [run, step, hphase, hbuf, settled, ReplySpill.tryFlush, ht, hsame, List.replicate,
        List.foldlM_cons, List.foldlM_nil]
      rfl
    · obtain ⟨n, hrun⟩ := ih (s := s.sent x buf s.phase) rfl hphase
      refine ⟨n + 1, ?_⟩
      have hstep : s.step .forward = some (s.sent x buf s.phase) := by
        simp [step, hphase, hbuf, ht, sent]
      rw [List.replicate_succ, run, List.foldlM_cons, hstep]
      refine hrun.trans ?_
      rw [settled, settled, hbuf]
      simp only [ReplySpill.tryFlush, ht]
      rfl

theorem run_accept (hphase : s.phase = .idle) (bytes : α) :
    ∃ n s' call outcome, s.run (.accept bytes :: List.replicate n .forward) = some s' ∧
      s'.phase = .idle ∧ s'.received = s.received ∧ s'.returns = s.returns ++ [(call, outcome)] ∧
      call.bytes = bytes ∧ s.spill.accept s.channel bytes = (s'.spill, s'.channel, outcome) := by
  by_cases hcap : s.spill.maxPending ≤ s.spill.buf.length
  · obtain ⟨n, hrun⟩ := run_forward (s := s.dropping bytes) rfl rfl
    have hstep : s.step (.accept bytes) = some (s.dropping bytes) := by
      simp [step, hphase, hcap, dropping, callOf]
    refine ⟨n, (s.dropping bytes).settled (s.callOf bytes) true, s.callOf bytes,
      if (ReplySpill.tryFlush s.spill.buf s.channel).2.2 then .droppedFull else .consumerGone,
      ?_, ?_⟩
    · rw [run, List.foldlM_cons, hstep]
      exact hrun
    · cases halive : (ReplySpill.tryFlush s.spill.buf s.channel).2.2 <;>
        simp [settled, dropping, ReplySpill.accept, hcap, halive, returned, lost, callOf]
  · obtain ⟨n, hrun⟩ := run_forward (s := s.buffering bytes) rfl rfl
    have hstep : s.step (.accept bytes) = some (s.buffering bytes) := by
      simp [step, hphase, hcap, buffering, callOf]
    refine ⟨n, (s.buffering bytes).settled (s.callOf bytes) false, s.callOf bytes,
      if (ReplySpill.tryFlush (s.spill.buf ++ [bytes]) s.channel).2.2 then .accepted
      else .consumerGone, ?_, ?_⟩
    · rw [run, List.foldlM_cons, hstep]
      exact hrun
    · cases halive : (ReplySpill.tryFlush (s.spill.buf ++ [bytes]) s.channel).2.2 <;>
        simp [settled, buffering, ReplySpill.accept, hcap, halive, returned, lost, callOf]

end Harmony.Transport.System
