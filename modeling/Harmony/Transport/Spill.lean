import Mathlib

/-! The spill between the reply drain and a bounded engine channel. `accept` and the final
`flush` forward the buffer one send at a time, and the consumer may receive or go away
between any two of them. Counters are taken without saturation. -/

namespace Harmony.Transport

variable {α : Type}

/-! ### The channel -/

inductive TrySendError where
  | full
  | closed
deriving DecidableEq

/-- A bounded channel as its sender sees it. -/
structure Channel (α : Type) where
  capacity : ℕ
  queue : List α
  closed : Bool

namespace Channel

def full (c : Channel α) : Bool := c.capacity ≤ c.queue.length

/-- A closed channel is reported as closed even when it is full. -/
def trySend (c : Channel α) (x : α) : Except TrySendError (Channel α) :=
  if c.closed then .error .closed
  else if c.full then .error .full
  else .ok { c with queue := c.queue ++ [x] }

end Channel

/-! ### The spill -/

inductive AcceptOutcome where
  | accepted
  | droppedFull
  | consumerGone
deriving DecidableEq

inductive FlushOutcome where
  | flushed
  | consumerGone
  | shutdownAbandoned
deriving DecidableEq

structure ReplySpill (α : Type) where
  buf : List α
  maxPending : ℕ
  /-- a `usize` that stays at its maximum, which no run comes near -/
  dropped : ℕ
  peak : ℕ

namespace ReplySpill

def new (maxPending : ℕ) : ReplySpill α := ⟨[], maxPending, 0, 0⟩

def pending (s : ReplySpill α) : ℕ := s.buf.length

/-- The payload on which the channel turns out closed is gone. -/
def tryFlush : List α → Channel α → List α × Channel α × Bool
  | [], c => ([], c, true)
  | x :: buf, c =>
    match c.trySend x with
    | .ok c => tryFlush buf c
    | .error .full => (x :: buf, c, true)
    | .error .closed => (buf, c, false)

/-- `accept` with nobody else at the channel. -/
def accept (s : ReplySpill α) (c : Channel α) (bytes : α) :
    ReplySpill α × Channel α × AcceptOutcome :=
  if s.maxPending ≤ s.buf.length then
    let (buf, c, alive) := tryFlush s.buf c
    ({ s with buf := buf, dropped := s.dropped + 1, peak := max s.peak s.buf.length }, c,
      if alive then .droppedFull else .consumerGone)
  else
    let (buf, c, alive) := tryFlush (s.buf ++ [bytes]) c
    if alive then ({ s with buf := buf, peak := max s.peak buf.length }, c, .accepted)
    else ({ s with buf := buf }, c, .consumerGone)

end ReplySpill

/-! ### The spill and its consumer -/

/-- A call of `accept`, with what the spill and the channel were when it came. -/
structure Call (α : Type) where
  bytes : α
  pendingAt : ℕ
  fullAt : Bool
deriving DecidableEq

inductive Phase (α : Type) where
  | idle
  /-- in the loop of `try_flush`, behind a dropped or a buffered payload -/
  | forwarding (call : Call α) (dropping : Bool)
  /-- at the top of the loop of `flush` -/
  | checking
  /-- in the `select!` of `flush` -/
  | parked
  | finished (outcome : FlushOutcome)

structure System (α : Type) where
  spill : ReplySpill α
  channel : Channel α
  received : List α
  phase : Phase α
  returns : List (Call α × AcceptOutcome)
  lastCheck : Option Bool

inductive Action (α : Type) where
  | accept (bytes : α)
  | forward
  | receive
  | close
  | flush
  | check (closing : Bool)
  /-- `reserve` is polled before the timer -/
  | poll (timer : Bool)

namespace System

def init (maxPending capacity : ℕ) : System α where
  spill := .new maxPending
  channel := ⟨capacity, [], false⟩
  received := []
  phase := .idle
  returns := []
  lastCheck := none

/-- `accept` returns; the peak of the dropping branch was taken when the call came. -/
def returned (s : System α) (call : Call α) (dropping : Bool) : System α :=
  { s with
    phase := .idle
    spill := if dropping then s.spill
      else { s.spill with peak := max s.spill.peak s.spill.buf.length }
    returns := s.returns ++ [(call, if dropping then .droppedFull else .accepted)] }

def step (s : System α) : Action α → Option (System α)
  | .accept bytes =>
    match s.phase with
    | .idle =>
      let call : Call α := ⟨bytes, s.spill.buf.length, s.channel.full⟩
      if s.spill.maxPending ≤ s.spill.buf.length then
        some { s with
          spill := { s.spill with
            dropped := s.spill.dropped + 1
            peak := max s.spill.peak s.spill.buf.length }
          phase := .forwarding call true }
      else
        some { s with
          spill := { s.spill with buf := s.spill.buf ++ [bytes] }
          phase := .forwarding call false }
    | _ => none
  | .forward =>
    match s.phase, s.spill.buf with
    | .forwarding call dropping, [] => some (s.returned call dropping)
    | .forwarding call dropping, x :: buf =>
      match s.channel.trySend x with
      | .ok c => some { s with channel := c, spill := { s.spill with buf := buf } }
      | .error .full => some (s.returned call dropping)
      | .error .closed => some { s with
          spill := { s.spill with buf := buf }
          phase := .idle
          returns := s.returns ++ [(call, .consumerGone)] }
    | _, _ => none
  | .receive =>
    match s.channel.queue with
    | [] => none
    | x :: queue => some { s with
        channel := { s.channel with queue := queue }
        received := s.received ++ [x] }
  | .close => some { s with channel := { s.channel with closed := true } }
  | .flush =>
    match s.phase with
    | .idle => some { s with phase := .checking }
    | _ => none
  | .check closing =>
    match s.phase with
    | .checking =>
      if closing then
        some { s with phase := .finished .shutdownAbandoned, lastCheck := some closing }
      else if s.spill.buf.isEmpty then
        some { s with phase := .finished .flushed, lastCheck := some closing }
      else some { s with phase := .parked, lastCheck := some closing }
    | _ => none
  | .poll timer =>
    match s.phase, s.spill.buf with
    | .parked, x :: buf =>
      match s.channel.trySend x with
      | .ok c => some { s with
          channel := c, spill := { s.spill with buf := buf }, phase := .checking }
      | .error .full => some { s with phase := if timer then .checking else .parked }
      | .error .closed => some { s with phase := .finished .consumerGone }
    | _, _ => none

/-- One action after the other; an action that is not enabled ends the run. -/
def run (s : System α) (actions : List (Action α)) : Option (System α) := actions.foldlM step s

def accepted (s : System α) : List α :=
  (s.returns.filter (·.2 = .accepted)).map fun r => r.1.bytes

end System
end Harmony.Transport
