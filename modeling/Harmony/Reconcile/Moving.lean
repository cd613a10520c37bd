import Harmony.Reconcile.Rounds

/-! A round between sources that change while the pull goes on: the responder answers from
what it holds then, and the requester reads the reply against what it holds by then. Sources
that answer alike take each other's place. -/

namespace Harmony.Reconcile

open Harmony.Lib RangeReconcileSource

/-! ### Sources that answer alike -/

section Alike

variable {σ τ : Type} [RangeReconcileSource σ] [RangeReconcileSource τ]

structure Alike (a : σ) (b : τ) : Prop where
  fingerprint : ∀ lo hi, rangeFingerprint a lo hi = rangeFingerprint b lo hi
  count : ∀ lo hi, rangeCount a lo hi = rangeCount b lo hi
  keys : ∀ lo hi, keysInRange a lo hi = keysInRange b lo hi
  split : ∀ lo hi, splitKey a lo hi = splitKey b lo hi

variable {sha256 : List Byte → ByteArr 32} {a : σ} {b : τ}

theorem Alike.digest (h : Alike a b) (lo hi : ReconcileKey) :
    digest sha256 a lo hi = digest sha256 b lo hi := by
  rw [Reconcile.digest, h.fingerprint]
  rfl

theorem Alike.respondRange (h : Alike a b) (lo : ReconcileKey) (out : List RbsrRange)
    (range : RbsrRange) : respondRange sha256 a lo out range = respondRange sha256 b lo out range := by
  unfold Reconcile.respondRange
  simp only [h.digest, h.count, h.keys, h.split]

theorem Alike.respond (h : Alike a b) (request : RbsrMessage) :
    respond sha256 request a = respond sha256 request b := by
  unfold Reconcile.respond
  simp only [h.respondRange]

theorem Alike.processRange (h : Alike a b) (st : ReplyState) (range : RbsrRange) :
    processRange sha256 a st range = processRange sha256 b st range := by
  unfold Reconcile.processRange
  simp only [h.digest, h.keys]

theorem Alike.processReply (h : Alike a b) (reply : RbsrMessage) :
    processReply sha256 reply a = processReply sha256 reply b := by
  unfold Reconcile.processReply
  rw [show Reconcile.processRange sha256 a = Reconcile.processRange sha256 b from
    funext fun st => funext (h.processRange st)]

theorem Alike.initialRequest (h : Alike a b) : initialRequest sha256 a = initialRequest sha256 b := by
  rw [Reconcile.initialRequest, h.digest]
  rfl

end Alike

/-! ### One round -/

def RbsrMessage.haveKeys (m : RbsrMessage) : List ReconcileKey :=
  m.ranges.flatMap fun r =>
    match r.mode with
    | .have keys => keys
    | _ => []

def Over (sps : List Span) (k : ReconcileKey) : Prop := ∃ sp ∈ sps, sp.lo ≤ k ∧ k < sp.hi

theorem mem_haveKeys {m : RbsrMessage} {k : ReconcileKey} :
    k ∈ m.haveKeys ↔ ∃ sp ∈ openSpans m.ranges, ∃ keys, sp.mode = .have keys ∧ k ∈ keys := by
  have hspans : ∀ (lo : ReconcileKey) (rs : List RbsrRange), (∃ r ∈ rs, ∃ keys,
      r.mode = .have keys ∧ k ∈ keys) ↔ ∃ sp ∈ spans lo rs, ∃ keys, sp.mode = .have keys ∧
        k ∈ keys := by
    intro lo rs
    induction rs generalizing lo with
    | nil => simp [spans]
    | cons r rs ih => rw [List.exists_mem_cons_iff, spans, List.exists_mem_cons_iff, ih]
  have hrange : ∀ r : RbsrRange, (k ∈ match r.mode with
      | .have keys => keys
      | _ => []) ↔ ∃ keys, r.mode = .have keys ∧ k ∈ keys := by
    intro r
    cases r.mode <;> simp
  rw [RbsrMessage.haveKeys, List.mem_flatMap]
  simp only [hrange, hspans minKey, openSpans, List.mem_filter, decide_eq_true_eq]
  constructor
  · rintro ⟨sp, hsp, keys, hmode, hk⟩
    exact ⟨sp, ⟨hsp, by simp [hmode]⟩, keys, hmode, hk⟩
  · rintro ⟨sp, ⟨hsp, -⟩, hkeys⟩
    exact ⟨sp, hsp, hkeys⟩

section Round

variable (sha256 : List Byte → ByteArr 32) {A B B' : SliceSource} {k : ReconcileKey}

/-- On the range, equal digests come from equal sets of keys. -/
def Telling {σ τ : Type} [RangeReconcileSource σ] [RangeReconcileSource τ] (a : σ) (b : τ)
    (sp : Span) : Prop :=
  digest sha256 a sp.lo sp.hi = digest sha256 b sp.lo sp.hi →
    keysInRange a sp.lo sp.hi = keysInRange b sp.lo sp.hi

variable {sha256}

theorem Telling.alike {σ τ σ' τ' : Type} [RangeReconcileSource σ] [RangeReconcileSource τ]
    [RangeReconcileSource σ'] [RangeReconcileSource τ'] {a : σ} {b : τ} {a' : σ'} {b' : τ'}
    {sp : Span} (h : Telling sha256 a b sp) (ha : Alike a a') (hb : Alike b b') :
    Telling sha256 a' b' sp := by
  intro hdigest
  rw [← ha.digest, ← hb.digest] at hdigest
  rw [← ha.keys, ← hb.keys]
  exact h hdigest

/-- The responder's keys in a range whose digest differs lie in what it answers: under a
`Have` that lists them, or under its own digest. -/
theorem answer_over {sp : Span} {fp : ByteArr 16} (hmode : sp.mode = .fingerprint fp)
    (hne : digest sha256 A sp.lo sp.hi ≠ fp) (hk : k ∈ keysInRange A sp.lo sp.hi) :
    ∃ sp' ∈ answer sha256 A sp, k ∈ keysInRange A sp'.lo sp'.hi ∧
      (sp'.mode = .have (keysInRange A sp'.lo sp'.hi) ∨
        sp'.mode = .fingerprint (digest sha256 A sp'.lo sp'.hi)) := by
  have hhave : ∃ sp' ∈ [(⟨sp.lo, sp.hi, .have (keysInRange A sp.lo sp.hi)⟩ : Span)],
      k ∈ keysInRange A sp'.lo sp'.hi ∧ (sp'.mode = .have (keysInRange A sp'.lo sp'.hi) ∨
        sp'.mode = .fingerprint (digest sha256 A sp'.lo sp'.hi)) :=
    ⟨_, List.mem_singleton_self _, hk, Or.inl rfl⟩
  unfold answer
  rw [hmode]
  dsimp only
  rw [if_neg hne]
  split
  · exact hhave
  · split
    · rename_i mid _
      split
      · rename_i hmid
        rw [keysInRange_append A hmid.1.le hmid.2.le, List.mem_append] at hk
        rcases hk with hk | hk
        · exact ⟨⟨sp.lo, mid, .fingerprint (digest sha256 A sp.lo mid)⟩, List.mem_cons_self, hk,
            Or.inr rfl⟩
        · exact ⟨⟨mid, sp.hi, .fingerprint (digest sha256 A mid sp.hi)⟩,
            List.mem_cons_of_mem _ List.mem_cons_self, hk, Or.inr rfl⟩
      · exact hhave
    · exact hhave

theorem haveKeys_respond {request : RbsrMessage} (h : k ∈ (respond sha256 request A).haveKeys) :
    k ∈ A.keys := by
  obtain ⟨sp', hsp', keys, hmode, hk⟩ := mem_haveKeys.mp h
  rw [respond_open] at hsp'
  obtain ⟨sp, -, hsp'⟩ := List.mem_flatMap.mp hsp'
  have hhave : sp' ∈ [(⟨sp.lo, sp.hi, .have (keysInRange A sp.lo sp.hi)⟩ : Span)] → k ∈ A.keys := by
    intro hsp'
    rw [List.mem_singleton.mp hsp'] at hmode
    cases hmode
    exact ((mem_keysInRange A).mp hk).1
  unfold answer at hsp'
  split at hsp'
  · split at hsp'
    · exact absurd hsp' List.not_mem_nil
    · split at hsp'
      · exact hhave hsp'
      · split at hsp'
        · split at hsp'
          · rw [List.mem_cons, List.mem_singleton] at hsp'
            rcases hsp' with rfl | rfl <;> cases hmode
          · exact hhave hsp'
        · exact hhave hsp'
  · exact absurd hsp' List.not_mem_nil

/-- A key of the responder under an open range of the request: the requester has it, is
handed it, or keeps a range open over it. `B` is what the requester held when it asked, and
`B'` what it holds when it reads the reply. -/
theorem round_settles {request : RbsrMessage}
    (hown : ∀ sp ∈ openSpans request.ranges, Own sha256 B sp)
    (hgrown : ∀ k ∈ B.keys, k ∈ B'.keys)
    (hasked : ∀ sp ∈ openSpans request.ranges, Telling sha256 A B sp)
    (htold : ∀ sp ∈ openSpans (respond sha256 request A).ranges, Telling sha256 A B' sp)
    (hk : k ∈ A.keys) (hover : Over (openSpans request.ranges) k) :
    k ∈ B'.keys ∨ k ∈ (respond sha256 request A).haveKeys ∨
      Over ((openSpans (respond sha256 request A).ranges).flatMap (retry sha256 B')) k := by
  obtain ⟨sp, hsp, hlo, hhi⟩ := hover
  have hkA : k ∈ keysInRange A sp.lo sp.hi := (mem_keysInRange A).mpr ⟨hk, hlo, hhi⟩
  by_cases heq : digest sha256 A sp.lo sp.hi = digest sha256 B sp.lo sp.hi
  · rw [hasked sp hsp heq] at hkA
    exact Or.inl (hgrown k ((mem_keysInRange B).mp hkA).1)
  obtain ⟨sp', hsp', hk', hmode⟩ := answer_over (hown sp hsp) heq hkA
  have hopen : sp' ∈ openSpans (respond sha256 request A).ranges := by
    rw [respond_open]
    exact List.mem_flatMap.mpr ⟨sp, hsp, hsp'⟩
  rcases hmode with hmode | hmode
  · exact Or.inr (Or.inl (mem_haveKeys.mpr ⟨sp', hopen, _, hmode, hk'⟩))
  by_cases heq' : digest sha256 A sp'.lo sp'.hi = digest sha256 B' sp'.lo sp'.hi
  · rw [htold sp' hopen heq'] at hk'
    exact Or.inl ((mem_keysInRange B').mp hk').1
  · refine Or.inr (Or.inr ⟨⟨sp'.lo, sp'.hi, .fingerprint (digest sha256 B' sp'.lo sp'.hi)⟩, ?_,
      ((mem_keysInRange A).mp hk').2⟩)
    refine List.mem_flatMap.mpr ⟨sp', hopen, ?_⟩
    rw [retry, hmode]
    dsimp only
    rw [if_neg (Ne.symm heq')]
    exact List.mem_singleton_self _

theorem next_own {reply next : RbsrMessage} (h : (processReply sha256 reply B').2 = some next) :
    openSpans next.ranges = (openSpans reply.ranges).flatMap (retry sha256 B') ∧
      ∀ sp ∈ openSpans next.ranges, Own sha256 B' sp := by
  have hopen := (processReply_open sha256 B' reply).2
  rw [h] at hopen
  refine ⟨hopen.1, fun sp hsp => ?_⟩
  rw [hopen.1] at hsp
  obtain ⟨sp', -, hsp'⟩ := List.mem_flatMap.mp hsp
  exact (retry_own sha256 B' hsp').1

/-- Whatever the requester holds by then, a round halves what the open ranges hold of the
responder, and leaves none of a leaf. -/
theorem next_count {request next : RbsrMessage} {n : ℕ}
    (hcount : ∀ sp ∈ openSpans request.ranges, rangeCount A sp.lo sp.hi ≤ leafThreshold * 2 ^ n)
    (h : (processReply sha256 (respond sha256 request A) B').2 = some next) :
    1 ≤ n ∧ ∀ sp ∈ openSpans next.ranges,
      rangeCount A sp.lo sp.hi ≤ leafThreshold * 2 ^ (n - 1) := by
  have hopen := (processReply_open sha256 B' (respond sha256 request A)).2
  rw [h] at hopen
  obtain ⟨hranges, hne⟩ := hopen
  rw [respond_open, List.flatMap_assoc] at hranges
  have hhalf : ∀ sp' ∈ openSpans next.ranges,
      1 ≤ n ∧ rangeCount A sp'.lo sp'.hi ≤ leafThreshold * 2 ^ (n - 1) := by
    intro sp' hsp'
    rw [hranges] at hsp'
    obtain ⟨sp, hsp, hin⟩ := List.mem_flatMap.mp hsp'
    exact retry_answer_count sha256 A B' (hcount sp hsp) hin
  obtain ⟨sp', hsp'⟩ := List.exists_mem_of_ne_nil _ hne
  exact ⟨(hhalf sp' hsp').1, fun sp hsp => (hhalf sp hsp).2⟩

theorem converged_open {reply : RbsrMessage} (h : (processReply sha256 reply B').2 = none) :
    (openSpans reply.ranges).flatMap (retry sha256 B') = [] := by
  have hopen := (processReply_open sha256 B' reply).2
  rw [h] at hopen
  exact hopen

end Round

end Harmony.Reconcile
