import Harmony.Lib.Checks
import Harmony.Reconcile.Source

/-! The messages of range-based reconciliation and the two halves that produce them.
A message partitions the universe of keys into consecutive half-open ranges; both
halves build the next partition from left to right, so what they preserve is stated
for a half-built one. -/

namespace Harmony.Reconcile

open Harmony.Lib RangeReconcileSource

inductive RbsrMode where
  | skip
  | fingerprint (fp : ByteArr 16)
  | «have» (keys : List ReconcileKey)
deriving DecidableEq

/-- The range from the upper bound of the range before it up to `upper`. -/
structure RbsrRange where
  upper : ReconcileKey
  mode : RbsrMode
deriving DecidableEq

structure RbsrMessage where
  version : ℕ
  ranges : List RbsrRange
deriving DecidableEq

inductive RbsrError where
  | decode
  | invalidVersion (version : ℕ)
  | invalidPartition
  | keyOutOfRange
  | nonCanonicalHave
deriving DecidableEq

/-- The check of one `Have` list; `prevHave` is the key before the ones left. -/
def validateHave (prev upper : ReconcileKey) :
    Option ReconcileKey → List ReconcileKey → Except RbsrError Unit
  | _, [] => .ok ()
  | prevHave, k :: ks => do
    ensure (decide ¬(k < prev ∨ upper ≤ k)) .keyOutOfRange
    ensure (decide (∀ p ∈ prevHave, ¬k ≤ p)) .nonCanonicalHave
    validateHave prev upper (some k) ks

def validateMode (prev : ReconcileKey) (r : RbsrRange) : Except RbsrError Unit :=
  match r.mode with
  | .have keys => validateHave prev r.upper none keys
  | _ => .ok ()

def validateRanges : ReconcileKey → List RbsrRange → Except RbsrError Unit
  | _, [] => .ok ()
  | prev, r :: rs => do
    ensure (decide ¬r.upper ≤ prev) .invalidPartition
    validateMode prev r
    -- the last range closes the universe
    ensure (decide ¬(rs = [] ∧ r.upper ≠ maxKey)) .invalidPartition
    validateRanges r.upper rs

def validateMessage (m : RbsrMessage) : Except RbsrError Unit := do
  ensure (decide (m.version = rbsrProtocolVersion)) (.invalidVersion m.version)
  ensure (decide (m.ranges ≠ [])) .invalidPartition
  validateRanges minKey m.ranges

/-- Appends a range; a `Skip` after a `Skip` only moves the bound of the latter. -/
def pushRange (out : List RbsrRange) (upper : ReconcileKey) (mode : RbsrMode) :
    List RbsrRange :=
  match out.getLast? with
  | some last =>
    if mode = .skip ∧ last.mode = .skip then out.dropLast ++ [{ last with upper }]
    else out ++ [⟨upper, mode⟩]
  | none => out ++ [⟨upper, mode⟩]

section Halves

variable {σ : Type} [RangeReconcileSource σ] (sha256 : List Byte → ByteArr 32)

/-- `source.range_fingerprint(lo, hi).finalize()`. -/
def digest (source : σ) (lo hi : ReconcileKey) : ByteArr 16 :=
  (rangeFingerprint source lo hi).finalize sha256

def initialRequest (source : σ) : RbsrMessage :=
  ⟨rbsrProtocolVersion, [⟨maxKey, .fingerprint (digest sha256 source minKey maxKey)⟩]⟩

/-- The arm of `respond` for one range `[lo, range.upper)` of the request. -/
def respondRange (source : σ) (lo : ReconcileKey) (out : List RbsrRange) (range : RbsrRange) :
    List RbsrRange :=
  let hi := range.upper
  match range.mode with
  | .fingerprint theirFp =>
    if digest sha256 source lo hi = theirFp then pushRange out hi .skip
    else if rangeCount source lo hi ≤ leafThreshold then
      pushRange out hi (.have (keysInRange source lo hi))
    else
      match splitKey source lo hi with
      | some mid =>
        if lo < mid ∧ mid < hi then
          pushRange (pushRange out mid (.fingerprint (digest sha256 source lo mid))) hi
            (.fingerprint (digest sha256 source mid hi))
        else pushRange out hi (.have (keysInRange source lo hi))
      | none => pushRange out hi (.have (keysInRange source lo hi))
  | .skip => pushRange out hi .skip
  | .have _ => pushRange out hi .skip

def respond (request : RbsrMessage) (source : σ) : RbsrMessage :=
  ⟨rbsrProtocolVersion,
    (request.ranges.foldl (fun (acc : List RbsrRange × ReconcileKey) range =>
      (respondRange sha256 source acc.2 acc.1 range, range.upper)) ([], minKey)).1⟩

structure ReplyState where
  missing : List ReconcileKey := []
  next : List RbsrRange := []
  anyMismatch : Bool := false
  lo : ReconcileKey := minKey

def processRange (source : σ) (st : ReplyState) (range : RbsrRange) : ReplyState :=
  let hi := range.upper
  match range.mode with
  | .skip => { st with next := pushRange st.next hi .skip, lo := hi }
  | .have keys =>
    { st with
      missing := st.missing ++ keys.filter fun k => decide (k ∉ keysInRange source st.lo hi)
      next := pushRange st.next hi .skip
      lo := hi }
  | .fingerprint theirFp =>
    let mine := digest sha256 source st.lo hi
    if mine = theirFp then { st with next := pushRange st.next hi .skip, lo := hi }
    else { st with next := pushRange st.next hi (.fingerprint mine), anyMismatch := true, lo := hi }

def processReply (reply : RbsrMessage) (source : σ) :
    List ReconcileKey × Option RbsrMessage :=
  let st := reply.ranges.foldl (processRange sha256 source) {}
  (st.missing, if st.anyMismatch then some ⟨rbsrProtocolVersion, st.next⟩ else none)

end Halves

/-! ### Well-formed partitions -/

/-- The keys of a `Have` range starting at `lo` ascend inside it. -/
def HaveOk (lo : ReconcileKey) (r : RbsrRange) : Prop :=
  ∀ keys, r.mode = .have keys → Ascending id keys ∧ ∀ k ∈ keys, lo ≤ k ∧ k < r.upper

/-- The ranges partition `[lo, hi)`. -/
def Covers : ReconcileKey → List RbsrRange → ReconcileKey → Prop
  | lo, [], hi => lo = hi
  | lo, r :: rs, hi => lo < r.upper ∧ HaveOk lo r ∧ Covers r.upper rs hi

theorem covers_append {lo hi : ReconcileKey} {rs rs' : List RbsrRange} :
    Covers lo (rs ++ rs') hi ↔ ∃ mid, Covers lo rs mid ∧ Covers mid rs' hi := by
  induction rs generalizing lo with
  | nil => simp [Covers]
  | cons r rs ih => simp only [List.cons_append, Covers, ih, and_assoc, exists_and_left]

theorem covers_singleton {lo hi : ReconcileKey} {r : RbsrRange} :
    Covers lo [r] hi ↔ lo < r.upper ∧ HaveOk lo r ∧ r.upper = hi := Iff.rfl

theorem haveOk_of_ne {lo : ReconcileKey} {r : RbsrRange} (h : ∀ keys, r.mode ≠ .have keys) :
    HaveOk lo r := fun keys hk => absurd hk (h keys)

theorem validateHave_ok {prev upper : ReconcileKey} {keys : List ReconcileKey}
    {prevHave : Option ReconcileKey} :
    validateHave prev upper prevHave keys = .ok () ↔
      Ascending id (prevHave.toList ++ keys) ∧ ∀ k ∈ keys, prev ≤ k ∧ k < upper := by
  induction keys generalizing prevHave with
  | nil => cases prevHave <;> simp [validateHave, Ascending]
  | cons k ks ih =>
    simp only [validateHave, bind_eq_ok, ensure_eq_ok, decide_eq_true_eq, exists_const, ih,
      not_or, not_lt, not_le, List.forall_mem_cons]
    cases prevHave with
    | none => simp [Ascending, and_left_comm]
    | some p =>
      have hchain : Ascending id (p :: k :: ks) ↔ p < k ∧ Ascending id (k :: ks) := by
        refine ⟨fun h => ⟨(List.pairwise_cons.mp h).1 k (by simp), (List.pairwise_cons.mp h).2⟩, ?_⟩
        rintro ⟨hpk, h⟩
        refine List.pairwise_cons.mpr ⟨fun b hb => ?_, h⟩
        rcases List.mem_cons.mp hb with rfl | hb
        · exact hpk
        · exact hpk.trans ((List.pairwise_cons.mp h).1 b hb)
      simp only [Option.mem_some_iff, forall_eq', Option.toList_some, List.singleton_append,
        hchain]
      tauto

theorem validateMode_ok {prev : ReconcileKey} {r : RbsrRange} {u : Unit} :
    validateMode prev r = .ok u ↔ HaveOk prev r := by
  cases u
  unfold validateMode HaveOk
  cases hm : r.mode with
  | skip => simp
  | fingerprint fp => simp
  | «have» keys => simp [validateHave_ok]

theorem validateRanges_ok {prev : ReconcileKey} {rs : List RbsrRange} (hne : rs ≠ []) :
    validateRanges prev rs = .ok () ↔ Covers prev rs maxKey := by
  induction rs generalizing prev with
  | nil => exact absurd rfl hne
  | cons r rs ih =>
    simp only [validateRanges, bind_eq_ok, ensure_eq_ok, decide_eq_true_eq, exists_const,
      validateMode_ok, not_le, Covers]
    refine and_congr_right fun _ => and_congr_right fun _ => ?_
    cases rs with
    | nil => simp [validateRanges, Covers]
    | cons r' rs => simp [ih]

theorem validateMessage_ok {m : RbsrMessage} :
    validateMessage m = .ok () ↔
      m.version = rbsrProtocolVersion ∧ m.ranges ≠ [] ∧ Covers minKey m.ranges maxKey := by
  simp only [validateMessage, bind_eq_ok, ensure_eq_ok, decide_eq_true_eq, exists_const]
  exact and_congr_right fun _ => and_congr_right fun hne => validateRanges_ok hne

/-- No two neighbouring ranges are both `Skip`. -/
def NoAdjacentSkip (rs : List RbsrRange) : Prop :=
  rs.IsChain fun a b => ¬(a.mode = .skip ∧ b.mode = .skip)

instance (rs : List RbsrRange) : Decidable (NoAdjacentSkip rs) :=
  inferInstanceAs (Decidable (List.IsChain _ rs))

/-- A half-built partition of `[minKey, hi)`. -/
structure Built (out : List RbsrRange) (hi : ReconcileKey) : Prop where
  covers : Covers minKey out hi
  noSkip : NoAdjacentSkip out

theorem Built.nil : Built [] minKey := ⟨rfl, .nil⟩

theorem Built.push {out : List RbsrRange} {lo upper : ReconcileKey} {mode : RbsrMode}
    (h : Built out lo) (hlt : lo < upper) (hm : HaveOk lo ⟨upper, mode⟩) :
    Built (pushRange out upper mode) upper := by
  have hplain : Covers minKey (out ++ [⟨upper, mode⟩]) upper :=
    covers_append.mpr ⟨lo, h.covers, covers_singleton.mpr ⟨hlt, hm, rfl⟩⟩
  unfold pushRange
  rcases List.eq_nil_or_concat' out with rfl | ⟨init, last, rfl⟩
  · exact ⟨hplain, .singleton _⟩
  · rw [List.getLast?_concat]
    obtain ⟨mid, hinit, hlast⟩ := covers_append.mp h.covers
    obtain ⟨hmid, -, rfl⟩ := covers_singleton.mp hlast
    dsimp only
    split
    · -- the previous range is a `Skip` too: its upper bound moves
      rename_i hs
      rw [List.dropLast_concat]
      refine ⟨covers_append.mpr ⟨mid, hinit, covers_singleton.mpr ⟨hmid.trans hlt, ?_, rfl⟩⟩, ?_⟩
      · exact haveOk_of_ne (by simp [hs.2])
      · have := h.noSkip
        rw [NoAdjacentSkip, List.isChain_append] at this ⊢
        refine ⟨this.1, .singleton _, fun a ha b hb => ?_⟩
        obtain rfl : b = { last with upper } := by simpa using hb.symm
        exact this.2.2 a ha last (by simp)
    · rename_i hs
      refine ⟨hplain, List.isChain_append.mpr ⟨h.noSkip, .singleton _, fun a ha b hb => ?_⟩⟩
      obtain rfl : last = a := by simpa using ha
      obtain rfl : b = ⟨upper, mode⟩ := by simpa using hb.symm
      exact fun hab => hs ⟨hab.2, hab.1⟩

theorem Built.pushSkip {out : List RbsrRange} {lo upper : ReconcileKey} (h : Built out lo)
    (hlt : lo < upper) : Built (pushRange out upper .skip) upper :=
  h.push hlt (haveOk_of_ne (by simp))

theorem Built.pushFingerprint {out : List RbsrRange} {lo upper : ReconcileKey} (h : Built out lo)
    (hlt : lo < upper) (fp : ByteArr 16) : Built (pushRange out upper (.fingerprint fp)) upper :=
  h.push hlt (haveOk_of_ne (by simp))

theorem Built.valid {out : List RbsrRange} (h : Built out maxKey) :
    validateMessage ⟨rbsrProtocolVersion, out⟩ = .ok () := by
  refine validateMessage_ok.mpr ⟨rfl, ?_, h.covers⟩
  rintro rfl
  exact minKey_lt_maxKey.ne h.covers

section Halves

variable {σ : Type} [RangeReconcileSource σ]

/-- The source lists the keys of a range strictly ascending and inside the range. -/
structure ListsInOrder (source : σ) : Prop where
  ascending : ∀ lo hi, Ascending id (keysInRange source lo hi)
  bounded : ∀ lo hi, ∀ k ∈ keysInRange source lo hi, lo ≤ k ∧ k < hi

theorem ListsInOrder.haveOk {source : σ} (hs : ListsInOrder source) (lo hi : ReconcileKey) :
    HaveOk lo ⟨hi, .have (keysInRange source lo hi)⟩ := by
  intro keys hk
  obtain rfl : keysInRange source lo hi = keys := by simpa using hk
  exact ⟨hs.ascending lo hi, hs.bounded lo hi⟩

theorem SliceSource.listsInOrder (s : SliceSource) : ListsInOrder s where
  ascending lo hi := by
    have h := s.ascending.within lo hi
    rw [← slice_eq_within s.ascending] at h
    exact List.pairwise_map.mpr h
  bounded lo hi k hk := by
    obtain ⟨x, hx, rfl⟩ := List.mem_map.mp hk
    rw [SliceSource.slice, slice_eq_within s.ascending] at hx
    exact (mem_within.mp hx).2

variable (sha256 : List Byte → ByteArr 32) {source : σ}

theorem respondRange_built (hs : ListsInOrder source) {out : List RbsrRange} {lo : ReconcileKey}
    {range : RbsrRange} (h : Built out lo) (hlt : lo < range.upper) :
    Built (respondRange sha256 source lo out range) range.upper := by
  have hhave := h.push hlt (hs.haveOk lo range.upper)
  unfold respondRange
  cases range.mode with
  | skip => exact h.pushSkip hlt
  | «have» keys => exact h.pushSkip hlt
  | fingerprint theirFp =>
    dsimp only
    split
    · exact h.pushSkip hlt
    · split
      · exact hhave
      · split
        · split
          · rename_i hmid
            exact (h.pushFingerprint hmid.1 _).pushFingerprint hmid.2 _
          · exact hhave
        · exact hhave

theorem respond_built (hs : ListsInOrder source) {rs : List RbsrRange} {out : List RbsrRange}
    {lo hi : ReconcileKey} (h : Built out lo) (hc : Covers lo rs hi) :
    Built (rs.foldl (fun (acc : List RbsrRange × ReconcileKey) range =>
      (respondRange sha256 source acc.2 acc.1 range, range.upper)) (out, lo)).1 hi := by
  induction rs generalizing out lo with
  | nil =>
    obtain rfl : lo = hi := hc
    exact h
  | cons r rs ih => exact ih (respondRange_built sha256 hs h hc.1) hc.2.2

theorem processRange_built (source : σ) {st : ReplyState} {range : RbsrRange} (h : Built st.next st.lo)
    (hlt : st.lo < range.upper) :
    Built (processRange sha256 source st range).next range.upper ∧
      (processRange sha256 source st range).lo = range.upper := by
  unfold processRange
  cases range.mode with
  | skip => exact ⟨h.pushSkip hlt, rfl⟩
  | «have» keys => exact ⟨h.pushSkip hlt, rfl⟩
  | fingerprint theirFp =>
    dsimp only
    split
    · exact ⟨h.pushSkip hlt, rfl⟩
    · exact ⟨h.pushFingerprint hlt _, rfl⟩

theorem processReply_built (source : σ) {rs : List RbsrRange} {st : ReplyState} {hi : ReconcileKey}
    (h : Built st.next st.lo) (hc : Covers st.lo rs hi) :
    Built (rs.foldl (processRange sha256 source) st).next hi := by
  induction rs generalizing st with
  | nil =>
    obtain rfl : st.lo = hi := hc
    exact h
  | cons r rs ih =>
    obtain ⟨hb, hlo⟩ := processRange_built sha256 source h hc.1
    exact ih (hlo ▸ hb) (hlo ▸ hc.2.2)

/-- Messages that parties whose sources list their keys in order can come to send. -/
inductive Exchanged : RbsrMessage → Prop
  | initial {σ : Type} [RangeReconcileSource σ] {source : σ} (hs : ListsInOrder source) :
      Exchanged (initialRequest sha256 source)
  | reply {σ : Type} [RangeReconcileSource σ] {source : σ} (hs : ListsInOrder source)
      {request : RbsrMessage} (h : Exchanged request) : Exchanged (respond sha256 request source)
  | next {σ : Type} [RangeReconcileSource σ] {source : σ} (hs : ListsInOrder source)
      {reply request : RbsrMessage} (h : Exchanged reply)
      (hn : (processReply sha256 reply source).2 = some request) : Exchanged request

theorem initialRequest_valid (source : σ) :
    validateMessage (initialRequest sha256 source) = .ok () :=
  (Built.nil.pushFingerprint minKey_lt_maxKey _).valid

theorem respond_valid (hs : ListsInOrder source) {m : RbsrMessage}
    (hm : validateMessage m = .ok ()) :
    validateMessage (respond sha256 m source) = .ok () ∧
      NoAdjacentSkip (respond sha256 m source).ranges := by
  have hb := respond_built sha256 hs Built.nil (validateMessage_ok.mp hm).2.2
  exact ⟨hb.valid, hb.noSkip⟩

theorem processReply_valid (source : σ) {m next : RbsrMessage} (hm : validateMessage m = .ok ())
    (hn : (processReply sha256 m source).2 = some next) :
    validateMessage next = .ok () ∧ NoAdjacentSkip next.ranges := by
  have hb : Built (m.ranges.foldl (processRange sha256 source) {}).next maxKey :=
    processReply_built sha256 source Built.nil (validateMessage_ok.mp hm).2.2
  simp only [processReply, Option.ite_none_right_eq_some, Option.some.injEq] at hn
  obtain ⟨-, rfl⟩ := hn
  exact ⟨hb.valid, hb.noSkip⟩

theorem Exchanged.valid {m : RbsrMessage} (h : Exchanged sha256 m) :
    validateMessage m = .ok () := by
  induction h with
  | initial hs => exact initialRequest_valid sha256 _
  | reply hs _ ih => exact (respond_valid sha256 hs ih).1
  | next hs _ hn ih => exact (processReply_valid sha256 _ ih hn).1

/-- Each half turns a valid message into a valid one without adjacent `Skip`s, so a
run between honest parties never produces a message that is rejected. -/
theorem messages_stay_valid (hs : ListsInOrder source) :
    validateMessage (initialRequest sha256 source) = .ok () ∧
    (∀ m, validateMessage m = .ok () →
      (validateMessage (respond sha256 m source) = .ok () ∧
        NoAdjacentSkip (respond sha256 m source).ranges) ∧
      ∀ next, (processReply sha256 m source).2 = some next →
        validateMessage next = .ok () ∧ NoAdjacentSkip next.ranges) ∧
    ∀ m, Exchanged sha256 m → validateMessage m = .ok () :=
  ⟨initialRequest_valid sha256 source,
    fun _ hm => ⟨respond_valid sha256 hs hm, fun _ hn => processReply_valid sha256 source hm hn⟩,
    fun _ h => h.valid⟩

end Halves

/-- The key of the `n`th event, with a hash of one byte over and over. -/
def sampleKey (n : ℕ) : ReconcileKey := ⟨Fin.ofNat _ n, 0, "d", .replicate 32 (Fin.ofNat 256 n)⟩

/-- Eighteen events. -/
def sampleLog : VotingReconcileSource := .fromEvents sampleKey (List.range' 1 18)

/-- The first nine of them, and one more. -/
def sampleSibling : VotingReconcileSource := .fromEvents sampleKey (List.range' 1 9 ++ [20])

/-- SHA-256 on what is hashed in a pull between the two. -/
def sampleSha256 (input : List Byte) : ByteArr 32 :=
  if input = List.replicate 33 0 then
    ⟨[127, 156, 158, 49, 172, 130, 86, 202, 47, 37, 133, 131, 223, 38, 45, 188, 125, 111, 104,
      242, 160, 48, 67, 213, 201, 154, 74, 229, 167, 57, 108, 233], rfl⟩
  else if input = List.replicate 32 171 ++ [18] then
    ⟨[147, 151, 104, 58, 133, 198, 181, 241, 33, 216, 78, 34, 253, 207, 95, 115, 186, 161, 225,
      98, 232, 136, 159, 209, 226, 40, 146, 244, 124, 113, 0, 226], rfl⟩
  else if input = List.replicate 32 65 ++ [10] then
    ⟨[86, 146, 174, 253, 4, 185, 219, 140, 197, 76, 189, 6, 239, 145, 224, 228, 39, 186, 222,
      225, 31, 244, 107, 45, 92, 106, 182, 195, 23, 62, 215, 113], rfl⟩
  else if input = List.replicate 32 45 ++ [9] then
    ⟨[235, 155, 244, 83, 183, 173, 135, 77, 202, 59, 84, 212, 247, 88, 95, 66, 29, 92, 184, 85,
      217, 107, 137, 5, 146, 42, 193, 107, 218, 252, 31, 115], rfl⟩
  else if input = List.replicate 32 126 ++ [9] then
    ⟨[152, 86, 186, 143, 201, 31, 41, 95, 113, 141, 52, 52, 142, 183, 136, 167, 102, 206, 247,
      127, 157, 143, 251, 93, 92, 65, 162, 6, 79, 133, 113, 243], rfl⟩
  else if input = List.replicate 32 20 ++ [1] then
    ⟨[185, 35, 115, 225, 227, 51, 172, 133, 7, 137, 57, 233, 6, 170, 34, 220, 182, 65, 229, 131,
      207, 242, 182, 21, 190, 68, 99, 28, 99, 91, 116, 233], rfl⟩
  else 0

/-- The reply falls into two ranges. -/
theorem messages_stay_valid_halving :
    let reply := respond sampleSha256 (initialRequest sampleSha256 sampleSibling) sampleLog
    reply.ranges.length = 2 ∧
    (validateMessage reply = .ok () ∧ NoAdjacentSkip reply.ranges) ∧
    ∀ next, (processReply sampleSha256 reply sampleSibling).2 = some next →
      validateMessage next = .ok () ∧ NoAdjacentSkip next.ranges := by
  intro reply
  obtain ⟨hinitial, hhalves, -⟩ :=
    messages_stay_valid sampleSha256 (SliceSource.listsInOrder sampleSibling)
  obtain ⟨-, hresponds, -⟩ := messages_stay_valid sampleSha256 (SliceSource.listsInOrder sampleLog)
  have hreply := (hresponds _ hinitial).1
  exact ⟨by decide +kernel, hreply, (hhalves reply hreply.1).2⟩

end Harmony.Reconcile
