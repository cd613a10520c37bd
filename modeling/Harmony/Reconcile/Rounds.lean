import Harmony.Reconcile.Message

/-! A pull between two sources. Coalescing hides which range a `Skip` came from, so
a message is read through its open ranges: the ones that are not `Skip`. One round
answers each open range of a request on its own, and what an open range still owes
is either handed over in that round or owed by the ranges it leaves open. -/

namespace Harmony.Reconcile

open Harmony.Lib RangeReconcileSource

structure Span where
  lo : ReconcileKey
  hi : ReconcileKey
  mode : RbsrMode

def spans : ReconcileKey → List RbsrRange → List Span
  | _, [] => []
  | lo, r :: rs => ⟨lo, r.upper, r.mode⟩ :: spans r.upper rs

def RbsrMessage.spans (m : RbsrMessage) : List Span := Reconcile.spans minKey m.ranges

def endOf (lo : ReconcileKey) (rs : List RbsrRange) : ReconcileKey :=
  (rs.getLast?.map RbsrRange.upper).getD lo

def openSpans (rs : List RbsrRange) : List Span :=
  (spans minKey rs).filter fun sp => decide (sp.mode ≠ .skip)

def openSpan (sp : Span) : List Span := if sp.mode = .skip then [] else [sp]

theorem spans_concat (lo : ReconcileKey) (rs : List RbsrRange) (r : RbsrRange) :
    spans lo (rs ++ [r]) = spans lo rs ++ [⟨endOf lo rs, r.upper, r.mode⟩] := by
  induction rs generalizing lo with
  | nil => rfl
  | cons a rs ih =>
    have hend : endOf a.upper rs = endOf lo (a :: rs) := by
      unfold endOf
      cases rs <;> simp [List.getLast?_cons]
    simp only [List.cons_append, spans, ih, hend]

theorem openSpans_concat (rs : List RbsrRange) (r : RbsrRange) :
    openSpans (rs ++ [r]) = openSpans rs ++ openSpan ⟨endOf minKey rs, r.upper, r.mode⟩ := by
  unfold openSpans openSpan
  rw [spans_concat, List.filter_append]
  by_cases h : r.mode = .skip <;> simp [h]

@[simp] theorem endOf_pushRange (out : List RbsrRange) (upper : ReconcileKey) (mode : RbsrMode) :
    endOf minKey (pushRange out upper mode) = upper := by
  unfold pushRange endOf
  split
  · split <;> simp
  · simp

@[simp] theorem openSpans_pushRange (out : List RbsrRange) (upper : ReconcileKey)
    (mode : RbsrMode) :
    openSpans (pushRange out upper mode) =
      openSpans out ++ openSpan ⟨endOf minKey out, upper, mode⟩ := by
  unfold pushRange
  rcases List.eq_nil_or_concat' out with rfl | ⟨init, last, rfl⟩
  · exact openSpans_concat [] ⟨upper, mode⟩
  · rw [List.getLast?_concat]
    dsimp only
    split
    · rename_i h
      rw [List.dropLast_concat, openSpans_concat, openSpans_concat]
      simp [openSpan, h]
    · exact openSpans_concat _ ⟨upper, mode⟩

section Halves

variable (sha256 : List Byte → ByteArr 32) (A B : SliceSource)

/-- The ranges the responder opens for one range of the request. -/
def answer (sp : Span) : List Span :=
  match sp.mode with
  | .fingerprint theirFp =>
    if digest sha256 A sp.lo sp.hi = theirFp then []
    else if rangeCount A sp.lo sp.hi ≤ leafThreshold then
      [⟨sp.lo, sp.hi, .have (keysInRange A sp.lo sp.hi)⟩]
    else
      match splitKey A sp.lo sp.hi with
      | some mid =>
        if sp.lo < mid ∧ mid < sp.hi then
          [⟨sp.lo, mid, .fingerprint (digest sha256 A sp.lo mid)⟩,
            ⟨mid, sp.hi, .fingerprint (digest sha256 A mid sp.hi)⟩]
        else [⟨sp.lo, sp.hi, .have (keysInRange A sp.lo sp.hi)⟩]
      | none => [⟨sp.lo, sp.hi, .have (keysInRange A sp.lo sp.hi)⟩]
  | _ => []

def lacking (sp : Span) : List ReconcileKey :=
  match sp.mode with
  | .have keys => keys.filter fun k => decide (k ∉ keysInRange B sp.lo sp.hi)
  | _ => []

def retry (sp : Span) : List Span :=
  match sp.mode with
  | .fingerprint theirFp =>
    if digest sha256 B sp.lo sp.hi = theirFp then []
    else [⟨sp.lo, sp.hi, .fingerprint (digest sha256 B sp.lo sp.hi)⟩]
  | _ => []

theorem respondRange_open (out : List RbsrRange) (range : RbsrRange) :
    openSpans (respondRange sha256 A (endOf minKey out) out range) =
        openSpans out ++ answer sha256 A ⟨endOf minKey out, range.upper, range.mode⟩ ∧
      endOf minKey (respondRange sha256 A (endOf minKey out) out range) = range.upper := by
  unfold respondRange answer
  cases range.mode with
  | skip => simp [openSpan]
  | «have» keys => simp [openSpan]
  | fingerprint theirFp =>
    dsimp only
    split
    · simp [openSpan]
    · split
      · simp [openSpan]
      · cases splitKey A (endOf minKey out) range.upper with
        | none => simp [openSpan]
        | some mid =>
          dsimp only
          split <;> simp [openSpan]

theorem flatMap_openSpans {β : Type} (f : Span → List β) (hf : ∀ sp, sp.mode = .skip → f sp = [])
    (rs : List RbsrRange) : (spans minKey rs).flatMap f = (openSpans rs).flatMap f := by
  unfold openSpans
  induction spans minKey rs with
  | nil => rfl
  | cons sp l ih =>
    rw [List.flatMap_cons, List.filter_cons, ih]
    by_cases h : sp.mode = .skip <;> simp [h, hf]

theorem respond_open (request : RbsrMessage) :
    openSpans (respond sha256 request A).ranges =
      (openSpans request.ranges).flatMap (answer sha256 A) := by
  have hfold : ∀ (rs out : List RbsrRange),
      openSpans (rs.foldl (fun (acc : List RbsrRange × ReconcileKey) range =>
          (respondRange sha256 A acc.2 acc.1 range, range.upper)) (out, endOf minKey out)).1 =
        openSpans out ++ (spans (endOf minKey out) rs).flatMap (answer sha256 A) := by
    intro rs
    induction rs with
    | nil => simp [spans]
    | cons r rs ih =>
      intro out
      obtain ⟨hopen, hend⟩ := respondRange_open sha256 A out r
      have := ih (respondRange sha256 A (endOf minKey out) out r)
      rw [hend] at this
      rw [List.foldl_cons, this, hopen, spans, List.flatMap_cons, List.append_assoc]
  rw [← flatMap_openSpans _ (fun sp h => by simp [answer, h])]
  exact hfold request.ranges []

theorem processRange_open (st : ReplyState) (hlo : st.lo = endOf minKey st.next)
    (range : RbsrRange) :
    let sp : Span := ⟨st.lo, range.upper, range.mode⟩
    let st' := processRange sha256 B st range
    st'.missing = st.missing ++ lacking B sp ∧
      openSpans st'.next = openSpans st.next ++ retry sha256 B sp ∧
      (st'.anyMismatch = true ↔ st.anyMismatch = true ∨ retry sha256 B sp ≠ []) ∧
      st'.lo = range.upper ∧ st'.lo = endOf minKey st'.next := by
  unfold processRange lacking retry
  cases range.mode with
  | skip => simp [openSpan]
  | «have» keys => simp [openSpan]
  | fingerprint theirFp =>
    dsimp only
    split
    · simp [openSpan]
    · simp [openSpan, hlo]

theorem processReply_fold (rs : List RbsrRange) (st : ReplyState)
    (hlo : st.lo = endOf minKey st.next) :
    let st' := rs.foldl (processRange sha256 B) st
    st'.missing = st.missing ++ (spans st.lo rs).flatMap (lacking B) ∧
      openSpans st'.next = openSpans st.next ++ (spans st.lo rs).flatMap (retry sha256 B) ∧
      (st'.anyMismatch = true ↔
        st.anyMismatch = true ∨ (spans st.lo rs).flatMap (retry sha256 B) ≠ []) := by
  induction rs generalizing st with
  | nil => simp [spans]
  | cons r rs ih =>
    obtain ⟨hmiss, hopen, hany, hr, hend⟩ := processRange_open sha256 B st hlo r
    obtain ⟨hmiss', hopen', hany'⟩ := ih _ hend
    rw [hr] at hmiss' hopen' hany'
    refine ⟨?_, ?_, ?_⟩
    · rw [List.foldl_cons, hmiss', hmiss, spans, List.flatMap_cons, List.append_assoc]
    · rw [List.foldl_cons, hopen', hopen, spans, List.flatMap_cons, List.append_assoc]
    · rw [List.foldl_cons, hany', hany, spans, List.flatMap_cons, or_assoc, ne_eq, ne_eq, ne_eq,
        List.append_eq_nil_iff, not_and_or]

/-- The requester takes what it lacks from the open ranges of the reply and goes on
exactly when it keeps one of them open. -/
theorem processReply_open (reply : RbsrMessage) :
    (processReply sha256 reply B).1 = (openSpans reply.ranges).flatMap (lacking B) ∧
      match (processReply sha256 reply B).2 with
      | none => (openSpans reply.ranges).flatMap (retry sha256 B) = []
      | some next => openSpans next.ranges = (openSpans reply.ranges).flatMap (retry sha256 B) ∧
          openSpans next.ranges ≠ [] := by
  obtain ⟨hmiss, hopen, hany⟩ := processReply_fold sha256 B reply.ranges {} rfl
  rw [flatMap_openSpans _ (fun sp h => by simp [lacking, h])] at hmiss
  rw [flatMap_openSpans _ (fun sp h => by simp [retry, h])] at hopen hany
  refine ⟨hmiss, ?_⟩
  unfold processReply
  dsimp only
  by_cases hnil : (openSpans reply.ranges).flatMap (retry sha256 B) = []
  · rw [if_neg (by rw [hany]; simp [hnil])]
    exact hnil
  · rw [if_pos (hany.mpr (Or.inr hnil))]
    exact ⟨hopen, fun h => hnil (hopen.symm.trans h)⟩

end Halves

section Slices

variable (s : SliceSource) {lo mid hi : ReconcileKey}

theorem keysInRange_eq (lo hi : ReconcileKey) :
    keysInRange s lo hi = (within Prod.fst lo hi s.entries).map Prod.fst := by
  rw [← slice_eq_within s.ascending]
  rfl

theorem rangeCount_eq (lo hi : ReconcileKey) :
    rangeCount s lo hi = (within Prod.fst lo hi s.entries).length := by
  rw [← slice_eq_within s.ascending]
  rfl

theorem mem_keysInRange {k : ReconcileKey} :
    k ∈ keysInRange s lo hi ↔ k ∈ s.keys ∧ lo ≤ k ∧ k < hi := by
  rw [keysInRange_eq, SliceSource.keys, List.mem_map, List.mem_map]
  constructor
  · rintro ⟨x, hx, rfl⟩
    obtain ⟨hmem, hb⟩ := mem_within.mp hx
    exact ⟨⟨x, hmem, rfl⟩, hb⟩
  · rintro ⟨⟨x, hx, rfl⟩, hb⟩
    exact ⟨x, mem_within.mpr ⟨hx, hb⟩, rfl⟩

theorem keysInRange_append (hlo : lo ≤ mid) (hhi : mid ≤ hi) :
    keysInRange s lo hi = keysInRange s lo mid ++ keysInRange s mid hi := by
  rw [keysInRange_eq, keysInRange_eq, keysInRange_eq, within_append s.ascending hlo hhi,
    List.map_append]

theorem keys_nodup : s.keys.Nodup := s.ascending.keyNodup

theorem splitKey_halves (h : 2 ≤ rangeCount s lo hi) :
    ∃ mid, splitKey s lo hi = some mid ∧ lo < mid ∧ mid < hi ∧
      rangeCount s lo mid = rangeCount s lo hi / 2 ∧
      rangeCount s mid hi = rangeCount s lo hi - rangeCount s lo hi / 2 := by
  have hslice : s.slice lo hi = within Prod.fst lo hi s.entries := slice_eq_within s.ascending lo hi
  rw [rangeCount_eq] at h ⊢
  set w := within Prod.fst lo hi s.entries
  have hlt : w.length / 2 < w.length := by omega
  have hcut : w = w.take (w.length / 2) ++ w[w.length / 2] :: w.drop (w.length / 2 + 1) := by
    rw [← List.drop_eq_getElem_cons hlt, List.take_append_drop]
  obtain ⟨-, hhi, hleft, hright⟩ := within_cut s.ascending hcut
  refine ⟨w[w.length / 2].1, ?_, ?_, hhi, ?_, ?_⟩
  · change (if (s.slice lo hi).length < 2 then none
      else ((s.slice lo hi)[(s.slice lo hi).length / 2]?).map Prod.fst) = _
    rw [hslice, if_neg (by omega), List.getElem?_eq_getElem hlt, Option.map_some]
  · -- the first key of the range lies before the middle one
    obtain ⟨x, l, hx⟩ : ∃ x l, w.take (w.length / 2) = x :: l := by
      refine List.exists_cons_of_length_pos ?_
      rw [List.length_take]
      omega
    have hmem : x ∈ within Prod.fst lo w[w.length / 2].1 s.entries := by
      rw [hleft, hx]
      exact List.mem_cons_self
    obtain ⟨-, hxlo, hxhi⟩ := mem_within.mp hmem
    exact hxlo.trans_lt hxhi
  · rw [rangeCount_eq, hleft, List.length_take]
    omega
  · rw [rangeCount_eq, hright, List.length_cons, List.length_drop]
    omega

end Slices

section Run

variable (sha256 : List Byte → ByteArr 32) (A B : SliceSource)

/-- The pull loop: the rounds it takes and the keys it acquires, if it ends within
`fuel` rounds. -/
def reconcile : ℕ → RbsrMessage → Option (ℕ × List ReconcileKey)
  | 0, _ => none
  | fuel + 1, request =>
    match processReply sha256 (respond sha256 request A) B with
    | (missing, none) => some (1, missing)
    | (missing, some next) =>
      (reconcile fuel next).map fun (rounds, acquired) => (rounds + 1, missing ++ acquired)

theorem reconcile_of_le {fuel : ℕ} {request : RbsrMessage} {r : ℕ × List ReconcileKey}
    (h : reconcile sha256 A B fuel request = some r) (fuel' : ℕ) (hle : fuel ≤ fuel') :
    reconcile sha256 A B fuel' request = some r := by
  induction fuel generalizing fuel' request r with
  | zero => cases h
  | succ fuel ih =>
    obtain ⟨fuel', rfl⟩ := Nat.exists_eq_add_of_le' (Nat.zero_lt_of_lt hle)
    rw [reconcile] at h ⊢
    cases hr : processReply sha256 (respond sha256 request A) B with
    | mk missing next =>
      rw [hr] at h
      cases next with
      | none => exact h
      | some next =>
        obtain ⟨rest, hrest, rfl⟩ := Option.map_eq_some_iff.mp h
        exact Option.map_eq_some_iff.mpr ⟨rest, ih hrest fuel' (by omega), rfl⟩

/-- The requests of the run. -/
inductive Reached : RbsrMessage → Prop
  | initial : Reached (initialRequest sha256 B)
  | next {request next : RbsrMessage} (h : Reached request)
      (hn : (processReply sha256 (respond sha256 request A) B).2 = some next) : Reached next

/-- On the ranges of the run, equal digests come from equal sets of keys. -/
def NoCollision : Prop :=
  ∀ request, Reached sha256 A B request →
    ∀ sp ∈ openSpans request.ranges ++ openSpans (respond sha256 request A).ranges,
      digest sha256 A sp.lo sp.hi = digest sha256 B sp.lo sp.hi →
        keysInRange A sp.lo sp.hi = keysInRange B sp.lo sp.hi

def owed (lo hi : ReconcileKey) : List ReconcileKey :=
  (keysInRange A lo hi).filter fun k => decide (k ∉ B.keys)

theorem owed_eq_lacking (lo hi : ReconcileKey) :
    lacking B ⟨lo, hi, .have (keysInRange A lo hi)⟩ = owed A B lo hi := by
  refine List.filter_congr fun k hk => ?_
  have hb := ((mem_keysInRange A).mp hk).2
  simp only [mem_keysInRange, hb, and_self, and_true]

theorem owed_append {lo mid hi : ReconcileKey} (hlo : lo ≤ mid) (hhi : mid ≤ hi) :
    owed A B lo hi = owed A B lo mid ++ owed A B mid hi := by
  rw [owed, keysInRange_append A hlo hhi, List.filter_append]
  rfl

theorem owed_eq_nil {lo hi : ReconcileKey} (h : keysInRange A lo hi = keysInRange B lo hi) :
    owed A B lo hi = [] := by
  refine List.filter_eq_nil_iff.mpr fun k hk => ?_
  rw [h] at hk
  simpa using ((mem_keysInRange B).mp hk).1

def Own (sp : Span) : Prop := sp.mode = .fingerprint (digest sha256 B sp.lo sp.hi)

theorem retry_own {sp sp' : Span} (h : sp' ∈ retry sha256 B sp) :
    Own sha256 B sp' ∧ sp'.lo = sp.lo ∧ sp'.hi = sp.hi := by
  unfold retry at h
  split at h
  · split at h
    · simp at h
    · obtain rfl := List.mem_singleton.mp h
      exact ⟨rfl, rfl, rfl⟩
  · simp at h

/-- What a range sent back with the responder's digest owes is owed by what the
requester keeps open of it. -/
theorem retry_owed {lo hi : ReconcileKey}
    (hnc : digest sha256 A lo hi = digest sha256 B lo hi → keysInRange A lo hi = keysInRange B lo hi) :
    (retry sha256 B ⟨lo, hi, .fingerprint (digest sha256 A lo hi)⟩).flatMap
      (fun sp => owed A B sp.lo sp.hi) = owed A B lo hi := by
  unfold retry
  dsimp only
  split
  · rename_i heq
    rw [owed_eq_nil A B (hnc heq.symm)]
    rfl
  · simp

/-- One open range through one round: what it owes is taken now or owed later. -/
theorem answer_owed {sp : Span} (hown : Own sha256 B sp)
    (hnc : ∀ sp' ∈ sp :: answer sha256 A sp,
      digest sha256 A sp'.lo sp'.hi = digest sha256 B sp'.lo sp'.hi →
        keysInRange A sp'.lo sp'.hi = keysInRange B sp'.lo sp'.hi) :
    (answer sha256 A sp).flatMap (lacking B) ++
      ((answer sha256 A sp).flatMap (retry sha256 B)).flatMap (fun sp => owed A B sp.lo sp.hi) =
        owed A B sp.lo sp.hi := by
  obtain ⟨lo, hi, mode⟩ := sp
  obtain rfl : mode = .fingerprint (digest sha256 B lo hi) := hown
  have hself := hnc _ List.mem_cons_self
  have hhave : [(⟨lo, hi, .have (keysInRange A lo hi)⟩ : Span)].flatMap (lacking B) ++
      ([(⟨lo, hi, .have (keysInRange A lo hi)⟩ : Span)].flatMap (retry sha256 B)).flatMap
        (fun sp => owed A B sp.lo sp.hi) = owed A B lo hi := by
    simp [owed_eq_lacking, retry]
  simp only [answer] at hnc ⊢
  by_cases heq : digest sha256 A lo hi = digest sha256 B lo hi
  · rw [if_pos heq, owed_eq_nil A B (hself heq)]
    rfl
  · rw [if_neg heq] at hnc ⊢
    by_cases hleaf : rangeCount A lo hi ≤ leafThreshold
    · rw [if_pos hleaf]
      exact hhave
    · rw [if_neg hleaf] at hnc ⊢
      cases hsplit : splitKey A lo hi with
      | none => exact hhave
      | some mid =>
        simp only [hsplit] at hnc ⊢
        by_cases hmid : lo < mid ∧ mid < hi
        · rw [if_pos hmid] at hnc ⊢
          have hl := retry_owed sha256 A B
            (hnc ⟨lo, mid, .fingerprint (digest sha256 A lo mid)⟩ (by simp))
          have hr := retry_owed sha256 A B
            (hnc ⟨mid, hi, .fingerprint (digest sha256 A mid hi)⟩ (by simp))
          rw [owed_append A B hmid.1.le hmid.2.le, ← hl, ← hr]
          simp [lacking]
        · rw [if_neg hmid]
          exact hhave

theorem retry_answer_count {sp sp' : Span} {k : ℕ}
    (hc : rangeCount A sp.lo sp.hi ≤ leafThreshold * 2 ^ k)
    (h : sp' ∈ (answer sha256 A sp).flatMap (retry sha256 B)) :
    1 ≤ k ∧ rangeCount A sp'.lo sp'.hi ≤ leafThreshold * 2 ^ (k - 1) := by
  obtain ⟨mid, hmid, hsp'⟩ := List.mem_flatMap.mp h
  obtain ⟨-, hlo, hhi⟩ := retry_own sha256 B hsp'
  have hfp : ∀ keys, mid.mode ≠ .have keys := by
    intro keys hk
    simp [retry, hk] at hsp'
  unfold answer at hmid
  split at hmid
  · split at hmid
    · simp at hmid
    · split at hmid
      · obtain rfl := List.mem_singleton.mp hmid
        exact absurd rfl (hfp _)
      · rename_i hleaf
        simp only [leafThreshold] at hleaf hc ⊢
        obtain ⟨m, hsplit, hlt, hgt, hleft, hright⟩ :=
          splitKey_halves A (show 2 ≤ rangeCount A sp.lo sp.hi by omega)
        have hk : 1 ≤ k := by
          by_contra hk0
          obtain rfl : k = 0 := by omega
          omega
        have hpow : 2 ^ k = 2 * 2 ^ (k - 1) := by
          rw [← pow_succ', Nat.sub_add_cancel hk]
        rw [hsplit] at hmid
        simp only [hlt, hgt, and_self, if_true, List.mem_cons, List.not_mem_nil, or_false] at hmid
        refine ⟨hk, ?_⟩
        rw [hlo, hhi]
        rcases hmid with rfl | rfl
        · dsimp only
          omega
        · dsimp only
          omega
  · simp at hmid

/-- What the open ranges of a request owe is what the round hands over and what the
open ranges of the next request owe. -/
theorem round_owed {request : RbsrMessage}
    (hown : ∀ sp ∈ openSpans request.ranges, Own sha256 B sp)
    (hnc : ∀ sp ∈ openSpans request.ranges ++ openSpans (respond sha256 request A).ranges,
      digest sha256 A sp.lo sp.hi = digest sha256 B sp.lo sp.hi →
        keysInRange A sp.lo sp.hi = keysInRange B sp.lo sp.hi) :
    ((openSpans (respond sha256 request A).ranges).flatMap (lacking B) ++
      ((openSpans (respond sha256 request A).ranges).flatMap (retry sha256 B)).flatMap
        fun sp => owed A B sp.lo sp.hi).Perm
      ((openSpans request.ranges).flatMap fun sp => owed A B sp.lo sp.hi) := by
  rw [respond_open] at hnc ⊢
  rw [List.flatMap_assoc, List.flatMap_assoc, List.flatMap_assoc]
  refine (List.flatMap_append_perm _ _ _).trans (List.Perm.of_eq (List.flatMap_congr fun sp hsp => ?_))
  rw [← List.flatMap_assoc]
  refine answer_owed sha256 A B (hown sp hsp) fun sp' hsp' => hnc sp' ?_
  rcases List.mem_cons.mp hsp' with rfl | hsp'
  · exact List.mem_append_left _ hsp
  · exact List.mem_append_right _ (List.mem_flatMap.mpr ⟨sp, hsp, hsp'⟩)

def owedBy (m : RbsrMessage) : List ReconcileKey :=
  (openSpans m.ranges).flatMap fun sp => owed A B sp.lo sp.hi

/-- The open ranges carry the requester's digests and hold at most `16 * 2 ^ k` keys
of the responder each. -/
def Bounded (k : ℕ) (request : RbsrMessage) : Prop :=
  ∀ sp ∈ openSpans request.ranges,
    Own sha256 B sp ∧ rangeCount A sp.lo sp.hi ≤ leafThreshold * 2 ^ k

/-- A round ends the pull with what is owed, or leaves a request with halved ranges. -/
theorem round_cases (hnc : NoCollision sha256 A B) {k : ℕ} {request : RbsrMessage}
    (hreach : Reached sha256 A B request) (hb : Bounded sha256 A B k request) :
    (∃ missing, processReply sha256 (respond sha256 request A) B = (missing, none) ∧
      missing.Perm (owedBy A B request)) ∨
    ∃ missing next, processReply sha256 (respond sha256 request A) B = (missing, some next) ∧
      1 ≤ k ∧ Reached sha256 A B next ∧ Bounded sha256 A B (k - 1) next ∧
      (missing ++ owedBy A B next).Perm (owedBy A B request) := by
  have howed := round_owed sha256 A B (fun sp hsp => (hb sp hsp).1) (hnc request hreach)
  obtain ⟨hmiss, hnext⟩ := processReply_open sha256 B (respond sha256 request A)
  rw [← hmiss] at howed
  cases hr : processReply sha256 (respond sha256 request A) B with
  | mk missing next =>
    rw [hr] at hnext howed
    cases next with
    | none =>
      dsimp only at hnext
      rw [hnext, List.flatMap_nil, List.append_nil] at howed
      exact Or.inl ⟨missing, rfl, howed⟩
    | some next =>
      obtain ⟨heq, hne⟩ := hnext
      have hcount : ∀ sp' ∈ openSpans next.ranges, 1 ≤ k ∧
          rangeCount A sp'.lo sp'.hi ≤ leafThreshold * 2 ^ (k - 1) := by
        intro sp' hsp'
        rw [heq, respond_open, List.flatMap_assoc] at hsp'
        obtain ⟨sp, hsp, hin⟩ := List.mem_flatMap.mp hsp'
        exact retry_answer_count sha256 A B (hb sp hsp).2 hin
      have hown : ∀ sp' ∈ openSpans next.ranges, Own sha256 B sp' := by
        intro sp' hsp'
        rw [heq] at hsp'
        obtain ⟨sp, -, hin⟩ := List.mem_flatMap.mp hsp'
        exact (retry_own sha256 B hin).1
      obtain ⟨sp, hsp⟩ := List.exists_mem_of_ne_nil _ hne
      rw [← heq] at howed
      exact Or.inr ⟨missing, next, rfl, (hcount sp hsp).1, hreach.next (by rw [hr]),
        fun sp' hsp' => ⟨hown sp' hsp', (hcount sp' hsp').2⟩, howed⟩

/-- From any such request the loop ends within `k + 1` rounds, having acquired what
its open ranges owe. -/
theorem reconcile_from (hnc : NoCollision sha256 A B) (k : ℕ) {request : RbsrMessage}
    (hreach : Reached sha256 A B request) (hb : Bounded sha256 A B k request) :
    ∃ rounds acquired, rounds ≤ 1 + k ∧
      (∀ fuel, rounds ≤ fuel → reconcile sha256 A B fuel request = some (rounds, acquired)) ∧
      acquired.Perm (owedBy A B request) := by
  induction k generalizing request with
  | zero =>
    rcases round_cases sha256 A B hnc hreach hb with ⟨missing, hr, hperm⟩ | ⟨_, _, _, hk, _⟩
    · refine ⟨1, missing, le_rfl, fun fuel hf => ?_, hperm⟩
      obtain ⟨fuel, rfl⟩ := Nat.exists_eq_add_of_le' hf
      simp [reconcile, hr]
    · omega
  | succ k ih =>
    rcases round_cases sha256 A B hnc hreach hb with
      ⟨missing, hr, hperm⟩ | ⟨missing, next, hr, -, hreach', hb', hperm⟩
    · refine ⟨1, missing, by omega, fun fuel hf => ?_, hperm⟩
      obtain ⟨fuel, rfl⟩ := Nat.exists_eq_add_of_le' hf
      simp [reconcile, hr]
    · obtain ⟨rounds, acquired, hle, hrun, hacq⟩ := ih hreach' hb'
      refine ⟨rounds + 1, missing ++ acquired, by omega, fun fuel hf => ?_,
        (hacq.append_left _).trans hperm⟩
      obtain ⟨fuel, rfl⟩ := Nat.exists_eq_add_of_le' (show 1 ≤ fuel by omega)
      simp [reconcile, hr, hrun fuel (by omega)]

theorem initialRequest_open :
    openSpans (initialRequest sha256 B).ranges =
      [⟨minKey, maxKey, .fingerprint (digest sha256 B minKey maxKey)⟩] := by
  simp [initialRequest, openSpans, spans]

variable {A}

/-- When every key lies in the universe, the first request owes all of `A \ B`. -/
theorem owedBy_initial (hA : ∀ k ∈ A.keys, minKey ≤ k ∧ k < maxKey) :
    owedBy A B (initialRequest sha256 B) = A.keys.filter fun k => decide (k ∉ B.keys) := by
  have hall : keysInRange A minKey maxKey = A.keys := by
    rw [keysInRange_eq, within, List.filter_eq_self.mpr]
    · rfl
    · intro x hx
      simpa using hA x.1 (List.mem_map_of_mem hx)
  simp [owedBy, initialRequest_open, owed, hall]

theorem bounded_initial {k : ℕ} (hk : A.keys.length ≤ leafThreshold * 2 ^ k) :
    Bounded sha256 A B k (initialRequest sha256 B) := by
  intro sp hsp
  rw [initialRequest_open, List.mem_singleton] at hsp
  subst hsp
  refine ⟨rfl, le_trans ?_ hk⟩
  rw [rangeCount_eq, SliceSource.keys, List.length_map]
  exact (within_sublist _ _ _).length_le

theorem le_leaves (n : ℕ) :
    n ≤ leafThreshold * 2 ^ ⌈Real.logb 2 (max (n : ℝ) 16 / 16)⌉₊ := by
  have hpos : (0 : ℝ) < max (n : ℝ) 16 / 16 := by positivity
  have hceil := Nat.le_ceil (Real.logb 2 (max (n : ℝ) 16 / 16))
  rw [Real.logb_le_iff_le_rpow one_lt_two hpos, Real.rpow_natCast] at hceil
  have hn : (n : ℝ) ≤ 16 * 2 ^ ⌈Real.logb 2 (max (n : ℝ) 16 / 16)⌉₊ := by
    have := le_max_left (n : ℝ) 16
    linarith
  exact_mod_cast hn

/-- The pull ends, having acquired the keys of `A` that `B` lacks, each once, after
at most `1 + ⌈log2 (max |A| 16 / 16)⌉` rounds. -/
theorem reconcile_complete (hA : ∀ k ∈ A.keys, minKey ≤ k ∧ k < maxKey)
    (hnc : NoCollision sha256 A B) :
    ∃ rounds acquired,
      (∀ fuel, rounds ≤ fuel →
        reconcile sha256 A B fuel (initialRequest sha256 B) = some (rounds, acquired)) ∧
      acquired.Nodup ∧ (∀ k, k ∈ acquired ↔ k ∈ A.keys ∧ k ∉ B.keys) ∧
      rounds ≤ 1 + ⌈Real.logb 2 (max (A.keys.length : ℝ) 16 / 16)⌉₊ ∧
      (A.keys.length ≤ 2 ^ 35 → rounds ≤ maxRbsrRounds) := by
  obtain ⟨rounds, acquired, hle, hrun, hperm⟩ := reconcile_from sha256 A B hnc _ .initial
    (bounded_initial sha256 B (le_leaves A.keys.length))
  rw [owedBy_initial sha256 B hA] at hperm
  refine ⟨rounds, acquired, hrun, ?_, fun k => ?_, hle, fun hlen => ?_⟩
  · exact hperm.nodup_iff.mpr ((keys_nodup A).filter _)
  · rw [hperm.mem_iff, List.mem_filter, decide_eq_true_eq]
  · -- with `2 ^ 31` leaves the same run is within the cap
    obtain ⟨rounds', acquired', hle', hrun', -⟩ := reconcile_from sha256 A B hnc 31 .initial
      (bounded_initial sha256 B (hlen.trans (by decide)))
    have heq := (hrun _ (le_max_left rounds rounds')).symm.trans
      (hrun' _ (le_max_right rounds rounds'))
    simp only [Option.some.injEq, Prod.mk.injEq] at heq
    rw [heq.1]
    exact hle'

end Run

/-! ### A pull -/

def halvesRequest : RbsrMessage :=
  (processReply sampleSha256 (respond sampleSha256 (initialRequest sampleSha256 sampleSibling)
    sampleLog) sampleSibling).2.getD ⟨0, []⟩

theorem reached_halves {request : RbsrMessage}
    (h : Reached sampleSha256 sampleLog sampleSibling request) :
    request = initialRequest sampleSha256 sampleSibling ∨ request = halvesRequest := by
  have hlast : (processReply sampleSha256 (respond sampleSha256 halvesRequest sampleLog)
      sampleSibling).2 = none := by decide +kernel
  induction h with
  | initial => exact .inl rfl
  | next _ hn ih =>
    rcases ih with rfl | rfl
    · right
      rw [halvesRequest, hn, Option.getD_some]
    · rw [hlast] at hn
      cases hn

/-- One half is the same on both sides, and of the other nine events come over. -/
theorem reconcile_complete_halving :
    ∃ acquired,
      (∀ fuel, 2 ≤ fuel → reconcile sampleSha256 sampleLog sampleSibling fuel
        (initialRequest sampleSha256 sampleSibling) = some (2, acquired)) ∧
      acquired.Nodup ∧ (∀ k, k ∈ acquired ↔ k ∈ sampleLog.keys ∧ k ∉ sampleSibling.keys) ∧
      acquired.length = 9 := by
  have hnc : NoCollision sampleSha256 sampleLog sampleSibling := by
    intro request hr
    rcases reached_halves hr with rfl | rfl
    · decide +kernel
    · decide +kernel
  obtain ⟨rounds, acquired, hrun, hnd, hmem, -⟩ :=
    reconcile_complete sampleSha256 sampleSibling (by decide +kernel) hnc
  have htwo : (reconcile sampleSha256 sampleLog sampleSibling 2
      (initialRequest sampleSha256 sampleSibling)).map (fun r => (r.1, r.2.length)) =
        some (2, 9) := by decide +kernel
  obtain ⟨⟨rounds', acquired'⟩, hsecond, hcounts⟩ := Option.map_eq_some_iff.mp htwo
  obtain ⟨rfl, hlength⟩ := Prod.mk.inj hcounts
  have hmore := reconcile_of_le sampleSha256 sampleLog sampleSibling hsecond
  have heq := (hmore _ (le_max_left 2 rounds)).symm.trans (hrun _ (le_max_right 2 rounds))
  obtain ⟨rfl, rfl⟩ := Prod.mk.inj (Option.some.inj heq)
  exact ⟨acquired', hrun, hnd, hmem, hlength⟩

end Harmony.Reconcile
