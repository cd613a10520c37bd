import Harmony.Files.Frames
import Harmony.Lib.Slots

/-! What is sealed is what is opened. A sealed file decrypts to its plaintext and has the
length that is computed for it; over an ideal cipher no other byte string decrypts. -/

namespace Harmony.Files

open Harmony.Lib

variable {c : StreamCrypto} {dek : Bytes} {frameSize : ℕ} {frames : List Bytes} {last : Bytes}

/-! ### Counters and headers -/

@[simp] theorem length_toBeBytes (n : ℕ) : (toBeBytes n).length = 4 := rfl

theorem fromBeBytes_toBeBytes {n : ℕ} (h : n < 2 ^ 32) : fromBeBytes (toBeBytes n) = n := by
  simp only [fromBeBytes, toBeBytes, List.foldl_cons, List.foldl_nil, UInt8.toNat_ofNat']
  omega

@[simp] theorem length_v3Header (n : ℕ) : (v3Header n).length = v3HeaderLen := by
  simp [v3Header, v3Magic, v3HeaderLen]

/-! ### The sealed frames -/

def aadAt (hdr : Bytes) (position : ℕ) : Bytes := if position = 0 then hdr else []

def sealAt (c : StreamCrypto) (dek hdr : Bytes) (k : ℕ) (last : Bool) (frame : Bytes) : Bytes :=
  c.encrypt dek (c.streamNonce (deriveNoncePrefix c dek) k last) (aadAt hdr k) frame

def sealedFrom (c : StreamCrypto) (dek hdr : Bytes) : ℕ → List Bytes → Bytes → List Bytes
  | k, [], last => [sealAt c dek hdr k true last]
  | k, frame :: frames, last =>
    sealAt c dek hdr k false frame :: sealedFrom c dek hdr (k + 1) frames last

def sealedFrames (c : StreamCrypto) (dek : Bytes) (frameSize : ℕ) (frames : List Bytes)
    (last : Bytes) : List Bytes := sealedFrom c dek (v3Header frameSize) 0 frames last

theorem length_sealedFrom (hdr : Bytes) (k : ℕ) (frames : List Bytes) (last : Bytes) :
    (sealedFrom c dek hdr k frames last).length = frames.length + 1 := by
  induction frames generalizing k with
  | nil => rfl
  | cons frame frames ih => rw [sealedFrom, List.length_cons, ih, List.length_cons]

def sealerAt (c : StreamCrypto) (dek : Bytes) (frameSize k : ℕ) : FrameSealer :=
  ⟨dek, deriveNoncePrefix c dek, some k, frameSize, v3Header frameSize, decide (k ≠ 0)⟩

theorem aad_sealerAt (k : ℕ) : (sealerAt c dek frameSize k).aad = aadAt (v3Header frameSize) k := by
  cases k <;> rfl

theorem sealNext_sealerAt {k : ℕ} {frame : Bytes} (hlen : frame.length = frameSize)
    (hk : k < counterMax) :
    (sealerAt c dek frameSize k).sealNext c frame = .ok (sealerAt c dek frameSize (k + 1),
      sealAt c dek (v3Header frameSize) k false frame) := by
  rw [FrameSealer.sealNext, aad_sealerAt, sealAt]
  simp [sealerAt, hlen, hk.ne]

theorem sealLast_sealerAt (k : ℕ) {last : Bytes} (hlast : last.length ≤ frameSize) :
    ∃ s, (sealerAt c dek frameSize k).sealLast c last =
      .ok (s, sealAt c dek (v3Header frameSize) k true last) := by
  refine ⟨{ sealerAt c dek frameSize k with enc := none, headerBound := true }, ?_⟩
  rw [FrameSealer.sealLast, if_neg (by simpa [sealerAt] using hlast), aad_sealerAt]
  rfl

theorem sealFrames_sealerAt {k : ℕ} {frames : List Bytes}
    (hlen : ∀ frame ∈ frames, frame.length = frameSize) (hk : k + frames.length ≤ counterMax) :
    ∃ body, (sealerAt c dek frameSize k).sealFrames c frames =
      .ok (sealerAt c dek frameSize (k + frames.length), body) ∧
      ∀ last, (sealedFrom c dek (v3Header frameSize) k frames last).flatten =
        body ++ sealAt c dek (v3Header frameSize) (k + frames.length) true last := by
  induction frames generalizing k with
  | nil => exact ⟨[], rfl, fun last => by simp [sealedFrom]⟩
  | cons frame frames ih =>
    rw [List.length_cons] at hk ⊢
    obtain ⟨body, hframes, hall⟩ := ih (k := k + 1) (fun f hf => hlen f (.tail _ hf)) (by omega)
    have hfirst := @sealNext_sealerAt c dek frameSize k frame (hlen frame (.head _)) (by omega)
    have hnext : k + (frames.length + 1) = k + 1 + frames.length := by omega
    rw [hnext]
    refine ⟨sealAt c dek (v3Header frameSize) k false frame ++ body, ?_, fun last => ?_⟩
    · rw [FrameSealer.sealFrames, hfirst]
      simp only [bind, Except.bind, hframes, pure, Except.pure]
    · rw [sealedFrom, List.flatten_cons, hall, List.append_assoc]

/-- A run of the sealer ends with the header and the sealed frames. -/
theorem sealFile_eq (hfs : 0 < frameSize) {frames : List Bytes}
    (hlen : ∀ frame ∈ frames, frame.length = frameSize) (hcount : frames.length ≤ counterMax)
    {last : Bytes} (hlast : last.length ≤ frameSize) :
    sealFile c dek frameSize frames last =
      .ok (v3Header frameSize ++ (sealedFrames c dek frameSize frames last).flatten) := by
  obtain ⟨body, hframes, hall⟩ :=
    @sealFrames_sealerAt c dek frameSize 0 frames hlen (by omega)
  obtain ⟨s, hseal⟩ := @sealLast_sealerAt c dek frameSize (0 + frames.length) last hlast
  have hnew : FrameSealer.new c dek frameSize = .ok (sealerAt c dek frameSize 0) := by
    rw [FrameSealer.new, if_neg (by omega)]
    rfl
  simp only [sealFile, hnew, bind, Except.bind, hframes, hseal, pure, Except.pure,
    FrameSealer.header]
  rw [sealedFrames, hall, List.append_assoc]
  rfl

/-! ### Round trip -/

/-- A tag of sixteen bytes is added, and what was encrypted is decrypted; of messages no
longer than a frame can be. -/
structure RoundTrips (c : StreamCrypto) : Prop where
  length : ∀ key nonce aad msg, msg.length < 2 ^ 32 →
    (c.encrypt key nonce aad msg).length = msg.length + streamTagLen
  decrypt : ∀ key nonce aad msg, msg.length < 2 ^ 32 →
    c.decrypt key nonce aad (c.encrypt key nonce aad msg) = some msg

theorem RoundTrips.length_sealAt (h : RoundTrips c) (dek hdr : Bytes) (k : ℕ) (last : Bool)
    {frame : Bytes} (hframe : frame.length < 2 ^ 32) :
    (sealAt c dek hdr k last frame).length = frame.length + streamTagLen :=
  h.length _ _ _ _ hframe

theorem aadAt_eq (hdr : Bytes) (k : ℕ) :
    (if decide (k ≠ 0) = true then [] else hdr) = aadAt hdr k := by
  unfold aadAt
  by_cases hk : k = 0 <;> simp [hk]

theorem RoundTrips.decryptLoop_sealed (h : RoundTrips c) (hfs : frameSize < 2 ^ 32) {hdr : Bytes}
    {k : ℕ} {frames : List Bytes} (hlen : ∀ frame ∈ frames, frame.length = frameSize)
    (hk : k + frames.length ≤ counterMax) {last : Bytes} (hlast : last.length ≤ frameSize) :
    decryptLoop c dek (deriveNoncePrefix c dek) hdr frameSize k (decide (k ≠ 0))
      (sealedFrom c dek hdr k frames last).flatten = .ok (frames.flatten ++ last) := by
  induction frames generalizing k with
  | nil =>
    have hbody : (sealedFrom c dek hdr k [] last).flatten = sealAt c dek hdr k true last := by
      simp [sealedFrom]
    have hshort : last.length < 2 ^ 32 := hlast.trans_lt hfs
    have htag := h.length_sealAt dek hdr k true hshort
    rw [hbody, decryptLoop, if_pos (by omega), if_neg (by omega), aadAt_eq, sealAt,
      h.decrypt _ _ _ _ hshort]
    rfl
  | cons frame frames ih =>
    rw [List.length_cons] at hk
    have hframe := hlen frame (.head _)
    have hshort : frame.length < 2 ^ 32 := hframe.symm ▸ hfs
    have hfirst := h.length_sealAt dek hdr k false hshort
    have hmore : 0 < (sealedFrom c dek hdr (k + 1) frames last).flatten.length := by
      have hpos : 0 < streamTagLen := by decide
      cases frames with
      | nil =>
        have htag := h.length_sealAt dek hdr (k + 1) true (hlast.trans_lt hfs)
        simp only [sealedFrom, List.flatten_singleton]
        omega
      | cons next frames =>
        have hnext : next.length < 2 ^ 32 := (hlen next (.tail _ (.head _))).symm ▸ hfs
        have htag := h.length_sealAt dek hdr (k + 1) false hnext
        simp only [sealedFrom, List.flatten_cons, List.length_append]
        omega
    have hbody : (sealedFrom c dek hdr k (frame :: frames) last).flatten =
        sealAt c dek hdr k false frame ++ (sealedFrom c dek hdr (k + 1) frames last).flatten := by
      rw [sealedFrom, List.flatten_cons]
    have hrest := ih (k := k + 1) (fun f hf => hlen f (.tail _ hf)) (by omega)
    rw [hbody, decryptLoop, if_neg (by rw [List.length_append]; omega), if_neg (by omega),
      List.take_left' (by omega), List.drop_left' (by omega), aadAt_eq, sealAt,
      h.decrypt _ _ _ _ hshort]
    simp only [Nat.succ_ne_zero, ne_eq, not_false_eq_true, decide_true] at hrest
    simp [hrest, bind, Except.bind, pure, Except.pure]

theorem decryptStream_header (hfs : 0 < frameSize) (hfs' : frameSize < 2 ^ 32) {body : Bytes}
    (hbody : streamTagLen ≤ body.length) :
    decryptStream c dek (v3Header frameSize ++ body) =
      decryptLoop c dek (deriveNoncePrefix c dek) (v3Header frameSize) frameSize 0 false body := by
  have hlen := length_v3Header frameSize
  have hsize : fromBeBytes ((v3Header frameSize).drop 5) = frameSize :=
    fromBeBytes_toBeBytes hfs'
  have hmagic : ¬((v3Header frameSize).take 4 ≠ v3Magic ∨
      (v3Header frameSize)[4]? ≠ some v3Version) := by
    simp only [v3Header, v3Magic, not_or, not_not]
    exact ⟨rfl, rfl⟩
  rw [decryptStream, if_neg (by rw [List.length_append]; omega)]
  simp only [List.take_left' hlen, List.drop_left' hlen, hsize]
  rw [if_neg hmagic, if_neg (by omega), if_neg (by omega)]

theorem RoundTrips.length_flatten (h : RoundTrips c) (hfs : frameSize < 2 ^ 32) (dek hdr : Bytes)
    (k : ℕ) {frames : List Bytes} (hlen : ∀ frame ∈ frames, frame.length = frameSize)
    {last : Bytes} (hlast : last.length ≤ frameSize) :
    (sealedFrom c dek hdr k frames last).flatten.length =
      (frames.flatten ++ last).length + (frames.length + 1) * streamTagLen := by
  induction frames generalizing k with
  | nil =>
    have htag := h.length_sealAt dek hdr k true (hlast.trans_lt hfs)
    simp only [sealedFrom, List.flatten_singleton, List.flatten_nil, List.nil_append,
      List.length_nil]
    omega
  | cons frame frames ih =>
    have hshort : frame.length < 2 ^ 32 := (hlen frame (.head _)).symm ▸ hfs
    have htag := h.length_sealAt dek hdr k false hshort
    have hrest := ih (k + 1) fun f hf => hlen f (.tail _ hf)
    simp only [sealedFrom, List.flatten_cons, List.length_append, List.length_cons] at hrest ⊢
    have hone := Nat.add_one_mul (frames.length + 1) streamTagLen
    omega

theorem RoundTrips.decryptStream_sealed (h : RoundTrips c) (hfs : 0 < frameSize)
    (hfs' : frameSize < 2 ^ 32) {frames : List Bytes}
    (hlen : ∀ frame ∈ frames, frame.length = frameSize) (hcount : frames.length ≤ counterMax)
    {last : Bytes} (hlast : last.length ≤ frameSize) :
    decryptStream c dek
        (v3Header frameSize ++ (sealedFrames c dek frameSize frames last).flatten) =
      .ok (frames.flatten ++ last) := by
  have hbody := h.length_flatten hfs' dek (v3Header frameSize) 0 hlen hlast
  rw [Nat.succ_mul] at hbody
  rw [sealedFrames, decryptStream_header hfs hfs' (by omega)]
  exact h.decryptLoop_sealed hfs' (k := 0) hlen (by omega) hlast

/-! ### Lengths -/

theorem length_flatten_frames {frames : List Bytes}
    (hlen : ∀ frame ∈ frames, frame.length = frameSize) :
    frames.flatten.length = frames.length * frameSize := by
  induction frames with
  | nil => simp
  | cons frame frames ih =>
    rw [List.flatten_cons, List.length_append, hlen frame (.head _),
      ih fun f hf => hlen f (.tail _ hf), List.length_cons, Nat.succ_mul, Nat.add_comm]

theorem checked_of_lt {n : ℕ} (h : n < 2 ^ 64) : checked n = .ok n := if_pos h

/-- The length that is computed, if the frames are the chunks of the plaintext. -/
theorem RoundTrips.v3CiphertextLen_sealed (h : RoundTrips c) (hfs : 0 < frameSize)
    (hfs' : frameSize < 2 ^ 32) {frames : List Bytes}
    (hlen : ∀ frame ∈ frames, frame.length = frameSize) (hcount : frames.length < counterMax)
    {last : Bytes} (hlast : last.length ≤ frameSize) (hempty : last = [] → frames = []) :
    v3CiphertextLen (frames.flatten ++ last).length frameSize = checked
      (v3Header frameSize ++ (sealedFrames c dek frameSize frames last).flatten).length := by
  have hcounter : counterMax = 2 ^ 32 - 1 := rfl
  have hplain : (frames.flatten ++ last).length = frames.length * frameSize + last.length := by
    rw [List.length_append, length_flatten_frames hlen]
  have hcipher := h.length_flatten hfs' dek (v3Header frameSize) 0 hlen hlast
  have hbound : (frames.length + 1) * frameSize ≤ (2 ^ 32 - 1) * (2 ^ 32 - 1) :=
    Nat.mul_le_mul (by omega) (by omega)
  have hsucc := Nat.add_one_mul frames.length frameSize
  have hframes : frameCount (frames.flatten ++ last).length frameSize =
      .ok (frames.length + 1) := by
    rw [frameCount, hplain]
    by_cases hnil : last = []
    · rw [hempty hnil, hnil, if_pos (by simp)]
      rfl
    · have hpos : 0 < last.length := List.length_pos_iff.mpr hnil
      have hdiv : (frames.length * frameSize + last.length + (frameSize - 1)) / frameSize =
          frames.length + 1 := by
        rw [Nat.div_eq_iff hfs]
        constructor <;> omega
      rw [if_neg (by omega), checked_of_lt (by omega)]
      exact congrArg Except.ok hdiv
  have htags : checked ((frames.length + 1) * streamTagLen) =
      .ok ((frames.length + 1) * streamTagLen) := by
    refine checked_of_lt ?_
    rw [streamTagLen]
    omega
  have hhead : checked (v3HeaderLen + (frames.flatten ++ last).length) =
      .ok (v3HeaderLen + (frames.flatten ++ last).length) := by
    refine checked_of_lt ?_
    rw [v3HeaderLen, hplain]
    omega
  have htotal : (v3Header frameSize ++ (sealedFrames c dek frameSize frames last).flatten).length =
      v3HeaderLen + (frames.flatten ++ last).length + (frames.length + 1) * streamTagLen := by
    rw [List.length_append, length_v3Header, sealedFrames, hcipher, Nat.add_assoc]
  rw [v3CiphertextLen, if_neg (by omega), hframes, htotal]
  simp only [bind, Except.bind, htags, hhead]

/-! ### Nothing else decrypts -/

/-- What the run of the sealer sealed, each frame in its place. -/
def sealedSlots (c : StreamCrypto) (dek : Bytes) (frameSize : ℕ) (frames : List Bytes)
    (last : Bytes) : List (Slot Bytes Bytes) :=
  slots (aadAt (v3Header frameSize)) 0 (sealedFrames c dek frameSize frames last)

/-- Decryption succeeds only for the nonce, with its counter and flag, the associated data and
the ciphertext of one of these. -/
structure IdealFor (c : StreamCrypto) (dek : Bytes) (sealed : List (Slot Bytes Bytes)) : Prop where
  opens : ∀ nonce aad ct pt, c.decrypt dek nonce aad ct = some pt → ∃ s ∈ sealed,
    nonce = c.streamNonce (deriveNoncePrefix c dek) s.position s.last ∧ aad = s.aad ∧ ct = s.frame
  /-- counters and flags do not share nonces -/
  nonces : ∀ noncePrefix m n a b, m ≤ counterMax → n ≤ counterMax →
    c.streamNonce noncePrefix m a = c.streamNonce noncePrefix n b → m = n ∧ a = b

/-- A slot that decrypts, at a position the counter can take. -/
def Opens (c : StreamCrypto) (dek noncePrefix : Bytes) (s : Slot Bytes Bytes) : Prop :=
  s.position ≤ counterMax ∧
    ∃ pt, c.decrypt dek (c.streamNonce noncePrefix s.position s.last) s.aad s.frame = some pt

theorem decryptLoop_slots {noncePrefix hdr : Bytes} {k : ℕ} {body pt : Bytes} (hk : k ≤ counterMax)
    (h : decryptLoop c dek noncePrefix hdr frameSize k (decide (k ≠ 0)) body = .ok pt) :
    ∃ cs : List Bytes, cs ≠ [] ∧ cs.flatten = body ∧
      ∀ s ∈ slots (aadAt hdr) k cs, Opens c dek noncePrefix s := by
  induction hn : body.length using Nat.strong_induction_on generalizing k body pt with
  | _ n ih =>
    rw [decryptLoop, aadAt_eq] at h
    by_cases hlast : body.length ≤ frameSize + streamTagLen
    · rw [if_pos hlast] at h
      split_ifs at h with htag
      cases hopen : c.decrypt dek (c.streamNonce noncePrefix k true) (aadAt hdr k) body with
      | none => simp [hopen] at h
      | some m =>
        refine ⟨[body], by simp, by simp, fun s hs => ?_⟩
        rw [slots_singleton, List.mem_singleton] at hs
        subst hs
        exact ⟨hk, m, hopen⟩
    · rw [if_neg hlast] at h
      split_ifs at h with hmax
      cases hopen : c.decrypt dek (c.streamNonce noncePrefix k false) (aadAt hdr k)
          (body.take (frameSize + streamTagLen)) with
      | none => simp [hopen] at h
      | some m =>
        rw [hopen] at h
        dsimp only at h
        cases hrest : decryptLoop c dek noncePrefix hdr frameSize (k + 1) true
            (body.drop (frameSize + streamTagLen)) with
        | error e => simp [hrest, bind, Except.bind] at h
        | ok rest =>
          have hpos : 0 < streamTagLen := by decide
          obtain ⟨cs, hcs, hflat, hslots⟩ := ih (body.drop (frameSize + streamTagLen)).length
            (by rw [List.length_drop]; omega) (k := k + 1) (by omega) (by simpa using hrest) rfl
          refine ⟨body.take (frameSize + streamTagLen) :: cs, by simp, ?_, fun s hs => ?_⟩
          · rw [List.flatten_cons, hflat, List.take_append_drop]
          · rw [slots_cons _ _ _ hcs, List.mem_cons] at hs
            rcases hs with rfl | hs
            · exact ⟨hk, m, hopen⟩
            · exact hslots s hs

theorem IdealFor.mem (h : IdealFor c dek (sealedSlots c dek frameSize frames last))
    (hcount : frames.length < counterMax) {s : Slot Bytes Bytes}
    (hopens : Opens c dek (deriveNoncePrefix c dek) s) :
    s ∈ sealedSlots c dek frameSize frames last := by
  obtain ⟨hposition, pt, hopen⟩ := hopens
  obtain ⟨s', hs', hnonce, haad, hframe⟩ := h.opens _ _ _ _ hopen
  have hlt := (slots_position hs').2.1
  rw [sealedFrames, length_sealedFrom] at hlt
  obtain ⟨hpos, hlast⟩ := h.nonces _ _ _ _ _ hposition (by omega) hnonce
  cases s
  cases s'
  simp only at hpos hlast haad hframe
  subst hpos hlast haad hframe
  exact hs'

theorem IdealFor.eq_sealed (h : IdealFor c dek (sealedSlots c dek frameSize frames last))
    (hcount : frames.length < counterMax) {ciphertext pt : Bytes}
    (hok : decryptStream c dek ciphertext = .ok pt) :
    ciphertext = v3Header frameSize ++ (sealedFrames c dek frameSize frames last).flatten := by
  rw [decryptStream] at hok
  dsimp only at hok
  split_ifs at hok
  obtain ⟨cs, hcs, hflat, hslots⟩ := decryptLoop_slots (k := 0) (Nat.zero_le _) hok
  have hmem : ∀ s ∈ slots (aadAt (ciphertext.take v3HeaderLen)) 0 cs,
      s ∈ sealedSlots c dek frameSize frames last := fun s hs => h.mem hcount (hslots s hs)
  have hframes : cs = sealedFrames c dek frameSize frames last := eq_of_slots_subset hcs hmem
  -- the header is bound to the frame at position zero
  have hheader : ciphertext.take v3HeaderLen = v3Header frameSize := by
    obtain ⟨first, rest, rfl⟩ := List.exists_cons_of_ne_nil hcs
    have hfirst : ∃ s ∈ slots (aadAt (ciphertext.take v3HeaderLen)) 0 (first :: rest),
        s.position = 0 := by
      cases rest with
      | nil => exact ⟨_, .head _, rfl⟩
      | cons next rest => exact ⟨_, .head _, rfl⟩
    obtain ⟨s, hs, hzero⟩ := hfirst
    have hmine := (slots_position hs).2.2
    have htheirs := (slots_position (hmem s hs)).2.2
    rw [hmine, hzero] at htheirs
    simpa [aadAt] using htheirs
  rw [← hframes, hflat, ← hheader, List.take_append_drop]

/-- The file of every run decrypts to its plaintext and has the computed length (checked as a
`u64`, which no byte string exceeds), and over a cipher that opens nothing but what the run
sealed no other byte string decrypts. -/
theorem decryptStream_sealFile (c : StreamCrypto) (dek : Bytes) {frameSize : ℕ}
    (hfs : 0 < frameSize) (hfs' : frameSize < 2 ^ 32) {frames : List Bytes}
    (hlen : ∀ frame ∈ frames, frame.length = frameSize) (hcount : frames.length < 2 ^ 32 - 1)
    {last : Bytes} (hlast : last.length ≤ frameSize) :
    ∃ ct, sealFile c dek frameSize frames last = .ok ct ∧
      (RoundTrips c → decryptStream c dek ct = .ok (frames.flatten ++ last) ∧
        ((last = [] → frames = []) →
          v3CiphertextLen (frames.flatten ++ last).length frameSize = checked ct.length)) ∧
      (IdealFor c dek (sealedSlots c dek frameSize frames last) →
        ∀ ciphertext pt, decryptStream c dek ciphertext = .ok pt → ciphertext = ct) := by
  have hcount' : frames.length < counterMax := hcount
  refine ⟨_, sealFile_eq hfs hlen hcount'.le hlast, fun h => ⟨?_, fun hempty => ?_⟩,
    fun h ciphertext pt hok => h.eq_sealed hcount' hok⟩
  · exact h.decryptStream_sealed hfs hfs' hlen hcount'.le hlast
  · exact h.v3CiphertextLen_sealed hfs hfs' hlen hcount' hlast hempty

/-! ### A cipher to run -/

def sampleTag (nonce aad msg : Bytes) : Bytes :=
  (nonce ++ aad ++ msg ++ List.replicate 16 0).take 16

/-- The prefix, the counter in big endian, and a byte for the last frame. -/
def sampleNonce (noncePrefix : Bytes) (position : ℕ) (last : Bool) : Bytes :=
  noncePrefix ++ toBeBytes position ++ [if last then 1 else 0]

theorem toBeBytes_inj {m n : ℕ} (hm : m < 2 ^ 32) (hn : n < 2 ^ 32)
    (h : toBeBytes m = toBeBytes n) : m = n := by
  rw [← fromBeBytes_toBeBytes hm, h, fromBeBytes_toBeBytes hn]

theorem sampleNonce_inj {noncePrefix : Bytes} {m n : ℕ} {a b : Bool} (hm : m < 2 ^ 32)
    (hn : n < 2 ^ 32) (h : sampleNonce noncePrefix m a = sampleNonce noncePrefix n b) :
    m = n ∧ a = b := by
  rw [sampleNonce, sampleNonce, List.append_assoc, List.append_assoc] at h
  obtain ⟨hposition, hlast⟩ := List.append_inj (List.append_cancel_left h) rfl
  refine ⟨toBeBytes_inj hm hn hposition, ?_⟩
  cases a <;> cases b <;> simp_all

def sampleCrypto : StreamCrypto where
  sha256 m := (m ++ List.replicate 32 0).take 32
  streamNonce := sampleNonce
  encrypt _ nonce aad msg := msg ++ sampleTag nonce aad msg
  decrypt _ nonce aad ct :=
    let msg := ct.take (ct.length - 16)
    if ct.drop (ct.length - 16) = sampleTag nonce aad msg then some msg else none

theorem length_sampleTag (nonce aad msg : Bytes) : (sampleTag nonce aad msg).length = 16 := by
  rw [sampleTag, List.length_take, List.length_append, List.length_replicate]
  omega

theorem roundTrips_sampleCrypto : RoundTrips sampleCrypto := by
  constructor
  · intro key nonce aad msg _
    simp [sampleCrypto, length_sampleTag, streamTagLen]
  · intro key nonce aad msg _
    simp [sampleCrypto, length_sampleTag]

/-- The sample cipher, opening nothing but these slots. -/
def sampleIdeal (dek : Bytes) (sealed : List (Slot Bytes Bytes)) : StreamCrypto :=
  { sampleCrypto with decrypt := fun key nonce aad ct =>
      if ∃ s ∈ sealed, nonce = sampleNonce (deriveNoncePrefix sampleCrypto dek) s.position s.last ∧
        aad = s.aad ∧ ct = s.frame then sampleCrypto.decrypt key nonce aad ct else none }

theorem idealFor_sampleIdeal (dek : Bytes) (sealed : List (Slot Bytes Bytes)) :
    IdealFor (sampleIdeal dek sealed) dek sealed where
  opens nonce aad ct pt h := by
    unfold sampleIdeal at h
    dsimp only at h
    split_ifs at h with hsealed
    exact hsealed
  nonces noncePrefix m n a b hm hn h := by
    have hcounter : counterMax = 2 ^ 32 - 1 := rfl
    exact sampleNonce_inj (by omega) (by omega) h

/-- Two frames: the file decrypts, and without its second frame it does not. -/
theorem decryptStream_sealFile_two :
    (∃ ct, sealFile sampleCrypto [7] 2 [[1, 2]] [3] = .ok ct ∧
      decryptStream sampleCrypto [7] ct = .ok [1, 2, 3] ∧
      v3CiphertextLen 3 2 = checked ct.length) ∧
    ∀ pt, decryptStream (sampleIdeal [7] (sealedSlots sampleCrypto [7] 2 [[1, 2]] [3])) [7]
      (v3Header 2 ++ sealAt sampleCrypto [7] (v3Header 2) 0 false [1, 2]) ≠ .ok pt := by
  constructor
  · obtain ⟨ct, hct, hround, -⟩ := @decryptStream_sealFile sampleCrypto [7] 2
      (by decide) (by decide) [[1, 2]] (by simp) (by decide) [3] (by decide)
    obtain ⟨hopen, hlen⟩ := hround roundTrips_sampleCrypto
    exact ⟨ct, hct, hopen, hlen (by simp)⟩
  · intro pt hok
    obtain ⟨ct, hct, -, hideal⟩ := @decryptStream_sealFile
      (sampleIdeal [7] (sealedSlots sampleCrypto [7] 2 [[1, 2]] [3])) [7] 2
      (by decide) (by decide) [[1, 2]] (by simp) (by decide) [3] (by decide)
    have hsame := hideal (idealFor_sampleIdeal [7] _) _ pt hok
    have hlength := congrArg List.length hsame
    rw [sealFile_eq (by decide) (by simp) (by decide) (by decide)] at hct
    rw [← Except.ok.inj hct] at hlength
    revert hlength
    decide +kernel

end Harmony.Files
