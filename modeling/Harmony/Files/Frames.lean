import Mathlib

/-! The encrypted file format: a header, then the frames of an AEAD stream. The cipher and
the hash are parameters; a 64-bit `usize` is assumed. -/

namespace Harmony.Files

abbrev Bytes := List UInt8

/-- ChaCha20-Poly1305 on key, nonce, associated data and message, and SHA-256. -/
structure StreamCrypto where
  sha256 : Bytes → Bytes
  /-- of `EncryptorBE32`, by prefix, counter and whether the frame is the last -/
  streamNonce : Bytes → ℕ → Bool → Bytes
  encrypt : Bytes → Bytes → Bytes → Bytes → Bytes
  decrypt : Bytes → Bytes → Bytes → Bytes → Option Bytes

inductive FileStreamError where
  | unsupportedLegacyFormat
  | truncated
  | badFrameSize
  | aead
  | overflow
deriving DecidableEq

def v3Magic : Bytes := [0x48, 0x53, 0x46, 0x33]

def v3Version : UInt8 := 3

def v3HeaderLen : ℕ := 9

def streamTagLen : ℕ := 16

def noncePrefixLen : ℕ := 7

def nonceDeriveInfo : Bytes := "harmony-file-stream-v3-nonce".toUTF8.toList

/-- `u32::to_be_bytes`. -/
def toBeBytes (n : ℕ) : Bytes :=
  [UInt8.ofNat (n / 2 ^ 24), UInt8.ofNat (n / 2 ^ 16), UInt8.ofNat (n / 2 ^ 8), UInt8.ofNat n]

def fromBeBytes (bytes : Bytes) : ℕ := bytes.foldl (fun n b => 256 * n + b.toNat) 0

def deriveNoncePrefix (c : StreamCrypto) (dek : Bytes) : Bytes :=
  (c.sha256 (nonceDeriveInfo ++ dek)).take noncePrefixLen

def v3Header (frameSize : ℕ) : Bytes := v3Magic ++ [v3Version] ++ toBeBytes frameSize

def checked (n : ℕ) : Except FileStreamError ℕ := if n < 2 ^ 64 then .ok n else .error .overflow

/-- An empty plaintext still has its last frame. -/
def frameCount (plaintextLen frameSize : ℕ) : Except FileStreamError ℕ :=
  if plaintextLen = 0 then .ok 1
  else (· / frameSize) <$> checked (plaintextLen + (frameSize - 1))

def v3CiphertextLen (plaintextLen frameSize : ℕ) : Except FileStreamError ℕ :=
  if frameSize = 0 then .error .badFrameSize
  else do
    let frames ← frameCount plaintextLen frameSize
    let tagBytes ← checked (frames * streamTagLen)
    let s ← checked (v3HeaderLen + plaintextLen)
    checked (s + tagBytes)

/-- The greatest counter of the stream construction, which is kept for a last frame. -/
def counterMax : ℕ := 2 ^ 32 - 1

/-! ### Sealing -/

structure FrameSealer where
  dek : Bytes
  noncePrefix : Bytes
  /-- the counter of the encryptor, until it is consumed -/
  enc : Option ℕ
  frameSize : ℕ
  headerBytes : Bytes
  headerBound : Bool

namespace FrameSealer

def new (c : StreamCrypto) (dek : Bytes) (frameSize : ℕ) : Except FileStreamError FrameSealer :=
  if frameSize = 0 then .error .badFrameSize
  else .ok ⟨dek, deriveNoncePrefix c dek, some 0, frameSize, v3Header frameSize, false⟩

def header (s : FrameSealer) : Bytes := s.headerBytes

/-- The header is bound to the first frame. -/
def aad (s : FrameSealer) : Bytes := if s.headerBound then [] else s.headerBytes

def sealNext (c : StreamCrypto) (s : FrameSealer) (frame : Bytes) :
    Except FileStreamError (FrameSealer × Bytes) :=
  if frame.length ≠ s.frameSize then .error .badFrameSize
  else
    match s.enc with
    | none => .error .aead
    | some position =>
      if position = counterMax then .error .aead
      else .ok ({ s with enc := some (position + 1), headerBound := true },
        c.encrypt s.dek (c.streamNonce s.noncePrefix position false) s.aad frame)

def sealLast (c : StreamCrypto) (s : FrameSealer) (frame : Bytes) :
    Except FileStreamError (FrameSealer × Bytes) :=
  if s.frameSize < frame.length then .error .badFrameSize
  else
    match s.enc with
    | none => .error .aead
    | some position => .ok ({ s with enc := none, headerBound := true },
        c.encrypt s.dek (c.streamNonce s.noncePrefix position true) s.aad frame)

def sealFrames (c : StreamCrypto) (s : FrameSealer) :
    List Bytes → Except FileStreamError (FrameSealer × Bytes)
  | [] => .ok (s, [])
  | frame :: frames => do
    let (s, ct) ← s.sealNext c frame
    let (s, body) ← s.sealFrames c frames
    return (s, ct ++ body)

end FrameSealer

def sealFile (c : StreamCrypto) (dek : Bytes) (frameSize : ℕ) (frames : List Bytes) (last : Bytes) :
    Except FileStreamError Bytes := do
  let s ← FrameSealer.new c dek frameSize
  let header := s.header
  let (s, body) ← s.sealFrames c frames
  let (_, ct) ← s.sealLast c last
  return header ++ body ++ ct

/-! ### Opening -/

section Decrypt

variable (c : StreamCrypto) (dek noncePrefix hdr : Bytes) (frameSize : ℕ)

/-- The loop of the reader from a frame on. What fits in one frame is the last frame. -/
def decryptLoop (position : ℕ) (headerBound : Bool) (body : Bytes) :
    Except FileStreamError Bytes :=
  if body.length ≤ frameSize + streamTagLen then
    if body.length < streamTagLen then .error .truncated
    else
      match c.decrypt dek (c.streamNonce noncePrefix position true)
          (if headerBound then [] else hdr) body with
      | none => .error .aead
      | some pt => .ok pt
  else if position = counterMax then .error .aead
  else
    match c.decrypt dek (c.streamNonce noncePrefix position false) (if headerBound then [] else hdr)
        (body.take (frameSize + streamTagLen)) with
    | none => .error .aead
    | some pt => do
      let rest ← decryptLoop (position + 1) true (body.drop (frameSize + streamTagLen))
      return pt ++ rest
termination_by body.length
decreasing_by
  simp only [List.length_drop, streamTagLen] at *
  omega

end Decrypt

def decryptStream (c : StreamCrypto) (dek ciphertext : Bytes) : Except FileStreamError Bytes :=
  if ciphertext.length < v3HeaderLen then .error .unsupportedLegacyFormat
  else
    let hdr := ciphertext.take v3HeaderLen
    let body := ciphertext.drop v3HeaderLen
    if hdr.take 4 ≠ v3Magic ∨ hdr[4]? ≠ some v3Version then .error .unsupportedLegacyFormat
    else
      let frameSize := fromBeBytes (hdr.drop 5)
      if frameSize = 0 then .error .badFrameSize
      else if body.length < streamTagLen then .error .truncated
      else decryptLoop c dek (deriveNoncePrefix c dek) hdr frameSize 0 false body

end Harmony.Files
