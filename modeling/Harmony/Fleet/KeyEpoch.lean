import Harmony.Lib.TreeMap

/-! The carrier of fleet key epochs. A remote doc is adopted whole, if its epoch is
strictly higher and its signature is good, so two good docs of one epoch part the
devices by which of them came first. -/

namespace Harmony.Fleet

open Harmony.Lib

abbrev Bytes := List UInt8
abbrev OwnerId := Bytes
abbrev DeviceId := Bytes

structure PubKeyBundle where
  ed25519Verify : Bytes
  rest : Bytes
deriving DecidableEq

/-- An enrollment cert; `rest` is what only its own verification reads. -/
structure EnrollmentCert where
  ownerId : OwnerId
  deviceId : DeviceId
  /-- the issuer is `EnrollmentIssuer::Master` -/
  masterIssued : Bool
  ed25519Verify : Bytes
  rest : Bytes
deriving DecidableEq

/-- What signature and certificate checks the carrier relies on. -/
structure KeyCrypto where
  identityHash : PubKeyBundle → OwnerId
  /-- the canonical encoding of epoch, bump wall, sealed blobs and master key, if it succeeds -/
  encodeSigned : ℕ → ℕ → BTreeMap String Bytes → Option PubKeyBundle → Option Bytes
  /-- `VerifyingKey::from_bytes` succeeds -/
  keyValid : Bytes → Bool
  /-- `verify_strict` of a signature of 64 bytes -/
  verifyStrict : Bytes → Bytes → Bytes → Bool
  /-- `EnrollmentCert::verify` at a time in seconds -/
  certVerifies : EnrollmentCert → ℕ → Bool

structure QuorumDocSig where
  signers : List String
  signatures : List Bytes

structure FleetKeyEpochDoc where
  epoch : ℕ := 0
  bumpWallMs : ℕ := 0
  sealed : BTreeMap String Bytes := ∅
  masterPubkey : Option PubKeyBundle := none
  masterSig : Bytes := []
  quorumSig : Option QuorumDocSig := none
  signerCerts : List EnrollmentCert := []

/-! ## Verification -/

def hexDigit (c : Char) : Option UInt8 :=
  if '0' ≤ c ∧ c ≤ '9' then some (UInt8.ofNat (c.toNat - 48))
  else if 'a' ≤ c ∧ c ≤ 'f' then some (UInt8.ofNat (c.toNat - 87))
  else if 'A' ≤ c ∧ c ≤ 'F' then some (UInt8.ofNat (c.toNat - 55))
  else none

/-- `hex::decode` -/
def hexDecode : List Char → Option Bytes
  | [] => some []
  | [_] => none
  | hi :: lo :: rest => do return (16 * (← hexDigit hi) + (← hexDigit lo)) :: (← hexDecode rest)

variable (K : KeyCrypto) (ownerId : OwnerId)

def keysSigDomain : Bytes := "harmony-fleet-keys-v1-sig".toUTF8.toList

def FleetKeyEpochDoc.signingBytes (doc : FleetKeyEpochDoc) : Option Bytes :=
  (K.encodeSigned doc.epoch doc.bumpWallMs doc.sealed doc.masterPubkey).map (keysSigDomain ++ ·)

/-- A signature of 64 bytes by a valid key. -/
def signatureOk (key message sig : Bytes) : Bool :=
  K.keyValid key && sig.length == 64 && K.verifyStrict key message sig

def FleetKeyEpochDoc.verify (doc : FleetKeyEpochDoc) : Bool :=
  match doc.masterPubkey, doc.signingBytes K with
  | some bundle, some message =>
    K.identityHash bundle = ownerId && signatureOk K bundle.ed25519Verify message doc.masterSig
  | _, _ => false

/-- One turn of the signer loop: the ids seen so far, if no check has failed. -/
def verifySigner (doc : FleetKeyEpochDoc) (message : Bytes) (seen : Option (List DeviceId))
    (part : String × Bytes) : Option (List DeviceId) := do
  let seen ← seen
  let signerId ← hexDecode part.1.toList
  let cert ← doc.signerCerts.find? (·.deviceId = signerId)
  if signerId.length = 16 ∧ signerId ∉ seen ∧ cert.ownerId = ownerId ∧ cert.masterIssued ∧
      K.certVerifies cert (doc.bumpWallMs / 1000) ∧
      signatureOk K cert.ed25519Verify message part.2 then
    some (signerId :: seen)
  else none

def FleetKeyEpochDoc.verifyQuorum (doc : FleetKeyEpochDoc) : Bool :=
  match doc.quorumSig, doc.signingBytes K with
  | some q, some message =>
    decide (2 ≤ q.signers.length) && q.signers.length == q.signatures.length &&
      ((q.signers.zip q.signatures).foldl (verifySigner K ownerId doc message) (some [])).isSome
  | _, _ => false

def FleetKeyEpochDoc.verifyAny (doc : FleetKeyEpochDoc) : Bool :=
  if doc.quorumSig.isSome then doc.verifyQuorum K ownerId else doc.verify K ownerId

/-! ## Merge and restart -/

def mergeFleetKeysRemote (doc remote : FleetKeyEpochDoc) : FleetKeyEpochDoc × Bool :=
  if remote.epoch ≤ doc.epoch then (doc, false)
  else if !remote.verifyAny K ownerId then (doc, false)
  else (remote, true)

/-- What reading the doc file comes to. -/
inductive DocFile where
  | notFound
  | unreadable
  | undecodable
  | decoded (doc : FleetKeyEpochDoc)

def loadDocOrRecover : DocFile → FleetKeyEpochDoc
  | .notFound | .unreadable | .undecodable => {}
  | .decoded doc => if 0 < doc.epoch ∧ !doc.verifyAny K ownerId then {} else doc

/-! ## A device -/

inductive Step where
  | merge (remote : FleetKeyEpochDoc)
  /-- the doc is written to its file -/
  | persist
  | restart

/-- A device with its file. The last two fields are no part of the code: the docs that have
been received and not lost in a restart, and those of the time of the last write. -/
structure Device where
  doc : FleetKeyEpochDoc := {}
  file : DocFile := .notFound
  received : List FleetKeyEpochDoc := []
  receivedThen : List FleetKeyEpochDoc := []

def Device.step (d : Device) : Step → Device
  | .merge remote =>
    { d with doc := (mergeFleetKeysRemote K ownerId d.doc remote).1, received := remote :: d.received }
  | .persist => { d with file := .decoded d.doc, receivedThen := d.received }
  | .restart => { d with doc := loadDocOrRecover K ownerId d.file, received := d.receivedThen }

def Device.run (steps : List Step) : Device := steps.foldl (Device.step K ownerId) {}

/-- The doc is the default, or was received and is good; no good doc that was received has
a higher epoch. -/
structure Holds (doc : FleetKeyEpochDoc) (received : List FleetKeyEpochDoc) : Prop where
  good : doc = {} ∨ doc ∈ received ∧ doc.verifyAny K ownerId = true ∧ 0 < doc.epoch
  highest : ∀ r ∈ received, r.verifyAny K ownerId = true → r.epoch ≤ doc.epoch

variable {K ownerId} {doc : FleetKeyEpochDoc} {received : List FleetKeyEpochDoc}

theorem Holds.init : Holds K ownerId {} [] := ⟨Or.inl rfl, by simp⟩

theorem mergeFleetKeysRemote_epoch_le (remote : FleetKeyEpochDoc) :
    doc.epoch ≤ (mergeFleetKeysRemote K ownerId doc remote).1.epoch := by
  unfold mergeFleetKeysRemote
  split_ifs with hle
  · exact le_rfl
  · exact le_rfl
  · exact (not_le.mp hle).le

theorem Holds.merge (h : Holds K ownerId doc received) (remote : FleetKeyEpochDoc) :
    Holds K ownerId (mergeFleetKeysRemote K ownerId doc remote).1 (remote :: received) := by
  have hkeep : doc = {} ∨ doc ∈ remote :: received ∧ doc.verifyAny K ownerId = true ∧ 0 < doc.epoch :=
    h.good.imp_right fun hg => ⟨List.mem_cons_of_mem _ hg.1, hg.2⟩
  unfold mergeFleetKeysRemote
  split_ifs with hle hbad
  · refine ⟨hkeep, fun r hr hv => ?_⟩
    rcases List.mem_cons.mp hr with rfl | hr
    · exact hle
    · exact h.highest r hr hv
  · refine ⟨hkeep, fun r hr hv => ?_⟩
    rcases List.mem_cons.mp hr with rfl | hr
    · simp [hv] at hbad
    · exact h.highest r hr hv
  · have hv : remote.verifyAny K ownerId = true := by simpa using hbad
    refine ⟨Or.inr ⟨List.mem_cons_self, hv, Nat.zero_lt_of_lt (not_le.mp hle)⟩, fun r hr hr' => ?_⟩
    rcases List.mem_cons.mp hr with rfl | hr
    · exact le_rfl
    · exact (h.highest r hr hr').trans (not_le.mp hle).le

theorem Holds.load (h : Holds K ownerId doc received) :
    loadDocOrRecover K ownerId (.decoded doc) = doc := by
  refine if_neg fun hbad => ?_
  rcases h.good with rfl | ⟨-, hv, -⟩
  · exact absurd hbad.1 (lt_irrefl 0)
  · simp [hv] at hbad

/-- What holds of a device in every run; what was written was held when it was written. -/
structure Device.Sound (K : KeyCrypto) (ownerId : OwnerId) (d : Device) : Prop where
  held : Holds K ownerId d.doc d.received
  written : Holds K ownerId (loadDocOrRecover K ownerId d.file) d.receivedThen

theorem Device.Sound.step {d : Device} (h : d.Sound K ownerId) (s : Step) :
    (d.step K ownerId s).Sound K ownerId := by
  cases s with
  | merge remote => exact ⟨h.held.merge remote, h.written⟩
  | persist =>
    refine ⟨h.held, ?_⟩
    simp only [Device.step]
    rw [h.held.load]
    exact h.held
  | restart => exact ⟨h.written, h.written⟩

theorem Device.run_sound (K : KeyCrypto) (ownerId : OwnerId) (steps : List Step) :
    (Device.run K ownerId steps).Sound K ownerId := by
  refine List.foldlRecOn (motive := fun d => Device.Sound K ownerId d) _ _ ⟨.init, .init⟩ ?_
  exact fun d hd s _ => hd.step s

theorem Device.run_snoc (steps : List Step) (s : Step) :
    Device.run K ownerId (steps ++ [s]) = (Device.run K ownerId steps).step K ownerId s := by
  simp [Device.run]

theorem Device.run_append (steps later : List Step) :
    Device.run K ownerId (steps ++ later) =
      later.foldl (Device.step K ownerId) (Device.run K ownerId steps) := List.foldl_append

theorem Device.file_of_unwritten {later : List Step} (h : Step.persist ∉ later) (d : Device) :
    (later.foldl (Device.step K ownerId) d).file = d.file := by
  induction later generalizing d with
  | nil => rfl
  | cons s later ih =>
    rw [List.mem_cons, not_or] at h
    rw [List.foldl_cons, ih h.2]
    cases s with
    | persist => exact absurd rfl h.1
    | merge remote => rfl
    | restart => rfl

/-- The same good docs have been received. -/
def SameGood (K : KeyCrypto) (ownerId : OwnerId) (l l' : List FleetKeyEpochDoc) : Prop :=
  ∀ doc, doc.verifyAny K ownerId = true → (doc ∈ l ↔ doc ∈ l')

/-- Good docs of one epoch are one doc. -/
def NoTies (K : KeyCrypto) (ownerId : OwnerId) (l : List FleetKeyEpochDoc) : Prop :=
  ∀ a ∈ l, ∀ b ∈ l, a.verifyAny K ownerId = true → b.verifyAny K ownerId = true →
    a.epoch = b.epoch → a = b

theorem Holds.epoch_le {doc' : FleetKeyEpochDoc} {received' : List FleetKeyEpochDoc}
    (h : Holds K ownerId doc received) (h' : Holds K ownerId doc' received')
    (hs : SameGood K ownerId received received') : doc.epoch ≤ doc'.epoch := by
  rcases h.good with rfl | ⟨hmem, hv, -⟩
  · exact Nat.zero_le _
  · exact h'.highest doc ((hs doc hv).mp hmem) hv

theorem SameGood.symm {l l' : List FleetKeyEpochDoc} (h : SameGood K ownerId l l') :
    SameGood K ownerId l' l := fun doc hv => (h doc hv).symm

theorem Holds.eq_of_noTies {doc' : FleetKeyEpochDoc} {received' : List FleetKeyEpochDoc}
    (h : Holds K ownerId doc received) (h' : Holds K ownerId doc' received')
    (hs : SameGood K ownerId received received') (ht : NoTies K ownerId received) : doc = doc' := by
  have he : doc.epoch = doc'.epoch := (h.epoch_le h' hs).antisymm (h'.epoch_le h hs.symm)
  rcases h.good with rfl | ⟨hmem, hv, hpos⟩ <;> rcases h'.good with rfl | ⟨hmem', hv', hpos'⟩
  · rfl
  · exact absurd he hpos'.ne
  · exact absurd he hpos.ne'
  · exact ht doc hmem doc' ((hs doc' hv').mpr hmem') hv hv' he

/-- A device holds the default or a good doc; its epoch falls only in a restart, which
brings back what was written last; and devices that have kept the same good docs are at
one epoch, with one doc where no two of these share an epoch. -/
theorem carriers_agree_without_ties (K : KeyCrypto) (ownerId : OwnerId) (steps steps' : List Step) :
    ((Device.run K ownerId steps).doc = {} ∨
      (Device.run K ownerId steps).doc.verifyAny K ownerId = true) ∧
    (∀ s, s ≠ .restart → (Device.run K ownerId steps).doc.epoch ≤
      (Device.run K ownerId (steps ++ [s])).doc.epoch) ∧
    (∀ later, .persist ∉ later →
      (Device.run K ownerId (steps ++ .persist :: later ++ [.restart])).doc =
        (Device.run K ownerId steps).doc) ∧
    (SameGood K ownerId (Device.run K ownerId steps).received (Device.run K ownerId steps').received →
      (Device.run K ownerId steps).doc.epoch = (Device.run K ownerId steps').doc.epoch ∧
      (NoTies K ownerId (Device.run K ownerId steps).received →
        (Device.run K ownerId steps).doc = (Device.run K ownerId steps').doc)) := by
  have h := (Device.run_sound K ownerId steps).held
  have h' := (Device.run_sound K ownerId steps').held
  refine ⟨h.good.imp_right fun hg => hg.2.1, fun s hs => ?_, fun later hl => ?_, fun hs => ⟨?_, ?_⟩⟩
  · rw [Device.run_snoc]
    cases s with
    | merge remote => exact mergeFleetKeysRemote_epoch_le remote
    | persist => exact le_rfl
    | restart => exact absurd rfl hs
  · rw [Device.run_snoc, Device.run_append, List.foldl_cons]
    simp only [Device.step]
    rw [Device.file_of_unwritten hl]
    exact h.load
  · exact (h.epoch_le h' hs).antisymm (h'.epoch_le h hs.symm)
  · exact h.eq_of_noTies h' hs

/-! ## Two bumps at once -/

/-- A signature is the key and the message it signs, cut or filled to 64 bytes. -/
def sampleSign (key message : Bytes) : Bytes := (key ++ message ++ List.replicate 64 0).take 64

def sampleCrypto : KeyCrypto where
  identityHash bundle := bundle.rest
  encodeSigned epoch wall sealed master :=
    some (UInt8.ofNat epoch :: UInt8.ofNat wall :: sealed.toList.flatMap (·.2) ++
      master.elim [] (·.ed25519Verify))
  keyValid key := key.length == 2
  verifyStrict key message sig := sig == sampleSign key message
  certVerifies _ _ := false

def sampleOwner : OwnerId := [7]

/-- A bump signed by the master of the sample owner. -/
def bumpedTo (epoch wall : ℕ) (blob : Bytes) : FleetKeyEpochDoc :=
  let doc : FleetKeyEpochDoc :=
    { epoch := epoch
      bumpWallMs := wall
      sealed := (∅ : BTreeMap String Bytes).insert "d1" blob
      masterPubkey := some ⟨[1, 2], sampleOwner⟩ }
  { doc with masterSig := (doc.signingBytes sampleCrypto).elim [] (sampleSign [1, 2]) }

/-- Two devices receive two bumps in two orders, one of them with a restart between. -/
theorem carriers_agree_without_ties_orders :
    (bumpedTo 1 10 [3]).verifyAny sampleCrypto sampleOwner = true ∧
    (bumpedTo 2 20 [4]).verifyAny sampleCrypto sampleOwner = true ∧
    (Device.run sampleCrypto sampleOwner
      [.merge (bumpedTo 1 10 [3]), .persist, .merge (bumpedTo 2 20 [4])]).doc =
    (Device.run sampleCrypto sampleOwner
      [.merge (bumpedTo 2 20 [4]), .persist, .merge (bumpedTo 1 10 [3]), .restart,
        .merge (bumpedTo 1 10 [3])]).doc := by
  obtain ⟨-, -, -, hagree⟩ := carriers_agree_without_ties sampleCrypto sampleOwner
    [.merge (bumpedTo 1 10 [3]), .persist, .merge (bumpedTo 2 20 [4])]
    [.merge (bumpedTo 2 20 [4]), .persist, .merge (bumpedTo 1 10 [3]), .restart,
      .merge (bumpedTo 1 10 [3])]
  refine ⟨by decide +kernel, by decide +kernel, (hagree fun doc _ => ?_).2 ?_⟩
  · simp [Device.run, Device.step, or_comm]
  · intro a ha b hb _ _ hepoch
    simp only [Device.run, Device.step, List.foldl_cons, List.foldl_nil, List.mem_cons,
      List.not_mem_nil, or_false] at ha hb
    rcases ha with rfl | rfl <;> rcases hb with rfl | rfl <;>
      first | rfl | exact absurd hepoch (by decide)

/-- Two devices receive two bumps to epoch 1 in two orders and keep two group keys; and a
bump that is not yet written is lost in a restart. -/
theorem concurrent_bumps_part :
    (bumpedTo 1 10 [3]).verifyAny sampleCrypto sampleOwner = true ∧
    (bumpedTo 1 20 [4]).verifyAny sampleCrypto sampleOwner = true ∧
    (Device.run sampleCrypto sampleOwner
      [.merge (bumpedTo 1 10 [3]), .merge (bumpedTo 1 20 [4])]).doc.sealed["d1"]? = some [3] ∧
    (Device.run sampleCrypto sampleOwner
      [.merge (bumpedTo 1 20 [4]), .merge (bumpedTo 1 10 [3])]).doc.sealed["d1"]? = some [4] ∧
    (Device.run sampleCrypto sampleOwner [.merge (bumpedTo 1 10 [3])]).doc.epoch = 1 ∧
    (Device.run sampleCrypto sampleOwner [.merge (bumpedTo 1 10 [3]), .restart]).doc.epoch = 0 := by
  decide +kernel

end Harmony.Fleet
