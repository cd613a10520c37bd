import Harmony.Lib.ByteArr
import Harmony.Lib.Slice

/-! What range-based reconciliation is run over: events under their canonical keys,
the count-folded fingerprint of a range, and the sources that answer range queries.
SHA-256 is a parameter. -/

namespace Harmony.Reconcile

open Harmony.Lib

/-- `(wall_ms, logical, device_id, element_hash)`, compared in this order. -/
structure ReconcileKey where
  wallMs : Fin (2 ^ 64)
  logical : Fin (2 ^ 32)
  deviceId : String
  elementHash : ByteArr 32

namespace ReconcileKey

def toTuple (k : ReconcileKey) : Fin (2 ^ 64) ×ₗ Fin (2 ^ 32) ×ₗ String ×ₗ ByteArr 32 :=
  toLex (k.wallMs, toLex (k.logical, toLex (k.deviceId, k.elementHash)))

theorem toTuple_injective : Function.Injective toTuple := by
  rintro ⟨_, _, _, _⟩ ⟨_, _, _, _⟩ h
  simpa [toTuple] using h

instance : LinearOrder ReconcileKey := LinearOrder.lift' toTuple toTuple_injective

instance lawfulBEq : LawfulBEq ReconcileKey := inferInstance

theorem lt_of_wallMs {a b : ReconcileKey} (h : a.wallMs < b.wallMs) : a < b :=
  Prod.Lex.lt_iff.mpr (Or.inl h)

end ReconcileKey

def minKey : ReconcileKey := ⟨0, 0, "", 0⟩

def maxKey : ReconcileKey :=
  ⟨Fin.last _, Fin.last _, String.ofList (List.replicate 8 (Char.ofNat 0x10FFFF)),
    ⟨List.replicate 32 255, List.length_replicate⟩⟩

theorem minKey_lt_maxKey : minKey < maxKey :=
  ReconcileKey.lt_of_wallMs (by decide)

def leafThreshold : ℕ := 16
def maxRbsrRounds : ℕ := 32
def rbsrProtocolVersion : ℕ := 1

def leb128 (n : ℕ) : List Byte :=
  if h : n / 128 = 0 then [Fin.ofNat 256 (n % 128)]
  else Fin.ofNat 256 (n % 128 + 128) :: leb128 (n / 128)
termination_by n
decreasing_by
  exact Nat.div_lt_self (Nat.pos_of_ne_zero fun h0 => h (by simp [h0])) (by decide)

structure RangeFingerprint where
  rawSum : ByteArr 32
  count : ℕ
deriving DecidableEq

namespace RangeFingerprint

def zero : RangeFingerprint := ⟨0, 0⟩

def fold (f : RangeFingerprint) (elementHash : ByteArr 32) : RangeFingerprint :=
  ⟨f.rawSum + elementHash, f.count + 1⟩

def combine (f other : RangeFingerprint) : RangeFingerprint :=
  ⟨f.rawSum + other.rawSum, f.count + other.count⟩

/-- The first half of `sha256(raw_sum ++ leb128(count))`. -/
def finalize (sha256 : List Byte → ByteArr 32) (f : RangeFingerprint) : ByteArr 16 :=
  ⟨(sha256 (f.rawSum.1 ++ leb128 f.count)).1.take 16, by
    rw [List.length_take, (sha256 _).2]
    rfl⟩

theorem foldl_fold (f : RangeFingerprint) (hashes : List (ByteArr 32)) :
    hashes.foldl fold f = ⟨f.rawSum + hashes.sum, f.count + hashes.length⟩ := by
  induction hashes generalizing f with
  | nil => simp
  | cons h hashes ih =>
    rw [List.foldl_cons, ih, fold, List.sum_cons, List.length_cons, add_assoc, Nat.add_assoc,
      Nat.add_comm 1]

end RangeFingerprint

abbrev Entry := ReconcileKey × ByteArr 32

def fingerprintOf (entries : List Entry) : RangeFingerprint :=
  entries.foldl (fun f x => f.fold x.2) RangeFingerprint.zero

@[simp] theorem combine_zero (f : RangeFingerprint) : f.combine RangeFingerprint.zero = f := by
  simp [RangeFingerprint.combine, RangeFingerprint.zero]

@[simp] theorem zero_combine (f : RangeFingerprint) : RangeFingerprint.zero.combine f = f := by
  simp [RangeFingerprint.combine, RangeFingerprint.zero]

theorem combine_assoc (f g h : RangeFingerprint) :
    (f.combine g).combine h = f.combine (g.combine h) := by
  simp [RangeFingerprint.combine, add_assoc]

theorem fingerprintOf_eq (entries : List Entry) :
    fingerprintOf entries = ⟨(entries.map Prod.snd).sum, entries.length⟩ := by
  have h := RangeFingerprint.foldl_fold RangeFingerprint.zero (entries.map Prod.snd)
  rw [List.foldl_map, List.length_map] at h
  simpa [fingerprintOf, RangeFingerprint.zero] using h

theorem foldl_entries (f : RangeFingerprint) (entries : List Entry) :
    entries.foldl (fun f x => f.fold x.2) f = f.combine (fingerprintOf entries) := by
  have h := RangeFingerprint.foldl_fold f (entries.map Prod.snd)
  rw [List.foldl_map, List.length_map] at h
  rw [h, fingerprintOf_eq]
  rfl

theorem fingerprintOf_append (xs ys : List Entry) :
    fingerprintOf (xs ++ ys) = (fingerprintOf xs).combine (fingerprintOf ys) := by
  rw [fingerprintOf, List.foldl_append, foldl_entries]
  rfl

theorem fingerprintOf_perm {xs ys : List Entry} (h : xs.Perm ys) :
    fingerprintOf xs = fingerprintOf ys := by
  rw [fingerprintOf_eq, fingerprintOf_eq, (h.map Prod.snd).sum_eq, h.length_eq]

/-- `trait RangeReconcileSource`; ranges are half-open. -/
class RangeReconcileSource (σ : Type) where
  rangeFingerprint : σ → ReconcileKey → ReconcileKey → RangeFingerprint
  rangeCount : σ → ReconcileKey → ReconcileKey → ℕ
  keysInRange : σ → ReconcileKey → ReconcileKey → List ReconcileKey
  splitKey : σ → ReconcileKey → ReconcileKey → Option ReconcileKey

/-- The entries in ascending key order. -/
structure SliceSource where
  entries : List Entry
  ascending : Ascending Prod.fst entries

namespace SliceSource

def fromUnsorted (entries : List Entry) : SliceSource :=
  ⟨sortDedup Prod.fst entries, sortDedup_ascending entries⟩

def slice (s : SliceSource) (lo hi : ReconcileKey) : List Entry :=
  Lib.slice Prod.fst lo hi s.entries

instance : RangeReconcileSource SliceSource where
  rangeFingerprint s lo hi := fingerprintOf (s.slice lo hi)
  rangeCount s lo hi := (s.slice lo hi).length
  keysInRange s lo hi := (s.slice lo hi).map Prod.fst
  splitKey s lo hi :=
    if (s.slice lo hi).length < 2 then none
    else ((s.slice lo hi)[(s.slice lo hi).length / 2]?).map Prod.fst

def keys (s : SliceSource) : List ReconcileKey := s.entries.map Prod.fst

end SliceSource

/-- The voting log's source has the queries of `SliceSource`; only the way it is
built differs. -/
abbrev VotingReconcileSource := SliceSource

/-- Each event is listed under its canonical key, with the hash in that key. -/
def VotingReconcileSource.fromEvents {ε : Type} (canonicalKey : ε → ReconcileKey)
    (events : List ε) : VotingReconcileSource :=
  SliceSource.fromUnsorted (events.map fun ev => (canonicalKey ev, (canonicalKey ev).elementHash))

end Harmony.Reconcile
