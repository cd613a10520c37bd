import Mathlib

/-! Fixed-width byte strings. They are ordered byte by byte, as arrays are, and
added as little-endian numbers that wrap around. -/

namespace Harmony.Lib

abbrev Byte := Fin 256

instance neZero_byte : NeZero 256 := ⟨by decide⟩

instance neZero_word : NeZero (2 ^ 32) := ⟨by decide⟩

instance neZero_doubleWord : NeZero (2 ^ 64) := ⟨by decide⟩

abbrev ByteArr (n : ℕ) := {bytes : List Byte // bytes.length = n}

def ByteArr.replicate (n : ℕ) (b : Byte) : ByteArr n := ⟨List.replicate n b, List.length_replicate⟩

def leValue : List Byte → ℕ
  | [] => 0
  | b :: bs => b + 256 * leValue bs

theorem leValue_lt (bs : List Byte) : leValue bs < 256 ^ bs.length := by
  induction bs with
  | nil => simp [leValue]
  | cons b bs ih =>
    have hb := b.isLt
    simp only [leValue, List.length_cons, pow_succ]
    omega

theorem leValue_inj {as bs : List Byte} (hl : as.length = bs.length)
    (hv : leValue as = leValue bs) : as = bs := by
  induction as generalizing bs with
  | nil => exact (List.length_eq_zero_iff.mp hl.symm).symm
  | cons a as ih =>
    cases bs with
    | nil => simp at hl
    | cons b bs =>
      have ha := a.isLt
      have hb := b.isLt
      simp only [leValue] at hv
      have hab : a = b := Fin.ext (by omega)
      rw [hab, ih (by simpa using hl) (by omega)]

/-- The schoolbook addition: each byte takes the carry of the one below it, and the
carry out of the top byte is dropped. -/
def addCarry : ℕ → List Byte → List Byte → List Byte
  | carry, a :: as, b :: bs =>
    let s := a.val + b.val + carry
    Fin.ofNat 256 s :: addCarry (s / 256) as bs
  | _, _, _ => []

theorem addCarry_length {as bs : List Byte} (hl : as.length = bs.length) (carry : ℕ) :
    (addCarry carry as bs).length = as.length := by
  induction as generalizing bs carry with
  | nil => simp [addCarry]
  | cons a as ih =>
    cases bs with
    | nil => simp at hl
    | cons b bs => simp [addCarry, ih (by simpa using hl)]

theorem leValue_addCarry {as bs : List Byte} (hl : as.length = bs.length) (carry : ℕ) :
    leValue (addCarry carry as bs) = (leValue as + leValue bs + carry) % 256 ^ as.length := by
  induction as generalizing bs carry with
  | nil => simp [addCarry, leValue, Nat.mod_one]
  | cons a as ih =>
    cases bs with
    | nil => simp at hl
    | cons b bs =>
      have hsplit : a.val + 256 * leValue as + (b.val + 256 * leValue bs) + carry =
          a.val + b.val + carry + 256 * (leValue as + leValue bs) := by ring
      have hdiv : (a.val + b.val + carry + 256 * (leValue as + leValue bs)) / 256 =
          leValue as + leValue bs + (a.val + b.val + carry) / 256 := by omega
      have hmod : (a.val + b.val + carry + 256 * (leValue as + leValue bs)) % 256 =
          (a.val + b.val + carry) % 256 := by omega
      simp only [addCarry, leValue, ih (show as.length = bs.length by simpa using hl),
        List.length_cons, Fin.val_ofNat]
      rw [hsplit, pow_succ', Nat.mod_mul, hdiv, hmod]

namespace ByteArr

variable {n : ℕ}

def value (a : ByteArr n) : ℕ := leValue a.1

theorem value_lt (a : ByteArr n) : a.value < 256 ^ n := by
  have h := leValue_lt a.1
  rwa [a.2] at h

theorem value_injective : Function.Injective (value : ByteArr n → ℕ) := fun a b h =>
  Subtype.ext (leValue_inj (a.2.trans b.2.symm) h)

instance : Zero (ByteArr n) := ⟨⟨List.replicate n 0, List.length_replicate⟩⟩

/-- Addition modulo `2 ^ (8 n)`. -/
instance : Add (ByteArr n) :=
  ⟨fun a b => ⟨addCarry 0 a.1 b.1, (addCarry_length (a.2.trans b.2.symm) 0).trans a.2⟩⟩

@[simp] theorem value_zero : (0 : ByteArr n).value = 0 := by
  change leValue (List.replicate n 0) = 0
  induction n with
  | zero => rfl
  | succ n ih => simp [List.replicate_succ, leValue, ih]

theorem value_add (a b : ByteArr n) : (a + b).value = (a.value + b.value) % 256 ^ n := by
  have h := leValue_addCarry (a.2.trans b.2.symm) 0
  rw [a.2] at h
  exact h

/-- Sums do not depend on the order or the grouping of their terms. -/
instance : AddCommMonoid (ByteArr n) where
  add_assoc a b c := value_injective (by simp [value_add, Nat.add_assoc])
  zero_add a := value_injective (by simp [value_add, Nat.mod_eq_of_lt a.value_lt])
  add_zero a := value_injective (by simp [value_add, Nat.mod_eq_of_lt a.value_lt])
  add_comm a b := value_injective (by simp [value_add, Nat.add_comm])
  nsmul := nsmulRec

end ByteArr

end Harmony.Lib
