import Harmony.Lib.ByteArr

/-! Hexadecimal text: lower-case digits of fixed width, and the reader of an unsigned
number in base sixteen. -/

namespace Harmony.Lib

def hexDigits : List Char := "0123456789abcdef".toList

def hexDigit (n : ℕ) : Char := hexDigits.getD (n % 16) '0'

/-- `char::to_digit` in base sixteen. -/
def hexDigitValue (c : Char) : Option ℕ :=
  if '0' ≤ c ∧ c ≤ '9' then some (c.toNat - '0'.toNat)
  else if 'a' ≤ c ∧ c ≤ 'f' then some (c.toNat - 'a'.toNat + 10)
  else if 'A' ≤ c ∧ c ≤ 'F' then some (c.toNat - 'A'.toNat + 10)
  else none

def hexPad : ℕ → ℕ → List Char
  | 0, _ => []
  | width + 1, n => hexPad width (n / 16) ++ [hexDigit n]

def readHexDigits (cs : List Char) : Option ℕ :=
  cs.foldlM (fun acc c => (hexDigitValue c).map fun d => 16 * acc + d) 0

/-- `u32::from_str_radix(_, 16)`: an optional sign, at least one digit, no overflow. -/
def u32FromHex : List Char → Option ℕ
  | [] => none
  | '+' :: [] => none
  | '+' :: cs => (readHexDigits cs).filter (· < 2 ^ 32)
  | cs => (readHexDigits cs).filter (· < 2 ^ 32)

/-- `hex::encode`. -/
def hexEncode (bytes : List Byte) : List Char := bytes.flatMap fun b => hexPad 2 b.val

theorem hexDigitValue_hexDigit (n : ℕ) : hexDigitValue (hexDigit n) = some (n % 16) := by
  have h : ∀ d : Fin 16, hexDigitValue (hexDigits.getD d.val '0') = some d.val := by decide
  exact h ⟨n % 16, Nat.mod_lt n (by decide)⟩

theorem hexDigit_ne {c : Char} (hc : c ∉ hexDigits) (n : ℕ) : hexDigit n ≠ c := by
  have h : ∀ d : Fin 16, hexDigits.getD d.val '0' ∈ hexDigits := by decide
  intro he
  exact hc (he ▸ h ⟨n % 16, Nat.mod_lt n (by decide)⟩)

theorem hexPad_length (width n : ℕ) : (hexPad width n).length = width := by
  induction width generalizing n with
  | zero => rfl
  | succ width ih => simp [hexPad, ih]

/-- A character that is no digit is not written. -/
theorem notMem_hexPad {c : Char} (hc : c ∉ hexDigits) (width n : ℕ) : c ∉ hexPad width n := by
  induction width generalizing n with
  | zero => simp [hexPad]
  | succ width ih =>
    rw [hexPad, List.mem_append, List.mem_singleton, not_or]
    exact ⟨ih (n / 16), (hexDigit_ne hc n).symm⟩

theorem readHexDigits_append_digit (cs : List Char) (n : ℕ) :
    readHexDigits (cs ++ [hexDigit n]) = (readHexDigits cs).map fun acc => 16 * acc + n % 16 := by
  rw [readHexDigits, List.foldlM_append]
  change (readHexDigits cs).bind _ = _
  cases readHexDigits cs with
  | none => rfl
  | some acc => simp [hexDigitValue_hexDigit]

/-- Reading what was written gives the number back, as far as the width goes. -/
theorem readHexDigits_hexPad (width n : ℕ) :
    readHexDigits (hexPad width n) = some (n % 16 ^ width) := by
  induction width generalizing n with
  | zero => simp [hexPad, readHexDigits, Nat.mod_one]
  | succ width ih =>
    rw [hexPad, readHexDigits_append_digit, ih, Option.map_some, pow_succ', Nat.mod_mul]
    congr 1
    omega

theorem hexPad_injOn {width m n : ℕ} (hm : m < 16 ^ width) (hn : n < 16 ^ width)
    (h : hexPad width m = hexPad width n) : m = n := by
  have hr := congrArg readHexDigits h
  rw [readHexDigits_hexPad, readHexDigits_hexPad] at hr
  simpa [Nat.mod_eq_of_lt hm, Nat.mod_eq_of_lt hn] using hr

/-- The eight digits of a `u32` read back as that number. -/
theorem u32FromHex_hexPad {n : ℕ} (hn : n < 2 ^ 32) : u32FromHex (hexPad 8 n) = some n := by
  have hread : readHexDigits (hexPad 8 n) = some n := by
    rw [readHexDigits_hexPad, Nat.mod_eq_of_lt (by omega)]
  have hplus : '+' ∉ hexPad 8 n := notMem_hexPad (by decide) 8 n
  have hlen := hexPad_length 8 n
  unfold u32FromHex
  split
  · simp_all
  · simp_all
  · simp_all
  · rw [hread, Option.filter_some, if_pos (by simpa using hn)]

theorem hexEncode_injective {as bs : List Byte} (h : hexEncode as = hexEncode bs) : as = bs := by
  induction as generalizing bs with
  | nil =>
    cases bs with
    | nil => rfl
    | cons b bs => simp [hexEncode, hexPad] at h
  | cons a as ih =>
    cases bs with
    | nil => simp [hexEncode, hexPad] at h
    | cons b bs =>
      rw [hexEncode, hexEncode, List.flatMap_cons, List.flatMap_cons] at h
      obtain ⟨hhead, htail⟩ := List.append_inj h (by simp [hexPad_length])
      have hab : a.val = b.val := hexPad_injOn (by simp) (by simp) hhead
      rw [Fin.ext hab, ih htail]

end Harmony.Lib
