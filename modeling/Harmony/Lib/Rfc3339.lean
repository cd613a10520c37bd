import Mathlib

/-! Date-times of RFC 3339: the grammar, the instant a text denotes, and how far the
order of texts agrees with that of instants. Only the prefix down to the second is
compared; a second 60 and fractions make the two differ by less than a second. -/

namespace Harmony.Lib.Rfc3339

/-! ## The grammar -/

def number : ℕ → List Char → Option (ℕ × List Char)
  | 0, cs => some (0, cs)
  | _ + 1, [] => none
  | n + 1, c :: cs =>
    if c.isDigit then (number n cs).map fun p => ((c.toNat - 48) * 10 ^ n + p.1, p.2) else none

def lit (allowed : List Char) : List Char → Option (List Char)
  | [] => none
  | c :: cs => if c ∈ allowed then some cs else none

def isLeap (year : ℕ) : Bool := year % 4 = 0 ∧ (year % 100 ≠ 0 ∨ year % 400 = 0)

def daysInMonth (year : ℕ) : ℕ → ℕ
  | 2 => if isLeap year then 29 else 28
  | 4 | 6 | 9 | 11 => 30
  | _ => 31

def daysBeforeYear (year : ℕ) : ℕ :=
  365 * year + (year + 3) / 4 - (year + 99) / 100 + (year + 399) / 400

def daysOfMonths (year : ℕ) : ℕ → ℕ
  | 0 => 0
  | months + 1 => daysOfMonths year months + daysInMonth year (months + 1)

def date (cs : List Char) : Option (ℕ × List Char) := do
  let (year, cs) ← number 4 cs
  let cs ← lit ['-'] cs
  let (month, cs) ← number 2 cs
  let cs ← lit ['-'] cs
  let (day, cs) ← number 2 cs
  if 1 ≤ month ∧ month ≤ 12 ∧ 1 ≤ day ∧ day ≤ daysInMonth year month then
    some (daysBeforeYear year + daysOfMonths year (month - 1) + day, cs)
  else none

/-- `hh:mm:ss`, as seconds of the day; the second 60 is that of a leap second. -/
def timeOfDay (cs : List Char) : Option (ℕ × List Char) := do
  let (hour, cs) ← number 2 cs
  let cs ← lit [':'] cs
  let (minute, cs) ← number 2 cs
  let cs ← lit [':'] cs
  let (second, cs) ← number 2 cs
  if hour ≤ 23 ∧ minute ≤ 59 ∧ second ≤ 60 then some (hour * 3600 + minute * 60 + second, cs) else none

/-- Milliseconds of the digits of a fraction of a second; what is finer is cut off. -/
def millis : ℕ → List Char → ℕ
  | 0, _ => 0
  | _ + 1, [] => 0
  | n + 1, c :: cs => (c.toNat - 48) * 10 ^ n + millis n cs

/-- `.` and at least one digit, or nothing. -/
def fraction (cs : List Char) : Option (ℕ × List Char) :=
  match cs with
  | '.' :: cs =>
    if cs.takeWhile Char.isDigit = [] then none
    else some (millis 3 (cs.takeWhile Char.isDigit), cs.dropWhile Char.isDigit)
  | cs => some (0, cs)

def offset (cs : List Char) : Option ℤ :=
  match cs with
  | ['Z'] | ['z'] => some 0
  | sign :: cs => do
    let (hour, cs) ← number 2 cs
    let cs ← lit [':'] cs
    let (minute, cs) ← number 2 cs
    if sign ∈ ['+', '-'] ∧ hour ≤ 23 ∧ minute ≤ 59 ∧ cs = [] then
      some ((if sign = '-' then -1 else 1) * ((hour * 3600 + minute * 60 : ℕ) : ℤ))
    else none
  | [] => none

def epochDay : ℕ := 719529

def parse (text : String) : Option (ℤ × ℤ) := do
  let (day, cs) ← date text.toList
  let cs ← lit ['T', 't'] cs
  let (second, cs) ← timeOfDay cs
  let (ms, cs) ← fraction cs
  let off ← offset cs
  some (((((day : ℤ) - epochDay) * 86400 + second - off) * 1000 + ms, off))

example : parse "1970-01-01T00:00:00Z" = some (0, 0) := by decide +kernel
example : parse "2024-02-29t23:59:60.5-00:00" = some (1709251200500, 0) := by decide +kernel
example : parse "2023-02-29T00:00:00Z" = none := by decide +kernel

/-! ## Texts sort as the numbers they spell -/

variable {a b : ℕ} {cs ds r q : List Char}

theorem digit_bounds {c : Char} (h : c.isDigit = true) : 48 ≤ c.toNat ∧ c.toNat ≤ 57 := by
  simp only [Char.isDigit, Bool.and_eq_true, decide_eq_true_eq] at h
  exact ⟨UInt32.le_iff_toNat_le.mp h.1, UInt32.le_iff_toNat_le.mp h.2⟩

theorem number_succ_eq_some {n : ℕ} (h : number (n + 1) cs = some (a, r)) :
    ∃ c cs' v, cs = c :: cs' ∧ c.isDigit = true ∧ number n cs' = some (v, r) ∧
      a = (c.toNat - 48) * 10 ^ n + v := by
  cases cs with
  | nil => simp [number] at h
  | cons c cs =>
    rw [number] at h
    split_ifs at h with hc
    obtain ⟨⟨v, q⟩, hv, he⟩ := Option.map_eq_some_iff.mp h
    obtain ⟨rfl, rfl⟩ := Prod.mk.inj he
    exact ⟨c, cs, v, rfl, hc, hv, rfl⟩

theorem number_lt {n : ℕ} (h : number n cs = some (a, r)) : a < 10 ^ n := by
  induction n generalizing cs a with
  | zero =>
    simp only [number, Option.some.injEq, Prod.mk.injEq] at h
    omega
  | succ n ih =>
    obtain ⟨c, cs, v, rfl, hc, hv, rfl⟩ := number_succ_eq_some h
    have hd := digit_bounds hc
    have hv := ih hv
    calc (c.toNat - 48) * 10 ^ n + v < (c.toNat - 48) * 10 ^ n + 10 ^ n := by omega
      _ = (c.toNat - 48 + 1) * 10 ^ n := by ring
      _ ≤ 10 * 10 ^ n := Nat.mul_le_mul_right _ (by omega)
      _ = 10 ^ (n + 1) := by ring

/-- Between numbers of one width the first digit decides, then the rest. -/
theorem digits_lt_iff {x y v w k : ℕ} (hv : v < k) (hw : w < k) :
    x * k + v < y * k + w ↔ x < y ∨ x = y ∧ v < w := by
  rcases lt_trichotomy x y with h | rfl | h
  · have : (x + 1) * k ≤ y * k := Nat.mul_le_mul_right _ h
    simp only [h, true_or, iff_true]
    linarith [this, add_mul x 1 k]
  · simp
  · have : (y + 1) * k ≤ x * k := Nat.mul_le_mul_right _ h
    have h1 := add_mul y 1 k
    constructor
    · intro hlt
      omega
    · rintro (h' | ⟨rfl, -⟩) <;> omega

theorem digits_eq_iff {x y v w k : ℕ} (hv : v < k) (hw : w < k) :
    x * k + v = y * k + w ↔ x = y ∧ v = w := by
  constructor
  · intro he
    have h₁ := digits_lt_iff (x := x) (y := y) hv hw
    have h₂ := digits_lt_iff (x := y) (y := x) hw hv
    rw [he] at h₁ h₂
    simp only [lt_irrefl, false_iff] at h₁ h₂
    omega
  · rintro ⟨rfl, rfl⟩
    rfl

theorem number_lt_iff {n : ℕ} (h : number n cs = some (a, r)) (h' : number n ds = some (b, q)) :
    cs < ds ↔ a < b ∨ a = b ∧ r < q := by
  induction n generalizing cs ds a b with
  | zero =>
    simp only [number, Option.some.injEq, Prod.mk.injEq] at h h'
    obtain ⟨rfl, rfl⟩ := h
    obtain ⟨rfl, rfl⟩ := h'
    simp
  | succ n ih =>
    obtain ⟨c, cs, v, rfl, hc, hv, rfl⟩ := number_succ_eq_some h
    obtain ⟨d, ds, w, rfl, hd, hw, rfl⟩ := number_succ_eq_some h'
    have hcd := digit_bounds hc
    have hdd := digit_bounds hd
    have hlt : c < d ↔ c.toNat - 48 < d.toNat - 48 := by
      rw [Char.lt_def, UInt32.lt_iff_toNat_lt, Char.toNat_val, Char.toNat_val]
      omega
    have heq : c = d ↔ c.toNat - 48 = d.toNat - 48 := by
      rw [← Char.toNat_inj]
      omega
    rw [List.cons_lt_cons_iff, ih hv hw, digits_lt_iff (number_lt hv) (number_lt hw),
      digits_eq_iff (number_lt hv) (number_lt hw), hlt, heq]
    tauto

theorem lit_eq_some {allowed : List Char} (h : lit allowed cs = some r) :
    ∃ c ∈ allowed, cs = c :: r := by
  cases cs with
  | nil => simp [lit] at h
  | cons c cs =>
    rw [lit] at h
    split_ifs at h with hc
    exact ⟨c, hc, by rw [Option.some.inj h]⟩

theorem lit_lt_iff {c : Char} (h : lit [c] cs = some r) (h' : lit [c] ds = some q) :
    cs < ds ↔ r < q := by
  obtain ⟨x, hx, rfl⟩ := lit_eq_some h
  obtain ⟨y, hy, rfl⟩ := lit_eq_some h'
  rw [List.mem_singleton] at hx hy
  rw [hx, hy, List.cons_lt_cons_iff]
  simp

/-! ## Dates -/

theorem daysBeforeYear_succ (year : ℕ) :
    daysBeforeYear (year + 1) = daysBeforeYear year + if isLeap year then 366 else 365 := by
  have h₄ : (year + 1 + 3) / 4 = (year + 3) / 4 + if year % 4 = 0 then 1 else 0 := by
    split_ifs <;> omega
  have h₁₀₀ : (year + 1 + 99) / 100 = (year + 99) / 100 + if year % 100 = 0 then 1 else 0 := by
    split_ifs <;> omega
  have h₄₀₀ : (year + 1 + 399) / 400 = (year + 399) / 400 + if year % 400 = 0 then 1 else 0 := by
    split_ifs <;> omega
  have hle : (year + 99) / 100 ≤ 365 * year := by omega
  simp only [daysBeforeYear, isLeap, decide_eq_true_eq, h₄, h₁₀₀, h₄₀₀]
  by_cases c₄ : year % 4 = 0
  · by_cases c₁₀₀ : year % 100 = 0
    · by_cases c₄₀₀ : year % 400 = 0
      · simp only [c₄, c₁₀₀, c₄₀₀, ↓reduceIte, or_true, and_true]
        omega
      · simp only [c₄, c₁₀₀, c₄₀₀, ↓reduceIte, ne_eq, not_true_eq_false, or_false, and_false]
        omega
    · have c₄₀₀ : year % 400 ≠ 0 := by omega
      simp only [c₄, c₁₀₀, c₄₀₀, ↓reduceIte, ne_eq, not_false_eq_true, true_or, and_true]
      omega
  · have c₁₀₀ : year % 100 ≠ 0 := by omega
    have c₄₀₀ : year % 400 ≠ 0 := by omega
    simp only [c₄, c₁₀₀, c₄₀₀, ↓reduceIte, false_and]
    omega

theorem daysBeforeYear_mono : Monotone daysBeforeYear :=
  monotone_nat_of_le_succ fun year => by rw [daysBeforeYear_succ]; exact Nat.le_add_right _ _

theorem daysOfMonths_mono (year : ℕ) : Monotone (daysOfMonths year) :=
  monotone_nat_of_le_succ fun _ => Nat.le_add_right _ _

theorem daysOfMonths_twelve (year : ℕ) : daysOfMonths year 12 = if isLeap year then 366 else 365 := by
  simp only [daysOfMonths, daysInMonth]
  split_ifs <;> rfl

structure ValidDate (year month day : ℕ) : Prop where
  month_pos : 1 ≤ month
  month_le : month ≤ 12
  day_pos : 1 ≤ day
  day_le : day ≤ daysInMonth year month

def dayNumber (year month day : ℕ) : ℕ := daysBeforeYear year + daysOfMonths year (month - 1) + day

variable {y m d y' m' d' : ℕ}

theorem ValidDate.le_month (h : ValidDate y m d) : daysOfMonths y (m - 1) + d ≤ daysOfMonths y m := by
  obtain ⟨k, rfl⟩ : ∃ k, m = k + 1 := ⟨m - 1, by have := h.month_pos; omega⟩
  have := h.day_le
  simp only [Nat.add_sub_cancel, daysOfMonths]
  omega

theorem ValidDate.le_year (h : ValidDate y m d) : dayNumber y m d ≤ daysBeforeYear (y + 1) := by
  have h₁ := h.le_month
  have h₂ := daysOfMonths_mono y h.month_le
  rw [daysOfMonths_twelve] at h₂
  rw [daysBeforeYear_succ, dayNumber]
  omega

theorem ValidDate.dayNumber_lt (h : ValidDate y m d) (h' : ValidDate y' m' d')
    (hlt : y < y' ∨ y = y' ∧ (m < m' ∨ m = m' ∧ d < d')) : dayNumber y m d < dayNumber y' m' d' := by
  have hd' := h'.day_pos
  rcases hlt with hy | ⟨rfl, hm | ⟨rfl, hd⟩⟩
  · calc dayNumber y m d ≤ daysBeforeYear (y + 1) := h.le_year
      _ ≤ daysBeforeYear y' := daysBeforeYear_mono hy
      _ < dayNumber y' m' d' := by rw [dayNumber]; omega
  · have h₁ := h.le_month
    have h₂ := daysOfMonths_mono y (show m ≤ m' - 1 by omega)
    rw [dayNumber, dayNumber]
    omega
  · rw [dayNumber, dayNumber]
    omega

theorem ValidDate.dayNumber_lt_iff (h : ValidDate y m d) (h' : ValidDate y' m' d') :
    dayNumber y m d < dayNumber y' m' d' ↔ y < y' ∨ y = y' ∧ (m < m' ∨ m = m' ∧ d < d') := by
  refine ⟨fun hlt => ?_, h.dayNumber_lt h'⟩
  by_contra hn
  rcases lt_trichotomy y y' with hy | rfl | hy
  · exact hn (Or.inl hy)
  · rcases lt_trichotomy m m' with hm | rfl | hm
    · exact hn (Or.inr ⟨rfl, Or.inl hm⟩)
    · simp only [dayNumber] at hlt
      omega
    · exact absurd (h'.dayNumber_lt h (Or.inr ⟨rfl, Or.inl hm⟩)) (by omega)
  · exact absurd (h'.dayNumber_lt h (Or.inl hy)) (by omega)

theorem date_eq_some {n : ℕ} (h : date cs = some (n, r)) :
    ∃ y m d cs₁ cs₂ cs₃ cs₄, number 4 cs = some (y, cs₁) ∧ lit ['-'] cs₁ = some cs₂ ∧
      number 2 cs₂ = some (m, cs₃) ∧ lit ['-'] cs₃ = some cs₄ ∧ number 2 cs₄ = some (d, r) ∧
      ValidDate y m d ∧ n = dayNumber y m d := by
  simp only [date, Option.bind_eq_bind, Option.bind_eq_some_iff] at h
  obtain ⟨⟨y, cs₁⟩, hy, cs₂, h₁, ⟨m, cs₃⟩, hm, cs₄, h₂, ⟨d, cs₅⟩, hd, h⟩ := h
  split_ifs at h with hv
  obtain ⟨rfl, rfl⟩ := Prod.mk.inj (Option.some.inj h)
  exact ⟨y, m, d, cs₁, cs₂, cs₃, cs₄, hy, h₁, hm, h₂, hd, ⟨hv.1, hv.2.1, hv.2.2.1, hv.2.2.2⟩, rfl⟩

/-- Texts that start with a date sort by the day, then by what follows. -/
theorem date_lt_iff {n k : ℕ} (h : date cs = some (n, r)) (h' : date ds = some (k, q)) :
    cs < ds ↔ n < k ∨ n = k ∧ r < q := by
  obtain ⟨y, m, d, cs₁, cs₂, cs₃, cs₄, hy, h₁, hm, h₂, hd, hv, rfl⟩ := date_eq_some h
  obtain ⟨y', m', d', ds₁, ds₂, ds₃, ds₄, hy', h₁', hm', h₂', hd', hv', rfl⟩ := date_eq_some h'
  have heq : dayNumber y m d = dayNumber y' m' d' ↔ y = y' ∧ m = m' ∧ d = d' := by
    have h₃ := hv.dayNumber_lt_iff hv'
    have h₄ := hv'.dayNumber_lt_iff hv
    omega
  rw [number_lt_iff hy hy', lit_lt_iff h₁ h₁', number_lt_iff hm hm', lit_lt_iff h₂ h₂',
    number_lt_iff hd hd', hv.dayNumber_lt_iff hv', heq]
  tauto

theorem number_take {n : ℕ} (k : ℕ) (h : number n cs = some (a, r)) :
    number n (cs.take (n + k)) = some (a, r.take k) := by
  induction n generalizing cs a with
  | zero =>
    simp only [number, Option.some.injEq, Prod.mk.injEq] at h
    rw [Nat.zero_add, number, h.1, h.2]
  | succ n ih =>
    obtain ⟨c, cs, v, rfl, hc, hv, rfl⟩ := number_succ_eq_some h
    rw [show n + 1 + k = n + k + 1 by omega, List.take_succ_cons, number, if_pos hc, ih hv]
    rfl

theorem lit_take {allowed : List Char} (k : ℕ) (h : lit allowed cs = some r) :
    lit allowed (cs.take (k + 1)) = some (r.take k) := by
  obtain ⟨c, hc, rfl⟩ := lit_eq_some h
  rw [List.take_succ_cons, lit, if_pos hc]

theorem number_drop {n : ℕ} (h : number n cs = some (a, r)) : r = cs.drop n := by
  induction n generalizing cs a with
  | zero =>
    simp only [number, Option.some.injEq, Prod.mk.injEq] at h
    rw [List.drop_zero, h.2]
  | succ n ih =>
    obtain ⟨c, cs, v, rfl, -, hv, -⟩ := number_succ_eq_some h
    exact ih hv

theorem lit_drop {allowed : List Char} (h : lit allowed cs = some r) : r = cs.drop 1 := by
  obtain ⟨c, -, rfl⟩ := lit_eq_some h
  rfl

theorem date_drop {n : ℕ} (h : date cs = some (n, r)) : r = cs.drop 10 := by
  obtain ⟨y, m, d, cs₁, cs₂, cs₃, cs₄, e₁, e₂, e₃, e₄, e₅, -, -⟩ := date_eq_some h
  rw [number_drop e₅, lit_drop e₄, number_drop e₃, lit_drop e₂, number_drop e₁]
  simp only [List.drop_drop]

theorem date_take {n : ℕ} (h : date cs = some (n, r)) : date (cs.take 10) = some (n, []) := by
  obtain ⟨y, m, d, cs₁, cs₂, cs₃, cs₄, e₁, e₂, e₃, e₄, e₅, hv, rfl⟩ := date_eq_some h
  have h₁ := number_take 6 e₁
  have h₂ := lit_take 5 e₂
  have h₃ := number_take 3 e₃
  have h₄ := lit_take 2 e₄
  have h₅ := number_take 0 e₅
  rw [List.take_zero] at h₅
  simp only [date, h₁, h₂, h₃, h₄, h₅, Option.bind_eq_bind, Option.bind_some]
  exact if_pos ⟨hv.month_pos, hv.month_le, hv.day_pos, hv.day_le⟩

/-- The first ten characters of two texts with dates agree just when the days do. -/
theorem take_eq_iff {n k : ℕ} (h : date cs = some (n, r)) (h' : date ds = some (k, q)) :
    cs.take 10 = ds.take 10 ↔ n = k := by
  have h₁ := date_lt_iff (date_take h) (date_take h')
  have h₂ := date_lt_iff (date_take h') (date_take h)
  constructor
  · intro he
    have := date_take h
    rw [he, date_take h'] at this
    exact (Prod.mk.inj (Option.some.inj this)).1.symm
  · rintro rfl
    simp only [lt_irrefl, and_false, or_self, iff_false, not_lt] at h₁ h₂
    exact le_antisymm h₂ h₁

/-! ## Times of day -/

theorem timeOfDay_eq_some {n : ℕ} (h : timeOfDay cs = some (n, r)) :
    ∃ hh mm ss cs₁ cs₂ cs₃ cs₄, number 2 cs = some (hh, cs₁) ∧ lit [':'] cs₁ = some cs₂ ∧
      number 2 cs₂ = some (mm, cs₃) ∧ lit [':'] cs₃ = some cs₄ ∧ number 2 cs₄ = some (ss, r) ∧
      hh ≤ 23 ∧ mm ≤ 59 ∧ ss ≤ 60 ∧ n = hh * 3600 + mm * 60 + ss := by
  simp only [timeOfDay, Option.bind_eq_bind, Option.bind_eq_some_iff] at h
  obtain ⟨⟨hh, cs₁⟩, hy, cs₂, h₁, ⟨mm, cs₃⟩, hm, cs₄, h₂, ⟨ss, cs₅⟩, hd, h⟩ := h
  split_ifs at h with hv
  obtain ⟨rfl, rfl⟩ := Prod.mk.inj (Option.some.inj h)
  exact ⟨hh, mm, ss, cs₁, cs₂, cs₃, cs₄, hy, h₁, hm, h₂, hd, hv.1, hv.2.1, hv.2.2, rfl⟩

theorem timeOfDay_le {n : ℕ} (h : timeOfDay cs = some (n, r)) : n ≤ 86400 := by
  obtain ⟨hh, mm, ss, cs₁, cs₂, cs₃, cs₄, -, -, -, -, -, h₁, h₂, h₃, rfl⟩ := timeOfDay_eq_some h
  omega

/-- Only second 60 meets the first second of the next minute. -/
theorem timeOfDay_le_of_lt {n k : ℕ} (h : timeOfDay cs = some (n, r))
    (h' : timeOfDay ds = some (k, q)) (hlt : cs < ds) : n ≤ k := by
  obtain ⟨hh, mm, ss, cs₁, cs₂, cs₃, cs₄, e₁, e₂, e₃, e₄, e₅, b₁, b₂, b₃, rfl⟩ := timeOfDay_eq_some h
  obtain ⟨hh', mm', ss', ds₁, ds₂, ds₃, ds₄, e₁', e₂', e₃', e₄', e₅', b₁', b₂', b₃', rfl⟩ :=
    timeOfDay_eq_some h'
  rw [number_lt_iff e₁ e₁', lit_lt_iff e₂ e₂', number_lt_iff e₃ e₃', lit_lt_iff e₄ e₄',
    number_lt_iff e₅ e₅'] at hlt
  omega

/-! ## Whole texts -/

theorem millis_lt (n : ℕ) (hd : ∀ c ∈ cs, c.isDigit = true) : millis n cs < 10 ^ n := by
  induction n generalizing cs with
  | zero => simp [millis]
  | succ n ih =>
    cases cs with
    | nil => simp [millis]
    | cons c cs =>
      have hc := digit_bounds (hd c List.mem_cons_self)
      have hm := ih fun x hx => hd x (List.mem_cons_of_mem _ hx)
      calc (c.toNat - 48) * 10 ^ n + millis n cs < (c.toNat - 48) * 10 ^ n + 10 ^ n := by omega
        _ = (c.toNat - 48 + 1) * 10 ^ n := by ring
        _ ≤ 10 * 10 ^ n := Nat.mul_le_mul_right _ (by omega)
        _ = 10 ^ (n + 1) := by ring

theorem fraction_lt {n : ℕ} (h : fraction cs = some (n, r)) : n < 1000 := by
  unfold fraction at h
  split at h
  · split_ifs at h
    rw [← (Prod.mk.inj (Option.some.inj h)).1]
    exact millis_lt 3 fun c hc => List.mem_takeWhile_imp hc
  · rw [← (Prod.mk.inj (Option.some.inj h)).1]
    exact Nat.succ_pos _

structure Parts (text : String) (ms off : ℤ) where
  day : ℕ
  second : ℕ
  fraction : ℕ
  afterDate : List Char
  time : List Char
  afterTime : List Char
  date_eq : date text.toList = some (day, afterDate)
  lit_eq : lit ['T', 't'] afterDate = some time
  time_eq : timeOfDay time = some (second, afterTime)
  fraction_lt : fraction < 1000
  ms_eq : ms = ((((day : ℤ) - epochDay) * 86400 + second - off) * 1000 + fraction)

theorem exists_parts {text : String} {ms off : ℤ} (h : parse text = some (ms, off)) :
    Nonempty (Parts text ms off) := by
  simp only [parse, Option.bind_eq_bind, Option.bind_eq_some_iff] at h
  obtain ⟨⟨day, cs₁⟩, h₁, cs₂, h₂, ⟨second, cs₃⟩, h₃, ⟨ms', cs₄⟩, h₄, off', h₅, h⟩ := h
  obtain ⟨rfl, rfl⟩ := Prod.mk.inj (Option.some.inj h)
  exact ⟨⟨day, second, ms', cs₁, cs₂, cs₃, h₁, h₂, h₃, Rfc3339.fraction_lt h₄, rfl⟩⟩

variable {s s' : String} {ms ms' off : ℤ}

theorem Parts.afterDate_eq (p : Parts s ms off) : p.afterDate = s.toList.drop 10 := date_drop p.date_eq

theorem Parts.time_drop (p : Parts s ms off) : p.time = s.toList.drop 11 := by
  rw [lit_drop p.lit_eq, p.afterDate_eq, List.drop_drop]

/-- Texts of one offset denote seconds in the order of their dates and times of day. -/
theorem Parts.ms_lt (p : Parts s ms off) (p' : Parts s' ms' off) (hgap : 1000 ≤ |ms - ms'|)
    (h : p.day < p'.day ∨ p.day = p'.day ∧ p.time ≤ p'.time) : ms < ms' := by
  have h₁ := timeOfDay_le p.time_eq
  have hf := p.fraction_lt
  have hf' := p'.fraction_lt
  have hsec : p.day * 86400 + p.second ≤ p'.day * 86400 + p'.second := by
    rcases h with h | ⟨h, ht⟩
    · omega
    · have : p.second ≤ p'.second := by
        rcases ht.lt_or_eq with ht | ht
        · exact timeOfDay_le_of_lt p.time_eq p'.time_eq ht
        · have he := p'.time_eq
          rw [← ht, p.time_eq] at he
          exact (Prod.mk.inj (Option.some.inj he)).1.le
      omega
  have hm := p.ms_eq
  have hm' := p'.ms_eq
  rw [le_abs] at hgap
  omega

/-- The texts name one day, the first with `T` and the second with `t`, and the time of
day of the second sorts first. -/
def Misordered (s s' : String) : Prop :=
  s.toList.take 10 = s'.toList.take 10 ∧ s.toList[10]? = some 'T' ∧ s'.toList[10]? = some 't' ∧
    s'.toList.drop 11 < s.toList.drop 11

instance (s s' : String) : Decidable (Misordered s s') := by
  unfold Misordered
  infer_instance

theorem Parts.sep (p : Parts s ms off) :
    ∃ c, (c = 'T' ∨ c = 't') ∧ s.toList[10]? = some c ∧ p.afterDate = c :: p.time := by
  obtain ⟨c, hc, he⟩ := lit_eq_some p.lit_eq
  refine ⟨c, by simpa using hc, ?_, he⟩
  have hd := p.afterDate_eq
  rw [he] at hd
  rw [← List.head?_drop, ← hd, List.head?_cons]

theorem text_lt_iff (p : Parts s ms off) (p' : Parts s' ms' off) :
    s < s' ↔ p.day < p'.day ∨ p.day = p'.day ∧
      (s.toList[10]? = some 'T' ∧ s'.toList[10]? = some 't' ∨
        s.toList[10]? = s'.toList[10]? ∧ p.time < p'.time) := by
  rw [String.lt_iff_toList_lt, date_lt_iff p.date_eq p'.date_eq]
  obtain ⟨c, hc, hs, he⟩ := p.sep
  obtain ⟨d, hd, hs', he'⟩ := p'.sep
  rw [he, he', hs, hs', List.cons_lt_cons_iff]
  rcases hc with rfl | rfl <;> rcases hd with rfl | rfl <;> simp

/-- Where the instants are a second or more apart, the order of texts is wrong about
them only between a `T` and a `t` on one day. -/
theorem lt_imp_lt_iff (h : parse s = some (ms, off)) (h' : parse s' = some (ms', off))
    (hgap : 1000 ≤ |ms - ms'|) : (s < s' → ms < ms') ↔ ¬Misordered s s' := by
  obtain ⟨p⟩ := exists_parts h
  obtain ⟨p'⟩ := exists_parts h'
  have hday := take_eq_iff p.date_eq p'.date_eq
  constructor
  · rintro hlt ⟨htake, hT, ht, htime⟩
    rw [hday] at htake
    rw [← p.time_drop, ← p'.time_drop] at htime
    have h₁ := hlt ((text_lt_iff p p').mpr (Or.inr ⟨htake, Or.inl ⟨hT, ht⟩⟩))
    have h₂ := p'.ms_lt p (abs_sub_comm ms ms' ▸ hgap) (Or.inr ⟨htake.symm, htime.le⟩)
    exact absurd h₁ h₂.not_gt
  · intro hm hlt
    apply p.ms_lt p' hgap
    rcases (text_lt_iff p p').mp hlt with hd | ⟨hd, ⟨hT, ht⟩ | ⟨-, htime⟩⟩
    · exact Or.inl hd
    · refine Or.inr ⟨hd, not_lt.mp fun htime => hm ⟨hday.mpr hd, hT, ht, ?_⟩⟩
      rwa [p.time_drop, p'.time_drop] at htime
    · exact Or.inr ⟨hd, htime.le⟩

end Harmony.Lib.Rfc3339
