import Mathlib

/-! A register with one stamped value: the value with the later stamp wins, and
the held one stays on a tie. Where a stamp determines its value the register is
a semilattice. -/

namespace Harmony.Lib

variable {α τ : Type} {stamp : α → τ}

/-- The values of two registers with one stamp are one value. -/
def StampsTell (stamp : α → τ) (x y : Option α) : Prop :=
  ∀ a b, x = some a → y = some b → stamp a = stamp b → a = b

theorem StampsTell.symm {x y : Option α} (h : StampsTell stamp x y) : StampsTell stamp y x :=
  fun a b ha hb he => (h b a hb ha he.symm).symm

/-- What is there is one of two values. -/
def Among (u v w : Option α) : Prop := w = none ∨ w = u ∨ w = v

theorem Among.eq_or {u v w : Option α} (h : Among u v w) {a : α} (ha : w = some a) :
    u = some a ∨ v = some a := by
  rcases h with h | h | h
  · rw [h] at ha
    cases ha
  · exact Or.inl (h ▸ ha)
  · exact Or.inr (h ▸ ha)

theorem Among.filter {u v w : Option α} (h : Among u v w) (p : α → Bool) :
    Among u v (w.filter p) := by
  cases w with
  | none => exact Or.inl rfl
  | some a =>
    rw [Option.filter_some]
    split_ifs
    · exact h
    · exact Or.inl rfl

theorem StampsTell.among {u v w w' : Option α} (ht : StampsTell stamp u v) (h : Among u v w)
    (h' : Among u v w') : StampsTell stamp w w' := by
  intro a b ha hb hab
  rcases h.eq_or ha with hu | hv <;> rcases h'.eq_or hb with hu' | hv'
  · exact Option.some.inj (hu.symm.trans hu')
  · exact ht a b hu hv' hab
  · exact (ht b a hu' hv hab.symm).symm
  · exact Option.some.inj (hv.symm.trans hv')

variable [LinearOrder τ]

/-- What a register holds after it is offered a value. -/
def latest (stamp : α → τ) : Option α → Option α → Option α
  | x, none => x
  | none, some b => some b
  | some a, some b => if stamp a < stamp b then some b else some a

@[simp] theorem latest_none (x : Option α) : latest stamp x none = x := by cases x <;> rfl

@[simp] theorem none_latest (y : Option α) : latest stamp none y = y := by cases y <;> rfl

theorem latest_some_some (a b : α) :
    latest stamp (some a) (some b) = if stamp a < stamp b then some b else some a := rfl

@[simp] theorem latest_self (x : Option α) : latest stamp x x = x := by
  cases x with
  | none => rfl
  | some a => simp [latest_some_some]

theorem latest_eq_or (stamp : α → τ) (x y : Option α) : latest stamp x y = x ∨ latest stamp x y = y := by
  cases x <;> cases y <;> simp only [latest_none, none_latest, latest_some_some, or_true, true_or]
  split_ifs <;> simp

theorem Among.latest {u v w w' : Option α} (h : Among u v w) (h' : Among u v w') :
    Among u v (latest stamp w w') := by
  rcases latest_eq_or stamp w w' with heq | heq <;> rw [heq]
  · exact h
  · exact h'

theorem latest_eq_none {x y : Option α} : latest stamp x y = none ↔ x = none ∧ y = none := by
  cases x <;> cases y <;> simp only [latest_none, none_latest, latest_some_some, reduceCtorEq,
    and_self, and_false, false_and]
  split_ifs <;> simp

theorem latest_comm {x y : Option α} (h : StampsTell stamp x y) :
    latest stamp x y = latest stamp y x := by
  cases x with
  | none => simp
  | some a =>
    cases y with
    | none => simp
    | some b =>
      rw [latest_some_some, latest_some_some]
      rcases lt_trichotomy (stamp a) (stamp b) with hlt | heq | hgt
      · rw [if_pos hlt, if_neg hlt.asymm]
      · rw [h a b rfl rfl heq]
      · rw [if_neg hgt.asymm, if_pos hgt]

theorem latest_assoc (x y z : Option α) :
    latest stamp (latest stamp x y) z = latest stamp x (latest stamp y z) := by
  cases x with
  | none => simp
  | some a =>
    cases y with
    | none => simp
    | some b =>
      cases z with
      | none => simp
      | some c =>
        simp only [latest_some_some]
        split_ifs <;> simp only [latest_some_some] <;> split_ifs <;> first | rfl | order

/-- A test that later stamps pass more easily may be made before or after the join. -/
theorem latest_filter {p : α → Bool} (hp : ∀ a b, stamp a ≤ stamp b → p a = true → p b = true)
    (x y : Option α) : (latest stamp x y).filter p = latest stamp (x.filter p) (y.filter p) := by
  cases x with
  | none => simp
  | some a =>
    cases y with
    | none => simp
    | some b =>
      rw [latest_some_some]
      split_ifs with hlt
      · cases hb : p b with
        | true =>
          cases ha : p a <;> simp [Option.filter_some, ha, hb, latest_some_some, hlt]
        | false =>
          have ha : p a = false := by
            by_contra h
            exact absurd (hp a b hlt.le (by simpa using h)) (by simp [hb])
          simp [Option.filter_some, ha, hb]
      · cases ha : p a with
        | true =>
          cases hb : p b <;> simp [Option.filter_some, ha, hb, latest_some_some, hlt]
        | false =>
          have hb : p b = false := by
            by_contra h
            exact absurd (hp b a (not_lt.mp hlt) (by simpa using h)) (by simp [ha])
          simp [Option.filter_some, ha, hb]

/-- No stamp in the register is later than the one it holds. -/
theorem le_of_latest {x y : Option α} {c : α} (h : latest stamp x y = some c) :
    (∀ a, x = some a → stamp a ≤ stamp c) ∧ ∀ b, y = some b → stamp b ≤ stamp c := by
  cases x with
  | none =>
    rw [none_latest] at h
    subst h
    simp
  | some a =>
    cases y with
    | none =>
      rw [latest_none] at h
      cases h
      simp
    | some b =>
      rw [latest_some_some] at h
      split_ifs at h with hlt
      · cases h
        simpa using hlt.le
      · cases h
        simpa using not_lt.mp hlt

/-! ### A register offered a list -/

/-- What an empty register holds after it is offered the values in order. -/
def latestOf (stamp : α → τ) (l : List α) : Option α :=
  l.foldl (fun x a => latest stamp x (some a)) none

theorem latestOf_snoc (l : List α) (a : α) :
    latestOf stamp (l ++ [a]) = latest stamp (latestOf stamp l) (some a) := by
  simp only [latestOf, List.foldl_append, List.foldl_cons, List.foldl_nil]

theorem latestOf_eq_none {l : List α} : latestOf stamp l = none ↔ l = [] := by
  cases l using List.reverseRecOn with
  | nil => simp [latestOf]
  | append_singleton l a =>
    rw [latestOf_snoc, latest_eq_none]
    simp

theorem latestOf_some {l : List α} {a : α} (h : latestOf stamp l = some a) :
    a ∈ l ∧ ∀ b ∈ l, stamp b ≤ stamp a := by
  induction l using List.reverseRecOn generalizing a with
  | nil => cases h
  | append_singleton l b ih =>
    rw [latestOf_snoc] at h
    have hle := le_of_latest h
    constructor
    · rcases latest_eq_or stamp (latestOf stamp l) (some b) with heq | heq
      · exact List.mem_append_left _ (ih (heq.symm.trans h)).1
      · obtain rfl := Option.some.inj (heq.symm.trans h)
        simp
    · intro c hc
      rcases List.mem_append.mp hc with hc | hc
      · cases hl : latestOf stamp l with
        | none =>
          rw [latestOf_eq_none.mp hl] at hc
          cases hc
        | some d => exact ((ih hl).2 c hc).trans (hle.1 d hl)
      · rw [List.mem_singleton] at hc
        exact hle.2 c (hc ▸ rfl)

/-- Where a stamp determines its value, the order of the offers does not matter. -/
theorem latestOf_perm {l l' : List α} (hp : l'.Perm l)
    (htell : ∀ a ∈ l, ∀ b ∈ l, stamp a = stamp b → a = b) :
    latestOf stamp l' = latestOf stamp l := by
  cases h : latestOf stamp l with
  | none =>
    rw [latestOf_eq_none] at h ⊢
    rw [h] at hp
    exact hp.eq_nil
  | some a =>
    cases h' : latestOf stamp l' with
    | none =>
      rw [latestOf_eq_none.mp h'] at hp
      rw [← hp.nil_eq] at h
      cases h
    | some b =>
      obtain ⟨ha, hmax⟩ := latestOf_some h
      obtain ⟨hb, hmax'⟩ := latestOf_some h'
      rw [htell b (hp.mem_iff.mp hb) a ha
        (le_antisymm (hmax b (hp.mem_iff.mp hb)) (hmax' a (hp.mem_iff.mpr ha)))]

end Harmony.Lib
