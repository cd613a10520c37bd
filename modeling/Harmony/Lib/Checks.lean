import Mathlib

/-! Sequences of checks in `Except`: a check passes or names its error, and a
sequence succeeds exactly when every check in it does. -/

namespace Harmony.Lib

variable {ε α β : Type}

def ensure (ok : Bool) (err : ε) : Except ε Unit := if ok then .ok () else .error err

@[simp] theorem ensure_eq_ok {ok : Bool} {err : ε} {u : Unit} :
    ensure ok err = .ok u ↔ ok = true := by
  cases ok <;> simp [ensure]

@[simp] theorem bind_eq_ok {x : Except ε α} {f : α → Except ε β} {b : β} :
    (x >>= f) = .ok b ↔ ∃ a, x = .ok a ∧ f a = .ok b := by
  cases x <;> simp [bind, Except.bind]

@[simp] theorem pure_eq_ok {a b : α} : (pure a : Except ε α) = .ok b ↔ a = b := by
  simp [pure, Except.pure]

@[simp] theorem map_eq_ok {x : Except ε α} {f : α → β} {b : β} :
    f <$> x = .ok b ↔ ∃ a, x = .ok a ∧ f a = b := by
  cases x <;> simp [Functor.map, Except.map]

@[simp] theorem forM_eq_ok {f : α → Except ε Unit} {l : List α} {u : Unit} :
    forM l f = .ok u ↔ ∀ a ∈ l, f a = .ok () := by
  induction l with
  | nil => exact iff_of_true rfl (by simp)
  | cons a l ih =>
    rw [List.forM_cons, bind_eq_ok, List.forall_mem_cons, ← ih]
    exact ⟨fun ⟨_, h⟩ => h, fun h => ⟨_, h⟩⟩

/-- A loop whose turns either fail a test or make a step ends exactly when every turn
passes its test at the state it meets. -/
theorem foldlM_eq_ok_iff {σ : Type} {turn : σ → α → Except ε σ} {passes : σ → α → Prop}
    {step : σ → α → σ} (hturn : ∀ s a s', turn s a = .ok s' ↔ passes s a ∧ step s a = s')
    {l : List α} {s s' : σ} :
    l.foldlM turn s = .ok s' ↔
      (∀ pre a post, l = pre ++ a :: post → passes (pre.foldl step s) a) ∧ l.foldl step s = s' := by
  induction l generalizing s with
  | nil => simp [pure_eq_ok]
  | cons b l ih =>
    simp only [List.foldlM_cons, bind_eq_ok, hturn, List.foldl_cons]
    constructor
    · rintro ⟨_, ⟨hb, rfl⟩, hrest⟩
      obtain ⟨hall, rfl⟩ := ih.mp hrest
      refine ⟨fun pre a post hl => ?_, rfl⟩
      cases pre with
      | nil =>
        rw [List.nil_append, List.cons.injEq] at hl
        exact hl.1 ▸ hb
      | cons c pre =>
        rw [List.cons_append, List.cons.injEq] at hl
        obtain ⟨rfl, hl⟩ := hl
        exact hall pre a post hl
    · rintro ⟨hall, rfl⟩
      refine ⟨_, ⟨hall [] b l rfl, rfl⟩, ih.mpr ⟨fun pre a post hl => ?_, rfl⟩⟩
      exact hall (b :: pre) a post (by rw [hl, List.cons_append])

/-- Reads that all succeed. -/
theorem mapM_eq_some {f : α → Option β} {g : α → β} {l : List α}
    (h : ∀ a ∈ l, f a = some (g a)) : l.mapM f = some (l.map g) := by
  induction l with
  | nil => rfl
  | cons a l ih =>
    rw [List.mapM_cons, h a (.head _), ih fun b hb => h b (.tail _ hb)]
    rfl

end Harmony.Lib
