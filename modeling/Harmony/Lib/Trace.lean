import Mathlib

/-! The positions of a fold: each input paired with the state it meets. -/

namespace Harmony.Lib

variable {σ α : Type}

def trace (f : σ → α → σ) : σ → List α → List (σ × α)
  | _, [] => []
  | s, a :: l => (s, a) :: trace f (f s a) l

theorem trace_snoc (f : σ → α → σ) (s : σ) (l : List α) (a : α) :
    trace f s (l ++ [a]) = trace f s l ++ [(l.foldl f s, a)] := by
  induction l generalizing s with
  | nil => rfl
  | cons b l ih => simp only [List.cons_append, trace, List.foldl_cons, ih]

theorem mem_trace {f : σ → α → σ} {s t : σ} {l : List α} {a : α} :
    (t, a) ∈ trace f s l ↔ ∃ pre post, l = pre ++ a :: post ∧ t = pre.foldl f s := by
  induction l generalizing s with
  | nil => simp [trace]
  | cons b l ih =>
    simp only [trace, List.mem_cons, Prod.mk.injEq, ih]
    constructor
    · rintro (⟨rfl, rfl⟩ | ⟨pre, post, rfl, rfl⟩)
      · exact ⟨[], l, rfl, rfl⟩
      · exact ⟨b :: pre, post, rfl, rfl⟩
    · rintro ⟨pre, post, hl, rfl⟩
      cases pre with
      | nil =>
        obtain ⟨rfl, rfl⟩ := List.cons.inj hl
        exact Or.inl ⟨rfl, rfl⟩
      | cons c pre =>
        obtain ⟨rfl, rfl⟩ := List.cons.inj hl
        exact Or.inr ⟨pre, post, rfl, rfl⟩

/-- What comes to hold during a run comes to hold at one of its steps. -/
theorem exists_crossing {f : σ → α → σ} {P : σ → Prop} {s : σ} {l : List α} (h0 : ¬P s)
    (h : P (l.foldl f s)) :
    ∃ pre a post, l = pre ++ a :: post ∧ ¬P (pre.foldl f s) ∧ P (f (pre.foldl f s) a) := by
  induction l generalizing s with
  | nil => exact absurd h h0
  | cons b l ih =>
    by_cases hb : P (f s b)
    · exact ⟨[], b, l, rfl, h0, hb⟩
    · obtain ⟨pre, a, post, rfl, hpre, ha⟩ := ih hb h
      exact ⟨b :: pre, a, post, rfl, hpre, ha⟩

end Harmony.Lib
