import Mathlib

/-! Graphs in which every node has at most one outgoing edge. Redirecting the edge of
`a` to `b` closes a cycle exactly when `b` already led to `a`. -/

namespace Harmony.Lib

open Relation

variable {α : Type} {next : α → Option α}

def Edge (next : α → Option α) (a b : α) : Prop := next a = some b

abbrev Reaches (next : α → Option α) : α → α → Prop := ReflTransGen (Edge next)

/-- Following edges never comes back. -/
def Acyclic (next : α → Option α) : Prop := ∀ a, ¬TransGen (Edge next) a a

theorem Reaches.of_edge {a b t : α} (h : Reaches next a t) (hne : a ≠ t)
    (hab : next a = some b) : Reaches next b t := by
  rcases h.cases_head with rfl | ⟨c, hac, hct⟩
  · exact absurd rfl hne
  · obtain rfl : c = b := Option.some.inj (hac.symm.trans hab)
    exact hct

theorem edge_rightUnique : Relator.RightUnique (Edge next) := fun _ _ _ hb hc =>
  Option.some.inj (hb.symm.trans hc)

/-- Of two nodes on the way from `a`, the one met first leads to the other. -/
theorem Reaches.total {a b c : α} (hb : Reaches next a b) (hc : Reaches next a c) :
    Reaches next b c ∨ Reaches next c b :=
  ReflTransGen.total_of_right_unique edge_rightUnique hb hc

variable [DecidableEq α]

theorem edge_update_ne {a x y : α} {b : Option α} (hne : x ≠ a)
    (h : Edge (Function.update next a b) x y) : Edge next x y := by
  rwa [Edge, Function.update_of_ne hne] at h

/-- A way that does not meet `a` survives a change of the edge of `a`. -/
theorem Reaches.update {a x y : α} (h : Reaches next x y) (hx : ¬Reaches next x a)
    (b : Option α) : Reaches (Function.update next a b) x y := by
  induction h with
  | refl => exact .refl
  | @tail y z hxy hyz ih =>
    refine ih.tail ?_
    have hy : y ≠ a := fun hya => hx (hya ▸ hxy)
    rwa [Edge, Function.update_of_ne hy]

theorem reaches_update {a b x y : α} (h : Reaches (Function.update next a (some b)) x y) :
    Reaches next x y ∨ Reaches next b y := by
  induction h with
  | refl => exact Or.inl .refl
  | @tail y z _ hyz ih =>
    by_cases hy : y = a
    · subst hy
      obtain rfl : b = z := by simpa [Edge] using hyz
      exact Or.inr .refl
    · exact ih.imp (·.tail (edge_update_ne hy hyz)) (·.tail (edge_update_ne hy hyz))

theorem transGen_update {a b x y : α}
    (h : TransGen (Edge (Function.update next a (some b))) x y) :
    TransGen (Edge next) x y ∨
      (Reaches (Function.update next a (some b)) x a ∧
        Reaches (Function.update next a (some b)) b y) := by
  induction h with
  | @single y hxy =>
    by_cases hx : x = a
    · subst hx
      obtain rfl : b = y := by simpa [Edge] using hxy
      exact Or.inr ⟨.refl, .refl⟩
    · exact Or.inl (.single (edge_update_ne hx hxy))
  | @tail y z hxy hyz ih =>
    by_cases hy : y = a
    · subst hy
      obtain rfl : b = z := by simpa [Edge] using hyz
      exact Or.inr ⟨hxy.to_reflTransGen, .refl⟩
    · exact ih.imp (·.tail (edge_update_ne hy hyz)) fun h => ⟨h.1, h.2.tail hyz⟩

/-- Redirecting an edge to a node that does not lead back closes no cycle. -/
theorem Acyclic.redirect (h : Acyclic next) {a b : α} (hb : ¬Reaches next b a) :
    Acyclic (Function.update next a (some b)) := by
  intro x hx
  rcases transGen_update hx with hx | ⟨hxa, hbx⟩
  · exact h x hx
  · rcases reaches_update (hbx.trans hxa) with hba | hba
    · exact hb hba
    · exact hb hba

theorem Acyclic.remove (h : Acyclic next) (a : α) : Acyclic (Function.update next a none) := by
  intro x hx
  refine h x (TransGen.mono (fun y z hyz => ?_) x x hx)
  by_cases hy : y = a
  · subst hy
    simp [Edge] at hyz
  · exact edge_update_ne hy hyz

end Harmony.Lib
