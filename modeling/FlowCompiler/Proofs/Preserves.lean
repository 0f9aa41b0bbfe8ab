import Mathlib.Data.List.Forall2
import Mathlib.Order.Defs.PartialOrder
import FlowCompiler.Trace.Optimize.State

/-!
# Invariants of the optimizer

A logic for computations of the optimizer.  An invariant `I w s` relates a state to a *world*: what the
entries, bounds and operations of the state mean, which the state itself does not say.  Worlds only grow.
`Preserves I w m Q` says that the computation `m`, started in a state of the world `w`, ends in a state of a
larger world, of which `Q` holds together with the value that was given; a computation that fails ends in no
state at all.

There is one rule for each way to build a computation.  Facts about worlds are monotone, so that they stay
true along a computation, whatever happens to the state.
-/

namespace FlowCompiler.Trace

variable {W : Type} [Preorder W] {I : W → OptimizeState → Prop} {w : W} {α β : Type}

variable {f : α → OptimizeM β}

theorem OptimizeM.bind_eq {m : OptimizeM α} {s s' : OptimizeState} {a : α} (h : m s = .ok a s') : (m >>= f) s = f a s' := by
  change EStateM.bind m f s = _
  rw [EStateM.bind, h]

/-- A computation keeps an invariant, and what it gives satisfies `Q`. -/
def Preserves (I : W → OptimizeState → Prop) (w : W) (m : OptimizeM α) (Q : α → W → Prop) : Prop :=
  ∀ s, I w s → ∀ a s', m s = .ok a s' → ∃ w', w ≤ w' ∧ I w' s' ∧ Q a w'

/-- A computation keeps an invariant. -/
abbrev Safe (I : W → OptimizeState → Prop) (w : W) (m : OptimizeM α) : Prop := Preserves I w m fun _ _ => True

namespace Preserves

variable {m : OptimizeM α} {Q : α → W → Prop} {R : β → W → Prop}

theorem pure {a : α} (h : Q a w) : Preserves I w (.pure a) Q := by
  intro s hs b s' e
  cases e
  exact ⟨w, le_refl w, hs, h⟩

theorem bind (hm : Preserves I w m Q) (hf : ∀ a w', w ≤ w' → Q a w' → Preserves I w' (f a) R) : Preserves I w (m >>= f) R := by
  intro s hs b s'' e
  change EStateM.bind m f s = _ at e
  unfold EStateM.bind at e
  split at e
  · rename_i a s' e'
    obtain ⟨w', h', hs', hq⟩ := hm s hs a s' e'
    obtain ⟨w'', h'', hs'', hr⟩ := hf a w' h' hq s' hs' b s'' e
    exact ⟨w'', le_trans h' h'', hs'', hr⟩
  · cases e

theorem mono {Q' : α → W → Prop} (hm : Preserves I w m Q) (h : ∀ a w', w ≤ w' → Q a w' → Q' a w') : Preserves I w m Q' := by
  intro s hs a s' e
  obtain ⟨w', h', hs', hq⟩ := hm s hs a s' e
  exact ⟨w', h', hs', h a w' h' hq⟩

theorem get {f : OptimizeState → OptimizeM β} (h : ∀ s, I w s → Preserves I w (f s) R) : Preserves I w (MonadState.get >>= f) R := by
  intro s hs b s' e
  exact h s hs s hs b s' e

theorem modify {f : OptimizeState → OptimizeState} {Q : PUnit → W → Prop}
    (h : ∀ s, I w s → ∃ w', w ≤ w' ∧ I w' (f s) ∧ Q ⟨⟩ w') : Preserves I w (modify f) Q := by
  intro s hs a s' e
  cases e
  exact h s hs

theorem modifyGet {f : OptimizeState → α × OptimizeState}
    (h : ∀ s, I w s → ∃ w', w ≤ w' ∧ I w' (f s).2 ∧ Q (f s).1 w') : Preserves I w (modifyGet f) Q := by
  intro s hs a s' e
  cases e
  exact h s hs

theorem throw {f : Failure} : Preserves I w (MonadExcept.throw f : OptimizeM α) Q := by
  intro s _ a s' e
  cases e

theorem throw_bind {f : Failure} {k : α → OptimizeM β} : Preserves I w (MonadExcept.throw f >>= k) R := by
  intro s _ b s' e
  cases e

theorem ite {c : Prop} [Decidable c] {m' : OptimizeM α} (ht : c → Preserves I w m Q) (he : ¬ c → Preserves I w m' Q) :
    Preserves I w (if c then m else m') Q := by
  split
  · exact ht ‹_›
  · exact he ‹_›

theorem forIn {γ : Type} {xs : List γ} {f : γ → OptimizeM Unit} (h : ∀ x ∈ xs, ∀ w', w ≤ w' → Safe I w' (f x)) :
    Safe I w (ForIn.forIn xs .unit fun x _ => do f x; .pure (.yield PUnit.unit)) := by
  induction xs generalizing w with
  | nil => exact pure trivial
  | cons x xs ih =>
    rw [List.forIn_cons]
    have hone : Preserves I w (do f x; .pure (ForInStep.yield PUnit.unit)) fun r _ => r = .yield .unit :=
      bind (h x (by simp) w (le_refl w)) fun _ _ _ _ => pure rfl
    refine bind hone fun r w' hw hr => ?_
    rw [hr]
    exact ih fun y hy w'' hw' => h y (by simp [hy]) w'' (le_trans hw hw')

/-- A list is gone through element by element; the results stand in a relation to the elements that does not
go away. -/
theorem mapM {γ δ : Type} {xs : List γ} {f : γ → OptimizeM δ} {P : γ → δ → W → Prop} (hmono : ∀ x y w w', w ≤ w' → P x y w → P x y w')
    (h : ∀ x ∈ xs, ∀ w', w ≤ w' → Preserves I w' (f x) fun y => P x y) :
    Preserves I w (xs.mapM f) fun ys w' => List.Forall₂ (fun x y => P x y w') xs ys := by
  induction xs generalizing w with
  | nil => exact pure .nil
  | cons x xs ih =>
    rw [List.mapM_cons]
    refine bind (h x (by simp) w (le_refl w)) fun y w' hw hy => ?_
    refine bind (ih fun z hz w'' hw' => h z (by simp [hz]) w'' (le_trans hw hw')) fun ys w'' hw' hys => ?_
    exact pure (.cons (hmono _ _ _ _ hw' hy) hys)

end Preserves
end FlowCompiler.Trace
