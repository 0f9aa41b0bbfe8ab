import FlowCompiler.Lowering.Representation
import FlowCompiler.Proofs.Steps.Templates
import FlowCompiler.Proofs.Steps.Unions

/-!
# Runs of lowering

A computation of lowering is run in parts: it succeeds when all of them do, and fails when one of them fails.
-/

namespace FlowCompiler.Typing

variable {α β : Type} {k : Knot} {t t' : Typer} {w w' : World}

variable {m : Typing α} {f : α → Typing β}

theorem bind_run {a : α} (h : m t k w = .ok (a, t') w') : (m >>= f) t k w = f a t' k w' := Ana.bind_of_ok (m := m t) h

theorem of_bind_run {x : β × Typer} {w'' : World} (h : (m >>= f) t k w = .ok x w'') :
    ∃ a t' w', m t k w = .ok (a, t') w' ∧ f a t' k w' = .ok x w'' := by
  obtain ⟨⟨a, t'⟩, w', hm, hf⟩ := Ana.of_bind_ok (m := m t) h
  exact ⟨a, t', w', hm, hf⟩

theorem lift_of_ok {m : Ana α} {a : α} (h : m k w = .ok a w') : (liftM m : Typing α) t k w = .ok (a, t) w' := (Ana.bind_of_ok h).trans rfl

/-- The state with other graphs. -/
def withFlow (w : World) (s : FlowStore) : World := { w with prog := { w.prog with flow := s } }

theorem emit_ok (name : String) (args : List Operand) (r : LowType) (t : Typer) (k : Knot) (w : World) : ∃ t' s,
    emit name args r t k w = .ok (.var (w.prog.flow.vars.size + 1), t') (withFlow w s) ∧
      t'.out.ops = t.out.ops.push { name, args, result := some (w.prog.flow.vars.size + 1) } ∧ t'.prebuilt = t.prebuilt ∧
      w.prog.flow.Extends s ∧ s.vars.size = w.prog.flow.vars.size + 1 :=
  ⟨_, _, rfl, rfl, rfl, .of_eq rfl rfl (by simp [FlowStore.updateVar]), by simp [FlowStore.updateVar]⟩

end FlowCompiler.Typing
