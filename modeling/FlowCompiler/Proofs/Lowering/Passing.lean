import FlowCompiler.Lowering.Call
import FlowCompiler.Proofs.Lowering.Runs

/-!
# Passing arguments

What lowering does with the arguments of a call once each parameter has one: it converts each to the representation of its parameter,
and makes a tuple of those that are left over.  It succeeds exactly if all of that does.
-/

namespace FlowCompiler.Typing

open List

variable {α β : Type} {k : Knot} {s s' s'' : Typer × World} {h : HighOp}

/-- A computation answers, and leaves a state. -/
def Yields (m : Typing α) (k : Knot) (s : Typer × World) (a : α) (s' : Typer × World) : Prop := m s.1 k s.2 = .ok (a, s'.1) s'.2

theorem yields_bind_iff {m : Typing α} {f : α → Typing β} {b : β} :
    Yields (m >>= f) k s b s'' ↔ ∃ a s', Yields m k s a s' ∧ Yields (f a) k s' b s'' := by
  constructor
  · intro e
    obtain ⟨a, t, w, first, rest⟩ := of_bind_run e
    exact ⟨a, (t, w), first, rest⟩
  · rintro ⟨a, s', first, rest⟩
    exact (bind_run first).trans rest

theorem Yields.unique {t : Typer × World} {m : Typing α} {a b : α} (ha : Yields m k s a s') (hb : Yields m k s b t) : a = b ∧ s' = t := by
  obtain ⟨_, _⟩ := s'
  obtain ⟨_, _⟩ := t
  cases Eq.trans ha.symm hb
  exact ⟨rfl, rfl⟩

/-- What is done for the elements of a list, one after another. -/
inductive Chained (R : α → Typer × World → β → Typer × World → Prop) : List α → Typer × World → List β → Typer × World → Prop
  | nil (s : Typer × World) : Chained R [] s [] s
  | cons {x : α} {y : β} {xs : List α} {ys : List β} {s s' s'' : Typer × World} (first : R x s y s') (rest : Chained R xs s' ys s'') :
      Chained R (x :: xs) s (y :: ys) s''

variable {R : α → Typer × World → β → Typer × World → Prop} {xs : List α} {ys : List β}

theorem Chained.length (c : Chained R xs s ys s') : ys.length = xs.length := by
  induction c with
  | nil => rfl
  | cons _ _ ih => exact congrArg Nat.succ ih

theorem Chained.exists {f : α → Typing β} (hf : ∀ x s, ∃ y s', Yields (f x) k s y s') (xs : List α) (s : Typer × World) :
    ∃ ys s', Yields (xs.mapM f) k s ys s' := by
  induction xs generalizing s with
  | nil => exact ⟨[], s, rfl⟩
  | cons x xs ih =>
    obtain ⟨y, s', first⟩ := hf x s
    obtain ⟨ys, s'', rest⟩ := ih s'
    refine ⟨y :: ys, s'', ?_⟩
    rw [mapM_cons, yields_bind_iff]
    exact ⟨y, s', first, yields_bind_iff.2 ⟨ys, s'', rest, rfl⟩⟩

/-! ## Types of representations -/

/-- A computation that always answers, makes no operation and keeps the layouts of tuples. -/
class Steady (m : Typing α) : Prop where
  run : ∀ k s, ∃ a s', Yields m k s a s' ∧ s'.1.tuples = s.1.tuples ∧ s'.1.out = s.1.out

namespace Steady

instance pure (a : α) : Steady (Pure.pure a : Typing α) := ⟨fun _ s => ⟨a, s, rfl, rfl, rfl⟩⟩

instance get : Steady (MonadState.get : Typing Typer) := ⟨fun _ s => ⟨_, s, rfl, rfl, rfl⟩⟩

instance bind {m : Typing α} {f : α → Typing β} [p : Steady m] [q : ∀ a, Steady (f a)] : Steady (m >>= f) := ⟨fun k s => by
  obtain ⟨a, s', ha, tuples, out⟩ := p.run k s
  obtain ⟨b, s'', hb, tuples', out'⟩ := (q a).run k s'
  exact ⟨b, s'', yields_bind_iff.2 ⟨a, s', ha, hb⟩, tuples'.trans tuples, out'.trans out⟩⟩

instance onLow (m : LowStore.M α) : Steady (Typing.onLow m) := ⟨fun _ (t, w) =>
  ⟨(m w.prog.low).1, (t, { w with prog := { w.prog with low := (m w.prog.low).2 } }), rfl, rfl, rfl⟩⟩

instance addType (n : TypeNode) : Steady (Typing.addType n) := onLow _

instance textStruct (unicode : Bool) : Steady (Typing.textStruct unicode) := by
  have known (n : NodeId) : Steady (modify fun t => { t with texts := (unicode, n) :: t.texts } : Typing PUnit) :=
    ⟨fun _ s => ⟨⟨⟩, (_, s.2), rfl, rfl, rfl⟩⟩
  refine bind (q := fun t => ?_)
  split <;> infer_instance

instance lowTypeAux (n : Nat) (r : Representation) : Steady (Typing.lowTypeAux n r) := by
  induction n generalizing r with
  | zero => exact pure _
  | succ n ih =>
    cases r with
    | methods i => exact bind (p := bind)
    | frozenMethod i => exact bind (p := bind)
    | method i => exact bind (p := bind)
    | classes i =>
      refine bind (p := bind) (q := fun k => ?_)
      split
      · exact pure _
      · exact bind (p := bind)
    | _ => first | exact pure _ | exact bind | exact bind (p := bind)

end Steady

/-! ## Tuples -/

/-- The representations of the items of a tuple. -/
def tupleReprs (s : Typer × World) (i : Nat) : List Representation := ((s.1.tuples[i]?).getD default).items

/-- A step adds one operation, whose result is a new variable. -/
def Adds (s s' : Typer × World) (name : String) (args : List Operand) (o : Operand) : Prop :=
  ∃ v, o = .var v ∧ s'.1.out.ops = s.1.out.ops.push { name, args, result := some v } ∧ s'.1.tuples = s.1.tuples

/-- A tuple is made of operands: it is allocated, and each is put into its field. -/
def Makes (s : Typer × World) (i : Nat) (xs : List Operand) (v : Operand) (s' : Typer × World) : Prop :=
  ∃ s₁ rs, Adds s s₁ "malloc" [voidConst (.type (.node ((s.1.tuples[i]?).getD default).struct))] v ∧
    Chained (fun x s r s' => Adds s s' "setfield" [v, fieldName (tupleField x.2), x.1] r) xs.zipIdx s₁ rs s'

/-- The operand of an argument that has a representation already. -/
def Actual.already? (h : HighOp) (dst : Representation) : Actual → Option Operand
  | .arg i => match h.arg i with
    | .const _ none => none
    | v => if h.repr i = dst then some v else none
  | .value v r => if r = dst then some v else none
  | .const _ => none

/-- An argument is converted to a representation; one that has it already is taken as it is. -/
def Converts (h : HighOp) (k : Knot) (x : Representation × Actual) (s : Typer × World) (o : Operand) (s' : Typer × World) : Prop :=
  Yields (x.2.convert h x.1) k s o s' ∧ ∀ v, x.2.already? h x.1 = some v → o = v ∧ s' = s

/-- An argument is passed for a parameter. -/
def Passes (h : HighOp) (k : Knot) (x : VarId × Actual) (s : Typer × World) (o : Operand) (s' : Typer × World) : Prop :=
  ∃ dst s₁, Yields (bindingRepr (.var x.1)) k s dst s₁ ∧ Converts h k (dst, x.2) s₁ o s'

/-- What is left over is passed for a parameter, as a tuple with as many items. -/
def Collects (h : HighOp) (k : Knot) (v : VarId) (rest : List Actual) (s : Typer × World) (o : Operand) (s' : Typer × World) : Prop :=
  ∃ i s₁ xs s₂, Yields (bindingRepr (.var v)) k s (.tuple i) s₁ ∧ (tupleReprs s₁ i).length = rest.length ∧
    Chained (Converts h k) ((tupleReprs s₁ i).zip rest) s₁ xs s₂ ∧ Yields (buildTuple i xs) k s₂ o s' ∧ Makes s₂ i xs o s'

end FlowCompiler.Typing
