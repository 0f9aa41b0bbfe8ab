import FlowCompiler.Proofs.Lowering.Passing
import FlowCompiler.Proofs.Union.Idempotent

/-!
# Arguments and parameters

A call gives values to parameters by their place and by their name, and what it does not give comes from defaults.
Annotations are matched with parameters by the analysis and arguments by lowering, each in its own way; both answer the same
question, whether each parameter receives exactly one value, so an argument and its annotation go to the same parameter.
-/

namespace FlowCompiler

open List Nat

variable {h : HighOp} {t t' : Typer} {sig : Signature} {ps : List Annot} {b : Typing.Actuals}

variable {as : List Annot} {w₁ w₁' : World}

namespace Matching

variable {α β : Type} {names : List String} {defaults positional : List α} {keywords ks : List (String × α)}
  {slots slots' : List (Option α)} {vs : List α}

/-! ## What parameters receive -/

/-- The values that a call gives to a parameter: the one at its place, and those with its name, which go to the first
parameter that is called so. -/
def given (names : List String) (positional : List α) (keywords : List (String × α)) (i : Nat) : List α :=
  (positional[i]?).toList ++ (keywords.filter fun x => names.findIdx (· == x.1) == i).map Prod.snd

/-- The default of a parameter; those of a function belong to its last parameters. -/
def default? (names : List String) (defaults : List α) (i : Nat) : Option α :=
  if names.length ≤ i + defaults.length then defaults[i + defaults.length - names.length]? else none

/-- The values that a parameter receives: those that the call gives, or else its default. -/
def received (names : List String) (defaults positional : List α) (keywords : List (String × α)) (i : Nat) : List α :=
  match given names positional keywords i with
  | [] => (default? names defaults i).toList
  | vs => vs

/-- Every parameter receives exactly one value, nothing is left over unless it is collected, and no name is unknown. -/
structure Fits (sig : Signature) (defaults positional : List α) (keywords : List (String × α)) : Prop where
  once : ∀ i < sig.args.length, ∃ v, received sig.args defaults positional keywords i = [v]
  room : sig.vararg = "" → positional.length ≤ sig.args.length
  known : ∀ x ∈ keywords, x.1 ∈ sig.args

/-- One value for each parameter, in order: the one that it receives. -/
structure Assigned (names : List String) (defaults positional : List α) (keywords : List (String × α)) (vs : List α) : Prop where
  length : vs.length = names.length
  value : ∀ i v, vs[i]? = some v → received names defaults positional keywords i = [v]

/-- Puts a value into the slot of the parameter of a name, which must be empty. -/
def place (names : List String) (slots : List (Option α)) (x : String × α) : Option (List (Option α)) :=
  match slots[names.findIdx (· == x.1)]? with
  | some none => some (slots.set (names.findIdx (· == x.1)) (some x.2))
  | _ => none

/-- The value of a slot, which is the default when nothing was put there. -/
def fill (names : List String) (defaults : List α) (x : Option α × Nat) : Option α := x.1 <|> default? names defaults x.2

/-- One value for each parameter. -/
def assign (sig : Signature) (defaults positional : List α) (keywords : List (String × α)) : Option (List α) :=
  if positional.length > sig.args.length && sig.vararg = "" then none
  else do
    let slots ← keywords.foldlM (place sig.args) ((List.range sig.args.length).map fun i => positional[i]?)
    slots.zipIdx.mapM (fill sig.args defaults)

/-- Each slot holds what has been given to its parameter so far, which is one value at most. -/
structure Holds (names : List String) (positional : List α) (ks : List (String × α)) (slots : List (Option α)) : Prop where
  length : slots.length = names.length
  slot : ∀ i < names.length, slots[i]? = some (given names positional ks i).head?
  single : ∀ i < names.length, (given names positional ks i).length ≤ 1

theorem Assigned.unique {vs' : List α} (h : Assigned names defaults positional keywords vs)
    (h' : Assigned names defaults positional keywords vs') : vs = vs' := by
  refine ext_getElem (h.length.trans h'.length.symm) fun i hi hi' => ?_
  have same := (h.value i _ (getElem?_eq_getElem hi)).symm.trans (h'.value i _ (getElem?_eq_getElem hi'))
  exact List.cons.inj same |>.1

theorem received_map (f : α → β) (i : Nat) :
    received names (defaults.map f) (positional.map f) (keywords.map (Prod.map id f)) i = (received names defaults positional keywords i).map f := by
  have same : given names (positional.map f) (keywords.map (Prod.map id f)) i = (given names positional keywords i).map f := by
    cases h : positional[i]? <;> simp [given, filter_map, Function.comp_def, h]
  unfold received
  rw [same]
  cases given names positional keywords i with
  | nil =>
    change (default? names (defaults.map f) i).toList = (default? names defaults i).toList.map f
    unfold default?
    rw [length_map, getElem?_map]
    split
    · cases defaults[i + defaults.length - names.length]? <;> rfl
    · rfl
  | cons => rfl

theorem Assigned.map (h : Assigned names defaults positional keywords vs) (f : α → β) :
    Assigned names (defaults.map f) (positional.map f) (keywords.map (Prod.map id f)) (vs.map f) where
  length := by rw [length_map, h.length]
  value i v hv := by
    rw [getElem?_map, Option.map_eq_some_iff] at hv
    obtain ⟨x, hx, rfl⟩ := hv
    rw [received_map, h.value i x hx]
    rfl

/-! ## Computations that answer -/

/-- Computations that end when they fail. -/
class Failing (m : Type → Type) [Monad m] [MonadExcept Failure m] : Prop extends LawfulMonad m where
  throw_bind {α β : Type} (e : Failure) (f : α → m β) : (throw e >>= f) = throw e

instance : Failing Ana where
  throw_bind _ _ := rfl

instance : Failing Typing where
  throw_bind _ _ := rfl

section

variable {m : Type → Type} [Monad m] [MonadExcept Failure m]

/-- A computation that does nothing but answer with a value, or fail when there is none. -/
def Answers (x : m α) : Option α → Prop
  | some a => x = pure a
  | none => ∃ e : Failure, x = throw e

variable [Failing m] {x : m α} {o : Option α}

theorem Answers.bind {f : α → m β} {g : α → Option β} (h : Answers x o) (hf : ∀ a, o = some a → Answers (f a) (g a)) :
    Answers (x >>= f) (o.bind g) := by
  cases o with
  | none =>
    obtain ⟨e, rfl⟩ := h
    exact ⟨e, Failing.throw_bind e f⟩
  | some a =>
    rw [show x = pure a from h, pure_bind]
    exact hf a rfl

theorem Answers.mapM {f : β → m α} {g : β → Option α} {xs : List β} (h : ∀ x ∈ xs, Answers (f x) (g x)) : Answers (xs.mapM f) (xs.mapM g) := by
  induction xs with
  | nil => exact rfl
  | cons x xs ih =>
    rw [mapM_cons, mapM_cons]
    exact (h x mem_cons_self).bind fun y _ => (ih fun z hz => h z (mem_cons_of_mem _ hz)).bind fun _ _ => rfl

theorem Answers.foldlM {I : α → Prop} {f : α → β → m α} {g : α → β → Option α} {xs : List β} {a : α} (ha : I a)
    (h : ∀ a x, I a → Answers (f a x) (g a x) ∧ ∀ b, g a x = some b → I b) : Answers (xs.foldlM f a) (xs.foldlM g a) := by
  induction xs generalizing a with
  | nil => exact rfl
  | cons x xs ih =>
    exact (h a x ha).1.bind fun b hb => ih ((h a x ha).2 b hb)

end

/-! ## Annotations -/

/-- The annotation of an operand is read. -/
def Reads (op : FlowOp) (k : Knot) (i : Nat) (a : Annot) : Prop := ∃ o w w', op.args[i]? = some o ∧ Ana.bindingOrImpossible o k w = .ok a w'

variable {op : FlowOp} {k : Knot} {w w' : World} {p : Places} {a : CallArgs}

end Matching
end FlowCompiler
