import Mathlib.Algebra.BigOperators.Group.Finset.Basic
import Mathlib.Algebra.Order.BigOperators.Group.Finset
import FlowCompiler.Proofs.Database.Naming
import FlowCompiler.Lowering.Representation
import FlowCompiler.Proofs.Union.Order

/-!
# Visits and calls

The database is built by calls: types are named, roots are added, and everything that can be reached is collected.  A call may
fail, and the next one goes on with what it has left.  `Visits` says what the visit of one pointer can do, and `Completes` what
collecting can do, which is one visit after another until nothing waits: the steps that `completeAll` allows itself are
enough, since every object is opened once.  A `Run` is a sequence of calls with their answers.
-/

namespace FlowCompiler.Database

open List

variable {p : Program} {d e g : Database} {q : PtrValue} {c : ContainerId}
variable {r : Option Failure} {E : Failure → Database → Prop}

/-! ## Visits -/

variable {α : Type} {s : LowStore} {Q : α → Database → Prop}

theorem Ends.self (m : M α) : Ends p d m (fun a e => m p d = .ok a e) fun f e => m p d = .error f e := by
  unfold Ends
  cases m p d with
  | ok a e => rfl
  | error f e => rfl

theorem Ends.of_ok {m : M α} {a : α} (h : Ends p d m Q E) (r : m p d = .ok a e) : Q a e := by
  unfold Ends at h
  rwa [r] at h

theorem Ends.of_error {m : M α} {f : Failure} (h : Ends p d m Q E) (r : m p d = .error f e) : E f e := by
  unfold Ends at h
  rwa [r] at h

def isFunction (p : Program) (c : ContainerId) : Bool :=
  match p.low.types.container (p.low.get c).type with
  | .func _ _ => true
  | _ => false

/-- The types of a function are named in turn. -/
def nameAll (ts : List LowType) : M Unit := ts.forM fun t => discard (typeName t)

/-- A function gets its node before its types have names. -/
def declared (d : Database) (p : Program) (c : ContainerId) : Database :=
  let o := p.low.get c
  { d.asked ("pypy_f_" ++ o.name) with
    funcs := d.funcs ++ [{ obj := c, name := d.nameFor ("pypy_f_" ++ o.name), type := o.type, graph := o.graph }] }

def awaiting (d : Database) (qs : List PtrValue) : Database := { d with pending := d.pending ++ qs }

def withObject (d : Database) (k : ContainerNode) : Database := { d with containers := d.containers ++ [k] }

/-- What the name of an object is made from. -/
def objectBase (p : Program) (c : ContainerId) : String := "pypy_g_" ++ containerTag p.low.types (p.low.get c).type

/-- Where types are numbered, the header of a collected object holds the number of its type. -/
def Headed (p : Program) (d : Database) (n : DefNode) (c : ContainerId) (header : List Datum) : Prop :=
  p.low.types.isGC (p.low.get c).type = true → (n.kind == .struct || n.kind == .array) = true → n.header.isNone = false →
    d.policy.numbersTypes = true → ∃ i, d.typeIds.lookup n.type = some i ∧ header = [.int (Int64.ofInt i)]

/-- What the visit of a pointer can do, with the failure in which it ends. -/
inductive Visits (p : Program) (d : Database) (q : PtrValue) : Option Failure → Database → Prop
  | null : q.obj = none → Visits p d q none d
  | knownFunc {c : ContainerId} : q.obj = some c → isFunction p c = true → (∃ k ∈ d.funcs, k.obj = c) → Visits p d q none d
  | knownObject {c : ContainerId} : q.obj = some c → isFunction p c = false → (∃ k ∈ d.containers, k.obj = p.low.top c) →
      Visits p d q none d
  | func {c : ContainerId} {args : List LowType} {result : LowType} {e : Database} : q.obj = some c →
      p.low.types.container (p.low.get c).type = .func args result → (¬ ∃ k ∈ d.funcs, k.obj = c) →
      nameAll (args ++ [result]) p (d.declared p c) = .ok ⟨⟩ e → Visits p d q none (e.awaiting (functionPointers p c))
  | funcFails {c : ContainerId} {args : List LowType} {result : LowType} {f : Failure} {e : Database} : q.obj = some c →
      p.low.types.container (p.low.get c).type = .func args result → (¬ ∃ k ∈ d.funcs, k.obj = c) →
      nameAll (args ++ [result]) p (d.declared p c) = .error f e → Visits p d q (some f) e
  | object {c : ContainerId} {n : DefNode} {e g : Database} {header : List Datum} : q.obj = some c → isFunction p c = false →
      (¬ ∃ k ∈ d.containers, k.obj = p.low.top c) → defOf (p.low.get (p.low.top c)).type p d = .ok n e →
      Numbers (e.asked (objectBase p (p.low.top c))) g → Headed p g n (p.low.top c) header →
      Visits p d q none
        ((g.withObject ⟨p.low.top c, e.nameFor (objectBase p (p.low.top c)), n.type, header⟩).awaiting (pointersOf p.low (p.low.top c)))
  | objectFails {c : ContainerId} {f : Failure} {e : Database} : q.obj = some c → isFunction p c = false →
      (¬ ∃ k ∈ d.containers, k.obj = p.low.top c) → defOf (p.low.get (p.low.top c)).type p d = .error f e →
      Visits p d q (some f) e

theorem headerData_ends (d : Database) (n : DefNode) : Ends p d (headerData n)
    (fun header e => Numbers d e ∧ (n.header.isNone = false → e.policy.numbersTypes = true →
      ∃ i, e.typeIds.lookup n.type = some i ∧ header = [.int (Int64.ofInt i)])) E := by
  refine .ite (fun none => .pure ⟨.same, fun some => absurd (none.symm.trans some) (by decide)⟩) fun _ => .get ?_
  split
  · rename_i policy
    exact .pure ⟨.same, fun _ h => absurd (policy ▸ h) (by decide)⟩
  · exact .bind ((typeId_ends d n.type).mono (fun i e h => .pure ⟨h.1, fun _ _ => ⟨i, h.2, rfl⟩⟩) fun _ _ h => h)
  · rename_i policy
    exact .pure ⟨.same, fun _ h => absurd (policy ▸ h) (by decide)⟩

theorem visitFunc_visits {args : List LowType} {result : LowType} (hq : q.obj = some c)
    (hc : p.low.types.container (p.low.get c).type = .func args result) :
    Ends p d (visitFunc c args result) (fun _ e => Visits p d q none e) fun f e => Visits p d q (some f) e := by
  have func : isFunction p c = true := by rw [isFunction, hc]
  refine .read (.get (.ite (fun known => .pure (.knownFunc hq func ?_)) fun new => .uniqueName (.modify ?_)))
  · simpa using known
  · have new : ¬ ∃ k ∈ d.funcs, k.obj = c := by simpa using new
    exact .bind ((Ends.self _).mono (fun _ e r => Ends.update (.func hq hc new r)) fun f e r => .funcFails hq hc new r)

theorem visitContainer_visits (hq : q.obj = some c) (hc : isFunction p c = false) :
    Ends p d (visitContainer (p.low.top c)) (fun _ e => Visits p d q none e) fun f e => Visits p d q (some f) e := by
  refine .read (.get (.ite (fun known => .pure (.knownObject hq hc ?_)) fun new => ?_))
  · simpa using known
  · have new : ¬ ∃ k ∈ d.containers, k.obj = p.low.top c := by simpa using new
    refine .bind ((Ends.self _).mono (fun n e r => .uniqueName ?_) fun f e r => .objectFails hq hc new r)
    refine .ite (fun collected => ?_) fun raw => ?_
    · refine .bind ((headerData_ends _ n).mono (fun header g h => .update ?_) fun _ _ h => h)
      exact .object hq hc new r h.1 fun _ _ => h.2
    · refine .update (.object hq hc new r .same fun gc kind => ?_)
      exact absurd (by rw [gc, kind]; rfl) raw

theorem visit_visits : Ends p d (visit q) (fun _ e => Visits p d q none e) fun f e => Visits p d q (some f) e := by
  refine .read ?_
  split
  · exact .pure (.null ‹_›)
  · rename_i c hq
    split
    · exact visitFunc_visits hq ‹_›
    · rename_i other
      refine visitContainer_visits hq ?_
      unfold isFunction
      split
      · exact (other _ _ ‹_›).elim
      · rfl

/-- The object of a pointer has its node, a part of an object that of the whole. -/
def HasNode (p : Program) (d : Database) (c : ContainerId) : Prop :=
  if isFunction p c then ∃ k ∈ d.funcs, k.obj = c else ∃ k ∈ d.containers, k.obj = p.low.top c

/-- Nodes and pointers that wait are only added. -/
structure Adds (d e : Database) : Prop where
  containers : d.containers <+: e.containers
  funcs : d.funcs <+: e.funcs
  pending : d.pending <+: e.pending

theorem Adds.trans (h : Adds d e) (h' : Adds e g) : Adds d g := ⟨h.containers.trans h'.containers, h.funcs.trans h'.funcs, h.pending.trans h'.pending⟩

theorem Adds.of_same (containers : e.containers = d.containers) (funcs : e.funcs = d.funcs) (pending : e.pending = d.pending) : Adds d e :=
  ⟨containers ▸ prefix_refl _, funcs ▸ prefix_refl _, pending ▸ prefix_refl _⟩

theorem Evolves.adds (h : Evolves p d e) : Adds d e := .of_same h.containers h.funcs h.pending

theorem HasNode.grown (h : HasNode p d c) (containers : d.containers <+: e.containers) (funcs : d.funcs <+: e.funcs) : HasNode p e c := by
  unfold HasNode at h ⊢
  by_cases func : isFunction p c = true
  · rw [if_pos func] at h ⊢
    obtain ⟨k, hk, hc⟩ := h
    exact ⟨k, funcs.subset hk, hc⟩
  · rw [if_neg func] at h ⊢
    obtain ⟨k, hk, hc⟩ := h
    exact ⟨k, containers.subset hk, hc⟩

theorem nameAll_evolves (ts : List LowType) (d : Database) : Ends p d (nameAll ts) (fun _ e => Evolves p d e) fun _ e => Evolves p d e :=
  .forM .refl .trans fun t _ e he => .map ((typeName_evolves t e).mono (fun _ _ h => h) fun _ _ h => he.trans h)

theorem Visits.adds (h : Visits p d q r e) : Adds d e := by
  have declared (c : ContainerId) : Adds d (d.declared p c) := ⟨prefix_refl _, prefix_append _ _, prefix_refl _⟩
  have awaiting (d : Database) (qs : List PtrValue) : Adds d (d.awaiting qs) := ⟨prefix_refl _, prefix_refl _, prefix_append _ _⟩
  have same : Adds d d := .of_same rfl rfl rfl
  cases h with
  | null _ => exact same
  | knownFunc _ _ _ => exact same
  | knownObject _ _ _ => exact same
  | func _ _ _ named => exact (declared _).trans (.trans ((nameAll_evolves _ _).of_ok named).adds (awaiting _ _))
  | funcFails _ _ _ named => exact (declared _).trans (Evolves.adds ((nameAll_evolves _ _).of_error named))
  | @object c n e g header _ _ _ made steps _ =>
    have object (k : ContainerNode) : Adds g (g.withObject k) := ⟨prefix_append _ _, prefix_refl _, prefix_refl _⟩
    have asked : Adds e (e.asked (objectBase p (p.low.top c))) := .of_same rfl rfl rfl
    exact (Evolves.adds ((defOf_evolves _ d).of_ok made).1).trans
      (asked.trans ((Evolves.adds (steps.evolves (p := p))).trans ((object _).trans (awaiting _ _))))
  | objectFails _ _ _ made => exact Evolves.adds ((defOf_evolves _ d).of_error made)

/-- What a visit that succeeds adds: nothing, or a node together with the pointers of its object. -/
inductive Opens (p : Program) (d : Database) (q : PtrValue) (e : Database) : Prop
  | nothing : (∀ c, q.obj = some c → HasNode p d c) → e = d → Opens p d q e
  | func {k : FuncNode} : q.obj = some k.obj → isFunction p k.obj = true → (¬ ∃ x ∈ d.funcs, x.obj = k.obj) →
      e.funcs = d.funcs ++ [k] → e.containers = d.containers → e.pending = d.pending ++ functionPointers p k.obj → Opens p d q e
  | object {c : ContainerId} {k : ContainerNode} : q.obj = some c → isFunction p c = false → k.obj = p.low.top c →
      (¬ ∃ x ∈ d.containers, x.obj = k.obj) → e.funcs = d.funcs → e.containers = d.containers ++ [k] →
      e.pending = d.pending ++ pointersOf p.low k.obj → Opens p d q e

theorem Visits.opens (h : Visits p d q r e) (hr : r = none) : Opens p d q e := by
  cases h with
  | null none => exact .nothing (fun c hc => by cases none.symm.trans hc) rfl
  | knownFunc hq func known =>
    refine .nothing (fun c hc => ?_) rfl
    cases hq.symm.trans hc
    rwa [HasNode, if_pos func]
  | knownObject hq object known =>
    refine .nothing (fun c hc => ?_) rfl
    cases hq.symm.trans hc
    rwa [HasNode, if_neg (by rw [object]; decide)]
  | funcFails _ _ _ _ => cases hr
  | objectFails _ _ _ _ => cases hr
  | @func c _ _ e hq func new named =>
    have steps := (nameAll_evolves _ (d.declared p c)).of_ok named
    have func : isFunction p c = true := by rw [isFunction, func]
    exact .func (k := ⟨c, _, _, _⟩) hq func new steps.funcs steps.containers (congrArg (· ++ functionPointers p c) steps.pending)
  | @object c n e g header hq object new made steps headed =>
    have made := ((defOf_evolves (p := p) _ d).of_ok made).1
    have steps : Evolves p (e.asked (objectBase p (p.low.top c))) g := steps.evolves
    exact .object (k := ⟨p.low.top c, _, _, _⟩) hq object rfl new (steps.funcs.trans made.funcs) (congrArg (· ++ [_])
      (steps.containers.trans made.containers)) (congrArg (· ++ pointersOf p.low (p.low.top c)) (steps.pending.trans made.pending))

theorem Opens.hasNode (h : Opens p d q e) (hq : q.obj = some c) : HasNode p e c := by
  cases h with
  | nothing known same => exact same ▸ known c hq
  | func hq' func _ funcs _ _ =>
    cases hq'.symm.trans hq
    rw [HasNode, if_pos func, funcs]
    exact ⟨_, mem_append_right _ (mem_singleton_self _), rfl⟩
  | object hq' object top _ _ containers _ =>
    cases hq'.symm.trans hq
    rw [HasNode, if_neg (by rw [object]; decide), containers]
    exact ⟨_, mem_append_right _ (mem_singleton_self _), top⟩

/-! ## Collecting -/

/-- The first pointer that waits is taken. -/
def popped (d : Database) (rest : List PtrValue) : Database := { d with pending := rest }

/-- What collecting can do, with the failure in which it ends. -/
inductive Completes (p : Program) : Database → Option Failure → Database → Prop
  | done {d : Database} : d.pending = [] → Completes p d none { d with complete := true }
  | visit {d e g : Database} {q : PtrValue} {rest : List PtrValue} {r : Option Failure} : d.pending = q :: rest →
      Visits p (d.popped rest) q none e → Completes p e r g → Completes p d r g
  | fails {d e : Database} {q : PtrValue} {rest : List PtrValue} {f : Failure} : d.pending = q :: rest →
      Visits p (d.popped rest) q (some f) e → Completes p d (some f) e

open scoped Classical in
/-- The pointers of an object that is not opened yet. -/
noncomputable def unopened (p : Program) (d : Database) (c : ContainerId) : Nat :=
  (if ∃ k ∈ d.containers, k.obj = c then 0 else (pointersOf p.low c).length)
    + if ∃ k ∈ d.funcs, k.obj = c then 0 else (functionPointers p c).length

/-- The pointers that wait or are still to be found. -/
noncomputable def budget (p : Program) (d : Database) : Nat := d.pending.length + ∑ c ∈ Finset.range p.low.containers.size, unopened p d c

theorem get_of_size_le (h : s.containers.size ≤ c) : s.get c = default := by
  rw [LowStore.get, Array.getElem?_eq_none h]
  rfl

theorem pointersOf_of_size_le (h : s.containers.size ≤ c) : pointersOf s c = [] := by
  rw [pointersOf, get_of_size_le h]
  rfl

theorem functionPointers_of_size_le (h : p.low.containers.size ≤ c) : functionPointers p c = [] := by
  rw [functionPointers, get_of_size_le h]
  rfl

theorem sum_unopened_le {k : Nat} (less : ∀ a, unopened p e a ≤ unopened p d a) (opened : unopened p e c + k ≤ unopened p d c)
    (outside : p.low.containers.size ≤ c → k = 0) :
    (∑ a ∈ Finset.range p.low.containers.size, unopened p e a) + k ≤ ∑ a ∈ Finset.range p.low.containers.size, unopened p d a := by
  by_cases hc : c ∈ Finset.range p.low.containers.size
  · rw [← Finset.add_sum_erase _ _ hc, ← Finset.add_sum_erase _ _ hc]
    rw [Nat.add_right_comm]
    exact Nat.add_le_add opened (Finset.sum_le_sum fun a _ => less a)
  · rw [outside (Nat.le_of_not_lt (by simpa using hc)), Nat.add_zero]
    exact Finset.sum_le_sum fun a _ => less a

theorem unopened_le (containers : ∀ k ∈ d.containers, k ∈ e.containers) (funcs : ∀ k ∈ d.funcs, k ∈ e.funcs) (a : ContainerId) :
    unopened p e a ≤ unopened p d a := by
  have object : (∃ k ∈ d.containers, k.obj = a) → ∃ k ∈ e.containers, k.obj = a := fun ⟨k, hk, e⟩ => ⟨k, containers k hk, e⟩
  have func : (∃ k ∈ d.funcs, k.obj = a) → ∃ k ∈ e.funcs, k.obj = a := fun ⟨k, hk, e⟩ => ⟨k, funcs k hk, e⟩
  refine Nat.add_le_add ?_ ?_
  · split
    · exact Nat.zero_le _
    · rw [if_neg fun h => ‹¬ _› (object h)]
  · split
    · exact Nat.zero_le _
    · rw [if_neg fun h => ‹¬ _› (func h)]

theorem Opens.budget_le (h : Opens p d q e) : budget p e ≤ budget p d := by
  cases h with
  | nothing _ same => rw [same]
  | @func k _ _ new funcs containers pending =>
    have here : ∃ x ∈ e.funcs, x.obj = k.obj := ⟨k, by rw [funcs]; exact mem_append_right _ (mem_singleton_self k), rfl⟩
    have less := sum_unopened_le
        (unopened_le (p := p) (d := d) (e := e) (fun x hx => containers ▸ hx) fun x hx => by rw [funcs]; exact mem_append_left _ hx)
      (show unopened p e k.obj + (functionPointers p k.obj).length ≤ unopened p d k.obj by
        rw [unopened, unopened, if_pos here, if_neg new, containers]; omega)
      fun out => by rw [functionPointers_of_size_le out]; rfl
    rw [budget, budget, pending, length_append]
    omega
  | @object c k _ _ _ new funcs containers pending =>
    have here : ∃ x ∈ e.containers, x.obj = k.obj := ⟨k, by rw [containers]; exact mem_append_right _ (mem_singleton_self k), rfl⟩
    have less := sum_unopened_le
        (unopened_le (p := p) (d := d) (e := e) (fun x hx => by rw [containers]; exact mem_append_left _ hx) fun x hx => funcs ▸ hx)
      (show unopened p e k.obj + (pointersOf p.low k.obj).length ≤ unopened p d k.obj by
        rw [unopened, unopened, if_pos here, if_neg new, funcs]; omega)
      fun out => by rw [pointersOf_of_size_le out]; rfl
    rw [budget, budget, pending, length_append]
    omega

/-- Collecting goes on until nothing waits when it may take as many steps as there are pointers. -/
theorem completeAux_completes {fuel : Nat} (enough : budget p d < fuel) :
    Ends p d (completeAux fuel) (fun _ e => Completes p d none e) fun f e => Completes p d (some f) e := by
  induction fuel generalizing d with
  | zero => exact absurd enough (Nat.not_lt_zero _)
  | succ fuel ih =>
    refine .get ?_
    split
    · exact .update (.done ‹_›)
    · rename_i q rest waiting
      refine .modify (.bind (visit_visits.mono (fun _ e h => ?_) fun f e h => .fails waiting h))
      have fewer : budget p e ≤ budget p (d.popped rest) := (h.opens rfl).budget_le
      have popped : budget p d = budget p (d.popped rest) + 1 := by
        rw [budget, budget, waiting, length_cons, Nat.add_right_comm]
        rfl
      exact (ih (by omega)).mono (fun _ g hg => .visit waiting h hg) fun f g hg => .visit waiting h hg

theorem foldl_pointers (p : Program) (start size : Nat) :
    (List.range size).foldl (fun n c => n + (pointersOf p.low c).length + (functionPointers p c).length) start =
      start + ∑ c ∈ Finset.range size, ((pointersOf p.low c).length + (functionPointers p c).length) := by
  induction size with
  | zero => rfl
  | succ size ih =>
    rw [range_succ, foldl_append, ih, Finset.sum_range_succ]
    simp only [foldl_cons, foldl_nil]
    omega

/-- **What collecting can do**: it goes on until nothing waits or a visit fails. -/
theorem completeAll_completes : Ends p d completeAll (fun _ e => Completes p d none e) fun f e => Completes p d (some f) e := by
  refine completeAux_completes ?_
  rw [foldl_pointers, budget]
  have less (c : ContainerId) : unopened p d c ≤ (pointersOf p.low c).length + (functionPointers p c).length := by
    refine Nat.add_le_add ?_ ?_
    · split <;> omega
    · split <;> omega
  have := Finset.sum_le_sum (s := Finset.range p.low.containers.size) fun c _ => less c
  omega

/-! ## Calls -/

/-- The calls that build a database. -/
inductive Call
  | typeName (t : LowType)
  | addConstant (q : PtrValue)
  | addFunction (q : PtrValue)
  | complete

def Call.act : Call → M Unit
  | typeName t => discard (Database.typeName t)
  | addConstant q => modify (·.addConstant q)
  | addFunction q => modify (·.addFunction q)
  | complete => completeAll

/-- What a call leaves, with its failure. -/
def perform (p : Program) (d : Database) (c : Call) : Option Failure × Database :=
  match c.act p d with
  | .ok _ e => (none, e)
  | .error f e => (some f, e)

/-- A database without anything in it. -/
def fresh (policy : GcPolicy) (rtti : List (NodeId × Rtti)) : Database := { policy, rtti }

/-- A call with its answer: the failure, if it fails. -/
abbrev Event := Call × Option Failure

/-- Sequences of calls, whether they fail or not. -/
inductive Run (p : Program) (start : Database) : List Event → Database → Prop
  | start : Run p start [] start
  | call {es : List Event} {d : Database} : Run p start es d → (c : Call) →
      Run p start (es ++ [(c, (perform p d c).1)]) (perform p d c).2

def after (p : Program) (d : Database) (cs : List Call) : Database := cs.foldl (fun d c => (perform p d c).2) d

/-- The calls of a list with their answers. -/
def events (p : Program) (d : Database) : List Call → List Event
  | [] => []
  | c :: cs => (c, (perform p d c).1) :: events p (perform p d c).2 cs

theorem run_events (p : Program) (d : Database) (cs : List Call) : Run p d (events p d cs) (after p d cs) := by
  have more {es : List Event} {e : Database} (run : Run p d es e) : Run p d (es ++ events p e cs) (after p e cs) := by
    induction cs generalizing es e with
    | nil =>
      rw [events, append_nil]
      exact run
    | cons c cs ih =>
      have next := ih (run.call c)
      rwa [append_assoc] at next
  exact more .start

/-- What the calls of a run have answered. -/
def messages (es : List Event) : List (Option String) := es.map fun e => e.2.map Failure.message

/-- The pointers that a call adds. -/
def Call.roots : Call → List PtrValue
  | addConstant q => [q]
  | addFunction q => [q]
  | _ => []

/-- The roots that have been added. -/
def rootsOf (es : List Event) : List PtrValue := es.flatMap (·.1.roots)

theorem rootsOf_concat (es : List Event) (c : Call) (r : Option Failure) : rootsOf (es ++ [(c, r)]) = rootsOf es ++ c.roots := by
  simp [rootsOf]

theorem Ends.perform {c : Call} {Q : Option Failure → Database → Prop}
    (h : Ends p d c.act (fun _ e => Q none e) fun f e => Q (some f) e) : Q (perform p d c).1 (perform p d c).2 := by
  unfold Ends at h
  unfold Database.perform
  cases r : c.act p d with
  | ok a e => rwa [r] at h
  | error f e => rwa [r] at h

/-- **What a call can do.** -/
inductive Calls (p : Program) (d : Database) : Call → Option Failure → Database → Prop
  | typeName {t : LowType} {s : String} {e : Database} : Database.typeName t p d = .ok s e → Calls p d (.typeName t) none e
  | typeNameFails {t : LowType} {f : Failure} {e : Database} : Database.typeName t p d = .error f e →
      Calls p d (.typeName t) (some f) e
  | addNull {q : PtrValue} : q.isNull = true → Calls p d (.addConstant q) none d
  | addConstant {q : PtrValue} : q.isNull = false →
      Calls p d (.addConstant q) none { d with pending := d.pending ++ [q], complete := false }
  | addFunction {q : PtrValue} : Calls p d (.addFunction q) none { d with pending := d.pending ++ [q], complete := false }
  | complete {r : Option Failure} {e : Database} : Completes p d r e → Calls p d .complete r e

theorem perform_calls (p : Program) (d : Database) (c : Call) : Calls p d c (perform p d c).1 (perform p d c).2 := by
  refine Ends.perform ?_
  cases c with
  | typeName t => exact .map ((Ends.self _).mono (fun _ _ r => .typeName r) fun _ _ r => .typeNameFails r)
  | addConstant q =>
    refine .update ?_
    unfold Database.addConstant
    split
    · exact .addNull ‹_›
    · exact .addConstant (Bool.eq_false_of_not_eq_true ‹¬ _›)
  | addFunction q => exact .update .addFunction
  | complete => exact completeAll_completes.mono (fun _ _ h => .complete h) fun _ _ h => .complete h

theorem Completes.pending (h : Completes p d r e) (success : r = none) : e.pending = [] := by
  induction h with
  | done empty => exact empty
  | visit _ _ _ ih => exact ih success
  | fails _ _ => cases success

theorem Run.nothing_waits {es : List Event} (run : Run p d (es ++ [(.complete, none)]) e) : e.pending = [] := by
  generalize last : es ++ [(.complete, none)] = es' at run
  cases run with
  | start => exact absurd last (by simp)
  | @call _ e _ c =>
    obtain ⟨-, last⟩ := append_inj' last rfl
    obtain ⟨rfl, success⟩ := Prod.mk.inj (singleton_inj.1 last)
    have step := perform_calls p e .complete
    rw [← success] at step
    cases step with
    | complete h => exact h.pending rfl

end FlowCompiler.Database

/-! ## The names in the generated code

Structures, arrays, handles, objects and functions get their names from one supply, and a tag in front of the names of
structures does not make two of them equal.  So the names are distinct as long as nobody asks for the numbered form of another
name (`NameSupply.Apart`).  `Extends` says what a step does to the names: those that are new are distinct, and none of them
has been given before. -/

namespace FlowCompiler.Database

variable {p : Program} {d e g : Database} {base x y l : String}
variable {r : Option Failure}

/-! ### Identifiers -/

/-- No blank in a name. -/
def Solid (x : String) : Prop := ' ' ∉ x.toList

theorem solid_identifier (s : String) : Solid (identifier s) := by
  rw [Solid, identifier, String.toList_map, List.mem_map]
  rintro ⟨c, -, hc⟩
  split at hc
  · rename_i alphanum
    rw [hc] at alphanum
    exact absurd alphanum (by decide)
  · exact absurd hc (by decide)

theorem solid_nameFor (d : Database) (base : String) : Solid (d.nameFor base) := by
  unfold nameFor NameSupply.fresh
  rcases Nat.eq_zero_or_pos (d.names.count (identifier base)) with none | some
  · rw [none]
    exact solid_identifier base
  · rw [Solid, NameSupply.toList_numbered some]
    intro blank
    rcases List.mem_append.1 blank with h | h
    · exact solid_identifier base h
    · rcases List.mem_cons.1 h with h | h
      · exact absurd h (by decide)
      · exact absurd (Nat.isDigit_of_mem_toDigits (by decide) (by decide) h) (by decide)

/-- A name with the tag of a structure or without it. -/
def IsLabel (x l : String) : Prop := l = x ∨ l = "struct " ++ x

theorem isLabel_label (k : DefKind) (x : String) : IsLabel x (label k x) := by
  cases k
  · exact .inr rfl
  · exact .inr rfl
  · exact .inl rfl
  · exact .inr rfl

/-- The tag does not confuse two names. -/
theorem IsLabel.inj (hx : Solid x) (hy : Solid y) (h : IsLabel x l) (h' : IsLabel y l) : x = y := by
  have tagged (z : String) : ¬ Solid ("struct " ++ z) := by simp [Solid]
  rcases h with rfl | rfl
  · rcases h' with h' | rfl
    · exact h'
    · exact absurd hx (tagged y)
  · rcases h' with rfl | h'
    · exact absurd hy (tagged x)
    · exact (String.append_right_inj _).1 h'

/-! ### Names that are given -/

/-- The names of definitions, objects and functions; all cells of weak references have one name. -/
def labels (s : Types) (d : Database) : List String :=
  (d.defs.filter fun n => !isWeakRef s n.type).map DefNode.cname ++ (d.containers.map ContainerNode.name ++ d.funcs.map FuncNode.name)

/-- A name that has been given, with a tag or without. -/
def Given (s : NameSupply) (l : String) : Prop := ∃ x, Solid x ∧ s.Gave x ∧ IsLabel x l

theorem Given.mono {s t : NameSupply} (h : Given s l) (later : s.Later t) : Given t l := by
  obtain ⟨x, solid, gave, hl⟩ := h
  exact ⟨x, solid, later.gave gave, hl⟩

theorem given_nameFor (hl : IsLabel (d.nameFor base) l) : Given (d.asked base).names l := ⟨_, solid_nameFor d base, NameSupply.gave_fresh _ _, hl⟩

theorem not_given_nameFor (apart : (d.asked base).names.Apart) (hl : IsLabel (d.nameFor base) l) : ¬ Given d.names l := by
  rintro ⟨x, solid, gave, hx⟩
  obtain rfl := hx.inj solid (solid_nameFor d base) hl
  exact NameSupply.not_gave_fresh apart gave

/-- What a step does to the names. -/
structure Extends (p : Program) (d e : Database) : Prop where
  later : d.names.Later e.names
  /-- The new names are distinct from each other and from all that have been given. -/
  more : ∃ new, (labels p.low.types e).Perm (labels p.low.types d ++ new) ∧
    (e.names.Apart → new.Nodup ∧ ∀ l ∈ new, Given e.names l ∧ ¬ Given d.names l)

namespace Extends

theorem of_later (later : d.names.Later e.names) (same : labels p.low.types e = labels p.low.types d) : Extends p d e :=
  ⟨later, [], by rw [same, List.append_nil], fun _ => ⟨.nil, nofun⟩⟩

theorem of_same (names : e.names = d.names) (same : labels p.low.types e = labels p.low.types d) : Extends p d e := .of_later (names ▸ .refl _) same

theorem refl (d : Database) : Extends p d d := .of_same rfl rfl

theorem trans (h : Extends p d e) (h' : Extends p e g) : Extends p d g := by
  obtain ⟨new, perm, distinct⟩ := h.more
  obtain ⟨new', perm', distinct'⟩ := h'.more
  refine ⟨h.later.trans h'.later, new ++ new', ?_, fun apart => ?_⟩
  · rw [← List.append_assoc]
    exact perm'.trans (perm.append_right new')
  · obtain ⟨nodup, given⟩ := distinct (h'.later.apart apart)
    obtain ⟨nodup', given'⟩ := distinct' apart
    refine ⟨List.nodup_append'.2 ⟨nodup, nodup', fun l hl hl' => (given' l hl').2 (given l hl).1⟩, fun l hl => ?_⟩
    rcases List.mem_append.1 hl with hl | hl
    · exact ⟨(given l hl).1.mono h'.later, (given l hl).2⟩
    · exact ⟨(given' l hl).1, fun before => (given' l hl).2 (before.mono h.later)⟩

theorem reserve (h : Extends p (d.asked base) e) (hl : IsLabel (d.nameFor base) l) (names : g.names = e.names)
    (same : labels p.low.types (d.asked base) = labels p.low.types d) (perm : (labels p.low.types g).Perm (labels p.low.types e ++ [l])) :
    Extends p d g := by
  obtain ⟨new, perm', distinct⟩ := h.more
  have asked : d.names.Later (d.asked base).names := .fresh _ _
  refine ⟨names ▸ asked.trans h.later, new ++ [l], ?_, fun apart => ?_⟩
  · rw [← List.append_assoc, ← same]
    exact perm.trans (perm'.append_right [l])
  · rw [names] at apart ⊢
    obtain ⟨nodup, given⟩ := distinct apart
    have here := given_nameFor hl
    have fresh := not_given_nameFor (h.later.apart apart) hl
    refine ⟨List.nodup_append'.2 ⟨nodup, List.nodup_singleton l, fun k hk hk' => ?_⟩, fun k hk => ?_⟩
    · exact (given k hk).2 (List.mem_singleton.1 hk' ▸ here)
    · rcases List.mem_append.1 hk with hk | hk
      · exact ⟨(given k hk).1, fun before => (given k hk).2 (before.mono asked)⟩
      · rw [List.mem_singleton.1 hk]
        exact ⟨here.mono h.later, fresh⟩

theorem add (hl : IsLabel (d.nameFor base) l) (names : e.names = (d.asked base).names)
    (perm : (labels p.low.types e).Perm (labels p.low.types d ++ [l])) : Extends p d e :=
  (refl (d.asked base)).reserve hl names rfl perm

end Extends

theorem labels_finished (s : Types) (d : Database) (n : DefNode) (h : isWeakRef s n.type = false) :
    (labels s (d.finished n)).Perm (labels s d ++ [n.cname]) := by
  have defs : ((d.finished n).defs.filter fun n => !isWeakRef s n.type).map DefNode.cname =
      (d.defs.filter fun n => !isWeakRef s n.type).map DefNode.cname ++ [n.cname] := by
    simp [finished, h]
  unfold labels
  rw [defs, List.append_assoc, List.append_assoc]
  exact (.append_left _ List.perm_append_comm)

theorem labels_finished_cell (s : Types) (d : Database) (n : DefNode) (h : isWeakRef s n.type = true) : labels s (d.finished n) = labels s d := by
  simp [labels, finished, h]

theorem Evolves.extends (h : Evolves p d e) : Extends p d e := by
  induction h with
  | refl d => exact .refl d
  | trans _ _ ih ih' => exact ih.trans ih'
  | number _ => exact .of_same rfl rfl
  | @«open» d e base m n _ _ _ counted cname _ ih =>
    have began : Extends p (d.asked base) (d.begun base m) := .of_same rfl rfl
    exact (began.trans ih).reserve (cname ▸ .inr rfl) rfl rfl (labels_finished _ e n counted)
  | @giveUp d e base m _ _ ih =>
    have began : Extends p d (d.begun base m) := .of_later (.fresh _ _) rfl
    exact began.trans (ih.trans (.of_same rfl rfl))
  | @close d e base n _ _ counted cname _ ih =>
    exact ih.trans (.add (cname ▸ isLabel_label _ _) rfl (labels_finished _ (e.asked base) n counted))
  | @cell d e n _ _ cell _ ih => exact ih.trans (.of_same rfl (labels_finished_cell _ e n cell))

/-! ### Visits and calls -/

theorem nameAll_extends (ts : List LowType) (d : Database) : Ends p d (nameAll ts) (fun _ e => Extends p d e) fun _ e => Extends p d e :=
  (nameAll_evolves ts d).mono (fun _ _ h => h.extends) fun _ _ h => h.extends

theorem extends_declared (d : Database) (c : ContainerId) : Extends p d (d.declared p c) := by
  have named : IsLabel (d.nameFor ("pypy_f_" ++ (p.low.get c).name)) (d.nameFor ("pypy_f_" ++ (p.low.get c).name)) := .inl rfl
  refine .add named rfl ?_
  simp [labels, declared, asked]

theorem labels_withObject (s : Types) (d : Database) (k : ContainerNode) : (labels s (d.withObject k)).Perm (labels s d ++ [k.name]) := by
  simp only [labels, withObject, List.map_append, List.append_assoc]
  exact .append_left _ (.append_left _ List.perm_append_comm)

theorem Visits.extends {q : PtrValue} (h : Visits p d q r e) : Extends p d e := by
  cases h with
  | null _ => exact .refl d
  | knownFunc _ _ _ => exact .refl d
  | knownObject _ _ _ => exact .refl d
  | @func c args result e _ _ _ named =>
    have types : Extends p (d.declared p c) e := (nameAll_extends _ _).of_ok named
    exact (extends_declared d c).trans (types.trans (.of_same rfl rfl))
  | @funcFails c args result f _ _ _ _ named =>
    have types : Extends p (d.declared p c) e := (nameAll_extends _ _).of_error named
    exact (extends_declared d c).trans types
  | @object c n e g header _ _ _ made steps _ =>
    have made : Evolves p d e := ((defOf_evolves _ d).of_ok made).1
    exact made.extends.trans ((Evolves.extends steps.evolves).reserve (.inl rfl) rfl rfl (labels_withObject _ g _))
  | objectFails _ _ _ made => exact Evolves.extends ((defOf_evolves _ d).of_error made)

theorem Completes.extends (h : Completes p d r e) : Extends p d e := by
  induction h with
  | done _ => exact .of_same rfl rfl
  | @visit d e g q rest r _ h _ ih =>
    have popped : Extends p d (d.popped rest) := .of_same rfl rfl
    exact popped.trans (h.extends.trans ih)
  | @fails d e q rest f _ h =>
    have popped : Extends p d (d.popped rest) := .of_same rfl rfl
    exact popped.trans h.extends

theorem Calls.extends {c : Call} (h : Calls p d c r e) : Extends p d e := by
  cases h with
  | typeName r => exact Evolves.extends ((typeName_evolves _ d).of_ok r)
  | typeNameFails r => exact Evolves.extends ((typeName_evolves _ d).of_error r)
  | addNull _ => exact .refl d
  | addConstant _ => exact .of_same rfl rfl
  | addFunction => exact .of_same rfl rfl
  | complete h => exact h.extends

theorem Run.extends {es : List Event} (h : Run p d es e) : Extends p d e := by
  induction h with
  | start => exact .refl d
  | call _ c ih => exact ih.trans (perform_calls p _ c).extends

/-! ### Distinct names -/

/-- The names that the typing stage gives are those of its supply. -/
theorem mapM_uniqueName (bases : List String) (t : Typer) (k : Knot) (w : World) : (bases.mapM Typing.uniqueName) t k w =
      .ok (t.names.answers bases, { t with names := t.names.serve bases }) w := by
  induction bases generalizing t with
  | nil => rfl
  | cons base bases ih =>
    rw [List.mapM_cons]
    let next : Typer := { t with names := (t.names.fresh base).2 }
    change EStateM.bind ((bases.mapM Typing.uniqueName) next k) _ w = _
    rw [EStateM.bind, ih next]
    rfl

/-- **Names are distinct** in the typing stage exactly when nobody asks for the numbered form of a name that has been given in
that form.  In a database, whose calls may fail, that is enough for the names of all definitions, objects and functions. -/
theorem names_distinct {policy : GcPolicy} {rtti : List (NodeId × Rtti)} {es : List Event} (run : Run p (fresh policy rtti) es d)
    (bases : List String) {t : Typer} (empty : t.names = {}) (k : Knot) (w : World) :
    (∃ names t', (bases.mapM Typing.uniqueName) t k w = .ok (names, t') w ∧ (names.Nodup ↔ t'.names.Apart)) ∧
      (d.names.Apart → (labels p.low.types d).Nodup) := by
  constructor
  · refine ⟨_, _, mapM_uniqueName bases t k w, ?_⟩
    rw [empty]
    exact NameSupply.nodup_answers bases
  · intro apart
    obtain ⟨new, perm, distinct⟩ := run.extends.more
    exact perm.nodup_iff.2 (distinct apart).1

/-- Two structures of one name. -/
def namesakes : Program := { low := { types := { nodes := #[.struct "A" [] {} false, .struct "A" [] {} false] } } }

theorem names_distinct_namesakes : ∃ es d, Run namesakes (fresh .none []) es d ∧
    labels namesakes.low.types d = ["struct pypy_A", "struct pypy_A_1"] ∧ (labels namesakes.low.types d).Nodup ∧
    ∃ names t, (["A", "A"].mapM Typing.uniqueName) {} Annot.idle {} = .ok (names, t) {} ∧ (names.Nodup ↔ t.names.Apart) := by
  have run := run_events namesakes (fresh .none []) [.typeName (.node 0), .typeName (.node 1)]
  obtain ⟨typing, database⟩ := names_distinct run ["A", "A"] (t := {}) rfl Annot.idle {}
  refine ⟨_, _, run, by decide +kernel, database ?_, typing⟩
  have counts : (after namesakes (fresh .none []) [.typeName (.node 0), .typeName (.node 1)]).names = ⟨[("pypy_A", 2)]⟩ :=
    congrArg NameSupply.mk (by decide +kernel)
  have only (x : String) (h : 0 < NameSupply.count ⟨[("pypy_A", 2)]⟩ x) : x = "pypy_A" := by
    by_contra other
    simp [NameSupply.count, Entries.lookup_cons, other] at h
  rw [counts]
  intro b c k hk hb hc
  rw [only c hc, only b (Nat.zero_lt_of_lt hb)]
  exact (NameSupply.numbered_ne hk).symm

/-- A structure whose name looks like the second name of another one. -/
def lookalikes : Program := { low := { types := { nodes := #[.struct "A" [] {} false, .struct "A" [] {} false, .struct "A_1" [] {} false] } } }

theorem names_clash : ∃ es d, Run lookalikes (fresh .none []) es d ∧ ¬ (labels lookalikes.low.types d).Nodup := by
  refine ⟨_, _, run_events lookalikes (fresh .none []) [.typeName (.node 0), .typeName (.node 1), .typeName (.node 2)], ?_⟩
  have twice : labels lookalikes.low.types (after lookalikes (fresh .none []) [.typeName (.node 0), .typeName (.node 1), .typeName (.node 2)]) =
      ["struct pypy_A", "struct pypy_A_1", "struct pypy_A_1"] := by decide +kernel
  rw [twice]
  decide

end FlowCompiler.Database
