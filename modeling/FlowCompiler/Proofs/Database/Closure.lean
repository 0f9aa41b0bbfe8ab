import Mathlib.Data.Finset.Card
import FlowCompiler.Proofs.Database.Visits

/-!
# The reachable objects

`Reached` says which objects the roots lead to: through the pointers inside objects, at any depth, and through the pointer
constants in the graphs of functions.  When collecting succeeds, the database has a node for each of them, none for anything
else, and none twice (`collects_reached`).

Objects are held by value in any way here, even by themselves: a path that goes round in a circle can be cut short, so the steps
that `pointersOf` takes inwards are enough.
-/

/-! ## The blocks of a graph

The blocks of a graph are those that its exits lead to from the start.  `blocksOf` walks through them depth first, with a bound on
its steps: a block that has not been met has all its exits before it, so what waits and the exits of the blocks that have not been
met get fewer with every step. -/

namespace FlowCompiler.FlowStore

open List

variable {s : FlowStore} {g : GraphId} {b : BlockId} {fuel : Nat} {stack seen : List BlockId}

/-- The blocks that the exits of a block lead to. -/
def targets (s : FlowStore) (b : BlockId) : List BlockId := (s.block b).exits.map fun l => (s.link l).target

/-- A block of a graph: its start, or one that an exit of another one leads to. -/
inductive BlockOf (s : FlowStore) (g : GraphId) : BlockId → Prop
  | start {b : BlockId} : (s.graph g).start = some b → BlockOf s g b
  | exit {b c : BlockId} : BlockOf s g b → c ∈ s.targets b → BlockOf s g c

/-- The exits of the blocks that have not been met. -/
def ahead (s : FlowStore) (seen : List BlockId) : Nat := ∑ b ∈ (Finset.range (s.blocks.size + 1)).filter (· ∉ seen), (s.targets b).length

theorem targets_of_size_lt (h : s.blocks.size < b) : s.targets b = [] := by
  have none : s.block b = default := by
    rw [block, Array.getElem?_eq_none (Nat.le_sub_one_of_lt h)]
    rfl
  rw [targets, none]
  rfl

theorem ahead_cons (h : b ∉ seen) : s.ahead (b :: seen) + (s.targets b).length = s.ahead seen := by
  have fewer : (Finset.range (s.blocks.size + 1)).filter (· ∉ b :: seen) = ((Finset.range (s.blocks.size + 1)).filter (· ∉ seen)).erase b := by
    ext c
    simp only [Finset.mem_filter, Finset.mem_erase, mem_cons, not_or]
    tauto
  unfold ahead
  rw [fewer]
  by_cases inside : b < s.blocks.size + 1
  · exact Finset.sum_erase_add _ _ (Finset.mem_filter.2 ⟨Finset.mem_range.2 inside, h⟩)
  · rw [targets_of_size_lt (Nat.lt_of_succ_le (Nat.le_of_not_lt inside)), Finset.erase_eq_of_notMem fun hb =>
      inside (Finset.mem_range.1 (Finset.mem_filter.1 hb).1)]
    rfl

theorem reachAux_seen (h : b ∈ seen) (fuel : Nat) (stack : List BlockId) : s.reachAux (fuel + 1) (b :: stack) seen = s.reachAux fuel stack seen := by
  rw [reachAux, if_pos (contains_iff_mem.2 h)]

theorem reachAux_new (h : b ∉ seen) (fuel : Nat) (stack : List BlockId) : s.reachAux (fuel + 1) (b :: stack) seen =
    s.reachAux fuel ((s.targets b).filter (fun t => !(b :: seen).contains t) ++ stack) (b :: seen) := by
  rw [reachAux, if_neg fun no => h (contains_iff_mem.1 no)]
  rfl

theorem forall_of_reachAux {P : BlockId → Prop} (closed : ∀ b, P b → ∀ c ∈ s.targets b, P c) (hstack : ∀ b ∈ stack, P b)
    (hseen : ∀ b ∈ seen, P b) : ∀ b ∈ s.reachAux fuel stack seen, P b := by
  induction fuel generalizing stack seen with
  | zero => exact fun b hb => hseen b (mem_reverse.1 hb)
  | succ fuel ih =>
    cases stack with
    | nil => exact fun b hb => hseen b (mem_reverse.1 hb)
    | cons c stack =>
      have hc := hstack c mem_cons_self
      have rest : ∀ b ∈ stack, P b := fun b hb => hstack b (mem_cons_of_mem c hb)
      by_cases met : c ∈ seen
      · rw [reachAux_seen met]
        exact ih rest hseen
      · rw [reachAux_new met]
        refine ih (fun b hb => ?_) fun b hb => ?_
        · rcases mem_append.1 hb with hb | hb
          · exact closed c hc b (mem_of_mem_filter hb)
          · exact rest b hb
        · rcases mem_cons.1 hb with rfl | hb
          · exact hc
          · exact hseen b hb

/-- Blocks whose exits lead to blocks of the same kind, or to some that wait. -/
def ClosedBut (s : FlowStore) (stack seen : List BlockId) : Prop := ∀ b ∈ seen, ∀ c ∈ s.targets b, c ∈ seen ∨ c ∈ stack

/-- With enough steps all that waits is collected, and what its exits lead to. -/
theorem reachAux_closed (enough : stack.length + s.ahead seen < fuel) (h : s.ClosedBut stack seen) :
    (∀ b ∈ stack ++ seen, b ∈ s.reachAux fuel stack seen) ∧ s.ClosedBut [] (s.reachAux fuel stack seen) := by
  induction fuel generalizing stack seen with
  | zero => omega
  | succ fuel ih =>
    cases stack with
    | nil => exact ⟨fun b hb => mem_reverse.2 hb, fun b hb c hc => (h b (mem_reverse.1 hb) c hc).imp_left mem_reverse.2⟩
    | cons a stack =>
      rw [length_cons] at enough
      by_cases met : a ∈ seen
      · rw [reachAux_seen met]
        have rest : s.ClosedBut stack seen := fun b hb c hc => (h b hb c hc).elim .inl fun hc => by
          rcases mem_cons.1 hc with rfl | hc
          · exact .inl met
          · exact .inr hc
        obtain ⟨all, closed⟩ := ih (by omega) rest
        refine ⟨fun b hb => ?_, closed⟩
        rcases mem_cons.1 hb with rfl | hb
        · exact all b (mem_append_right _ met)
        · exact all b hb
      · rw [reachAux_new met]
        have fewer := s.ahead_cons met
        have kept := length_filter_le (fun t => !(a :: seen).contains t) (s.targets a)
        have rest : s.ClosedBut ((s.targets a).filter (fun t => !(a :: seen).contains t) ++ stack) (a :: seen) := by
          intro b hb c hc
          by_cases met' : c ∈ a :: seen
          · exact .inl met'
          refine .inr (mem_append.2 ?_)
          rcases mem_cons.1 hb with rfl | hb
          · exact .inl (mem_filter.2 ⟨hc, by simpa using met'⟩)
          · rcases h b hb c hc with hc | hc
            · exact absurd (mem_cons_of_mem a hc) met'
            · exact .inr ((mem_cons.1 hc).resolve_left fun e => met' (e ▸ mem_cons_self))
        obtain ⟨all, closed⟩ := ih (by rw [length_append]; omega) rest
        refine ⟨fun b hb => all b ?_, closed⟩
        rcases mem_append.1 hb with hb | hb
        · rcases mem_cons.1 hb with rfl | hb
          · exact mem_append_right _ mem_cons_self
          · exact mem_append_left _ (mem_append_right _ hb)
        · exact mem_append_right _ (mem_cons_of_mem a hb)

theorem reachFuel_eq (s : FlowStore) : s.reachFuel = 2 + s.ahead [] := by
  have fold (bs : List BlockId) (n : Nat) :
      bs.foldl (fun n b => n + (s.block b).exits.length) n = n + (bs.map fun b => (s.targets b).length).sum := by
    induction bs generalizing n with
    | nil => rfl
    | cons b bs ih => rw [foldl_cons, ih, map_cons, sum_cons, targets, length_map, Nat.add_assoc]
  unfold reachFuel ahead
  rw [fold]
  simp only [not_mem_nil, not_false_eq_true, Finset.filter_true]
  rfl

/-- **The blocks of a graph** are those that can be reached. -/
theorem mem_blocksOf : b ∈ s.blocksOf g ↔ BlockOf s g b := by
  unfold blocksOf
  constructor
  · intro h
    split at h
    · rename_i a start
      refine forall_of_reachAux (P := BlockOf s g) (fun b hb c hc => .exit hb hc) (fun b hb => ?_) (fun _ no => absurd no not_mem_nil) b h
      rw [mem_singleton.1 hb]
      exact .start start
    · cases h
  · intro h
    have closed {a : BlockId} (start : (s.graph g).start = some a) : (∀ b ∈ [a] ++ [], b ∈ s.reachAux s.reachFuel [a] []) ∧
        s.ClosedBut [] (s.reachAux s.reachFuel [a] []) :=
      reachAux_closed (by rw [reachFuel_eq, length_singleton]; omega) fun _ no => absurd no not_mem_nil
    induction h with
    | start start =>
      rw [start]
      exact (closed start).1 _ mem_cons_self
    | exit _ hc ih =>
      split at ih
      · exact ((closed ‹_›).2 _ ih _ hc).elim id nofun
      · cases ih

end FlowCompiler.FlowStore

/-! ## The nodes of objects

Every object has the definition of its type, and where types are numbered its header holds the number of its definition.  The
numbers are given in order, so no two types have the same one.  All this holds after every call, whether it fails or not
(`Run.furnished`). -/

namespace FlowCompiler.Database

variable {p : Program} {d e g : Database} {q : PtrValue} {id : NodeId} {n : DefNode} {r : Option Failure}

/-- Types have different numbers: each is the next one when it is given. -/
structure Counted (d : Database) : Prop where
  nodup : (d.typeIds.map Prod.snd).Nodup
  bound : ∀ x ∈ d.typeIds, x.2 ≤ d.typeIds.length

theorem Counted.withNumber (h : Counted d) (id : NodeId) : Counted (d.withNumber id) := by
  refine ⟨?_, fun x hx => ?_⟩
  · rw [Database.withNumber, List.map_append]
    refine List.nodup_append'.2 ⟨h.nodup, List.nodup_singleton _, fun i hi hi' => ?_⟩
    obtain ⟨x, hx, rfl⟩ := List.mem_map.1 hi
    have bound := h.bound x hx
    have next : x.2 = (d.typeIds.length : Int) + 1 := List.mem_singleton.1 hi'
    omega
  · rw [Database.withNumber, List.length_append]
    rcases List.mem_append.1 hx with hx | hx
    · have bound := h.bound x hx
      omega
    · rw [List.mem_singleton.1 hx]
      simp

theorem Counted.of_evolves (h : Counted d) (hd : Evolves p d e) : Counted e := by
  induction hd with
  | refl d => exact h
  | trans _ _ ih ih' => exact ih' (ih h)
  | number _ => exact h.withNumber _
  | «open» _ _ _ _ _ _ ih => exact ⟨(ih ⟨h.nodup, h.bound⟩).nodup, (ih ⟨h.nodup, h.bound⟩).bound⟩
  | giveUp _ _ ih => exact ⟨(ih ⟨h.nodup, h.bound⟩).nodup, (ih ⟨h.nodup, h.bound⟩).bound⟩
  | close _ _ _ _ _ ih => exact ⟨(ih h).nodup, (ih h).bound⟩
  | cell _ _ _ _ ih => exact ⟨(ih h).nodup, (ih h).bound⟩

theorem Counted.inj (h : Counted d) {a b : NodeId} {i : Int} (ha : d.typeIds.lookup a = some i) (hb : d.typeIds.lookup b = some i) : a = b := by
  have ha := Entries.mem_of_lookup ha
  have hb := Entries.mem_of_lookup hb
  exact congrArg Prod.fst (List.inj_on_of_nodup_map h.nodup ha hb rfl)

/-- The node of an object: it has the definition of its type, and the number of that in its header. -/
structure Furnishes (p : Program) (d : Database) (k : ContainerNode) : Prop where
  type : k.type = p.low.types.target (p.low.get k.obj).type
  definition : ∃ n, d.known.lookup k.type = some n ∧ Headed p d n k.obj k.header

/-- What holds of definitions and objects between calls. -/
structure Furnished (p : Program) (policy : GcPolicy) (d : Database) : Prop where
  policy : d.policy = policy
  known : ∀ id n, d.known.lookup id = some n → n ∈ d.defs ∧ n.type = id
  filled : ∀ n ∈ d.defs, Filled p d n
  counted : Counted d
  nodes : ∀ k ∈ d.containers, Furnishes p d k

theorem Headed.of_evolves {c : ContainerId} {header : List Datum} (h : Headed p d n c header) (hd : Evolves p d e) : Headed p e n c header := by
  intro gc kind some counted
  obtain ⟨i, hi, e⟩ := h gc kind some (hd.policy ▸ counted)
  exact ⟨i, hd.typeIds hi, e⟩

theorem Furnishes.of_evolves {k : ContainerNode} (h : Furnishes p d k) (hd : Evolves p d e) : Furnishes p e k := by
  obtain ⟨n, hn, headed⟩ := h.definition
  exact ⟨h.type, n, hd.known hn, headed.of_evolves hd⟩

namespace Furnished

variable {P : GcPolicy}

theorem of_evolves (h : Furnished p P d) (hd : Evolves p d e) : Furnished p P e := by
  refine ⟨hd.policy.trans h.policy, fun id n hn => ?_, fun n hn => ?_, h.counted.of_evolves hd, fun k hk => ?_⟩
  · rcases hd.origin hn with hn | hn
    · exact ⟨hd.mem_defs (h.known id n hn).1, (h.known id n hn).2⟩
    · exact hn
  · rcases hd.filled hn with hn | hn
    · exact (h.filled n hn).of_evolves hd
    · exact hn
  · rw [hd.containers] at hk
    exact (h.nodes k hk).of_evolves hd

theorem of_same (h : Furnished p P d) (policy : e.policy = d.policy) (known : e.known = d.known) (defs : e.defs = d.defs)
    (typeIds : e.typeIds = d.typeIds) (containers : e.containers = d.containers) : Furnished p P e := by
  cases d
  cases e
  cases policy
  cases known
  cases defs
  cases typeIds
  cases containers
  exact ⟨h.policy, h.known, fun n hn => ⟨(h.filled n hn).header, (h.filled n hn).number⟩, ⟨h.counted.nodup, h.counted.bound⟩,
    fun k hk => ⟨(h.nodes k hk).type, (h.nodes k hk).definition⟩⟩

theorem withObject {k : ContainerNode} (h : Furnished p P d) (hk : Furnishes p d k) : Furnished p P (d.withObject k) := by
  refine ⟨h.policy, h.known, fun n hn => ⟨(h.filled n hn).header, (h.filled n hn).number⟩, ⟨h.counted.nodup, h.counted.bound⟩, fun x hx => ?_⟩
  rcases List.mem_append.1 hx with hx | hx
  · exact ⟨(h.nodes x hx).type, (h.nodes x hx).definition⟩
  · rw [List.mem_singleton.1 hx]
    exact ⟨hk.type, hk.definition⟩

theorem fresh (rtti : List (NodeId × Rtti)) : Furnished p P (fresh P rtti) :=
  ⟨rfl, fun _ _ h => (nomatch h), fun _ h => (nomatch h), ⟨List.nodup_nil, nofun⟩, fun _ h => (nomatch h)⟩

theorem visits (h : Furnished p P d) (hv : Visits p d q r e) : Furnished p P e := by
  have declared (c : ContainerId) : Furnished p P (d.declared p c) := h.of_same rfl rfl rfl rfl rfl
  cases hv with
  | null _ => exact h
  | knownFunc _ _ _ => exact h
  | knownObject _ _ _ => exact h
  | @func c _ _ e _ _ _ named =>
    have types : Furnished p P e := (declared c).of_evolves ((nameAll_evolves _ _).of_ok named)
    exact types.of_same rfl rfl rfl rfl rfl
  | funcFails _ _ _ named => exact (declared _).of_evolves ((nameAll_evolves _ _).of_error named)
  | @object c n e g header _ _ _ made steps headed =>
    obtain ⟨evolved, hn⟩ := (defOf_evolves _ d).of_ok made
    have made : Furnished p P e := h.of_evolves evolved
    have asked : Furnished p P (e.asked (objectBase p (p.low.top c))) := made.of_same rfl rfl rfl rfl rfl
    have numbered : Furnished p P g := asked.of_evolves steps.evolves
    have type : n.type = p.low.types.target (p.low.get (p.low.top c)).type := (made.known _ n hn).2
    have known : g.known.lookup n.type = some n := Evolves.known (steps.evolves (p := p)) (type ▸ hn)
    have node : Furnishes p g ⟨p.low.top c, e.nameFor (objectBase p (p.low.top c)), n.type, header⟩ := ⟨type, n, known, headed⟩
    exact (numbered.withObject node).of_same rfl rfl rfl rfl rfl
  | objectFails _ _ _ made => exact h.of_evolves ((defOf_evolves _ d).of_error made)

theorem completes (h : Furnished p P d) (hc : Completes p d r e) : Furnished p P e := by
  have popped {d : Database} (h : Furnished p P d) (rest : List PtrValue) : Furnished p P (d.popped rest) := h.of_same rfl rfl rfl rfl rfl
  induction hc with
  | done _ => exact h.of_same rfl rfl rfl rfl rfl
  | visit _ hv _ ih => exact ih ((popped h _).visits hv)
  | fails _ hv => exact (popped h _).visits hv

theorem calls {c : Call} (h : Furnished p P d) (hc : Calls p d c r e) : Furnished p P e := by
  cases hc with
  | typeName named => exact h.of_evolves ((typeName_evolves _ d).of_ok named)
  | typeNameFails named => exact h.of_evolves ((typeName_evolves _ d).of_error named)
  | addNull _ => exact h
  | addConstant _ => exact h.of_same rfl rfl rfl rfl rfl
  | addFunction => exact h.of_same rfl rfl rfl rfl rfl
  | complete hc => exact h.completes hc

end Furnished

theorem Run.furnished {policy : GcPolicy} {rtti : List (NodeId × Rtti)} {es : List Event} (run : Run p (fresh policy rtti) es d) :
    Furnished p policy d := by
  induction run with
  | start => exact .fresh rtti
  | call _ c ih => exact ih.calls (perform_calls p _ c)

end FlowCompiler.Database

namespace FlowCompiler.Database

variable {p : Program} {d e g : Database} {q : PtrValue} {a b c : ContainerId} {s : LowStore} {r : Option Failure} {roots : List PtrValue}

/-! ## Pointers inside objects -/

/-- The values of an object. -/
def contents (s : LowStore) (c : ContainerId) : List Datum := (s.get c).fields.toList ++ (s.get c).items.toList

/-- A pointer inside an object, or inside an object that it holds by value. -/
inductive Holds (s : LowStore) : ContainerId → PtrValue → Prop
  | here {c : ContainerId} {q : PtrValue} : .ptr q ∈ contents s c → q.isNull = false → Holds s c q
  | inside {c a : ContainerId} {q : PtrValue} : .container a ∈ contents s c → Holds s a q → Holds s c q

/-- The same on a way through objects of a set. -/
inductive HoldsVia (s : LowStore) : Finset ContainerId → ContainerId → PtrValue → Prop
  | here {X : Finset ContainerId} {c : ContainerId} {q : PtrValue} : c ∈ X → .ptr q ∈ contents s c → q.isNull = false →
      HoldsVia s X c q
  | inside {X : Finset ContainerId} {c a : ContainerId} {q : PtrValue} : c ∈ X → .container a ∈ contents s c →
      HoldsVia s X a q → HoldsVia s X c q

variable {X : Finset ContainerId} {fuel : Nat}

theorem HoldsVia.mem (h : HoldsVia s X c q) : c ∈ X := by
  cases h with
  | here hc _ _ => exact hc
  | inside hc _ _ => exact hc

theorem Holds.via (h : Holds s c q) : HoldsVia s (Finset.range s.containers.size) c q := by
  have inside {c : ContainerId} {v : Datum} (hv : v ∈ contents s c) : c ∈ Finset.range s.containers.size := by
    by_contra out
    rw [contents, get_of_size_le (Nat.le_of_not_lt (by simpa using out))] at hv
    cases hv
  induction h with
  | here hq null => exact .here (inside hq) hq null
  | inside ha _ ih => exact .inside (inside ha) ha ih

/-- A way from one object either avoids another one, or goes on from there without coming back. -/
theorem HoldsVia.erase (h : HoldsVia s X c q) (b : ContainerId) : HoldsVia s (X.erase b) c q ∨
    (.ptr q ∈ contents s b ∧ q.isNull = false) ∨ ∃ a, .container a ∈ contents s b ∧ HoldsVia s (X.erase b) a q := by
  induction h with
  | @here c q hc hq null =>
    by_cases same : c = b
    · exact .inr (.inl ⟨same ▸ hq, null⟩)
    · exact .inl (.here (Finset.mem_erase.2 ⟨same, hc⟩) hq null)
  | @inside c a q hc ha _ ih =>
    rcases ih with ih | later
    · by_cases same : c = b
      · exact .inr (.inr ⟨a, same ▸ ha, ih⟩)
      · exact .inl (.inside (Finset.mem_erase.2 ⟨same, hc⟩) ha ih)
    · exact .inr later

theorem mem_pointersAux_succ {vs : List Datum} : q ∈ pointersAux s (fuel + 1) vs ↔
    (.ptr q ∈ vs ∧ q.isNull = false) ∨ ∃ a, .container a ∈ vs ∧ q ∈ pointersAux s fuel (contents s a) := by
  rw [pointersAux, List.mem_flatMap]
  constructor
  · rintro ⟨v, hv, hq⟩
    split at hq
    · rename_i q'
      split at hq
      · cases hq
      · rename_i null
        obtain rfl := List.mem_singleton.1 hq
        exact .inl ⟨hv, Bool.eq_false_of_not_eq_true null⟩
    · exact .inr ⟨_, hv, hq⟩
    · cases hq
  · rintro (⟨hq, null⟩ | ⟨a, ha, hq⟩)
    · exact ⟨_, hq, by simp [null]⟩
    · exact ⟨_, ha, hq⟩

theorem HoldsVia.mem_pointersAux (h : HoldsVia s X c q) (enough : X.card ≤ fuel) : q ∈ pointersAux s fuel (contents s c) := by
  induction fuel generalizing X c with
  | zero =>
    rw [Finset.card_eq_zero.1 (Nat.le_zero.1 enough)] at h
    exact absurd h.mem (Finset.notMem_empty c)
  | succ fuel ih =>
    rw [mem_pointersAux_succ]
    have less : (X.erase c).card ≤ fuel := by
      rw [Finset.card_erase_of_mem h.mem]
      omega
    rcases h.erase c with back | here | ⟨a, ha, later⟩
    · exact absurd rfl (Finset.ne_of_mem_erase back.mem)
    · exact .inl here
    · exact .inr ⟨a, ha, ih later less⟩

/-- **The pointers of an object** are those inside it, at any depth. -/
theorem mem_pointersOf : q ∈ pointersOf s c ↔ Holds s c q := by
  constructor
  · intro h
    change q ∈ pointersAux s (s.containers.size + 1) (contents s c) at h
    generalize s.containers.size + 1 = fuel at h
    induction fuel generalizing c with
    | zero => cases h
    | succ fuel ih =>
      rcases mem_pointersAux_succ.1 h with ⟨hq, null⟩ | ⟨a, ha, hq⟩
      · exact .here hq null
      · exact .inside ha (ih hq)
  · intro h
    exact h.via.mem_pointersAux (by rw [Finset.card_range]; exact Nat.le_succ _)

/-! ## Pointers in graphs -/

/-- A pointer constant of a graph: an argument of an operation or of a link. -/
def Mentioned (p : Program) (g : GraphId) (q : PtrValue) : Prop := q.isNull = false ∧ ∃ b, p.flow.BlockOf g b ∧ ∃ t,
  (∃ op ∈ (p.flow.block b).ops, .const (.ptr q) t ∈ op.args) ∨ ∃ l ∈ (p.flow.block b).exits, .const (.ptr q) t ∈ (p.flow.link l).args

theorem constantPointer_eq_some {o : Operand} : constantPointer o = some q ↔ q.isNull = false ∧ ∃ t, o = .const (.ptr q) t := by
  constructor
  · intro h
    unfold constantPointer at h
    split at h
    · split at h
      · cases h
      · rename_i null
        cases h
        exact ⟨Bool.eq_false_of_not_eq_true null, _, rfl⟩
    · cases h
  · rintro ⟨null, t, rfl⟩
    exact if_neg (Bool.eq_false_iff.1 null)

theorem mem_graphPointers {g : GraphId} : q ∈ graphPointers p g ↔ Mentioned p g q := by
  unfold graphPointers Mentioned
  simp only [List.mem_flatMap, List.mem_append, List.mem_filterMap, FlowStore.mem_blocksOf, constantPointer_eq_some]
  constructor
  · rintro ⟨b, hb, ⟨op, hop, o, ho, null, t, rfl⟩ | ⟨l, hl, o, ho, null, t, rfl⟩⟩
    · exact ⟨null, b, hb, t, .inl ⟨op, hop, ho⟩⟩
    · exact ⟨null, b, hb, t, .inr ⟨l, hl, ho⟩⟩
  · rintro ⟨null, b, hb, t, ⟨op, hop, ho⟩ | ⟨l, hl, ho⟩⟩
    · exact ⟨b, hb, .inl ⟨op, hop, _, ho, null, t, rfl⟩⟩
    · exact ⟨b, hb, .inr ⟨l, hl, _, ho, null, t, rfl⟩⟩

/-! ## What roots lead to -/

/-- The objects at which pointers point, from the roots on.  A pointer into an object leads to all that the outermost object
around it holds. -/
inductive Reached (p : Program) (roots : List PtrValue) : ContainerId → Prop
  | root {q : PtrValue} {c : ContainerId} : q ∈ roots → q.obj = some c → Reached p roots c
  | held {a c : ContainerId} {q : PtrValue} : Reached p roots a → isFunction p a = false → Holds p.low (p.low.top a) q →
      q.obj = some c → Reached p roots c
  | mentioned {a c : ContainerId} {g : GraphId} {q : PtrValue} : Reached p roots a → isFunction p a = true →
      (p.low.get a).graph = some g → Mentioned p g q → q.obj = some c → Reached p roots c

theorem mem_functionPointers : q ∈ functionPointers p c ↔ ∃ g, (p.low.get c).graph = some g ∧ Mentioned p g q := by
  unfold functionPointers
  cases (p.low.get c).graph with
  | none => simp
  | some g => simp [mem_graphPointers]

theorem Reached.mono {more : List PtrValue} (h : Reached p roots c) (sub : roots ⊆ more) : Reached p more c := by
  induction h with
  | root hq hc => exact .root (sub hq) hc
  | held _ object hq hc ih => exact .held ih object hq hc
  | mentioned _ func graph hq hc ih => exact .mentioned ih func graph hq hc

/-- The state of collecting: the nodes are of reached objects, and what they lead to has its node or waits. -/
structure Collects (p : Program) (roots : List PtrValue) (d : Database) : Prop where
  objects : (d.containers.map ContainerNode.obj).Nodup
  functions : (d.funcs.map FuncNode.obj).Nodup
  object : ∀ k ∈ d.containers, ∃ c, Reached p roots c ∧ isFunction p c = false ∧ p.low.top c = k.obj
  function : ∀ k ∈ d.funcs, Reached p roots k.obj ∧ isFunction p k.obj = true
  waits : ∀ q ∈ d.pending, ∀ c, q.obj = some c → Reached p roots c
  root : ∀ q ∈ roots, q ∈ d.pending ∨ ∀ c, q.obj = some c → HasNode p d c
  held : ∀ k ∈ d.containers, ∀ q ∈ pointersOf p.low k.obj, q ∈ d.pending ∨ ∀ c, q.obj = some c → HasNode p d c
  mentioned : ∀ k ∈ d.funcs, ∀ q ∈ functionPointers p k.obj, q ∈ d.pending ∨ ∀ c, q.obj = some c → HasNode p d c

theorem nodup_concat {α : Type} {xs : List α} {f : α → ContainerId} {x : α} (h : (xs.map f).Nodup) (new : ¬ ∃ y ∈ xs, f y = f x) :
    (xs.map f ++ [x].map f).Nodup := by
  refine List.nodup_append'.2 ⟨h, List.nodup_singleton _, fun i hi hi' => new ?_⟩
  rw [List.map_singleton, List.mem_singleton] at hi'
  obtain ⟨y, hy, e⟩ := List.mem_map.1 hi
  exact ⟨y, hy, e.trans hi'⟩

namespace Collects

section

variable (h : Collects p roots d)
include h

theorem of_same (containers : e.containers = d.containers) (funcs : e.funcs = d.funcs) (pending : e.pending = d.pending) : Collects p roots e := by
  cases d
  cases e
  cases containers
  cases funcs
  cases pending
  exact ⟨h.objects, h.functions, h.object, h.function, h.waits, h.root, h.held, h.mentioned⟩

theorem of_evolves (hd : Evolves p d e) : Collects p roots e := h.of_same hd.containers hd.funcs hd.pending

/-- A visit takes the first pointer that waits, and keeps the state of collecting. -/
theorem visit {rest : List PtrValue} (waiting : d.pending = q :: rest) (hv : Visits p (d.popped rest) q none e) : Collects p roots e := by
  have opens := hv.opens rfl
  have adds := hv.adds
  have reached {c : ContainerId} (hc : q.obj = some c) : Reached p roots c := h.waits q (by rw [waiting]; exact List.mem_cons_self) c hc
  -- what waited or had its node still does, now that the pointer has its node
  have still {x : PtrValue} (hx : x ∈ d.pending ∨ ∀ c, x.obj = some c → HasNode p d c) : x ∈ e.pending ∨ ∀ c, x.obj = some c → HasNode p e c := by
    rcases hx with hx | hx
    · rw [waiting] at hx
      rcases List.mem_cons.1 hx with rfl | hx
      · exact .inr fun c hc => opens.hasNode hc
      · exact .inl (adds.pending.subset hx)
    · exact .inr fun c hc => (hx c hc).grown adds.containers adds.funcs
  have before {x : PtrValue} (hx : x ∈ rest) : ∀ c, x.obj = some c → Reached p roots c := h.waits x (by rw [waiting]; exact List.mem_cons_of_mem q hx)
  cases opens with
  | nothing _ same =>
    subst same
    exact ⟨h.objects, h.functions, h.object, h.function, fun x hx => before hx, fun x hx => still (h.root x hx),
      fun k hk x hx => still (h.held k hk x hx), fun k hk x hx => still (h.mentioned k hk x hx)⟩
  | @func k hq func new funcs containers pending =>
    have here : Reached p roots k.obj := reached hq
    refine ⟨?_, ?_, ?_, ?_, ?_, fun x hx => still (h.root x hx), ?_, ?_⟩
    · rw [containers]
      exact h.objects
    · rw [funcs, List.map_append]
      exact nodup_concat h.functions new
    · rw [containers]
      exact h.object
    · intro x hx
      rw [funcs] at hx
      rcases List.mem_append.1 hx with hx | hx
      · exact h.function x hx
      · rw [List.mem_singleton.1 hx]
        exact ⟨here, func⟩
    · intro x hx c hc
      rw [pending] at hx
      rcases List.mem_append.1 hx with hx | hx
      · exact before hx c hc
      · obtain ⟨g, graph, mentioned⟩ := mem_functionPointers.1 hx
        exact .mentioned here func graph mentioned hc
    · rw [containers]
      exact fun k hk x hx => still (h.held k hk x hx)
    · intro x hx y hy
      rw [funcs] at hx
      rcases List.mem_append.1 hx with hx | hx
      · exact still (h.mentioned x hx y hy)
      · rw [List.mem_singleton.1 hx] at hy
        rw [pending]
        exact .inl (List.mem_append_right _ hy)
  | @object c k hq object top new funcs containers pending =>
    have here : Reached p roots c := reached hq
    refine ⟨?_, ?_, ?_, ?_, ?_, fun x hx => still (h.root x hx), ?_, ?_⟩
    · rw [containers, List.map_append]
      exact nodup_concat h.objects new
    · rw [funcs]
      exact h.functions
    · intro x hx
      rw [containers] at hx
      rcases List.mem_append.1 hx with hx | hx
      · exact h.object x hx
      · rw [List.mem_singleton.1 hx]
        exact ⟨c, here, object, top.symm⟩
    · rw [funcs]
      exact h.function
    · intro x hx b hb
      rw [pending] at hx
      rcases List.mem_append.1 hx with hx | hx
      · exact before hx b hb
      · rw [top] at hx
        exact .held here object (mem_pointersOf.1 hx) hb
    · intro x hx y hy
      rw [containers] at hx
      rcases List.mem_append.1 hx with hx | hx
      · exact still (h.held x hx y hy)
      · rw [List.mem_singleton.1 hx] at hy
        rw [pending]
        exact .inl (List.mem_append_right _ hy)
    · rw [funcs]
      exact fun k hk x hx => still (h.mentioned k hk x hx)

theorem completes (hc : Completes p d r e) (success : r = none) : Collects p roots e ∧ e.pending = [] := by
  induction hc with
  | done empty => exact ⟨h.of_same rfl rfl rfl, empty⟩
  | visit waiting hv _ ih => exact ih (h.visit waiting hv) success
  | fails _ _ => cases success

theorem add {waiting : List PtrValue} (only : ∀ x ∈ waiting, x = q) (waits : q ∈ waiting ∨ q.obj = none) :
    Collects p (roots ++ [q]) (d.awaiting waiting) := by
  have more {c : ContainerId} (hc : Reached p roots c) : Reached p (roots ++ [q]) c := hc.mono (List.subset_append_left _ _)
  have still {x : PtrValue} (hx : x ∈ d.pending ∨ ∀ c, x.obj = some c → HasNode p d c) :
      x ∈ d.pending ++ waiting ∨ ∀ c, x.obj = some c → HasNode p d c := hx.imp_left (List.mem_append_left _)
  refine ⟨h.objects, h.functions, fun k hk => ?_, fun k hk => ?_, fun x hx c hc => ?_, fun x hx => ?_,
    fun k hk x hx => still (h.held k hk x hx), fun k hk x hx => still (h.mentioned k hk x hx)⟩
  · obtain ⟨c, hc, object, top⟩ := h.object k hk
    exact ⟨c, more hc, object, top⟩
  · exact ⟨more (h.function k hk).1, (h.function k hk).2⟩
  · rcases List.mem_append.1 hx with hx | hx
    · exact more (h.waits x hx c hc)
    · exact .root (List.mem_append_right _ (List.mem_singleton.2 (only x hx))) hc
  · rcases List.mem_append.1 hx with hx | hx
    · exact still (h.root x hx)
    · rw [List.mem_singleton.1 hx]
      rcases waits with waits | nowhere
      · exact .inl (List.mem_append_right _ waits)
      · exact .inr fun c hc => by cases nowhere.symm.trans hc

/-- A call keeps the state of collecting, unless it is to collect and fails. -/
theorem calls {c : Call} (hc : Calls p d c r e) (success : c = .complete → r = none) : Collects p (roots ++ c.roots) e := by
  cases hc with
  | typeName named => exact (List.append_nil roots).symm ▸ h.of_evolves ((typeName_evolves _ d).of_ok named)
  | typeNameFails named => exact (List.append_nil roots).symm ▸ h.of_evolves ((typeName_evolves _ d).of_error named)
  | @addNull q null =>
    have added : Collects p (roots ++ [q]) (d.awaiting []) := h.add nofun (.inr (Option.isNone_iff_eq_none.1 null))
    exact added.of_same rfl rfl (List.append_nil d.pending).symm
  | @addConstant q _ | @addFunction q =>
    have added : Collects p (roots ++ [q]) (d.awaiting [q]) := h.add (fun x hx => List.mem_singleton.1 hx) (.inl (List.mem_singleton_self q))
    exact added.of_same rfl rfl rfl
  | complete hc => exact (List.append_nil roots).symm ▸ (h.completes hc (success rfl)).1

end

theorem fresh (policy : GcPolicy) (rtti : List (NodeId × Rtti)) : Collects p [] (fresh policy rtti) :=
  ⟨List.nodup_nil, List.nodup_nil, nofun, nofun, nofun, nofun, nofun, nofun⟩

/-- When nothing waits, everything that is reached has its node. -/
theorem hasNode (h : Collects p roots d) (empty : d.pending = []) (hc : Reached p roots c) : HasNode p d c := by
  have nothing (q : PtrValue) : q ∉ d.pending := by
    rw [empty]
    exact List.not_mem_nil
  induction hc with
  | root hq hc => exact (h.root _ hq).resolve_left (nothing _) _ hc
  | @held a c q _ object hq hc ih =>
    rw [HasNode, if_neg (by rw [object]; decide)] at ih
    obtain ⟨k, hk, top⟩ := ih
    exact (h.held k hk q (mem_pointersOf.2 (top ▸ hq))).resolve_left (nothing _) _ hc
  | @mentioned a c g q _ func graph hq hc ih =>
    rw [HasNode, if_pos func] at ih
    obtain ⟨k, hk, rfl⟩ := ih
    exact (h.mentioned k hk q (mem_functionPointers.2 ⟨g, graph, hq⟩)).resolve_left (nothing _) _ hc

end Collects

theorem Run.collects {policy : GcPolicy} {rtti : List (NodeId × Rtti)} {es : List Event} (run : Run p (fresh policy rtti) es d)
    (success : ∀ f, (.complete, some f) ∉ es) : Collects p (rootsOf es) d := by
  induction run with
  | start => exact .fresh policy rtti
  | @call es d _ c ih =>
    rw [rootsOf_concat]
    refine (ih fun f hf => success f (List.mem_append_left _ hf)).calls (perform_calls p d c) fun complete => ?_
    subst complete
    cases r : (perform p d .complete).1 with
    | none => rfl
    | some f => exact absurd (List.mem_append_right es (List.mem_singleton.2 (by rw [r]))) (success f)

/-- The nodes of a database: one for each object and each function, and for nothing else. -/
structure Exact (p : Program) (roots : List PtrValue) (d : Database) : Prop where
  objects : (d.containers.map ContainerNode.obj).Nodup
  mem_objects : ∀ c, c ∈ d.containers.map ContainerNode.obj ↔ ∃ a, Reached p roots a ∧ isFunction p a = false ∧ p.low.top a = c
  functions : (d.funcs.map FuncNode.obj).Nodup
  mem_functions : ∀ c, c ∈ d.funcs.map FuncNode.obj ↔ Reached p roots c ∧ isFunction p c = true

theorem Collects.exact (h : Collects p roots d) (empty : d.pending = []) : Exact p roots d := by
  refine ⟨h.objects, fun c => ⟨fun hc => ?_, ?_⟩, h.functions, fun c => ⟨fun hc => ?_, ?_⟩⟩
  · obtain ⟨k, hk, rfl⟩ := List.mem_map.1 hc
    exact h.object k hk
  · rintro ⟨a, ha, object, rfl⟩
    have node := h.hasNode empty ha
    rw [HasNode, if_neg (by rw [object]; decide)] at node
    exact List.mem_map.2 node
  · obtain ⟨k, hk, rfl⟩ := List.mem_map.1 hc
    exact h.function k hk
  · rintro ⟨hc, func⟩
    have node := h.hasNode empty hc
    rw [HasNode, if_pos func] at node
    exact List.mem_map.2 node

/-- Where types are numbered, the collector knows its types by their numbers. -/
structure Tagged (p : Program) (d : Database) : Prop where
  /-- The definitions of collected structures and arrays, and of weak references, have the number of their type. -/
  number : ∀ n ∈ d.defs, (hasHeader p.low.types n.type || isWeakRef p.low.types n.type) = true → ∃ i ∈ n.gc, d.typeIds.lookup n.type = some i.typeId
  distinct : ∀ a b i, d.typeIds.lookup a = some i → d.typeIds.lookup b = some i → a = b
  header : ∀ k ∈ d.containers, ∀ n, d.known.lookup k.type = some n → p.low.types.isGC (p.low.get k.obj).type = true →
    hasHeader p.low.types n.type = true → ∃ i ∈ n.gc, k.header = [.int (Int64.ofInt i.typeId)]

theorem Furnished.tagged {policy : GcPolicy} (h : Furnished p policy d) (numbers : policy.numbersTypes = true) : Tagged p d := by
  have numbers : d.policy.numbersTypes = true := h.policy ▸ numbers
  refine ⟨fun n hn collected => (h.filled n hn).number numbers collected, fun a b i => h.counted.inj, fun k hk n hn gc header => ?_⟩
  obtain ⟨m, hm, headed⟩ := (h.nodes k hk).definition
  obtain rfl := Option.some.inj (hm.symm.trans hn)
  have filled := h.filled m (h.known _ m hm).1
  obtain ⟨kind, some⟩ := filled.header numbers header
  obtain ⟨i, hi, number⟩ := filled.number numbers (by rw [header]; rfl)
  obtain ⟨j, same, holds⟩ := headed gc kind some numbers
  rw [Option.some.inj (same.symm.trans number)] at holds
  exact ⟨i, hi, holds⟩

/-- **Collecting gives exactly what the roots lead to**, whatever refers to what: one node for each outermost object and one for
each function.  Every object has the definition of its type, and where types are numbered its header holds the number of that. -/
theorem collects_reached {policy : GcPolicy} {rtti : List (NodeId × Rtti)} {es : List Event}
    (run : Run p (fresh policy rtti) (es ++ [(.complete, none)]) d) (success : ∀ f, (.complete, some f) ∉ es) :
    Exact p (rootsOf es) d ∧ (∀ k ∈ d.containers, ∃ n ∈ d.defs, d.known.lookup k.type = some n ∧ n.type = k.type ∧
        k.type = p.low.types.target (p.low.get k.obj).type) ∧
      (policy.numbersTypes = true → Tagged p d) := by
  have furnished := run.furnished
  refine ⟨?_, fun k hk => ?_, furnished.tagged⟩
  · have collects := run.collects fun f hf => (List.mem_append.1 hf).elim (success f) (by simp)
    rw [rootsOf_concat] at collects
    exact (List.append_nil (rootsOf es)) ▸ collects.exact run.nothing_waits
  · obtain ⟨n, hn, -⟩ := (furnished.nodes k hk).definition
    exact ⟨n, (furnished.known _ n hn).1, hn, (furnished.known _ n hn).2, (furnished.nodes k hk).type⟩

/-- Two objects that point to each other, each with a part inside it, and a function whose graph mentions a part. -/
def linked : Program :=
  { low :=
      { types :=
          { nodes := #[.struct "Node" [("next", .ptr 0), ("part", .node 1)] {} true, .struct "Part" [("back", .ptr 0)] {} false, .func [] .void] }
        containers := #[{ type := 0, fields := #[.ptr ⟨0, some 1⟩, .container 2] },
          { type := 0, fields := #[.ptr ⟨0, some 0⟩, .container 3] }, { type := 1, fields := #[.ptr ⟨0, some 0⟩], parent := some 0 },
          { type := 1, fields := #[.ptr (.null 0)], parent := some 1 }, { type := 2, name := "f", graph := some 0 }] }
    flow :=
      { graphs := #[{ name := "f", start := some 1, ret := 1, exc := 1 }]
        blocks := #[{ inputs := [], ops := [⟨"use", [.const (.ptr ⟨1, some 3⟩) none], none⟩] }] } }

theorem collects_reached_linked : ∃ es d, Run linked (fresh (.framework false) []) (es ++ [(.complete, none)]) d ∧ rootsOf es = [⟨2, some 4⟩] ∧
    d.containers.map ContainerNode.obj = [1, 0] ∧ d.funcs.map FuncNode.obj = [4] ∧ Exact linked (rootsOf es) d ∧ Tagged linked d := by
  let calls : List Call := [.addFunction ⟨2, some 4⟩]
  have run := (run_events linked (fresh (.framework false) []) calls).call .complete
  rw [show (perform linked (after linked (fresh (.framework false) []) calls) .complete).1 = none from
    Option.isNone_iff_eq_none.1 (by decide +kernel)] at run
  obtain ⟨exact, -, tagged⟩ := collects_reached run (by
    intro f hf
    rcases List.mem_singleton.1 hf with e
    cases e)
  exact ⟨_, _, run, rfl, by decide +kernel, by decide +kernel, exact, tagged rfl⟩

end FlowCompiler.Database
