import FlowCompiler.Proofs.Union.Methods
import FlowCompiler.Proofs.Union.Order

/-!
# Unions as upper bounds

Two annotations have a union in either order, the two unions are equal, and each annotation is contained in it.
That holds where lists and dictionaries are not merged, and of sets of descriptions in which methods do not stand
before other descriptions.
-/

namespace FlowCompiler

open Nat
namespace Ana

/-! ## Steps that never fail -/

/-- A step that always succeeds. -/
def Total {α : Type} (m : Ana α) : Prop := ∀ k w, ∃ a w', m k w = .ok a w'

namespace Total

variable {α β : Type}

theorem pure (a : α) : Total (Pure.pure a : Ana α) := fun _ w => ⟨a, w, rfl⟩

theorem get : Total (MonadState.get : Ana World) := fun _ w => ⟨w, w, rfl⟩

theorem modifyGet (f : World → α × World) : Total (MonadState.modifyGet f : Ana α) := fun _ w => ⟨(f w).1, (f w).2, rfl⟩

theorem bind {m : Ana α} {f : α → Ana β} (hm : Total m) (hf : ∀ a, Total (f a)) : Total (m >>= f) := by
  intro k w
  obtain ⟨a, w₁, h₁⟩ := hm k w
  obtain ⟨b, w₂, h₂⟩ := hf a k w₁
  exact ⟨b, w₂, (bind_of_ok h₁).trans h₂⟩

theorem ite {c : Prop} [Decidable c] {m m' : Ana α} (h : Total m) (h' : Total m') : Total (if c then m else m') := by
  split
  · exact h
  · exact h'

theorem mapM {xs : List α} {f : α → Ana β} (h : ∀ x ∈ xs, Total (f x)) : Total (xs.mapM f) := by
  induction xs with
  | nil => exact pure _
  | cons x xs ih =>
    rw [List.mapM_cons]
    exact bind (h x (by simp)) fun _ => bind (ih fun y hy => h y (by simp [hy])) fun _ => pure _

theorem valueOfDesc (d : DescId) : Total (Ana.valueOfDesc d) := by
  refine bind get fun w => ?_
  split
  · exact pure _
  · exact pure _
  · exact pure _
  · exact pure _
  · split
    · exact bind (modifyGet _) fun _ => pure _
    · exact pure _

theorem constOf (a : Annot) : Total (Ana.constOf a) := by
  unfold Ana.constOf
  split
  all_goals first | exact valueOfDesc _ | exact pure _

theorem methodDesc (m : MethodDesc) : Total (Ana.methodDesc m) := by
  refine bind get fun w => ?_
  split
  · exact pure _
  · exact bind (modifyGet _) fun _ => bind (modifyGet _) fun _ => bind (modifyGet _) fun _ => pure _

theorem newPbc (ds : List DescId) (b : Bool) : Total (Ana.newPbc ds b) := by
  have simplify (ds : List DescId) : Total (simplifyMethods ds) := by
    exact bind get fun w => ite (pure _) (bind (mapM fun m _ => methodDesc m) fun _ => bind get fun _ => pure _)
  unfold Ana.newPbc
  dsimp only
  split
  · refine bind get fun w => ?_
    split
    · exact bind (simplify _) fun _ => pure _
    · exact pure _
  · exact pure _

theorem newTuple (xs : List Annot) : Total (Ana.newTuple xs) := by
  refine bind (modifyGet _) fun t => ite ?_ (pure _)
  exact bind (mapM fun a _ => constOf a) fun _ => bind (modifyGet _) fun _ => pure _

end Total
end Ana

variable {xs : List Annot} {τ : Nat → Annot}

namespace Annot

open Ana

variable {S : Scope} {w w' : World} {a b : Annot}

/-! ## Unions that succeed -/

mutual

/-- How deep annotations are nested. -/
def depth : Annot → Nat
  | tuple _ _ xs => depths xs + 1
  | iter c _ => c.depth + 1
  | method _ s => s.depth + 1
  | _ => 0

def depths : List Annot → Nat
  | [] => 0
  | a :: r => max a.depth (depths r)

end

theorem depth_le_depths {x : Annot} (h : x ∈ xs) : x.depth ≤ depths xs := by
  induction xs with
  | nil => cases h
  | cons y ys ih =>
    rcases List.mem_cons.1 h with rfl | h
    · exact le_max_left ..
    · exact le_trans (ih h) (le_max_right ..)

theorem plain_mem_plains {x : Annot} (h : x ∈ xs) : x.plain ∈ plains xs := by
  induction xs with
  | nil => cases h
  | cons y ys ih =>
    rcases List.mem_cons.1 h with rfl | h
    · exact List.mem_cons_self
    · exact List.mem_cons_of_mem _ (ih h)

/-- **Annotations that are not nested too deeply have a union**, where there are no lists and dictionaries. -/
theorem unionAux_total (hS : ¬ S.containers) {fuel : Nat} (effects : Bool) (fa : Fits S a.plain) (fb : Fits S b.plain)
    (hd : a.depth < fuel ∨ b.depth < fuel) : Total (unionAux fuel effects a b) := by
  induction fuel generalizing effects a b with
  | zero => omega
  | succ n ih =>
    unfold unionAux
    split
    · exact .pure _
    · exact .pure _
    · cases fa
      exact .bind (.bind (.pure _) fun _ => .pure _) fun _ => .pure _
    · rename_i t o xs t' o' ys
      refine .ite (.pure _) (.ite (.pure _) (.bind (.mapM fun x hx => ?_) fun _ => .newTuple _))
      obtain ⟨hx₁, hx₂⟩ := List.of_mem_zip hx
      refine ih effects (fits_of_tuple fa _ (plain_mem_plains hx₁)) (fits_of_tuple fb _ (plain_mem_plains hx₂)) ?_
      exact hd.imp (fun h => lt_of_le_of_lt (depth_le_depths hx₁) (lt_of_succ_lt_succ h))
        fun h => lt_of_le_of_lt (depth_le_depths hx₂) (lt_of_succ_lt_succ h)
    · cases fa
      exact absurd ‹_› hS
    · cases fa
      exact absurd ‹_› hS
    · exact .newPbc _ _
    · refine .ite (.pure _) (.bind (ih effects (fits_of_iter fa) (fits_of_iter fb) ?_) fun _ => .pure _)
      exact hd.imp lt_of_succ_lt_succ lt_of_succ_lt_succ
    · refine .ite (.pure _) (.bind (ih effects (fits_of_method fa) (fits_of_method fb) ?_) fun _ => .pure _)
      exact hd.imp lt_of_succ_lt_succ lt_of_succ_lt_succ
    · exact .bind .get fun _ => .pure _

/-! ## Upper bounds -/

/-- Two annotations have a union in either order, the unions are equal, and both are contained in it. -/
def Bounded (k : Knot) (w : World) (a b : Annot) : Prop :=
  ∃ r w₁ s w₂, union a b k w = .ok r w₁ ∧ union b a k w = .ok s w₂ ∧ (∀ u : World, u.equal r s = true) ∧
    (∃ v, contains r a k w₁ = .ok true v) ∧ ∃ v, contains r b k w₁ = .ok true v

/-- What a union changes nothing of contains the other annotation. -/
theorem contains_of_union {k : Knot} {r u : Annot} {v : World} (h : unionAux World.annotDepth false r a k w = .ok u v)
    (he : v.equal u r = true) : ∃ v, contains r a k w = .ok true v := by
  have go : contains.go r a k w = .ok true v := by
    refine tryCatch_of_ok ?_
    rw [bind_of_ok h]
    exact congrArg (EStateM.Result.ok · v) he
  unfold contains
  split
  · exact ⟨w, rfl⟩
  · split
    · split
      · exact ⟨w, rfl⟩
      · exact ⟨v, go⟩
    · exact ⟨v, go⟩

theorem join_absorb_left (hS : ¬ S.containers) (ha : Fits S a) (hb : Fits S b) : join S.world (join S.world a b) a = join S.world a b := by
  rw [join_comm hS (ha.join hb) ha, ← join_assoc ha ha hb, join_self ha]

theorem join_absorb_right (ha : Fits S a) (hb : Fits S b) : join S.world (join S.world a b) b = join S.world a b := by
  rw [join_assoc ha hb hb, join_self hb]

/-- A union contains an annotation that it takes in. -/
theorem contains_of_absorb (hS : ¬ S.containers) {k : Knot} {r : Annot} (hw : S.world.Later w) (hr : Known S τ w r) (ha : Known S τ w a)
    (hd : a.depth < World.annotDepth) (h : join S.world r.plain a.plain = r.plain) : ∃ v, contains r a k w = .ok true v := by
  obtain ⟨u, v, hu⟩ := unionAux_total hS false hr.fits ha.fits (.inr hd) k w
  have given := unionAux_spec World.annotDepth false r a τ k w u v hw hr.fits ha.fits hr.tagged ha.tagged hu
  exact contains_of_union hu (equal_of_plain hr.fits (given.plain.trans h) rfl)

/-- **Annotations that fit together have a union above both.** -/
theorem bounded_of_fits (hS : ¬ S.containers) (k : Knot) (ha : Known S τ S.world a) (hb : Known S τ S.world b)
    (da : a.depth < World.annotDepth) (db : b.depth < World.annotDepth) : Bounded k S.world a b := by
  obtain ⟨r, w₁, h₁⟩ := unionAux_total hS true ha.fits hb.fits (.inl da) k S.world
  obtain ⟨s, w₂, h₂⟩ := unionAux_total hS true hb.fits ha.fits (.inl db) k S.world
  obtain ⟨l₁, p₁, τ₁, t₁, hr⟩ := union_step (.refl _) ha hb h₁
  obtain ⟨-, p₂, -⟩ := union_step (.refl _) hb ha h₂
  refine ⟨r, w₁, s, w₂, h₁, h₂, fun u => ?_, ?_, ?_⟩
  · exact equal_of_plain (ha.fits.join hb.fits) p₁ (p₂.trans (join_comm hS hb.fits ha.fits))
  · refine contains_of_absorb hS l₁ hr (ha.later t₁ l₁) da ?_
    rw [p₁, join_absorb_left hS ha.fits hb.fits]
  · refine contains_of_absorb hS l₁ hr (hb.later t₁ l₁) db ?_
    rw [p₁, join_absorb_right ha.fits hb.fits]

/-- **Sets of descriptions have a union above both**, where methods do not stand before other descriptions. -/
theorem bounded_of_pbc (hw : w.MethodsIndexed) (ho : w.Ordered) {ds es : List DescId} (h : Regular w (ds ++ es)) (m m' : Bool) (k : Knot) :
    Bounded k w (pbc ds m) (pbc es m') := by
  have hswap : newPbc (es ++ ds) (m' || m) k w = newPbc (ds ++ es) (m || m') k w := by
    have hsort : sortDescs (es ++ ds) = sortDescs (ds ++ es) := sortDescs_congr fun d => by simp [or_comm]
    rw [newPbc, newPbc, hsort, Bool.or_comm]
  obtain ⟨rs, w₁, h₁, absorb⟩ := newPbc_absorb hw ho h (m || m') k
  have hself (u : World) : u.equal (pbc rs (m || m')) (pbc rs (m || m')) = true := by simp [World.equal]
  refine ⟨pbc rs (m || m'), w₁, pbc rs (m || m'), w₁, h₁, hswap.trans h₁, hself, ?_, ?_⟩
  · obtain ⟨w₂, h₂⟩ := absorb ds (List.subset_append_left ..) (m || m' || m)
    refine contains_of_union h₂ ?_
    rw [Bool.or_comm m m', Bool.or_assoc, Bool.or_self]
    simp [World.equal]
  · obtain ⟨w₂, h₂⟩ := absorb es (List.subset_append_right ..) (m || m' || m')
    refine contains_of_union h₂ ?_
    rw [Bool.or_assoc, Bool.or_self]
    simp [World.equal]

/-- **Unions are upper bounds.**  Two annotations that fit together, and two sets of descriptions of which the first
one is not that of a method or all are, have a union in either order; the two are equal in every state, and both
annotations are contained in them. -/
theorem union_bounded (S : Scope) (hS : ¬ S.containers) (τ : Nat → Annot) (k : Knot) :
    (∀ a b, Known S τ S.world a → Known S τ S.world b → a.depth < World.annotDepth → b.depth < World.annotDepth → Bounded k S.world a b) ∧
    (S.world.MethodsIndexed → ∀ ds es m m', Regular S.world (ds ++ es) → Bounded k S.world (pbc ds m) (pbc es m')) := by
  constructor
  · intro a b ha hb da db
    exact bounded_of_fits hS k ha hb da db
  · intro hw ds es m m' h
    exact bounded_of_pbc hw S.ordered h m m' k

/-- Instances of two subclasses are instances of their base, and the method of one subclass is joined with those of the
other one and of the base. -/
theorem union_bounded_siblings : Bounded idle amongMethods (instOf 2) (instOf 3) ∧ Bounded idle amongMethods (pbc [1] false) (pbc [3, 4] false) := by
  have known (c : ClassDefId) : Known methodScope (fun _ => object) amongMethods (instOf c) := ⟨.inst (some c) false .nil, trivial⟩
  obtain ⟨fitting, sets⟩ := union_bounded methodScope id (fun _ => object) idle
  refine ⟨fitting _ _ (known 2) (known 3) (by decide) (by decide), sets methodsIndexed_amongMethods [1] [3, 4] false false (.inl ?_)⟩
  have bound (c : ClassDefId) : (boundTo c).flags.Pairwise (· < ·) := .nil
  intro d hd
  simp only [List.mem_append, List.mem_cons, List.not_mem_nil, or_false] at hd
  rcases hd with rfl | rfl | rfl
  · exact ⟨by decide, boundTo 2, rfl, bound 2⟩
  · exact ⟨by decide, boundTo 3, rfl, bound 3⟩
  · exact ⟨by decide, boundTo 1, rfl, bound 1⟩

/-- **A function between methods:** the set of all four is simplified since a method comes first, and the function comes
first in what is left, which therefore does not contain the methods that were dropped. -/
theorem union_not_contains : union (pbc [2, 3, 4] false) (pbc [1] false) idle amongMethods = .ok (pbc [2, 4] false) amongMethods ∧
    contains (pbc [2, 4] false) (pbc [2, 3, 4] false) idle amongMethods = .ok false amongMethods := by
  have sorted {ds es : List DescId} (h : ds ⊆ es ∧ es ⊆ ds) (hs : es.Pairwise (· < ·)) : sortDescs ds = es :=
    (sortDescs_congr fun _ => ⟨(h.1 ·), (h.2 ·)⟩).trans (sortDescs_eq hs)
  obtain ⟨h₂, h₃, h₁⟩ := index_amongMethods
  constructor
  · have hall : sortDescs ([2, 3, 4] ++ [1]) = [1, 2, 3, 4] := sorted (by decide) (by decide)
    have hids : Described amongMethods (levelled (methodsOf amongMethods [1, 2, 3, 4])) [1, 3, 4] := .cons h₂ (.cons h₃ (.cons h₁ .nil))
    have hkept : sortDescs ([2] ++ keptIds amongMethods (levelled (methodsOf amongMethods [1, 2, 3, 4])) [1, 3, 4]) = [2, 4] :=
      sorted (by decide) (by decide)
    change newPbc ([2, 3, 4] ++ [1]) false idle amongMethods = _
    rw [newPbc_of_pair false hall]
    change (simplifyMethods [1, 2, 3, 4] >>= fun ds => pure (pbc (sortDescs ds) false) : Ana Annot) idle amongMethods = _
    rw [bind_of_ok (simplifyMethods_eq (by decide) (mapM_methodDesc_of_described hids idle))]
    exact congrArg (fun ds => EStateM.Result.ok (pbc ds false) amongMethods) hkept
  · have hall : sortDescs ([2, 4] ++ [2, 3, 4]) = [2, 3, 4] := sorted (by decide) (by decide)
    have hu : unionAux World.annotDepth false (pbc [2, 4] false) (pbc [2, 3, 4] false) idle amongMethods =
        .ok (pbc [2, 3, 4] false) amongMethods := by
      change newPbc ([2, 4] ++ [2, 3, 4]) false idle amongMethods = _
      rw [newPbc_of_pair false hall]
      rfl
    refine tryCatch_of_ok ?_
    rw [bind_of_ok hu]
    rfl

end Annot
end FlowCompiler

/-! ## Levels of a union

A union counts the levels that it goes down, and fails when they run out.  A computation *finishes* when it gives the same with
any number of levels that is large enough, and that is not this failure: what it gives then does not depend on the counting.

A union without effects always finishes, because the annotations of facts get smaller on the way down. -/

namespace FlowCompiler.Ana

variable {α β : Type} {k : Knot} {w v : World} {m : Ana α} {f : Nat → Ana α} {r : EStateM.Result Failure World α}

/-! ### Computations with levels -/

/-- What a computation gives with any number of levels that is large enough. -/
def Returns (f : Nat → Ana α) (k : Knot) (w : World) (r : EStateM.Result Failure World α) : Prop := ∃ N, ∀ n, N ≤ n → f n k w = r

variable {g : Failure → Ana α} {e : Failure}

namespace Returns

theorem const (h : m k w = r) : Returns (fun _ => m) k w r := ⟨0, fun _ _ => h⟩

theorem succ (h : Returns (fun n => f (n + 1)) k w r) : Returns f k w r := by
  obtain ⟨N, h⟩ := h
  refine ⟨N + 1, fun n hn => ?_⟩
  obtain ⟨n, rfl⟩ := Nat.exists_eq_succ_of_ne_zero (Nat.ne_of_gt (Nat.lt_of_lt_of_le (Nat.succ_pos N) hn))
  exact h n (Nat.le_of_succ_le_succ hn)

theorem bind {g : Nat → α → Ana β} {a : α} {r : EStateM.Result Failure World β} (h : Returns f k w (.ok a v))
    (hg : Returns (fun n => g n a) k v r) : Returns (fun n => f n >>= g n) k w r := by
  obtain ⟨N, h⟩ := h
  obtain ⟨M, hg⟩ := hg
  refine ⟨max N M, fun n hn => ?_⟩
  exact (bind_of_ok (h n (le_trans (le_max_left N M) hn))).trans (hg n (le_trans (le_max_right N M) hn))

theorem bind_error {g : Nat → α → Ana β} (h : Returns f k w (.error e v)) : Returns (fun n => f n >>= g n) k w (.error e v) := by
  obtain ⟨N, h⟩ := h
  exact ⟨N, fun n hn => bind_of_error (h n hn)⟩

theorem tryCatch {r : EStateM.Result Failure World α} (h : Returns f k w (.error e v))
    (hg : g e k v = r) : Returns (fun n => MonadExcept.tryCatch (f n) g) k w r := by
  obtain ⟨N, h⟩ := h
  exact ⟨N, fun n hn => (tryCatch_of_error (h n hn)).trans hg⟩

end Returns

/-- A computation that gives something with enough levels, in whatever state it starts. -/
def Settles (f : Nat → Ana α) : Prop := ∀ k w, ∃ r, Returns f k w r

namespace Settles

theorem const (m : Ana α) : Settles fun _ => m := fun _ _ => ⟨_, .const rfl⟩

theorem succ (h : Settles fun n => f (n + 1)) : Settles f := fun k w => (h k w).imp fun _ => .succ

theorem bind {g : Nat → α → Ana β} (hf : Settles f) (hg : ∀ a, Settles fun n => g n a) : Settles fun n => f n >>= g n := by
  intro k w
  obtain ⟨a | ⟨e, v⟩, h⟩ := hf k w
  · rename_i v
    obtain ⟨r, hr⟩ := hg a k v
    exact ⟨r, h.bind hr⟩
  · exact ⟨_, h.bind_error⟩

theorem ite {c : Prop} [Decidable c] {g : Nat → Ana α} (hf : c → Settles f) (hg : ¬ c → Settles g) : Settles fun n => if c then f n else g n := by
  by_cases h : c
  · simpa only [if_pos h] using hf h
  · simpa only [if_neg h] using hg h

theorem tryCatch (hf : Settles f) : Settles fun n => MonadExcept.tryCatch (f n) g := by
  intro k w
  obtain ⟨a | ⟨e, v⟩, N, h⟩ := hf k w
  · exact ⟨_, N, fun n hn => tryCatch_of_ok (h n hn)⟩
  · exact ⟨_, .tryCatch ⟨N, h⟩ rfl⟩

theorem mapM {xs : List β} {f : Nat → β → Ana α} (h : ∀ x ∈ xs, Settles fun n => f n x) : Settles fun n => xs.mapM (f n) := by
  induction xs with
  | nil => exact const _
  | cons x xs ih =>
    simp only [List.mapM_cons]
    exact bind (h x List.mem_cons_self) fun _ => bind (ih fun y hy => h y (List.mem_cons_of_mem _ hy)) fun _ => const _

end Settles

/-- A computation that gives something with enough levels, and does not run out of them. -/
def Finishes (f : Nat → Ana α) (k : Knot) (w : World) : Prop := ∃ r, Returns f k w r ∧ ∀ v, r ≠ .error tooDeep v

namespace Finishes

theorem succ (h : Finishes (fun n => f (n + 1)) k w) : Finishes f k w := h.imp fun _ h => ⟨h.1.succ, h.2⟩

theorem const (h : ∀ v, m k w ≠ .error tooDeep v) : Finishes (fun _ => m) k w := ⟨_, .const rfl, h⟩

theorem of_total (h : Total m) : Finishes (fun _ => m) k w := by
  obtain ⟨a, v, e⟩ := h k w
  exact const fun _ deep => by cases e.symm.trans deep

theorem pure (a : α) : Finishes (fun _ => Pure.pure a) k w := of_total (.pure a)

theorem of_settles (h : Settles f) (total : ∀ n, Total (f n)) : Finishes f k w := by
  obtain ⟨r, h⟩ := h k w
  refine ⟨r, h, fun v hr => ?_⟩
  obtain ⟨N, h⟩ := h
  obtain ⟨a, v', ha⟩ := total N k w
  rw [h N (le_refl N), hr] at ha
  cases ha

theorem bind {g : Nat → α → Ana β} (hf : Finishes f k w) (hg : ∀ a v, Returns f k w (.ok a v) → Finishes (fun n => g n a) k v) :
    Finishes (fun n => f n >>= g n) k w := by
  obtain ⟨a | ⟨e, v⟩, h, deep⟩ := hf
  · rename_i v
    obtain ⟨r, hr, hd⟩ := hg a v h
    exact ⟨r, h.bind hr, hd⟩
  · exact ⟨.error e v, h.bind_error, fun u hu => deep u (by cases hu; rfl)⟩

theorem get {g : Nat → World → Ana α} (h : Finishes (fun n => g n w) k w) : Finishes (fun n => MonadState.get >>= g n) k w := h

theorem ite {c : Prop} [Decidable c] {g : Nat → Ana α} (hf : c → Finishes f k w) (hg : ¬ c → Finishes g k w) :
    Finishes (fun n => if c then f n else g n) k w := by
  by_cases h : c
  · simpa only [if_pos h] using hf h
  · simpa only [if_neg h] using hg h

end Finishes

/-! ### Unions without effects -/

theorem mergeFacts_settles {u : Nat → Annot → Annot → Ana Annot} {fs gs : List (Fact Annot)}
    (h : ∀ x ∈ fs, ∀ b, Settles fun n => u n x.value b) : Settles fun n => mergeFacts (u n) fs gs := by
  refine .bind (.mapM fun x hx => ?_) fun _ => .const _
  cases Annot.findFact? gs x.outcome x.var with
  | none => exact .const _
  | some b => exact .tryCatch (.bind (h x hx b) fun _ => .const _)

theorem Total.mergeFacts (u : Annot → Annot → Ana Annot) (fs gs : List (Fact Annot)) : Total (Ana.mergeFacts u fs gs) := by
  have caught (m : Ana (Option (Fact Annot))) : Total (MonadExcept.tryCatch m fun _ => Pure.pure none) := by
    intro k w
    change ∃ a w', EStateM.tryCatch (m k) (fun _ => EStateM.pure none) w = .ok a w'
    unfold EStateM.tryCatch
    cases m k w with
    | ok a v => exact ⟨a, v, rfl⟩
    | error e v => exact ⟨none, v, rfl⟩
  refine .bind (.mapM fun x _ => ?_) fun _ => .pure _
  split
  · exact caught _
  · exact .pure _

theorem meet_cases {P : Annot → Annot → Prop} (bool : ∀ c fs c' gs, P (.bool c fs) (.bool c' gs))
    (tuple : ∀ t c xs t' c' ys, P (.tuple t c xs) (.tuple t' c' ys)) (list : ∀ d e, P (.list d) (.list e)) (dict : ∀ d e, P (.dict d) (.dict e))
    (iter : ∀ a x b y, P (.iter a x) (.iter b y)) (method : ∀ x a y b, P (.method x a) (.method y b))
    (flat : ∀ a b (m : Ana Annot), Total m → (∀ n effects, unionAux (n + 1) effects a b = m) → P a b) (a b : Annot) : P a b := by
  obtain ⟨n, hn⟩ : ∃ n : Nat, n ≠ 0 := ⟨1, one_ne_zero⟩
  fun_cases unionAux n true a b
  case case1 => exact absurd rfl hn
  case case2 => exact flat _ _ _ (.pure b) fun _ _ => by rw [unionAux]
  case case3 ha => exact flat _ _ _ (.pure a) fun _ _ => by rw [unionAux]; exact ha
  case case4 => exact bool ..
  case case5 | case6 | case7 => exact tuple ..
  case case8 => exact list ..
  case case9 => exact dict ..
  case case10 ds m es m' => exact flat _ _ _ (.newPbc (ds ++ es) (m || m')) fun _ _ => by rw [unionAux]
  case case11 | case12 => exact iter ..
  case case13 | case14 => exact method ..
  case case15 =>
    exact flat _ _ _ (.bind .get fun w => .pure ((simpleUnion? w a b).getD .object)) fun _ _ => by rw [unionAux] <;> assumption

theorem sizeOf_fact {x : Fact Annot} {fs : List (Fact Annot)} (c : Option Bool) (hx : x ∈ fs) : sizeOf x.value < sizeOf (Annot.bool c fs) := by
  have := List.sizeOf_lt_of_mem hx
  cases x
  simp only [Annot.bool.sizeOf_spec, Fact.mk.sizeOf_spec] at this ⊢
  omega

theorem sizeOf_item {x : Annot} {xs : List Annot} (t : Nat) (c : Option ObjId) (hx : x ∈ xs) : sizeOf x < sizeOf (Annot.tuple t c xs) := by
  have := List.sizeOf_lt_of_mem hx
  rw [Annot.tuple.sizeOf_spec]
  omega

/-- **A union without effects gives something**, however its arguments are nested. -/
theorem unionAux_settles (a b : Annot) : Settles fun n => unionAux n false a b := by
  induction h : sizeOf a using Nat.strong_induction_on generalizing a b with | _ s ih => ?_
  subst h
  refine .succ ?_
  cases a, b using meet_cases with
  | bool c fs c' gs =>
    simp only [unionAux]
    exact .bind (mergeFacts_settles fun x hx b => ih _ (sizeOf_fact c hx) _ _ rfl) fun _ => .const _
  | tuple t c xs t' c' ys =>
    simp only [unionAux]
    refine .ite (fun _ => .const _) fun _ => .ite (fun _ => .const _) fun _ => .bind (.mapM fun x hx => ?_) fun _ => .const _
    exact ih _ (sizeOf_item t c (List.of_mem_zip hx).1) _ _ rfl
  | list d e =>
    simp only [unionAux]
    exact .bind (.const _) fun w => .ite (fun _ => .const _) fun _ => .ite (fun _ => .const _) fun h => absurd rfl h
  | dict d e =>
    simp only [unionAux]
    exact .bind (.const _) fun w => .ite (fun _ => .const _) fun _ => .ite (fun _ => .const _) fun h => absurd rfl h
  | iter a x b y =>
    simp only [unionAux]
    refine .ite (fun _ => .const _) fun _ => .bind (ih _ ?_ _ _ rfl) fun _ => .const _
    rw [Annot.iter.sizeOf_spec]
    omega
  | method x a y b =>
    simp only [unionAux]
    refine .ite (fun _ => .const _) fun _ => .bind (ih _ ?_ _ _ rfl) fun _ => .const _
    rw [Annot.method.sizeOf_spec]
    omega
  | flat a b m _ h =>
    simp only [h]
    exact .const _

end FlowCompiler.Ana
