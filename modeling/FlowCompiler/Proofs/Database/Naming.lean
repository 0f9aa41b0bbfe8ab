import Mathlib.Data.List.Infix
import Mathlib.Data.List.Nodup
import FlowCompiler.LowLevel.Database
import FlowCompiler.Proofs.Lookup

/-!
# When names with numbers are distinct

A supply numbers the repetitions of a name, but it knows nothing of a name that looks like a numbered one.  So the names
that it gives are distinct exactly when nobody asks for the numbered form of another name that has been given
(`NameSupply.Apart`), which `nodup_serve` says of every sequence of requests.
-/

namespace FlowCompiler.NameSupply

open List Nat

variable {s t : NameSupply} {b c x : String} {k l : Nat}

/-! ## Numbered forms -/

theorem toList_numbered (h : 0 < k) : (numbered b k).toList = b.toList ++ '_' :: (Nat.toDigits 10 k) := by
  rw [numbered, if_neg (ne_of_gt h)]
  change (b ++ "_" ++ toString k).toList = _
  simp

/-- What stands before the first of two equal marks is the same when it holds no mark itself. -/
theorem append_mark_inj {u v y z : List Char} {m : Char} (hu : m ∉ u) (hv : m ∉ v) (h : u ++ m :: y = v ++ m :: z) : u = v ∧ y = z := by
  have before {w r : List Char} (hw : m ∉ w) : (w ++ m :: r).takeWhile (· ≠ m) = w := by
    rw [takeWhile_append_of_pos fun a ha => by simpa using fun e : a = m => hw (e ▸ ha)]
    simp
  have e : u = v := by rw [← before (r := y) hu, h, before hv]
  subst e
  exact ⟨rfl, by simpa using h⟩

/-- A numbered form tells the name and the number. -/
theorem numbered_inj (hk : 0 < k) (hl : 0 < l) (h : numbered b k = numbered c l) : b = c ∧ k = l := by
  have clean (n : Nat) : '_' ∉ (Nat.toDigits 10 n).reverse := by
    rw [mem_reverse]
    exact underscore_not_in_toDigits
  have e := congrArg (List.reverse ∘ String.toList) h
  simp only [Function.comp_apply, toList_numbered hk, toList_numbered hl, reverse_append, reverse_cons, append_assoc, singleton_append] at e
  obtain ⟨digits, rest⟩ := append_mark_inj (clean k) (clean l) e
  refine ⟨String.toList_inj.1 (reverse_inj.1 rest), ?_⟩
  rw [← ofDigitChars_ten_toDigits (n := k), reverse_inj.1 digits, ofDigitChars_ten_toDigits]

theorem numbered_ne (h : 0 < k) : numbered b k ≠ b := by
  intro e
  have e := congrArg (List.length ∘ String.toList) e
  simp only [Function.comp_apply, toList_numbered h, length_append, length_cons] at e
  omega

/-! ## Requests -/

theorem count_fresh (s : NameSupply) (b c : String) : (s.fresh b).2.count c = if c = b then s.count b + 1 else s.count c := by
  rw [fresh, count, Entries.lookup_cons]
  by_cases h : c = b
  · simp [h]
  · rw [if_neg (by simpa using h), if_neg h, Entries.lookup_filter_ne, if_neg h, count]

/-- A name that a supply has given. -/
def Gave (s : NameSupply) (x : String) : Prop := ∃ b k, k < s.count b ∧ x = numbered b k

/-- Nobody has asked for the numbered form of a name that was given in that form. -/
def Apart (s : NameSupply) : Prop := ∀ b c k, 0 < k → k < s.count b → 0 < s.count c → c ≠ numbered b k

/-- A later supply: more may have been asked for. -/
def Later (s t : NameSupply) : Prop := ∀ b, s.count b ≤ t.count b

namespace Later

theorem refl (s : NameSupply) : s.Later s := fun _ => le_refl _

theorem trans {u : NameSupply} (h : s.Later t) (h' : t.Later u) : s.Later u := fun b => le_trans (h b) (h' b)

theorem fresh (s : NameSupply) (b : String) : s.Later (s.fresh b).2 := by
  intro c
  rw [count_fresh]
  split
  · rename_i e
    exact e ▸ le_succ _
  · exact le_refl _

theorem gave (h : s.Later t) (hx : s.Gave x) : t.Gave x := by
  obtain ⟨b, k, hk, e⟩ := hx
  exact ⟨b, k, lt_of_lt_of_le hk (h b), e⟩

theorem apart (h : s.Later t) (ht : t.Apart) : s.Apart := fun b c k hk hb hc => ht b c k hk (lt_of_lt_of_le hb (h b)) (lt_of_lt_of_le hc (h c))

end Later

/-- Where names are apart, each has been given once. -/
theorem Apart.inj (h : s.Apart) (hk : k < s.count b) (hl : l < s.count c) (e : numbered b k = numbered c l) : b = c ∧ k = l := by
  rcases Nat.eq_zero_or_pos k with rfl | pk
  · rcases Nat.eq_zero_or_pos l with rfl | pl
    · exact ⟨e, rfl⟩
    · exact absurd e (h c b l pl hl hk)
  · rcases Nat.eq_zero_or_pos l with rfl | pl
    · exact absurd e.symm (h b c k pk hk hl)
    · exact numbered_inj pk pl e

theorem gave_fresh (s : NameSupply) (b : String) : (s.fresh b).2.Gave (s.fresh b).1 := by
  refine ⟨b, s.count b, ?_, rfl⟩
  rw [count_fresh, if_pos rfl]
  exact lt_succ_self _

/-- **A name is new** where names are apart. -/
theorem not_gave_fresh (h : (s.fresh b).2.Apart) : ¬ s.Gave (s.fresh b).1 := by
  rintro ⟨c, k, hk, e⟩
  have hb : s.count b < (s.fresh b).2.count b := by
    rw [count_fresh, if_pos rfl]
    exact lt_succ_self _
  obtain ⟨rfl, rfl⟩ := h.inj hb (lt_of_lt_of_le hk (Later.fresh s b c)) e
  exact lt_irrefl _ hk

/-! ## Sequences of requests -/

/-- The names that a sequence of requests gets, each by the name that it asks for and a number. -/
def served (s : NameSupply) : List String → List (String × Nat)
  | [] => []
  | b :: bs => (b, s.count b) :: (s.fresh b).2.served bs

/-- The supply after a sequence of requests. -/
def serve (s : NameSupply) (bs : List String) : NameSupply := bs.foldl (fun s b => (s.fresh b).2) s

/-- The names that a sequence of requests gets. -/
def answers (s : NameSupply) (bs : List String) : List String := (s.served bs).map fun p => numbered p.1 p.2

theorem later_serve (s : NameSupply) (bs : List String) : s.Later (s.serve bs) := by
  induction bs generalizing s with
  | nil => exact .refl s
  | cons c bs ih => exact (Later.fresh s c).trans (ih _)

theorem mem_served {bs : List String} : (b, k) ∈ s.served bs ↔ s.count b ≤ k ∧ k < (s.serve bs).count b := by
  induction bs generalizing s with
  | nil =>
    simp only [served, serve, foldl_nil, not_mem_nil, false_iff]
    omega
  | cons c bs ih =>
    have later := later_serve (s.fresh c).2 bs b
    change (b, k) ∈ (c, s.count c) :: (s.fresh c).2.served bs ↔ s.count b ≤ k ∧ k < ((s.fresh c).2.serve bs).count b
    rw [mem_cons, ih, Prod.mk.injEq]
    rw [count_fresh] at later ⊢
    by_cases e : b = c
    · subst e
      rw [if_pos rfl] at later ⊢
      simp only [true_and]
      omega
    · simp [e]

theorem nodup_served (s : NameSupply) (bs : List String) : (s.served bs).Nodup := by
  induction bs generalizing s with
  | nil => exact .nil
  | cons c bs ih =>
    refine nodup_cons.2 ⟨fun h => ?_, ih _⟩
    have h := (mem_served.1 h).1
    rw [count_fresh, if_pos rfl] at h
    exact absurd h (not_succ_le_self _)

/-- **The names of a sequence of requests are distinct exactly when they are apart**: none of them asks for the numbered
form of another that was given in that form. -/
theorem nodup_answers (bs : List String) : (answers {} bs).Nodup ↔ (serve {} bs).Apart := by
  have given (b : String) (k : Nat) : (b, k) ∈ served {} bs ↔ k < (serve {} bs).count b := by
    rw [mem_served]
    exact and_iff_right (zero_le k)
  rw [answers, nodup_map_iff_inj_on (nodup_served {} bs)]
  constructor
  · intro inj b c k hk hb hc e
    have same := inj (c, 0) ((given c 0).2 hc) (b, k) ((given b k).2 hb) e
    cases same
    exact absurd hk (lt_irrefl 0)
  · rintro apart ⟨b, k⟩ hb ⟨c, l⟩ hc e
    obtain ⟨rfl, rfl⟩ := apart.inj ((given b k).1 hb) ((given c l).1 hc) e
    rfl

end FlowCompiler.NameSupply

/-!
## What naming a type makes of a database

Types ask for definitions and definitions for the types of their parts, and each of them may fail halfway.  `Evolves` says
once what such a request can do to the database, whichever way it ends: types get numbers, and definitions are begun, and then
either finished or given up.  That every request does only this is `typeName_evolves` and `defOf_evolves`; everything that a
request keeps follows by induction on `Evolves`, without a look at the requests.
-/

namespace FlowCompiler.Database

variable {p : Program} {d e g : Database} {α β γ : Type} {id : NodeId} {n : DefNode}

/-! ### Where computations end -/

/-- A computation ends with a result and a database of which `Q` holds, or with a failure and a database of which `E` holds. -/
def Ends (p : Program) (d : Database) (m : M α) (Q : α → Database → Prop) (E : Failure → Database → Prop) : Prop :=
  match m p d with
  | .ok a e => Q a e
  | .error f e => E f e

namespace Ends

variable {m : M α} {Q Q' : α → Database → Prop} {R : β → Database → Prop} {E E' : Failure → Database → Prop}

theorem pure {a : α} (h : Q a d) : Ends p d (.pure a) Q E := h

theorem throw {f : Failure} (h : E f d) : Ends p d (MonadExcept.throw f : M α) Q E := h

theorem bind {k : α → M β} (h : Ends p d m (fun a e => Ends p e (k a) R E) E) : Ends p d (m >>= k) R E := by
  unfold Ends at h ⊢
  change match EStateM.bind (m p) (fun a => k a p) d with | .ok b e => R b e | .error f e => E f e
  rw [EStateM.bind]
  cases r : m p d with
  | ok a e => rwa [r] at h
  | error f e => rwa [r] at h

theorem mono (h : Ends p d m Q E) (hQ : ∀ a e, Q a e → Q' a e) (hE : ∀ f e, E f e → E' f e) : Ends p d m Q' E' := by
  unfold Ends at h ⊢
  cases r : m p d with
  | ok a e => exact hQ a e (by rwa [r] at h)
  | error f e => exact hE f e (by rwa [r] at h)

theorem and (h : Ends p d m Q E) (h' : Ends p d m Q' E') : Ends p d m (fun a e => Q a e ∧ Q' a e) fun f e => E f e ∧ E' f e := by
  unfold Ends at h h' ⊢
  cases r : m p d with
  | ok a e => exact ⟨by rwa [r] at h, by rwa [r] at h'⟩
  | error f e => exact ⟨by rwa [r] at h, by rwa [r] at h'⟩

theorem map {f : α → β} (h : Ends p d m (fun a e => R (f a) e) E) : Ends p d (f <$> m) R E := by
  unfold Ends at h ⊢
  change match EStateM.map f (m p) d with | .ok b e => R b e | .error f e => E f e
  rw [EStateM.map]
  cases r : m p d with
  | ok a e => rwa [r] at h
  | error f e => rwa [r] at h

theorem ite {c : Prop} [Decidable c] {m' : M α} (ht : c → Ends p d m Q E) (hf : ¬ c → Ends p d m' Q E) : Ends p d (if c then m else m') Q E := by
  split
  · exact ht ‹_›
  · exact hf ‹_›

/-- A definition under construction is forgotten when the computation fails. -/
theorem orDrop (h : Ends p d m Q fun f e => E f { e with known := e.known.filter (·.1 ≠ id) }) : Ends p d (Database.orDrop id m) Q E := by
  unfold Ends at h ⊢
  change match EStateM.tryCatch (m p) (fun f => (do dropDef id; MonadExcept.throw f : M α) p) d with
    | .ok b e => Q b e
    | .error f e => E f e
  rw [EStateM.tryCatch]
  cases r : m p d with
  | ok a e => rwa [r] at h
  | error f e => rwa [r] at h

theorem mapM {xs : List γ} {f : γ → M β} {L : Database → Database → Prop} {P : γ → β → Database → Prop} (refl : ∀ d, L d d)
    (trans : ∀ {d e g}, L d e → L e g → L d g) (keep : ∀ {x y d e}, L d e → P x y d → P x y e)
    (h : ∀ x ∈ xs, ∀ e, L d e → Ends p e (f x) (fun y g => L e g ∧ P x y g) E) :
    Ends p d (xs.mapM f) (fun ys e => L d e ∧ List.Forall₂ (fun x y => P x y e) xs ys) E := by
  induction xs generalizing d with
  | nil => exact pure ⟨refl d, .nil⟩
  | cons x xs ih =>
    rw [List.mapM_cons]
    refine bind ((h x List.mem_cons_self d (refl d)).mono (fun y e hy => ?_) fun _ _ => id)
    have rest := ih (d := e) fun z hz g hg => h z (List.mem_cons_of_mem _ hz) g (trans hy.1 hg)
    exact bind (rest.mono (fun ys g hys => pure ⟨trans hy.1 hys.1, .cons (keep hys.1 hy.2) hys.2⟩) fun _ _ => id)

theorem forM {xs : List γ} {f : γ → M PUnit} {L : Database → Database → Prop} (refl : ∀ d, L d d) (trans : ∀ {d e g}, L d e → L e g → L d g)
    (h : ∀ x ∈ xs, ∀ e, L d e → Ends p e (f x) (fun _ g => L e g) E) : Ends p d (xs.forM f) (fun _ e => L d e) E := by
  induction xs generalizing d with
  | nil => exact pure (refl d)
  | cons x xs ih =>
    refine bind ((h x List.mem_cons_self d (refl d)).mono (fun y e hy => ?_) fun _ _ => id)
    have rest := ih (d := e) fun z hz g hg => h z (List.mem_cons_of_mem _ hz) g (trans hy hg)
    exact rest.mono (fun _ g hg => trans hy hg) fun _ _ => id

/-! The single steps; what follows is judged where they end. -/

theorem get {k : Database → M β} (h : Ends p d (k d) R E) : Ends p d (MonadState.get >>= k) R E := h

theorem read {k : Program → M β} (h : Ends p d (k p) R E) : Ends p d (.read >>= k) R E := h

theorem types {k : Types → M β} (h : Ends p d (k p.low.types) R E) : Ends p d (Database.types >>= k) R E := h

theorem namingFuel {k : Nat → M β} (h : ∀ fuel, Ends p d (k fuel) R E) : Ends p d (Database.namingFuel >>= k) R E :=
  h ((p.low.types.nodes.size + 2) * (p.low.types.nodes.size + 2))

theorem modify {f : Database → Database} {k : PUnit → M β} (h : Ends p (f d) (k ⟨⟩) R E) : Ends p d (modifyGet (fun d => (⟨⟩, f d)) >>= k) R E := h

theorem update {f : Database → Database} {Q : PUnit → Database → Prop} (h : Q ⟨⟩ (f d)) : Ends p d (modifyGet fun d => (⟨⟩, f d)) Q E := h

end Ends

/-! ### The steps of a definition -/

/-- The name that the next request gets. -/
def nameFor (d : Database) (base : String) : String := (d.names.fresh (identifier base)).1

/-- After a request for a name. -/
def asked (d : Database) (base : String) : Database := { d with names := (d.names.fresh (identifier base)).2 }

/-- A definition is begun: it has its name, and other types can refer to it. -/
def begun (d : Database) (base : String) (n : DefNode) : Database := { d.asked base with known := (n.type, n) :: d.known.filter (·.1 ≠ n.type) }

def finished (d : Database) (n : DefNode) : Database := { d with known := (n.type, n) :: d.known.filter (·.1 ≠ n.type), defs := d.defs ++ [n] }

def givenUp (d : Database) (id : NodeId) : Database := { d with known := d.known.filter (·.1 ≠ id) }

namespace Ends

variable {Q : DefNode → Database → Prop} {R : β → Database → Prop} {E : Failure → Database → Prop} {base : String}

theorem uniqueName {k : String → M β} (h : Ends p (d.asked base) (k (d.nameFor base)) R E) : Ends p d (Database.uniqueName base >>= k) R E := h

theorem begin {k : PUnit → M β} (h : Ends p (d.begun base n) (k ⟨⟩) R E) : Ends p (d.asked base) (setDef n.type n >>= k) R E := h

theorem finish (h : Q n (d.finished n)) : Ends p d (Database.finish n.type n) Q E := h

end Ends

/-- A type gets the next number. -/
def withNumber (d : Database) (id : NodeId) : Database := { d with typeIds := d.typeIds ++ [(id, (d.typeIds.length : Int) + 1)] }

/-- What the steps of definitions do not touch. -/
def rest (d : Database) : Database := { d with known := [], defs := [], names := {}, typeIds := [] }

/-- Structures and arrays that are collected: their instances have headers. -/
def hasHeader (s : Types) (id : NodeId) : Bool :=
  match s.node id with
  | .struct _ _ _ gc => gc
  | .array _ _ _ gc => gc
  | _ => false

def isWeakRef (s : Types) (id : NodeId) : Bool :=
  match s.node id with
  | .weakref _ => true
  | _ => false

/-- A finished definition has what the collector needs where types are numbered. -/
structure Filled (p : Program) (d : Database) (n : DefNode) : Prop where
  header : d.policy.numbersTypes = true → hasHeader p.low.types n.type = true →
    (n.kind == .struct || n.kind == .array) = true ∧ n.header.isNone = false
  number : d.policy.numbersTypes = true → (hasHeader p.low.types n.type || isWeakRef p.low.types n.type) = true →
    ∃ i ∈ n.gc, d.typeIds.lookup n.type = some i.typeId

/-- The name of a definition, of the name that it got. -/
def label : DefKind → String → String
  | .fixed, x => x
  | _, x => "struct " ++ x

/-- What requests for names of types can do. -/
inductive Evolves (p : Program) : Database → Database → Prop
  | refl (d : Database) : Evolves p d d
  | trans {d e g : Database} : Evolves p d e → Evolves p e g → Evolves p d g
  | number {d : Database} {id : NodeId} : d.typeIds.lookup id = none → Evolves p d (d.withNumber id)
  /-- A structure or an array: what is asked for in between may refer to it. -/
  | open {d e : Database} {base : String} {m n : DefNode} : d.known.lookup n.type = none → m.type = n.type →
      Evolves p (d.begun base m) e → isWeakRef p.low.types n.type = false → n.cname = "struct " ++ d.nameFor base →
      Filled p e n → Evolves p d (e.finished n)
  | giveUp {d e : Database} {base : String} {m : DefNode} : d.known.lookup m.type = none →
      Evolves p (d.begun base m) e → Evolves p d (e.givenUp m.type)
  /-- A definition that is known only when it is finished. -/
  | close {d e : Database} {base : String} {n : DefNode} : d.known.lookup n.type = none → Evolves p d e →
      isWeakRef p.low.types n.type = false → n.cname = label n.kind (e.nameFor base) → Filled p e n →
      Evolves p d ((e.asked base).finished n)
  /-- The cells of weak references have one name. -/
  | cell {d e : Database} {n : DefNode} : d.known.lookup n.type = none → Evolves p d e →
      isWeakRef p.low.types n.type = true → Filled p e n → Evolves p d (e.finished n)

theorem lookup_begun (d : Database) (base : String) (n : DefNode) :
    (d.begun base n).known.lookup id = if id = n.type then some n else d.known.lookup id := by
  rw [begun, Entries.lookup_cons, Entries.lookup_filter_ne]
  by_cases h : id = n.type <;> simp [h]

theorem lookup_finished (d : Database) (n : DefNode) : (d.finished n).known.lookup id = if id = n.type then some n else d.known.lookup id := by
  rw [finished, Entries.lookup_cons, Entries.lookup_filter_ne]
  by_cases h : id = n.type <;> simp [h]

theorem lookup_givenUp (d : Database) (k : NodeId) :
    (d.givenUp k).known.lookup id = if id = k then none else d.known.lookup id := Entries.lookup_filter_ne

namespace Evolves

section

variable (h : Evolves p d e)
include h

theorem rest : e.rest = d.rest := by
  induction h with
  | refl d => rfl
  | trans _ _ ih ih' => exact ih'.trans ih
  | number _ => rfl
  | «open» _ _ _ _ _ _ ih => exact ih
  | giveUp _ _ ih => exact ih
  | close _ _ _ _ _ ih => exact ih
  | cell _ _ _ _ ih => exact ih

theorem policy : e.policy = d.policy := (congrArg Database.policy h.rest :)

theorem containers : e.containers = d.containers := (congrArg Database.containers h.rest :)

theorem funcs : e.funcs = d.funcs := (congrArg Database.funcs h.rest :)

theorem pending : e.pending = d.pending := (congrArg Database.pending h.rest :)

theorem defs : d.defs <+: e.defs := by
  induction h with
  | refl d => exact List.prefix_refl _
  | trans _ _ ih ih' => exact ih.trans ih'
  | number _ => exact List.prefix_refl _
  | «open» _ _ _ _ _ _ ih => exact ih.trans (List.prefix_append _ _)
  | giveUp _ _ ih => exact ih
  | close _ _ _ _ _ ih => exact ih.trans (List.prefix_append _ _)
  | cell _ _ _ _ ih => exact ih.trans (List.prefix_append _ _)

theorem mem_defs (hn : n ∈ d.defs) : n ∈ e.defs := h.defs.subset hn

theorem known (hn : d.known.lookup id = some n) : e.known.lookup id = some n := by
  induction h with
  | refl d => exact hn
  | trans _ _ ih ih' => exact ih' (ih hn)
  | number _ => exact hn
  | @«open» d e base k m new type _ _ _ _ ih =>
    have other : id ≠ m.type := by
      rintro rfl
      cases new.symm.trans hn
    rw [lookup_finished, if_neg other]
    exact ih (by rw [lookup_begun, if_neg (type ▸ other), hn])
  | @giveUp d e base m new _ ih =>
    have other : id ≠ m.type := by
      rintro rfl
      cases new.symm.trans hn
    rw [lookup_givenUp, if_neg other]
    exact ih (by rw [lookup_begun, if_neg other, hn])
  | close new _ _ _ _ ih | cell new _ _ _ ih =>
    rw [lookup_finished, if_neg]
    · exact ih hn
    · rintro rfl
      cases new.symm.trans hn

theorem origin (hn : e.known.lookup id = some n) : d.known.lookup id = some n ∨ n ∈ e.defs ∧ n.type = id := by
  induction h with
  | refl d => exact .inl hn
  | trans _ h' ih ih' =>
    rcases ih' hn with hn | hn
    · exact (ih hn).imp_right fun hn => ⟨h'.mem_defs hn.1, hn.2⟩
    · exact .inr hn
  | number _ => exact .inl hn
  | @«open» d e base k m _ type _ _ _ _ ih =>
    rw [lookup_finished] at hn
    split at hn
    · cases hn
      rename_i same
      exact .inr ⟨List.mem_append_right _ (List.mem_singleton_self _), same.symm⟩
    · rename_i other
      rcases ih hn with hn | hn
      · rw [lookup_begun, if_neg (type ▸ other)] at hn
        exact .inl hn
      · exact .inr ⟨List.mem_append_left _ hn.1, hn.2⟩
  | @giveUp d e base m _ _ ih =>
    rw [lookup_givenUp] at hn
    split at hn
    · cases hn
    · rename_i other
      rcases ih hn with hn | hn
      · rw [lookup_begun, if_neg other] at hn
        exact .inl hn
      · exact .inr hn
  | close _ _ _ _ _ ih | cell _ _ _ _ ih =>
    rw [lookup_finished] at hn
    split at hn
    · cases hn
      rename_i same
      exact .inr ⟨List.mem_append_right _ (List.mem_singleton_self _), same.symm⟩
    · exact (ih hn).imp_right fun hn => ⟨List.mem_append_left _ hn.1, hn.2⟩

theorem typeIds {i : Int} (hi : d.typeIds.lookup id = some i) : e.typeIds.lookup id = some i := by
  induction h with
  | refl d => exact hi
  | trans _ _ ih ih' => exact ih' (ih hi)
  | number _ => rw [withNumber, List.lookup_append, hi, Option.some_or]
  | «open» _ _ _ _ _ _ ih => exact ih hi
  | giveUp _ _ ih => exact ih hi
  | close _ _ _ _ _ ih => exact ih hi
  | cell _ _ _ _ ih => exact ih hi

end

end Evolves

theorem Filled.of_evolves (h : Filled p d n) (hd : Evolves p d e) : Filled p e n := by
  refine ⟨fun hp => h.header (hd.policy ▸ hp), fun hp ht => ?_⟩
  obtain ⟨i, hi, number⟩ := h.number (hd.policy ▸ hp) ht
  exact ⟨i, hi, hd.typeIds number⟩

theorem Evolves.filled (h : Evolves p d e) (hn : n ∈ e.defs) : n ∈ d.defs ∨ Filled p e n := by
  have last {d e : Database} {m : DefNode} (hm : Filled p e m) (he : n ∈ e.defs → n ∈ d.defs ∨ Filled p e n)
      (hn : n ∈ e.defs ++ [m]) : n ∈ d.defs ∨ Filled p e n := by
    rcases List.mem_append.1 hn with hn | hn
    · exact he hn
    · exact .inr (List.mem_singleton.1 hn ▸ hm)
  induction h with
  | refl d => exact .inl hn
  | trans _ h' ih ih' =>
    rcases ih' hn with hn | hn
    · exact (ih hn).imp_right fun hn => hn.of_evolves h'
    · exact .inr hn
  | number _ => exact .inl hn
  | «open» _ _ _ _ _ filled ih => exact (last filled ih hn).imp_right fun h => ⟨h.header, h.number⟩
  | giveUp _ _ ih => exact (ih hn).imp_right fun h => ⟨h.header, h.number⟩
  | close _ _ _ _ filled ih => exact (last filled ih hn).imp_right fun h => ⟨h.header, h.number⟩
  | cell _ _ _ filled ih => exact (last filled ih hn).imp_right fun h => ⟨h.header, h.number⟩

/-! ### Requests -/

/-- Requests for the names of types do only what they may. -/
def Naming.Evolving (p : Program) (h : Naming) : Prop := ∀ t d, Ends p d (h.typeName t) (fun _ e => Evolves p d e) fun _ e => Evolves p d e

/-- At most one type gets a number. -/
inductive Numbers (d : Database) : Database → Prop
  | same : Numbers d d
  | next {id : NodeId} : d.typeIds.lookup id = none → Numbers d (d.withNumber id)

theorem Numbers.evolves (h : Numbers d e) : Evolves p d e := by
  cases h with
  | same => exact .refl d
  | next new => exact .number new

theorem typeId_ends (d : Database) (id : NodeId) {E : Failure → Database → Prop} :
    Ends p d (typeId id) (fun i e => Numbers d e ∧ e.typeIds.lookup id = some i) E := by
  refine .get ?_
  split
  · rename_i i hi
    exact .pure ⟨.same, hi⟩
  · rename_i new
    refine show Numbers d (d.withNumber id) ∧ (d.withNumber id).typeIds.lookup id = _ from ⟨.next new, ?_⟩
    rw [withNumber, Entries.lookup_concat new, if_pos (beq_self_eq_true id)]

theorem numbered_ends (d : Database) (id : NodeId) {E : Failure → Database → Prop} : Ends p d (numbered id)
    (fun i e => Numbers d e ∧ (d.policy.numbersTypes = true → e.typeIds.lookup id = some i)) E :=
  .get (.ite (fun _ => (typeId_ends d id).mono (fun _ _ h => ⟨h.1, fun _ => h.2⟩) fun _ _ h => h) fun no => .pure ⟨.same, fun yes => absurd yes no⟩)

theorem structInfo_of_numbersTypes {policy : GcPolicy} (h : policy.numbersTypes = true) (name : String) (i : Int)
    (rtti : Option Rtti) : ∃ k ∈ policy.structInfo name i rtti, k.typeId = i := by
  cases policy with
  | none => cases h
  | refcount => cases h
  | framework b =>
    cases rtti with
    | none => exact ⟨_, rfl, rfl⟩
    | some r => by_cases hr : r.destructor = "" <;> simp [GcPolicy.structInfo, hr]

theorem isSome_header {policy : GcPolicy} (h : policy.numbersTypes = true) : policy.header?.isNone = false := by
  cases policy with
  | none => cases h
  | refcount => cases h
  | framework b => rfl

section

variable {h : Naming}

section

variable (hh : h.Evolving p)
include hh

theorem fields_evolves (fields : List (String × LowType)) (d : Database) :
    Ends p d (fields.mapM fun (name, t) => do pure ("s_" ++ name, ← h.typeName t)) (fun _ e => Evolves p d e)
      fun _ e => Evolves p d e := by
  refine (Ends.mapM (P := fun _ _ _ => True) .refl .trans (fun _ _ => trivial) fun (name, t) _ e he => ?_).mono (fun _ _ h => h.1) fun _ _ h => h
  exact .bind ((hh t e).mono (fun _ _ h => .pure ⟨h, trivial⟩) fun _ _ h => he.trans h)

theorem structDef_evolves {name : String} {fields : List (String × LowType)} {hints : StructHints}
    {gc : Bool} (new : d.known.lookup id = none) (node : p.low.types.node id = .struct name fields hints gc) :
    Ends p d (structDef h id name fields gc) (fun n e => Evolves p d e ∧ e.known.lookup id = some n) fun _ e => Evolves p d e := by
  have headed : hasHeader p.low.types id = gc := by rw [hasHeader, node]
  have weak : isWeakRef p.low.types id = false := by rw [isWeakRef, node]
  let n₀ : DefNode :=
    { type := id, kind := .struct, cname := "struct " ++ d.nameFor ("pypy_" ++ name), header := if gc then d.policy.header? else none }
  have done {e : Database} {fs : List (String × String)} {i : Option GcInfo} (he : Evolves p (d.begun ("pypy_" ++ name) n₀) e)
      (hi : gc = true → e.policy.numbersTypes = true → ∃ k ∈ i, e.typeIds.lookup id = some k.typeId) :
      Ends p e (finish id { n₀ with fields := fs, gc := i }) (fun n e => Evolves p d e ∧ e.known.lookup id = some n) fun _ e => Evolves p d e := by
    refine Ends.finish (n := { n₀ with fields := fs, gc := i })
      ⟨.open (m := n₀) new rfl he weak rfl ⟨fun hp ht => ⟨rfl, ?_⟩, fun hp ht => ?_⟩, by rw [lookup_finished, if_pos rfl]⟩
    · have ht : gc = true := headed ▸ ht
      have policy : e.policy = d.policy := he.policy
      rw [show n₀.header = _ from if_pos ht]
      exact isSome_header (policy ▸ hp)
    · rw [weak, Bool.or_false] at ht
      exact hi (headed ▸ ht) hp
  refine .uniqueName
    (.get (.begin (n := n₀) (.bind (.orDrop ((fields_evolves hh _ _).mono (fun fs e he => ?_) fun f e he => .giveUp (m := n₀) new he)))))
  refine .ite (fun collected => ?_) fun raw => done he fun collected => absurd collected raw
  refine .bind ((numbered_ends e id).mono (fun i g hg => .get (done (he.trans hg.1.evolves) fun _ hp => ?_)) fun f g hg => hg)
  have policy : g.policy = d.policy := (he.trans hg.1.evolves).policy
  obtain ⟨k, hk, number⟩ := structInfo_of_numbersTypes (policy ▸ hp) name i (g.rtti.lookup id)
  exact ⟨k, hk, number ▸ hg.2 ((Evolves.policy (p := p) hg.1.evolves) ▸ hp)⟩

theorem arrayDef_evolves {of : LowType} {bare immutable gc : Bool} (new : d.known.lookup id = none)
    (node : p.low.types.node id = .array of bare immutable gc) :
    Ends p d (arrayDef h id of gc) (fun n e => Evolves p d e ∧ e.known.lookup id = some n) fun _ e => Evolves p d e := by
  have headed : hasHeader p.low.types id = gc := by rw [hasHeader, node]
  have weak : isWeakRef p.low.types id = false := by rw [isWeakRef, node]
  let base := "pypy_array_" ++ itemTag p.low.types of
  let n₀ : DefNode := { type := id, kind := .array, cname := "struct " ++ d.nameFor base }
  have done {e : Database} {item : String} {i : Option GcInfo} (he : Evolves p (d.begun base n₀) e) (hi : gc = true → e.policy.numbersTypes = true →
      ∃ k ∈ i, e.typeIds.lookup id = some k.typeId) : Ends p e (finish id { n₀ with item, header := if gc then d.policy.header? else none, gc := i })
        (fun n e => Evolves p d e ∧ e.known.lookup id = some n) fun _ e => Evolves p d e := by
    refine Ends.finish (n := { n₀ with item, header := if gc then d.policy.header? else none, gc := i })
      ⟨.open (m := n₀) new rfl he weak rfl ⟨fun hp ht => ⟨rfl, ?_⟩, fun hp ht => ?_⟩, by rw [lookup_finished, if_pos rfl]⟩
    · have ht : gc = true := headed ▸ ht
      have policy : e.policy = d.policy := he.policy
      rw [show (if gc = true then d.policy.header? else none) = _ from if_pos ht]
      exact isSome_header (policy ▸ hp)
    · rw [weak, Bool.or_false] at ht
      exact hi (headed ▸ ht) hp
  refine .types (.uniqueName (.begin (n := n₀) (.bind (.orDrop ((hh of _).mono (fun item e he => .get ?_) fun f e he => .giveUp (m := n₀) new he)))))
  have policy : e.policy = d.policy := he.policy
  rw [policy]
  refine .ite (fun counted => ?_) fun raw => done he fun collected hp => absurd (by rw [collected, ← policy, hp]; rfl) raw
  exact .bind ((typeId_ends e id).mono (fun i g hg => done (he.trans hg.1.evolves) fun _ _ => ⟨_, rfl, hg.2⟩) fun f g hg => hg)

theorem makeDef_evolves (id : NodeId) (d : Database) :
    Ends p d (makeDef h id) (fun n e => Evolves p d e ∧ e.known.lookup (p.low.types.target id) = some n) fun _ e => Evolves p d e := by
  refine .types (.get ?_)
  split
  · rename_i n hn
    exact .pure ⟨.refl d, hn⟩
  · rename_i new
    have found {e : Database} {n : DefNode} (type : n.type = p.low.types.target id) :
        (e.finished n).known.lookup (p.low.types.target id) = some n := by rw [lookup_finished, if_pos type.symm]
    split
    · exact structDef_evolves hh new ‹_›
    · exact arrayDef_evolves hh new ‹_›
    · rename_i of k node
      refine .bind ((hh of d).mono (fun item e he => .uniqueName ?_) fun f e he => he)
      refine .finish (n := { type := p.low.types.target id, kind := .fixed, cname := e.nameFor _, item })
        ⟨.close new he ?_ rfl ⟨fun _ ht => ?_, fun _ ht => ?_⟩, found rfl⟩
      all_goals simp_all [isWeakRef, hasHeader]
    · rename_i tag gc probe node
      refine .uniqueName ?_
      refine .finish (n := { type := p.low.types.target id, kind := .handle, cname := "struct " ++ d.nameFor _ })
        ⟨.close new (.refl d) ?_ rfl ⟨fun _ ht => ?_, fun _ ht => ?_⟩, found rfl⟩
      all_goals simp_all [isWeakRef, hasHeader]
    · rename_i pointee node
      have header : hasHeader p.low.types (p.low.types.target id) = false := by rw [hasHeader, node]
      have weak : isWeakRef p.low.types (p.low.types.target id) = true := by rw [isWeakRef, node]
      refine .get (Ends.ite (fun counted => ?_) fun uncounted => ?_)
      · refine .bind ((typeId_ends d _).mono (fun i e he => ?_) fun f e he => he)
        refine .finish (n := ⟨p.low.types.target id, .handle, "struct pypy_weakref", none, [], "", some { typeId := i, isWeakRef := true }⟩)
          ⟨.cell new he.1.evolves weak ⟨fun _ ht => absurd (header ▸ ht) (by decide), fun _ _ => ⟨_, rfl, he.2⟩⟩, found rfl⟩
      · refine .finish (n := ⟨p.low.types.target id, .handle, "struct pypy_weakref", none, [], "", none⟩)
          ⟨.cell new (.refl d) weak ⟨fun _ ht => absurd (header ▸ ht) (by decide), fun hp _ => absurd hp uncounted⟩, found rfl⟩
    · exact Ends.throw (.refl d)

theorem funcTypeName_evolves (args : List LowType) (result : LowType) (d : Database) :
    Ends p d (funcTypeName h args result) (fun _ e => Evolves p d e) fun _ e => Evolves p d e := by
  refine .bind ((hh result d).mono (fun r e he => ?_) fun _ _ he => he)
  refine .bind ((Ends.mapM (P := fun _ _ _ => True) .refl .trans (fun _ _ => trivial) fun t _ g hg =>
    (hh t g).mono (fun _ _ h => ⟨h, trivial⟩) fun _ _ h => he.trans (hg.trans h)).mono (fun as g hg => ?_) fun _ _ h => h)
  exact .pure (he.trans hg.1)

theorem typeNameStep_evolves (t : LowType) (d : Database) : Ends p d (typeNameStep h t) (fun _ e => Evolves p d e) fun _ e => Evolves p d e := by
  refine Ends.types ?_
  split
  · exact .pure (.refl d)
  · split
    · exact funcTypeName_evolves hh _ _ d
    · exact .bind ((makeDef_evolves hh _ d).mono (fun n e he => .pure he.1) fun _ _ he => he)
  · exact .bind ((makeDef_evolves hh _ d).mono (fun n e he => .pure he.1) fun _ _ he => he)

end

end

theorem naming_evolving (p : Program) (fuel : Nat) : (naming fuel).Evolving p := by
  induction fuel with
  | zero => exact fun t d => .throw (.refl d)
  | succ fuel ih => exact typeNameStep_evolves ih

/-- **What naming a type can do.** -/
theorem typeName_evolves (t : LowType) (d : Database) : Ends p d (typeName t) (fun _ e => Evolves p d e) fun _ e => Evolves p d e :=
  Ends.namingFuel fun fuel => naming_evolving p fuel t d

/-- **What asking for a definition can do**; the definition is the one that is known from then on. -/
theorem defOf_evolves (id : NodeId) (d : Database) : Ends p d (defOf id) (fun n e => Evolves p d e ∧ e.known.lookup (p.low.types.target id) = some n)
      fun _ e => Evolves p d e :=
  Ends.namingFuel fun fuel => makeDef_evolves (naming_evolving p fuel) id d

end FlowCompiler.Database
