import FlowCompiler.Proofs.Peeling.Apart
import FlowCompiler.Trace.Session.Peel

/-!
# Copies of a body

A body and its copy run side by side: each operation has a twin, which takes what the operation takes under other names.  The names of
the values grow along the body, with a new one for each result, which is no name of anything else.  An operation is also its own twin,
as long as it keeps its names.
-/

namespace FlowCompiler.Trace.Peel

open List

variable {known : List Box}

variable (v : Value) {body : List Op}

namespace Renaming

@[simp] theorem value_nil : Renaming.value [] v = v := by cases v <;> rfl

@[simp] theorem map_value_nil (vs : List Value) : vs.map (Renaming.value []) = vs := by simp [funext value_nil]

theorem value_cons_self (b : Box) (v : Value) (r : Renaming) : Renaming.value ((b, v) :: r) (.box b) = v := by
  simp [Renaming.value]

theorem value_cons_of_ne {b x : Box} (r : Renaming) (h : x ≠ b) : Renaming.value ((b, v) :: r) (.box x) = r.value (.box x) := by
  have hx : (x == b) = false := by simpa using h
  simp [Renaming.value, lookup_cons, hx]

end Renaming

/-! ## Bodies -/

/-- An operation of a body only uses boxes that have a value.  Control goes on behind it, and the only guard with a result is the one
that takes an exception. -/
structure Fits (known : List Box) (op : Op) : Prop where
  uses : ∀ b ∈ op.boxArgs ++ op.boxFails, b ∈ known
  straight : op.code ≠ .label ∧ op.code ≠ .jump
  result : op.isGuard = true → op.code ≠ .guardException → op.result = none

/-- The boxes that have a value behind some operations. -/
def defined (known : List Box) : List Op → List Box
  | [] => known
  | op :: rest => defined (op.result.toList ++ known) rest

/-- Each operation fits behind those before it. -/
def Scoped (known : List Box) : List Op → Prop
  | [] => True
  | op :: rest => Fits known op ∧ Scoped (op.result.toList ++ known) rest

theorem Scoped.fits (h : Scoped known body) {op : Op} (hop : op ∈ body) : ∃ known', Fits known' op := by
  induction body generalizing known with
  | nil => simp at hop
  | cons _ rest ih =>
    rcases mem_cons.1 hop with rfl | hop
    · exact ⟨known, h.1⟩
    · exact ih h.2 hop

/-! ## Twins -/

/-- A result and its name in the copy, which is the name of nothing else that is known. -/
inductive Rebound (known : List Box) (r : Renaming) : Option Box → Renaming → Option Box → Prop
  | none : Rebound known r none r none
  | some {b c : Box} {r' : Renaming} (hb : r'.value (.box b) = .box c) (hkind : c.kind = b.kind)
      (hkeep : ∀ x ∈ known, x ≠ b → r'.value (.box x) = r.value (.box x))
      (hfresh : ∀ x ∈ known, x ≠ b → r.value (.box x) ≠ .box c) : Rebound known r (some b) r' (some c)

/-- An operation and its copy. -/
structure Twin (gs : Array GuardDescr) (known : List Box) (r : Renaming) (op : Op) (r' : Renaming) (op' : Op) : Prop where
  fits : Fits known op
  code : op'.code = op.code
  args : op'.args = op.args.map r.value
  fail : op'.fail = op.fail.map (·.map (·.map r.value))
  descr : op'.descr = op.descr ∨ ∃ g g', op.descr = some (.guard g) ∧ op'.descr = some (.guard g')
  quiet : Quiet gs op.descr op'.descr
  result : Rebound known r op.result r' op'.result

/-- A body and its copy. -/
inductive Twins (gs : Array GuardDescr) : List Box → Renaming → List Op → List Op → Renaming → Prop
  | nil {known : List Box} {r : Renaming} : Twins gs known r [] [] r
  | cons {known : List Box} {r r₁ r₂ : Renaming} {op op' : Op} {ops ops' : List Op} (head : Twin gs known r op r₁ op')
      (tail : Twins gs (op.result.toList ++ known) r₁ ops ops' r₂) : Twins gs known r (op :: ops) (op' :: ops') r₂

/-- A guard has no resume data. -/
def Blank (gs : Array GuardDescr) (ops : List Op) : Prop := ∀ op ∈ ops, ∀ g, op.descr = some (.guard g) → ((gs[g]?).getD default).data = none

theorem quiet_of_blank {gs : Array GuardDescr} {g g' : GuardId} (hcode : ((gs[g']?).getD default).code = ((gs[g]?).getD default).code)
    (h : ((gs[g]?).getD default).data = none) (h' : ((gs[g']?).getD default).data = none) : Quiet gs (some (.guard g)) (some (.guard g')) where
  same := by simp only [forcedData?, GuardDescr.isForced, hcode, h, h']
  blank data := by
    simp only [forcedData?, h]
    split <;> simp

theorem quiet_of_not_guard {gs : Array GuardDescr} {d d' : Option Descr} (h : ∀ g, d ≠ some (.guard g)) (h' : ∀ g, d' ≠ some (.guard g)) :
    Quiet gs d d' := by
  have hnone {d : Option Descr} (h : ∀ g, d ≠ some (.guard g)) : forcedData? gs d = none := by
    unfold forcedData?
    split
    · exact absurd rfl (h _)
    · rfl
  exact ⟨by rw [hnone h, hnone h'], fun data e => by rw [hnone h] at e; cases e⟩

theorem quiet_self {gs : Array GuardDescr} {op : Op} {ops : List Op} (h : Blank gs ops) (hop : op ∈ ops) : Quiet gs op.descr op.descr := by
  by_cases hg : ∃ g, op.descr = some (.guard g)
  · obtain ⟨g, hg⟩ := hg
    rw [hg]
    exact quiet_of_blank rfl (h op hop g hg) (h op hop g hg)
  · have hg' : ∀ g, op.descr ≠ some (.guard g) := fun g e => hg ⟨g, e⟩
    exact quiet_of_not_guard hg' hg'

theorem twin_self {gs : Array GuardDescr} {op : Op} (h : Fits known op) (hq : Quiet gs op.descr op.descr) : Twin gs known [] op [] op := by
  refine ⟨h, rfl, by simp, ?_, .inl rfl, hq, ?_⟩
  · have hid : (fun o : Option Value => o.map (Renaming.value [])) = id := by
      funext o
      cases o <;> simp
    rw [hid]
    cases op.fail <;> simp
  · cases op.result with
    | none => exact .none
    | some b => exact .some (by simp) rfl (fun _ _ _ => by simp) fun x _ hx => by simpa using hx

/-! ## Copying -/

/-- What one copy adds to the store: a guard if the operation is one, and a box if it has a result. -/
structure Copied (s : Store) (r : Renaming) (op : Op) (s' : Store) (r' : Renaming) (op' : Op) : Prop where
  code : op'.code = op.code
  args : op'.args = op.args.map r.value
  fail : op'.fail = op.fail.map (·.map (·.map r.value))
  descr : (op'.descr = op.descr ∧ (∀ g, op.descr ≠ some (.guard g)) ∧ s'.guards = s.guards) ∨
    ∃ g, op.descr = some (.guard g) ∧ op'.descr = some (.guard s.guards.size) ∧ s'.guards = s.guards.push { code := (s.guard g).code }
  result : (op.result = none ∧ op'.result = none ∧ r' = r ∧ s'.boxes = s.boxes) ∨
    ∃ b, op.result = some b ∧ op'.result = some ⟨s.boxes + 1, b.kind⟩ ∧ r' = (b, .box ⟨s.boxes + 1, b.kind⟩) :: r ∧ s'.boxes = s.boxes + 1

theorem copyOp_eq (r : Renaming) (op : Op) (s : Store) : ∃ r' op' s', copyOp r op s = .ok (r', op') s' ∧ Copied s r op s' r' op' := by
  obtain ⟨code, args, result, descr, fail, tag⟩ := op
  rcases descr with _ | d
  · cases result with
    | none => exact ⟨_, _, _, rfl, rfl, rfl, rfl, .inl ⟨rfl, by simp, rfl⟩, .inl ⟨rfl, rfl, rfl, rfl⟩⟩
    | some b => exact ⟨_, _, _, rfl, rfl, rfl, rfl, .inl ⟨rfl, by simp, rfl⟩, .inr ⟨b, rfl, rfl, rfl, rfl⟩⟩
  · cases d with
    | guard g =>
      cases result with
      | none => exact ⟨_, _, _, rfl, rfl, rfl, rfl, .inr ⟨g, rfl, rfl, rfl⟩, .inl ⟨rfl, rfl, rfl, rfl⟩⟩
      | some b => exact ⟨_, _, _, rfl, rfl, rfl, rfl, .inr ⟨g, rfl, rfl, rfl⟩, .inr ⟨b, rfl, rfl, rfl, rfl⟩⟩
    | _ =>
      cases result with
      | none => exact ⟨_, _, _, rfl, rfl, rfl, rfl, .inl ⟨rfl, by simp, rfl⟩, .inl ⟨rfl, rfl, rfl, rfl⟩⟩
      | some b => exact ⟨_, _, _, rfl, rfl, rfl, rfl, .inl ⟨rfl, by simp, rfl⟩, .inr ⟨b, rfl, rfl, rfl, rfl⟩⟩

/-- Copying makes guards and boxes and leaves those that there are. -/
structure Later (s s' : Store) : Prop where
  guard : ∀ g < s.guards.size, s'.guard g = s.guard g
  guards : s.guards.size ≤ s'.guards.size
  boxes : s.boxes ≤ s'.boxes

theorem Later.refl (s : Store) : Later s s := ⟨fun _ _ => rfl, Nat.le_refl _, Nat.le_refl _⟩

theorem Later.trans {s t u : Store} (h : Later s t) (h' : Later t u) : Later s u where
  guard g hg := (h'.guard g (Nat.lt_of_lt_of_le hg h.guards)).trans (h.guard g hg)
  guards := Nat.le_trans h.guards h'.guards
  boxes := Nat.le_trans h.boxes h'.boxes

namespace Copied

variable {s s' : Store} {r r' : Renaming} {op op' : Op}

section

variable (h : Copied s r op s' r' op')
include h

theorem later : Later s s' := by
  have hboxes : s.boxes ≤ s'.boxes := by
    rcases h.result with ⟨-, -, -, e⟩ | ⟨_, -, -, -, e⟩ <;> omega
  rcases h.descr with ⟨-, -, e⟩ | ⟨g, -, -, e⟩
  · exact ⟨fun g _ => by rw [Store.guard, Store.guard, e], Nat.le_of_eq (by rw [e]), hboxes⟩
  · refine ⟨fun k hk => ?_, by rw [e]; simp, hboxes⟩
    rw [Store.guard, Store.guard, e, Array.getElem?_push, if_neg (Nat.ne_of_lt hk)]

theorem names_le (hr : ∀ x ∈ known, ∀ y, r.value (.box x) = .box y → y.id ≤ s.boxes) :
    ∀ x ∈ op.result.toList ++ known, ∀ y, r'.value (.box x) = .box y → y.id ≤ s'.boxes := by
  intro x hx y hy
  rcases h.result with ⟨hop, -, rfl, e⟩ | ⟨b, hop, -, rfl, e⟩
  · rw [hop] at hx
    rw [e]
    exact hr x hx y hy
  · rw [e]
    by_cases hxb : x = b
    · subst hxb
      rw [Renaming.value_cons_self] at hy
      cases hy
      exact Nat.le_refl _
    · rw [Renaming.value_cons_of_ne _ _ hxb] at hy
      have hx' : x ∈ known := by
        rw [hop] at hx
        simpa [hxb] using hx
      exact Nat.le_succ_of_le (hr x hx' y hy)

theorem rebound (hr : ∀ x ∈ known, ∀ y, r.value (.box x) = .box y → y.id ≤ s.boxes) : Rebound known r op.result r' op'.result := by
  rcases h.result with ⟨hop, hop', rfl, -⟩ | ⟨b, hop, hop', rfl, -⟩
  · rw [hop, hop']
    exact .none
  · rw [hop, hop']
    refine .some (Renaming.value_cons_self _ _ _) rfl (fun x _ hx => Renaming.value_cons_of_ne _ _ hx) fun x hx _ e => ?_
    have := hr x hx _ e
    exact absurd this (by simp)

theorem guard_ge {g : GuardId} (hg : op'.descr = some (.guard g)) : s.guards.size ≤ g := by
  rcases h.descr with ⟨e, hne, -⟩ | ⟨_, -, e, -⟩
  · exact absurd (e ▸ hg) (hne g)
  · rw [e] at hg
    cases hg
    exact Nat.le_refl _

end

variable {gs : Array GuardDescr}

theorem quiet (h : Copied s r op s' r' op') (hknown : ∀ g, op.descr = some (.guard g) → g < s.guards.size)
    (hcode : ∀ g < s'.guards.size, ((gs[g]?).getD default).code = (s'.guard g).code) (hblank : Blank gs [op, op']) : Quiet gs op.descr op'.descr := by
  rcases h.descr with ⟨e, hne, -⟩ | ⟨g, hg, hg', e⟩
  · rw [e]
    exact quiet_of_not_guard hne hne
  · rw [hg, hg']
    have hlt : g < s.guards.size := hknown g hg
    have hnew : (s'.guard s.guards.size).code = (s.guard g).code := by
      rw [Store.guard, e]
      simp
    refine quiet_of_blank ?_ (hblank op (by simp) g hg) (hblank op' (by simp) _ hg')
    rw [hcode _ (by rw [e]; simp), hcode g (Nat.lt_of_lt_of_le hlt h.later.guards), hnew, h.later.guard g hlt]

theorem descr_or (h : Copied s r op s' r' op') : op'.descr = op.descr ∨ ∃ g g', op.descr = some (.guard g) ∧ op'.descr = some (.guard g') := by
  rcases h.descr with ⟨e, -, -⟩ | ⟨g, hg, hg', -⟩
  · exact .inl e
  · exact .inr ⟨g, _, hg, hg'⟩

end Copied

/-- A copy of a whole body; that it is one is said for the guards as they are when the code runs. -/
structure CopiedAll (known : List Box) (s : Store) (r : Renaming) (body : List Op) (s' : Store) (r' : Renaming) (copy : List Op) : Prop where
  later : Later s s'
  straight : ∀ op ∈ copy, op.code ≠ .label ∧ op.code ≠ .jump
  new : ∀ op ∈ copy, ∀ g, op.descr = some (.guard g) → s.guards.size ≤ g
  old : ∀ op ∈ copy, (∃ g, op.descr = some (.guard g)) ∨ ∃ op₀ ∈ body, op.descr = op₀.descr
  twins : ∀ gs : Array GuardDescr, (∀ g < s'.guards.size, ((gs[g]?).getD default).code = (s'.guard g).code) → Blank gs (body ++ copy) →
    Twins gs known r body copy r'

theorem copyOps_eq (r : Renaming) (s : Store) (hs : Scoped known body) (hr : ∀ x ∈ known, ∀ y, r.value (.box x) = .box y → y.id ≤ s.boxes)
    (hg : ∀ op ∈ body, ∀ g, op.descr = some (.guard g) → g < s.guards.size) :
    ∃ r' copy s', copyOps r body s = .ok (r', copy) s' ∧ CopiedAll known s r body s' r' copy := by
  induction body generalizing known r s with
  | nil => exact ⟨r, [], s, rfl, .refl s, by simp, by simp, by simp, fun _ _ _ => .nil⟩
  | cons op rest ih =>
    obtain ⟨r₁, op', s₁, e₁, h₁⟩ := copyOp_eq r op s
    obtain ⟨r₂, copy, s₂, e₂, h₂⟩ := ih r₁ s₁ hs.2 (h₁.names_le hr) fun x hx g hxg =>
      Nat.lt_of_lt_of_le (hg x (mem_cons_of_mem _ hx) g hxg) h₁.later.guards
    refine ⟨r₂, op' :: copy, s₂, ?_, h₁.later.trans h₂.later, fun x hx => ?_, fun x hx g hxg => ?_, fun x hx => ?_, fun gs hcode hblank => ?_⟩
    · rw [copyOps, bind_of_ok e₁]
      change (copyOps r₁ rest >>= fun p => pure (p.1, op' :: p.2) : StoreM (Renaming × List Op)) s₁ = _
      rw [bind_of_ok e₂]
      rfl
    · rcases mem_cons.1 hx with rfl | hx
      · rw [h₁.code]
        exact hs.1.straight
      · exact h₂.straight x hx
    · rcases mem_cons.1 hx with rfl | hx
      · exact h₁.guard_ge hxg
      · exact Nat.le_trans h₁.later.guards (h₂.new x hx g hxg)
    · rcases mem_cons.1 hx with rfl | hx
      · rcases h₁.descr_or with e | ⟨-, g', -, e⟩
        · exact .inr ⟨op, mem_cons_self, e⟩
        · exact .inl ⟨g', e⟩
      · exact (h₂.old x hx).imp_right fun ⟨op₀, h₀, e⟩ => ⟨op₀, mem_cons_of_mem _ h₀, e⟩
    · have hcode₁ : ∀ g < s₁.guards.size, ((gs[g]?).getD default).code = (s₁.guard g).code := fun g hlt => by
        rw [hcode g (Nat.lt_of_lt_of_le hlt h₂.later.guards), h₂.later.guard g hlt]
      have hq := h₁.quiet (hg op mem_cons_self) hcode₁ fun x hx => hblank x (by
        simp only [mem_cons, not_mem_nil, or_false] at hx
        rcases hx with rfl | rfl <;> simp)
      exact .cons ⟨hs.1, h₁.code, h₁.args, h₁.fail, h₁.descr_or, hq, h₁.rebound hr⟩ (h₂.twins gs hcode fun x hx => hblank x (by
        rcases mem_append.1 hx with hx | hx <;> simp [hx]))

/-! ## The arguments of the second label -/

/-- The boxes that stand for some values from a label on: a box for itself, a new one for a constant, which an operation gives it. -/
inductive Materialized : Nat → List Value → List Op → List Box → Nat → Prop
  | nil {n : Nat} : Materialized n [] [] [] n
  | box {n m : Nat} {args : List Value} {moves : List Op} {xs : List Box} (b : Box) (h : Materialized n args moves xs m) :
      Materialized n (.box b :: args) moves (b :: xs) m
  | const {n m : Nat} {args : List Value} {moves : List Op} {xs : List Box} (c : Const) (h : Materialized (n + 1) args moves xs m) :
      Materialized n (.const c :: args) ({ code := .sameAs, args := [.const c], result := some ⟨n + 1, c.kind⟩ } :: moves) (⟨n + 1, c.kind⟩ :: xs) m

/-- What one argument of the label is made of. -/
def part (v : Value) : StoreM (List Op × Value) := do
  match v with
  | .box _ => pure ([], v)
  | .const c => do
    let b ← Store.newBox c.kind
    pure ([{ code := .sameAs, args := [v], result := some b : Op }], .box b)

theorem materialize_eq (args : List Value) (s : Store) : ∃ moves xs s', materialize args s = .ok (moves, xs.map .box) s' ∧
    Materialized s.boxes args moves xs s'.boxes ∧ s'.guards = s.guards := by
  have hparts : ∃ parts s' xs, args.mapM part s = .ok parts s' ∧ parts.map Prod.snd = xs.map .box ∧
      Materialized s.boxes args (parts.flatMap Prod.fst) xs s'.boxes ∧ s'.guards = s.guards := by
    induction args generalizing s with
    | nil => exact ⟨[], s, [], rfl, rfl, .nil, rfl⟩
    | cons v args ih =>
      rw [mapM_cons]
      cases v with
      | box b =>
        obtain ⟨parts, s', xs, e, hx, hm, hg⟩ := ih s
        refine ⟨([], .box b) :: parts, s', b :: xs, ?_, by simp [hx], .box b hm, hg⟩
        rw [bind_of_ok (show part (.box b) s = .ok ([], .box b) s from rfl), bind_of_ok e]
        rfl
      | const c =>
        obtain ⟨parts, s', xs, e, hx, hm, hg⟩ := ih { s with boxes := s.boxes + 1 }
        have hpart : part (.const c) s = .ok ([{ code := .sameAs, args := [.const c], result := some ⟨s.boxes + 1, c.kind⟩ }],
          .box ⟨s.boxes + 1, c.kind⟩) { s with boxes := s.boxes + 1 } := rfl
        refine ⟨([{ code := .sameAs, args := [.const c], result := some ⟨s.boxes + 1, c.kind⟩ }], .box ⟨s.boxes + 1, c.kind⟩) :: parts, s',
          ⟨s.boxes + 1, c.kind⟩ :: xs, ?_, by simp [hx], .const c hm, hg⟩
        rw [bind_of_ok hpart, bind_of_ok e]
        rfl
  obtain ⟨parts, s', xs, e, hx, hm, hg⟩ := hparts
  refine ⟨_, xs, s', ?_, hm, hg⟩
  change (args.mapM part >>= fun parts => pure (parts.flatMap Prod.fst, parts.map Prod.snd) : StoreM (List Op × List Value)) s = _
  rw [bind_of_ok e, hx]
  rfl

namespace Materialized

theorem descr_eq_none {n m : Nat} {args : List Value} {moves : List Op} {xs : List Box} (h : Materialized n args moves xs m) :
    ∀ op ∈ moves, op.descr = none := by
  induction h with
  | nil => simp
  | box _ _ ih => exact ih
  | const _ _ ih =>
    intro op hop
    rcases mem_cons.1 hop with rfl | hop
    · rfl
    · exact ih op hop

variable {n m : Nat} {args : List Value} {moves : List Op} {xs : List Box}

section

variable (h : Materialized n args moves xs m)
include h

theorem le : n ≤ m := by
  induction h with
  | nil => exact Nat.le_refl _
  | box _ _ ih => exact ih
  | const _ _ ih => omega

theorem length_eq : xs.length = args.length := by
  induction h with
  | nil => rfl
  | box _ _ ih => simp [ih]
  | const _ _ ih => simp [ih]

theorem length_moves : moves.length = args.countP Value.isConst := by
  induction h with
  | nil => rfl
  | box b _ ih => rw [ih, countP_cons_of_neg (by simp [Value.isConst])]
  | const c _ ih => rw [length_cons, ih, countP_cons_of_pos rfl]

theorem of_mem {x : Box} {v : Value} (hx : (x, v) ∈ xs.zip args) : v = .box x ∨ n < x.id ∧ x.id ≤ m ∧ ∃ c, v = .const c := by
  induction h with
  | nil => simp at hx
  | box b _ ih =>
    rcases mem_cons.1 hx with e | hx
    · cases e
      exact .inl rfl
    · exact ih hx
  | const c h ih =>
    rcases mem_cons.1 hx with e | hx
    · cases e
      exact .inr ⟨Nat.lt_succ_self _, h.le, c, rfl⟩
    · rcases ih hx with e | ⟨hlt, hle, hc⟩
      · exact .inl e
      · exact .inr ⟨by omega, hle, hc⟩

/-- A box stands for one value only, even where values are repeated. -/
theorem unique {k : Nat} (hk : k ≤ n) (hargs : ∀ b, .box b ∈ args → b.id ≤ k) {x : Box} {v w : Value}
    (hv : (x, v) ∈ xs.zip args) (hw : (x, w) ∈ xs.zip args) : v = w := by
  induction h with
  | nil => simp at hv
  | @box n m args moves xs b h ih =>
    have hb := hargs b mem_cons_self
    have ih := ih hk fun x hx => hargs x (mem_cons_of_mem _ hx)
    have hrest {w : Value} (hw : (b, w) ∈ xs.zip args) : w = .box b := by
      rcases h.of_mem hw with e | ⟨hlt, -⟩
      · exact e
      · omega
    rcases mem_cons.1 hv with e | hv' <;> rcases mem_cons.1 hw with e' | hw'
    · cases e
      cases e'
      rfl
    · cases e
      exact (hrest hw').symm
    · cases e'
      exact hrest hv'
    · exact ih hv' hw'
  | @const n m args moves xs c h ih =>
    have ih := ih (Nat.le_succ_of_le hk) fun x hx => hargs x (mem_cons_of_mem _ hx)
    have hrest {w : Value} (hw : ((⟨n + 1, c.kind⟩ : Box), w) ∈ xs.zip args) : False := by
      rcases h.of_mem hw with rfl | ⟨hlt, -⟩
      · have := hargs _ (mem_cons_of_mem _ (of_mem_zip hw).2)
        simp at this
        omega
      · simp at hlt
    rcases mem_cons.1 hv with e | hv' <;> rcases mem_cons.1 hw with e' | hw'
    · cases e
      cases e'
      rfl
    · cases e
      exact (hrest hw').elim
    · cases e'
      exact (hrest hv').elim
    · exact ih hv' hw'

end

end Materialized

end FlowCompiler.Trace.Peel
