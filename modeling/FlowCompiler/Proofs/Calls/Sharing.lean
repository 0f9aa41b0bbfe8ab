import FlowCompiler.Analysis.Call
import FlowCompiler.Proofs.Calls.Keys
import FlowCompiler.Proofs.Lookup
import FlowCompiler.Proofs.Steps.Templates

/-!
# What calls with constants share

A graph or a result that has been made under a key is what every later call with this key gets.  A call with another key gets one of its
own: a template is built anew each time, and a graph that was made beforehand serves one key only.  Between the calls anything may happen
that leaves the function and its description as they are.
-/

namespace FlowCompiler

open List

/-! ## Building

A graph from a template is a new one, and building changes no function. -/

theorem HostStore.evalLiteral_functions (s : HostStore) (l : Literal) : (s.evalLiteral l).2.functions = s.functions := by
  induction l generalizing s with
  | tuple items ih => exact ih s
  | list items ih => exact ih s
  | dict keys values ihk ihv => exact (ihv _).trans (ihk s)
  | cons h t ihh iht => exact (iht _).trans (ihh s)
  | _ => rfl

namespace GraphTemplate

variable {α β γ : Type}

/-- A step of building that takes no graph away, and leaves the functions as they are. -/
class Retains (m : M α) : Prop where
  step : ∀ s : Building, s.prog.flow.graphs.size ≤ (m s).2.prog.flow.graphs.size ∧ (m s).2.prog.host.functions = s.prog.host.functions

namespace Retains

theorem still {m : M α} (h : ∀ s : Building, (m s).2.prog.flow = s.prog.flow) (hf : ∀ s, (m s).2.prog.host.functions = s.prog.host.functions) :
    Retains m := ⟨fun s => ⟨by rw [h], hf s⟩⟩

theorem flow {f : FlowStore → α × FlowStore} (h : ∀ s : FlowStore, s.graphs.size ≤ (f s).2.graphs.size) : Retains (onFlow f) :=
  ⟨fun s => ⟨h s.prog.flow, rfl⟩⟩

instance pure (a : α) : Retains (Pure.pure a : M α) := still (fun _ => rfl) fun _ => rfl

instance get : Retains (MonadState.get : M Building) := still (fun _ => rfl) fun _ => rfl

instance bind {m : M α} {f : α → M β} [h : Retains m] [g : ∀ a, Retains (f a)] : Retains (m >>= f) :=
  ⟨fun s => ⟨(h.step s).1.trans ((g (m s).1).step _).1, ((g (m s).1).step _).2.trans (h.step s).2⟩⟩

instance mapM {xs : List γ} {f : γ → M β} [h : ∀ x, Retains (f x)] : Retains (xs.mapM f) := by
  induction xs with
  | nil => exact pure _
  | cons x xs ih =>
    rw [mapM_cons]
    infer_instance

instance forIn {xs : List γ} {f : γ → β → M (ForInStep β)} {b : β} [h : ∀ x b, Retains (f x b)] : Retains (ForIn.forIn xs b f) := by
  induction xs generalizing b with
  | nil => exact pure _
  | cons x xs ih =>
    rw [forIn_cons]
    refine bind (g := fun r => ?_)
    cases r with
    | done b => exact pure b
    | yield b => exact ih

instance addVar (name : String) : Retains (onFlow (·.addVar name)) := flow fun _ => le_refl _

instance addBlock (b : Block) : Retains (onFlow (·.addBlock b)) := flow fun _ => le_refl _

instance addLink (l : Link) : Retains (onFlow (·.addLink l)) := flow fun _ => le_refl _

theorem closed (s : FlowStore) (b : BlockId) (ls : List LinkId) : (s.closeBlock b ls).graphs = s.graphs := by
  change (ls.foldl (fun s l => s.updateLink l fun k => { k with prev := some b }) s).graphs = s.graphs
  induction ls generalizing s with
  | nil => rfl
  | cons l ls ih => exact ih _

instance define (name : String) : Retains (GraphTemplate.define name) := by
  have known (v : VarId) : Retains (modify fun b => { b with vars := (name, v) :: b.vars } : M PUnit) := still (fun _ => rfl) fun _ => rfl
  refine bind (g := fun b => ?_)
  split <;> infer_instance

instance mention (name : String) : Retains (GraphTemplate.mention name) := by
  refine bind (g := fun b => ?_)
  split <;> infer_instance

instance literal (l : Literal) : Retains (GraphTemplate.literal l) := still (fun _ => rfl) fun s => s.prog.host.evalLiteral_functions l

instance argument (t : ArgTemplate) : Retains (GraphTemplate.argument t) := by
  cases t <;> exact bind

instance link (j : JumpTemplate) (exitCase : Datum) : Retains (GraphTemplate.link j exitCase) :=
  bind (g := fun _ => bind (h := bind))

instance operation (t : OpTemplate) : Retains (GraphTemplate.operation t) := by
  refine bind (g := fun args => ?_)
  cases t.result <;> infer_instance

instance handlerLink (h : Literal × JumpTemplate) : Retains (GraphTemplate.handlerLink h) :=
  bind (g := fun _ => bind (g := fun _ => bind (g := fun _ => bind (g := fun _ => bind (h := bind)))))

instance exits (t : ExitTemplate) : Retains (GraphTemplate.exits t) := by
  cases t <;> first | exact bind | exact pure _

instance openBlock (t : BlockTemplate) : Retains (GraphTemplate.openBlock t) := by
  have named (b : BlockId) : Retains (modify fun s => { s with blocks := s.blocks ++ [(t.name, b)] } : M PUnit) := still (fun _ => rfl) fun _ => rfl
  exact bind

instance finalBlocks : Retains GraphTemplate.finalBlocks := by
  have named (r e : BlockId) : Retains (modify fun s => { s with blocks := s.blocks ++ [("RETURN", r), ("EXCEPT", e)] } : M PUnit) :=
    still (fun _ => rfl) fun _ => rfl
  exact bind

instance fillBlock (t : BlockTemplate) (b : BlockId) : Retains (GraphTemplate.fillBlock t b) := by
  have filled (ops : List FlowOp) (x : Option Operand × List LinkId) : Retains (onFlow fun s =>
      ((), (s.updateBlock b fun k => { k with ops, exitSwitch := x.1 }).closeBlock b x.2)) := flow fun s => by rw [closed]; exact le_refl _
  exact bind (g := fun ops => bind (g := filled ops))

end Retains

/-- What is left to do when a graph has been added. -/
def fill (t : GraphTemplate) (bs : List BlockId) (ret : BlockId) (g : GraphId) : M GraphId := do
  for (bt, b) in t.blocks.zip bs do
    fillBlock bt b
  if !t.returnLinks.isEmpty then
    let ls ← t.returnLinks.mapM (link · .nil)
    onFlow fun s => ((), s.closeBlock ret ls)
  pure g

variable {t : GraphTemplate} {bs : List BlockId} {ret : BlockId} {g : GraphId}

theorem fill_result (s : Building) : (t.fill bs ret g s).1 = g := by
  unfold fill
  by_cases e : t.returnLinks.isEmpty = true <;> simp only [e] <;> rfl

instance : Retains (t.fill bs ret g) := by
  have closing (ls : List LinkId) : Retains (onFlow fun s => ((), s.closeBlock ret ls)) := .flow fun s => by rw [Retains.closed]
  unfold fill
  refine .bind (g := fun _ => ?_)
  dsimp only
  split <;> infer_instance

/-- **Building** gives a graph that was not there, and changes no function. -/
theorem build_new (t : GraphTemplate) (name : String) (signature : Signature) (defaults : List Datum) (p : Program) :
    p.flow.graphs.size ≤ (t.build name signature defaults p).1 ∧
      (t.build name signature defaults p).1 < (t.build name signature defaults p).2.flow.graphs.size ∧
      (t.build name signature defaults p).2.host.functions = p.host.functions := by
  let start : Building := { prog := p, shares := t.shares, labels := t.labels }
  let opened := t.blocks.mapM openBlock start
  let closed := finalBlocks opened.2
  let added := onFlow (·.addGraph { name, start := opened.1.head?, ret := closed.1.1, exc := closed.1.2, signature, defaults }) closed.2
  let filled := t.fill opened.1 closed.1.1 added.1 added.2
  have e : t.build name signature defaults p = (filled.1, filled.2.prog) := rfl
  have h₁ := Retains.step (m := t.blocks.mapM openBlock) start
  have h₂ := Retains.step (m := finalBlocks) opened.2
  have h₃ := Retains.step (m := t.fill opened.1 closed.1.1 added.1) added.2
  have size : added.2.prog.flow.graphs.size = closed.2.prog.flow.graphs.size + 1 := Array.size_push ..
  rw [e, fill_result]
  change _ ≤ closed.2.prog.flow.graphs.size ∧ closed.2.prog.flow.graphs.size < _ ∧ _
  refine ⟨h₁.1.trans h₂.1, ?_, h₃.2.trans (h₂.2.trans h₁.2)⟩
  exact Nat.lt_of_lt_of_le (size ▸ Nat.lt_succ_self _) h₃.1

end GraphTemplate

namespace Ana

variable {u u₁ u₂ : World} {d : DescId} {k : Knot} {key variant : String} {g : GraphId} {names : Datum → String}

/-! ## The graphs of a function -/

theorem funcDesc_of_getElem? {f : FunctionDesc} (h : u.descs[d - 1]? = some (.function f)) : u.funcDesc d = f := by
  simp [World.funcDesc, World.desc, h]

theorem updateFuncDesc_getElem? {f : FunctionDesc} {t : FunctionDesc → FunctionDesc} (h : u.descs[d - 1]? = some (.function f)) :
    (u.updateFuncDesc d t).descs[d - 1]? = some (.function (t f)) := by
  simp [World.updateFuncDesc, World.updateDesc, Array.getElem?_modify, h]

/-- The body that graphs of a function are made from. -/
def bodyOf (u : World) (d : DescId) : Body := (u.prog.host.func (u.funcDesc d).func).body

/-- The graphs of a function differ and are there.  So is the graph that was made beforehand; until it is used no key has it. -/
structure Separate (u : World) (d : DescId) : Prop where
  known : ∃ f, u.descs[d - 1]? = some (.function f)
  nodup : ((u.funcDesc d).cache.map Prod.snd).Nodup
  made : ∀ g ∈ (u.funcDesc d).cache.map Prod.snd, g < u.prog.flow.graphs.size
  unused : ∀ g, bodyOf u d = .once g false → g ∉ (u.funcDesc d).cache.map Prod.snd ∧ g < u.prog.flow.graphs.size

/-- A change that leaves a function and its description as they are, and takes no graph away. -/
structure Passes (d : DescId) (u u' : World) : Prop where
  desc : u'.descs[d - 1]? = u.descs[d - 1]?
  body : bodyOf u' d = bodyOf u d
  graphs : u.prog.flow.graphs.size ≤ u'.prog.flow.graphs.size

theorem Separate.passes (h : Separate u d) (pass : Passes d u u₁) : Separate u₁ d ∧ u₁.funcDesc d = u.funcDesc d := by
  obtain ⟨f, hf⟩ := h.known
  have hf' := pass.desc.trans hf
  have same : u₁.funcDesc d = u.funcDesc d := (funcDesc_of_getElem? hf').trans (funcDesc_of_getElem? hf).symm
  refine ⟨⟨⟨f, hf'⟩, same ▸ h.nodup, fun g hg => (h.made g (same ▸ hg)).trans_le pass.graphs, fun g hg => ?_⟩, same⟩
  obtain ⟨new, made⟩ := h.unused g (pass.body ▸ hg)
  exact ⟨same ▸ new, made.trans_le pass.graphs⟩

/-- What is built for a function is a graph that no key has, and stays so. -/
theorem buildGraph_new (h : Separate u d) (e : buildGraph (u.funcDesc d).func (u.funcDesc d) variant k u = .ok g u₁) :
    u₁.descs = u.descs ∧ g ∉ (u.funcDesc d).cache.map Prod.snd ∧ g < u₁.prog.flow.graphs.size ∧
      u.prog.flow.graphs.size ≤ u₁.prog.flow.graphs.size ∧
      ∀ g', bodyOf u₁ d ≠ .once g' false := by
  obtain ⟨w, w', hget, e⟩ := of_bind_ok (m := get) e
  cases hget
  dsimp only at e
  cases body : (u.prog.host.func (u.funcDesc d).func).body with
  | absent =>
    rw [body] at e
    cases e
  | failing =>
    rw [body] at e
    cases e
  | once g₀ used =>
    rw [body] at e
    cases used with
    | true => cases e
    | false =>
      cases e
      obtain ⟨new, made⟩ := h.unused g body
      refine ⟨rfl, new, made, le_refl _, fun g' unused => ?_⟩
      change (HostStore.func _ (u.funcDesc d).func).body = _ at unused
      simp only [HostStore.func, Array.getElem?_modify, if_true] at unused
      cases found : u.prog.host.functions[(u.funcDesc d).func]? with
      | none =>
        rw [HostStore.func, found] at body
        cases body
      | some k =>
        rw [found] at unused
        cases unused
  | template t =>
    rw [body] at e
    cases e
    obtain ⟨new, made, functions⟩ := t.build_new (u.prog.host.func (u.funcDesc d).func).name (u.prog.host.func (u.funcDesc d).func).signature
      (u.prog.host.func (u.funcDesc d).func).defaults u.prog
    refine ⟨rfl, fun old => ?_, made, new.trans made.le, fun g' unused => ?_⟩
    · exact absurd (h.made _ old) (Nat.not_lt.2 new)
    · have same : (HostStore.func _ (u.funcDesc d).func).body = _ := unused
      rw [HostStore.func, functions] at same
      cases body.symm.trans same

/-- **A graph under a key**: it is found there from now on, and what was found before is still found. -/
theorem cachedGraph_spec (h : Separate u d) (e : cachedGraph d key variant k u = .ok (.graph g) u₁) :
    Separate u₁ d ∧ (u₁.funcDesc d).cache.lookup key = some g ∧ (u.funcDesc d).cache <+: (u₁.funcDesc d).cache := by
  obtain ⟨w, w', hget, e⟩ := of_bind_ok (m := get) e
  cases hget
  cases found : (u.funcDesc d).cache.lookup key with
  | some g₀ =>
    dsimp only at e
    rw [found] at e
    cases e
    exact ⟨h, found, prefix_rfl⟩
  | none =>
    dsimp only at e
    rw [found] at e
    obtain ⟨g₀, w, built, e⟩ := of_bind_ok e
    obtain ⟨descs, new, made, graphs, used⟩ := buildGraph_new h built
    obtain ⟨f, hf⟩ := h.known
    have hw : w.descs[d - 1]? = some (.function f) := descs ▸ hf
    cases e
    suffices ∀ v : World, v.descs[d - 1]? = some (.function { f with cache := f.cache ++ [(key, g)] }) →
        v.prog.flow.graphs.size = w.prog.flow.graphs.size → v.prog.host = w.prog.host →
        Separate v d ∧ (v.funcDesc d).cache.lookup key = some g ∧ (u.funcDesc d).cache <+: (v.funcDesc d).cache from
      this _ (updateFuncDesc_getElem? hw) Array.size_modify rfl
    intro v hv size host
    have before := funcDesc_of_getElem? hf
    have after := funcDesc_of_getElem? hv
    have body : bodyOf v d = bodyOf w d := by
      rw [bodyOf, bodyOf, after, funcDesc_of_getElem? hw, host]
    rw [before] at found new ⊢
    rw [after, lookup_append, found]
    refine ⟨⟨⟨_, hv⟩, ?_, fun g' hg' => ?_, fun g' hg' => absurd (body ▸ hg') (used g')⟩, by simp, prefix_append _ _⟩
    · rw [after, map_append, map_singleton, ← concat_eq_append]
      exact Nodup.concat new (before ▸ h.nodup)
    · rw [after, map_append, map_singleton, mem_append, mem_singleton] at hg'
      rw [size]
      rcases hg' with old | rfl
      · exact (h.made g' (before ▸ old)).trans_le graphs
      · exact made

/-! ## The results of a function -/

/-- A result under a key is found there from now on, if annotating it leaves the description of the function as it is. -/
theorem memoResult_spec {table : MemoTable} {vs : List Datum} {a : Annot} {f : FunctionDesc} (hf : u.descs[d - 1]? = some (.function f))
    (nodup : (f.memo.map Prod.fst).Nodup) (quiet : ∀ v b w, k.immutable v u = .ok b w → w.descs[d - 1]? = u.descs[d - 1]?)
    (e : memoResult d table vs k u = .ok a u₁) : ∃ f', u₁.descs[d - 1]? = some (.function f') ∧ (f'.memo.map Prod.fst).Nodup ∧
      f.memo <+: f'.memo ∧ f'.memo.lookup (keyOf u.prog.host vs) = some a := by
  obtain ⟨h, w', hget, e⟩ := of_bind_ok (m := host) e
  cases hget
  obtain ⟨w, w', hget, e⟩ := of_bind_ok (m := get) e
  cases hget
  rw [funcDesc_of_getElem? hf] at e
  dsimp only at e
  cases found : f.memo.lookup (String.intercalate "," (vs.map (constKey u.prog.host))) with
  | some b =>
    rw [found] at e
    cases e
    exact ⟨f, hf, nodup, prefix_rfl, found⟩
  | none =>
    rw [found] at e
    dsimp only at e
    cases row : table.rows.lookup (String.intercalate "|" (vs.map u.prog.host.text)) <|> table.fallback with
    | none =>
      rw [row] at e
      cases e
    | some v =>
      rw [row] at e
      obtain ⟨b, w, annotated, e⟩ := of_bind_ok e
      have hw : w.descs[d - 1]? = some (.function f) := (quiet v b w annotated).trans hf
      cases e
      refine ⟨_, updateFuncDesc_getElem? hw, ?_, prefix_append _ _, ?_⟩
      · rw [map_append, map_singleton, ← concat_eq_append]
        exact Nodup.concat (Entries.not_mem_of_lookup found) nodup
      · rw [lookup_append, keyOf, found]
        simp

/-! ## Runs of calls -/

/-- A call that was served: its constants, what their keys show of them, and what it got. -/
structure Served (α : Type) where
  constants : List Datum
  shown : List Shown
  given : α

/-- The text of a call by what it shows. -/
def textOf (as : List Shown) : String := String.intercalate "," (as.map Shown.key)

/-- Calls with constants, one after another, and what passes in between; the constants keep their names. -/
inductive Calls {α : Type} (names : Datum → String) (gets : World → List Datum → α → World → Prop) (passes : World → World → Prop) :
    World → List (Served α) → World → Prop
  | nil (u : World) : Calls names gets passes u [] u
  | call {u u₁ u₂ : World} {x : Served α} {log : List (Served α)} (shows : Reveals u.prog.host x.constants x.shown)
      (named : x.constants.map u.prog.host.text = x.constants.map names) (got : gets u x.constants x.given u₁)
      (rest : Calls names gets passes u₁ log u₂) : Calls names gets passes u (x :: log) u₂
  | pass {u u₁ u₂ : World} {log : List (Served α)} (passed : passes u u₁) (rest : Calls names gets passes u₁ log u₂) :
      Calls names gets passes u log u₂

section Served

variable {α : Type} {gets : World → List Datum → α → World → Prop} {passes : World → World → Prop} {log : List (Served α)}

theorem lookup_of_prefix {xs ys : List (String × α)} {a : α} (h : xs <+: ys) (found : xs.lookup key = some a) : ys.lookup key = some a := by
  obtain ⟨zs, rfl⟩ := h
  rw [lookup_append, found, Option.some_or]

/-- **A run of calls**: what each call got is found under what it shows, in a table that calls only add to. -/
theorem Calls.found {Inv : World → Prop} {table : World → List (String × α)} {lead : String}
    (hget : ∀ u vs a u₁, Inv u → gets u vs a u₁ →
      Inv u₁ ∧ table u <+: table u₁ ∧ (table u₁).lookup (lead ++ keyOf u.prog.host vs) = some a)
    (hpass : ∀ u u₁, Inv u → passes u u₁ → Inv u₁ ∧ table u <+: table u₁) (calls : Calls names gets passes u log u₂) (inv : Inv u) :
    Inv u₂ ∧ table u <+: table u₂ ∧ ∀ x ∈ log, (table u₂).lookup (lead ++ textOf x.shown) = some x.given := by
  induction calls with
  | nil u => exact ⟨inv, prefix_rfl, nofun⟩
  | call shows _ got rest ih =>
    obtain ⟨inv, grown, found⟩ := hget _ _ _ _ inv got
    obtain ⟨inv, later, log⟩ := ih inv
    refine ⟨inv, grown.trans later, forall_mem_cons.2 ⟨?_, log⟩⟩
    rw [shows.keyOf_eq] at found
    exact lookup_of_prefix later found
  | pass passed rest ih =>
    obtain ⟨inv, grown⟩ := hpass _ _ inv passed
    obtain ⟨inv, later, log⟩ := ih inv
    exact ⟨inv, grown.trans later, log⟩

theorem Calls.reveals (calls : Calls names gets passes u log u₂) :
    ∀ x ∈ log, ∃ h, Reveals h x.constants x.shown ∧ x.constants.map h.text = x.constants.map names := by
  induction calls with
  | nil => nofun
  | call shows named _ _ ih => exact forall_mem_cons.2 ⟨⟨_, shows, named⟩, ih⟩
  | pass _ _ ih => exact ih

/-- Calls with as many constants share exactly if they show the same, which are the same constants if their kinds are the same. -/
def SharedBy (same : Served α → Served α → Prop) (log : List (Served α)) : Prop :=
  ∀ x ∈ log, ∀ y ∈ log, x.constants.length = y.constants.length → (same x y ↔ x.shown = y.shown) ∧
    (x.constants.map HostStore.typeText = y.constants.map HostStore.typeText → (same x y ↔ x.constants = y.constants))

theorem Calls.sharedBy {same : Served α → Served α → Prop} (calls : Calls names gets passes u log u₂)
    (hs : ∀ x ∈ log, ∀ y ∈ log, same x y ↔ textOf x.shown = textOf y.shown) : SharedBy same log := by
  intro x hx y hy length
  obtain ⟨h, rx, nx⟩ := calls.reveals x hx
  obtain ⟨h', ry, ny⟩ := calls.reveals y hy
  have keys := rx.keyOf_eq_iff ry length
  rw [rx.keyOf_eq, ry.keyOf_eq] at keys
  refine ⟨(hs x hx y hy).trans keys, fun kinds => (hs x hx y hy).trans (keys.trans ⟨fun e => ?_, fun e => ?_⟩)⟩
  · exact (e ▸ rx).eq_of_kinds ry kinds
  · rw [← e] at ry ny
    exact rx.shown_eq ry (nx.trans ny.symm)

end Served

/-! ## Graphs and results -/

/-- A call gets a graph. -/
def GetsGraph (d : DescId) (k : Knot) (u : World) (vs : List Datum) (g : GraphId) (u₁ : World) : Prop :=
  graphByParts d "arg:" (vs.map (constKey u.prog.host)) k u = .ok (.graph g) u₁

theorem graphs_found {log : List (Served GraphId)} (h : Separate u d) (calls : Calls names (GetsGraph d k) (Passes d) u log u₂) :
    Separate u₂ d ∧ ∀ x ∈ log, (u₂.funcDesc d).cache.lookup ("arg:" ++ textOf x.shown) = some x.given := by
  have get (u : World) (vs : List Datum) (g : GraphId) (u₁ : World) (h : Separate u d) (e : GetsGraph d k u vs g u₁) :
      Separate u₁ d ∧ (u.funcDesc d).cache <+: (u₁.funcDesc d).cache ∧
        (u₁.funcDesc d).cache.lookup ("arg:" ++ keyOf u.prog.host vs) = some g := by
    obtain ⟨h, found, grown⟩ := cachedGraph_spec h e
    exact ⟨h, grown, found⟩
  have pass (u u₁ : World) (h : Separate u d) (e : Passes d u u₁) : Separate u₁ d ∧ (u.funcDesc d).cache <+: (u₁.funcDesc d).cache := by
    obtain ⟨h, same⟩ := h.passes e
    exact ⟨h, same ▸ prefix_rfl⟩
  obtain ⟨separate, -, found⟩ := calls.found get pass h
  exact ⟨separate, found⟩

/-- **Graphs are shared** by calls that show the same, and by no others. -/
theorem graphs_shared {log : List (Served GraphId)} (h : Separate u d) (calls : Calls names (GetsGraph d k) (Passes d) u log u₂) :
    SharedBy (fun x y => x.given = y.given) log := by
  obtain ⟨separate, found⟩ := graphs_found h calls
  refine calls.sharedBy fun x hx y hy => ⟨fun e => ?_, fun e => ?_⟩
  · have same := inj_on_of_nodup_map separate.nodup (Entries.mem_of_lookup (found x hx)) (Entries.mem_of_lookup (found y hy)) e
    have texts := congrArg String.toList (Prod.mk.inj same).1
    rw [String.toList_append, String.toList_append] at texts
    exact String.toList_inj.1 (append_cancel_left texts)
  · have fx := found x hx
    rw [e] at fx
    exact Option.some.inj (fx.symm.trans (found y hy))

/-- The results of a function stand under different keys. -/
def Memoizes (u : World) (d : DescId) : Prop := ∃ f, u.descs[d - 1]? = some (.function f) ∧ (f.memo.map Prod.fst).Nodup

/-- A call gets a result of a table, and annotating it leaves the description of the function as it is. -/
def GetsResult (d : DescId) (table : MemoTable) (k : Knot) (u : World) (vs : List Datum) (a : Annot) (u₁ : World) : Prop :=
  memoResult d table vs k u = .ok a u₁ ∧ ∀ v b w, k.immutable v u = .ok b w → w.descs[d - 1]? = u.descs[d - 1]?

theorem results_found {table : MemoTable} {log : List (Served Annot)} (h : Memoizes u d)
    (calls : Calls names (GetsResult d table k) (fun u u' => u'.descs[d - 1]? = u.descs[d - 1]?) u log u₂) :
    Memoizes u₂ d ∧ ∀ x ∈ log, (u₂.funcDesc d).memo.lookup (textOf x.shown) = some x.given := by
  have get (u : World) (vs : List Datum) (a : Annot) (u₁ : World) (h : Memoizes u d) (e : GetsResult d table k u vs a u₁) :
      Memoizes u₁ d ∧ (u.funcDesc d).memo <+: (u₁.funcDesc d).memo ∧ (u₁.funcDesc d).memo.lookup ("" ++ keyOf u.prog.host vs) = some a := by
    obtain ⟨f, hf, nodup⟩ := h
    obtain ⟨f', hf', nodup', grown, found⟩ := memoResult_spec hf nodup e.2 e.1
    rw [funcDesc_of_getElem? hf, funcDesc_of_getElem? hf', String.empty_append]
    exact ⟨⟨f', hf', nodup'⟩, grown, found⟩
  have pass (u u₁ : World) (h : Memoizes u d) (e : u₁.descs[d - 1]? = u.descs[d - 1]?) :
      Memoizes u₁ d ∧ (u.funcDesc d).memo <+: (u₁.funcDesc d).memo := by
    obtain ⟨f, hf, nodup⟩ := h
    have hf' := e.trans hf
    rw [funcDesc_of_getElem? hf, funcDesc_of_getElem? hf']
    exact ⟨⟨f, hf', nodup⟩, prefix_rfl⟩
  obtain ⟨memoizes, -, found⟩ := calls.found get pass h
  refine ⟨memoizes, fun x hx => ?_⟩
  rw [← found x hx, String.empty_append]

/-- **Sharing**.  Calls of a function whose graphs go by the constants share a graph exactly if their keys show the same of the constants;
calls of a function with a table of results share an entry of its memory in the same way.  What the keys show is the same for
the same constants, and for no others of the same kinds.  A call that shows what an earlier one did gets what that one got. -/
theorem constants_share {d e : DescId} {k : Knot} {table : MemoTable} {u u' v v' : World} {calls : List (Served GraphId)}
    {asked : List (Served Annot)} (separate : Separate u d) (graphs : Calls names (GetsGraph d k) (Passes d) u calls u')
    (memoizes : Memoizes v e) (results : Calls names (GetsResult e table k) (fun w w' => w'.descs[e - 1]? = w.descs[e - 1]?) v asked v') :
    SharedBy (fun x y => x.given = y.given) calls ∧
      (∀ x ∈ calls, ∀ ws, Reveals u'.prog.host ws x.shown → GetsGraph d k u' ws x.given u') ∧
      SharedBy (fun x y => textOf x.shown = textOf y.shown) asked ∧ ((v'.funcDesc e).memo.map Prod.fst).Nodup ∧
      (∀ x ∈ asked, (textOf x.shown, x.given) ∈ (v'.funcDesc e).memo) ∧
      ∀ x ∈ asked, ∀ ws, Reveals v'.prog.host ws x.shown → memoResult e table ws k v' = .ok x.given v' := by
  obtain ⟨-, cached⟩ := graphs_found separate graphs
  obtain ⟨⟨f, hf, nodup⟩, known⟩ := results_found memoizes results
  refine ⟨graphs_shared separate graphs, fun x hx ws shows => ?_, results.sharedBy fun _ _ _ _ => Iff.rfl, ?_, fun x hx => ?_,
    fun x hx ws shows => ?_⟩
  · refine cachedGraph_of_found ?_ _
    rw [← cached x hx, textOf, ← shows.keyOf_eq]
    rfl
  · rw [funcDesc_of_getElem? hf]
    exact nodup
  · exact Entries.mem_of_lookup (known x hx)
  · refine memoResult_of_found ?_
    rw [← known x hx, textOf, ← shows.keyOf_eq]

/-- A function with graphs for 97 and 98, and with a result for 97. -/
def madeForTwo : World :=
  { descs := #[.function { name := "f", func := 0, cache := [("arg:97", 0), ("arg:98", 1)], memo := [("97", .bool none [])] }]
    prog := { flow := { graphs := #[default, default] } } }

/-- The character of code 97 gets what was made for the integer 97. -/
theorem constants_share_character : SharedBy (fun x y => x.given = y.given)
      [⟨[.int 97], [.number 97], (0 : GraphId)⟩, ⟨[.rune 97], [.number 97], 0⟩, ⟨[.int 98], [.number 98], 1⟩] ∧
    memoResult 1 ⟨[], none⟩ [.rune 97] (knotAux 0) madeForTwo = .ok (.bool none []) madeForTwo := by
  have clean (n : Int) : ∀ a ∈ [Shown.number n], a.Clean := forall_mem_singleton.2 trivial
  have separate : Separate madeForTwo 1 := ⟨⟨_, rfl⟩, by decide, by decide, nofun⟩
  have memoizes : Memoizes madeForTwo 1 := ⟨_, rfl, by decide⟩
  have calls : Calls madeForTwo.prog.host.text (GetsGraph 1 (knotAux 0)) (Passes 1) madeForTwo
      [⟨[.int 97], [.number 97], 0⟩, ⟨[.rune 97], [.number 97], 0⟩, ⟨[.int 98], [.number 98], 1⟩] madeForTwo :=
    .call ⟨rfl, clean 97⟩ rfl rfl (.call ⟨rfl, clean 97⟩ rfl rfl (.call ⟨rfl, clean 98⟩ rfl rfl (.nil _)))
  have asked : Calls madeForTwo.prog.host.text (GetsResult 1 ⟨[], none⟩ (knotAux 0)) (fun w w' => w'.descs[1 - 1]? = w.descs[1 - 1]?) madeForTwo
      [⟨[.int 97], [.number 97], .bool none []⟩] madeForTwo :=
    .call ⟨rfl, clean 97⟩ rfl ⟨rfl, fun _ _ _ e => by cases e⟩ (.nil _)
  have shared := constants_share separate calls memoizes asked
  exact ⟨shared.1, shared.2.2.2.2.2 _ mem_cons_self [.rune 97] ⟨rfl, clean 97⟩⟩

end Ana
end FlowCompiler
