import FlowCompiler.Flow.Template

/-!
# Graphs from templates leave all others alone

Building a graph adds variables, blocks and links and fills the blocks that it has added.
-/

namespace FlowCompiler

open List Nat

variable {b : BlockId}

/-- All blocks stay as they are; others may come. -/
structure FlowStore.Grows (s s' : FlowStore) : Prop where
  blocks : ∀ {i : Nat} {b : Block}, s.blocks[i]? = some b → s'.blocks[i]? = some b

namespace FlowStore.Grows

variable {s s' s'' : FlowStore}

theorem of_eq (h : s'.blocks = s.blocks) : s.Grows s' := ⟨fun hb => h ▸ hb⟩

theorem trans (h : s.Grows s') (h' : s'.Grows s'') : s.Grows s'' := ⟨fun hb => h'.blocks (h.blocks hb)⟩

theorem block_eq (h : s.Grows s') (hb : s.blocks[b - 1]? ≠ none) : s'.block b = s.block b := by
  obtain ⟨t, ht⟩ := Option.ne_none_iff_exists'.1 hb
  rw [block, block, ht, h.blocks ht]

theorem ops (h : s.Grows s') {i : Nat} {op : FlowOp} (hop : (s.block b).ops[i]? = some op) : (s'.block b).ops[i]? = some op := by
  rwa [h.block_eq]
  intro hb
  rw [block, hb] at hop
  cases hop

end FlowStore.Grows

/-- All blocks and links stay as they are; others may come, and variables. -/
structure FlowStore.Extends (s s' : FlowStore) : Prop where
  blocks : ∀ {i : Nat} {b : Block}, s.blocks[i]? = some b → s'.blocks[i]? = some b
  links : ∀ {i : Nat} {l : Link}, s.links[i]? = some l → s'.links[i]? = some l
  vars : s.vars.size ≤ s'.vars.size

namespace FlowStore.Extends

variable {s s' s'' : FlowStore}

theorem of_eq (h : s'.blocks = s.blocks) (hl : s'.links = s.links) (hv : s.vars.size ≤ s'.vars.size) : s.Extends s' :=
  ⟨fun hb => h ▸ hb, fun hk => hl ▸ hk, hv⟩

theorem refl (s : FlowStore) : s.Extends s := of_eq rfl rfl (Nat.le_refl _)

section

variable (h : s.Extends s')
include h

theorem trans (h' : s'.Extends s'') : s.Extends s'' :=
  ⟨fun hb => h'.blocks (h.blocks hb), fun hl => h'.links (h.links hl), Nat.le_trans h.vars h'.vars⟩

theorem size_blocks : s.blocks.size ≤ s'.blocks.size := by
  rcases Nat.eq_zero_or_pos s.blocks.size with e | hpos
  · exact e ▸ zero_le _
  · have hlast := h.blocks (Array.getElem?_eq_getElem (sub_one_lt_of_lt hpos))
    have := (Array.getElem?_eq_some_iff.1 hlast).1
    omega

theorem size_links : s.links.size ≤ s'.links.size := by
  rcases Nat.eq_zero_or_pos s.links.size with e | hpos
  · exact e ▸ zero_le _
  · have hlast := h.links (Array.getElem?_eq_getElem (sub_one_lt_of_lt hpos))
    have := (Array.getElem?_eq_some_iff.1 hlast).1
    omega

theorem addVar (name : String) : s.Extends (s'.addVar name).2 := h.trans (of_eq rfl rfl (by simp [FlowStore.addVar]))

theorem addBlock (b : Block) : s.Extends (s'.addBlock b).2 := by
  refine h.trans ⟨fun {i} _ hb => ?_, id, Nat.le_refl _⟩
  have hlt := (Array.getElem?_eq_some_iff.1 hb).1
  exact (Array.getElem?_push_lt hlt).trans ((Array.getElem?_eq_getElem hlt).symm.trans hb)

theorem addLink (l : Link) : s.Extends (s'.addLink l).2 := by
  refine h.trans ⟨id, fun {i} _ hl => ?_, Nat.le_refl _⟩
  have hlt := (Array.getElem?_eq_some_iff.1 hl).1
  exact (Array.getElem?_push_lt hlt).trans ((Array.getElem?_eq_getElem hlt).symm.trans hl)

theorem updateBlock {b : Nat} (hb : s.blocks.size < b) (f : Block → Block) : s.Extends (s'.updateBlock b f) := by
  refine ⟨fun {i} _ hi => ?_, h.links, h.vars⟩
  have hlt := (Array.getElem?_eq_some_iff.1 hi).1
  exact (Array.getElem?_modify.trans (if_neg (by omega))).trans (h.blocks hi)

theorem updateLink {l : Nat} (hl : s.links.size ≤ l) (f : Link → Link) : s.Extends (s'.updateLink l f) := by
  refine ⟨h.blocks, fun {i} _ hi => ?_, h.vars⟩
  have hlt := (Array.getElem?_eq_some_iff.1 hi).1
  exact (Array.getElem?_modify.trans (if_neg (by omega))).trans (h.links hi)

theorem closeBlock {b : Nat} (hb : s.blocks.size < b) {ls : List LinkId} (hls : ∀ l ∈ ls, s.links.size ≤ l) : s.Extends (s'.closeBlock b ls) := by
  refine updateBlock ?_ hb _
  induction ls generalizing s' with
  | nil => exact h
  | cons l ls ih => exact ih (h.updateLink (hls l mem_cons_self) _) fun l hl => hls l (mem_cons_of_mem _ hl)

theorem grows : s.Grows s' := ⟨h.blocks⟩

end

end FlowStore.Extends

/-- Graphs are only added, and low-level objects stay as they are. -/
structure Program.Extends (p p' : Program) : Prop where
  flow : p.flow.Extends p'.flow
  low : p'.low = p.low

theorem Program.Extends.trans {p p' p'' : Program} (h : p.Extends p') (h' : p'.Extends p'') : p.Extends p'' :=
  ⟨h.flow.trans h'.flow, h'.low.trans h.low⟩

namespace GraphTemplate

variable {α β γ : Type}

/-! ## Steps that add -/

/-- A step of building that changes nothing that is there. -/
class Adds (m : M α) : Prop where
  spares : ∀ s : Building, s.prog.Extends (m s).2.prog

namespace Adds

theorem flow {f : FlowStore → α × FlowStore} (h : ∀ s : FlowStore, s.Extends (f s).2) : Adds (onFlow f) := ⟨fun s => ⟨h s.prog.flow, rfl⟩⟩

theorem still {m : M α} (h : ∀ s : Building, (m s).2.prog.flow = s.prog.flow) (hl : ∀ s, (m s).2.prog.low = s.prog.low) : Adds m :=
  ⟨fun s => ⟨h s ▸ .refl _, hl s⟩⟩

instance pure (a : α) : Adds (Pure.pure a : M α) := still (fun _ => rfl) fun _ => rfl

instance get : Adds (MonadState.get : M Building) := still (fun _ => rfl) fun _ => rfl

instance bind {m : M α} {f : α → M β} [h : Adds m] [g : ∀ a, Adds (f a)] : Adds (m >>= f) := ⟨fun s => (h.spares s).trans ((g (m s).1).spares _)⟩

instance mapM {xs : List γ} {f : γ → M β} [h : ∀ x, Adds (f x)] : Adds (xs.mapM f) := by
  induction xs with
  | nil => exact pure _
  | cons x xs ih =>
    rw [mapM_cons]
    infer_instance

instance addVar (name : String) : Adds (onFlow (·.addVar name)) := flow fun s => .addVar (.refl s) name

instance addGraph (g : Graph) : Adds (onFlow (·.addGraph g)) := flow fun _ => .of_eq rfl rfl (Nat.le_refl _)

instance define (name : String) : Adds (GraphTemplate.define name) := by
  have known (v : VarId) : Adds (modify fun b => { b with vars := (name, v) :: b.vars } : M PUnit) := still (fun _ => rfl) fun _ => rfl
  refine bind (g := fun b => ?_)
  split <;> infer_instance

instance mention (name : String) : Adds (GraphTemplate.mention name) := by
  refine bind (g := fun b => ?_)
  split <;> infer_instance

instance literal (l : Literal) : Adds (GraphTemplate.literal l) := still (fun _ => rfl) fun _ => rfl

instance argument (t : ArgTemplate) : Adds (GraphTemplate.argument t) := by
  cases t <;> exact bind

instance targetOf (name : String) : Adds (GraphTemplate.targetOf name) := bind

instance operation (t : OpTemplate) : Adds (GraphTemplate.operation t) := by
  refine bind (g := fun args => ?_)
  cases t.result <;> infer_instance

end Adds

/-! ## What a step returns -/

variable {p : Program}

/-- A step of building changes nothing that was there at the start of all, and returns something. -/
def Spares (p : Program) (P : α → Prop) (m : M α) : Prop := ∀ s : Building, p.Extends s.prog → P (m s).1 ∧ p.Extends (m s).2.prog

/-- A link that has been added. -/
abbrev NewLink (p : Program) (l : LinkId) : Prop := p.flow.links.size ≤ l

/-- A block that has been added. -/
abbrev NewBlock (p : Program) (b : BlockId) : Prop := p.flow.blocks.size < b

namespace Spares

variable {P : α → Prop} {Q : β → Prop}

theorem pure {a : α} (h : P a) : Spares p P (Pure.pure a : M α) := fun _ hs => ⟨h, hs⟩

theorem bind {m : M α} {f : α → M β} (hm : Spares p P m) (hf : ∀ a, P a → Spares p Q (f a)) : Spares p Q (m >>= f) := by
  intro s hs
  obtain ⟨ha, hs₁⟩ := hm s hs
  exact hf _ ha _ hs₁

theorem mapM {xs : List γ} {f : γ → M β} (h : ∀ x, Spares p Q (f x)) : Spares p (fun ys => ∀ y ∈ ys, Q y) (xs.mapM f) := by
  induction xs with
  | nil => exact pure nofun
  | cons x xs ih =>
    rw [mapM_cons]
    refine bind (h x) fun y hy => bind ih fun ys hys => pure ?_
    simpa using ⟨hy, hys⟩

theorem forIn {xs : List γ} {f : γ → PUnit → M (ForInStep PUnit)} (h : ∀ x ∈ xs, ∀ u, Spares p (fun _ => True) (f x u)) (u : PUnit) :
    Spares p (fun _ => True) (ForIn.forIn xs u f) := by
  induction xs with
  | nil => exact pure trivial
  | cons x xs ih =>
    rw [forIn_cons]
    refine bind (h x (by simp) u) fun s _ => ?_
    cases s with
    | done _ => exact pure trivial
    | yield _ => exact ih fun y hy => h y (by simp [hy])

theorem adds (m : M α) [h : Adds m] : Spares p (fun _ => True) m := fun s hs => ⟨trivial, hs.trans (h.spares s)⟩

theorem addBlock (b : Block) : Spares p (NewBlock p) (onFlow (·.addBlock b)) :=
  fun _ hs => ⟨lt_succ_of_le hs.flow.size_blocks, hs.flow.addBlock b, hs.low⟩

theorem addLink (l : Link) : Spares p (NewLink p) (onFlow (·.addLink l)) := fun _ hs => ⟨hs.flow.size_links, hs.flow.addLink l, hs.low⟩

theorem changeFlow {f : FlowStore → FlowStore} (h : ∀ s, p.flow.Extends s → p.flow.Extends (f s)) :
    Spares p (fun _ => True) (onFlow fun s => ((), f s)) := fun s hs => ⟨trivial, h s.prog.flow hs.flow, hs.low⟩

theorem link (j : JumpTemplate) (exitCase : Datum) : Spares p (NewLink p) (GraphTemplate.link j exitCase) :=
  bind (adds _) fun _ _ => bind (adds _) fun _ _ => addLink _

theorem handlerLink (h : Literal × JumpTemplate) : Spares p (NewLink p) (GraphTemplate.handlerLink h) :=
  bind (adds _) fun _ _ => bind (adds _) fun _ _ => bind (adds _) fun _ _ => bind (adds _) fun _ _ => bind (adds _) fun _ _ => addLink _

theorem exits (t : ExitTemplate) : Spares p (fun x => ∀ l ∈ x.2, NewLink p l) (GraphTemplate.exits t) := by
  have one {l : LinkId} (hl : NewLink p l) : ∀ l' ∈ [l], NewLink p l' := by simpa using hl
  unfold GraphTemplate.exits
  split
  · exact pure nofun
  · exact bind (link _ _) fun _ hl => pure (one hl)
  · exact bind (link _ _) fun _ hl => pure (one hl)
  · exact bind (adds _) fun _ _ => bind (link _ _) fun _ hf => bind (link _ _) fun _ ht => pure (by simpa using ⟨hf, ht⟩)
  · exact bind (link _ _) fun _ hl => pure (one hl)
  · exact bind (adds _) fun _ _ => bind (mapM fun x => bind (adds _) fun _ _ => link _ _) fun _ hls => pure hls
  · exact bind (link _ _) fun _ hl => bind (mapM handlerLink) fun _ hls => pure (by simpa using ⟨hl, hls⟩)
  · exact bind (mapM fun x => link _ _) fun _ hls => pure hls

theorem openBlock (t : BlockTemplate) : Spares p (NewBlock p) (GraphTemplate.openBlock t) := by
  have named (b : BlockId) : Adds (modify fun s => { s with blocks := s.blocks ++ [(t.name, b)] } : M PUnit) := .still (fun _ => rfl) fun _ => rfl
  exact bind (adds _) fun _ _ => bind (addBlock _) fun b hb => bind (adds _) fun _ _ => pure hb

theorem finalBlocks : Spares p (fun x => NewBlock p x.1) GraphTemplate.finalBlocks := by
  have named (r e : BlockId) : Adds (modify fun s => { s with blocks := s.blocks ++ [("RETURN", r), ("EXCEPT", e)] } : M PUnit) :=
    .still (fun _ => rfl) fun _ => rfl
  exact bind (adds _) fun _ _ => bind (addBlock _) fun r hr => bind (adds _) fun _ _ => bind (adds _) fun _ _ =>
    bind (addBlock _) fun _ _ => bind (adds _) fun _ _ => pure hr

theorem fillBlock (t : BlockTemplate) (hb : NewBlock p b) : Spares p (fun _ => True) (GraphTemplate.fillBlock t b) :=
  bind (adds _) fun _ _ => bind (exits _) fun _ hls => changeFlow fun _ hs => (hs.updateBlock hb _).closeBlock hb hls

theorem buildM (t : GraphTemplate) (name : String) (signature : Signature) (defaults : List Datum) :
    Spares p (fun _ => True) (t.buildM name signature defaults) := by
  refine bind (mapM openBlock) fun bs hbs => bind finalBlocks fun x hx => bind (adds _) fun g _ =>
    bind (forIn (fun y hy _ => bind (fillBlock _ (hbs _ (of_mem_zip hy).2)) fun _ _ => pure trivial) _) fun _ _ => ?_
  split
  · exact bind (mapM fun x => link _ _) fun ls hls => bind (changeFlow fun _ hs => hs.closeBlock hx hls) fun _ _ => pure trivial
  · exact pure trivial

end Spares

theorem build_extends (t : GraphTemplate) (name : String) (signature : Signature) (defaults : List Datum) (p : Program) :
    p.Extends (t.build name signature defaults p).2 :=
  (Spares.buildM t name signature defaults { prog := p, shares := t.shares, labels := t.labels } ⟨.refl _, rfl⟩).2

end GraphTemplate
end FlowCompiler
