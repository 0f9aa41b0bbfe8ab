import FlowCompiler.Proofs.Calls.Tables

/-!
# Call tables are closed at the fixed point

The analysis alternates between the flow and the recording of the calls, until recording them has no block wait.  The calls
that are recorded in the last round are those of the bindings the analysis ends with, and nothing that is recorded is lost.

A row has one graph under a key.  Of several members with one key, such as the bound methods of one function, only the
graph of the last one is in the row.
-/

namespace FlowCompiler

open List Std.HashMap

variable {op : FlowOp} {pos : PosKey} {ds : List DescId}

/-! ## Rows of a call -/

namespace Ana

/-- The graphs of the members of a call, by the keys of the members. -/
def picks (key : DescId → DescId) (ds : List DescId) (gs : List (Option GraphId)) : Row := (ds.zip gs).filterMap fun x => x.2.map (key x.1, ·)

theorem lookup_putGraph (row : Row) (x : DescId × GraphId) (key : DescId) :
    (putGraph row x).lookup key = if key == x.1 then some x.2 else row.lookup key := by
  have hnone : (row.filter fun e => !(e.1 == x.1)).lookup x.1 = none := by rw [Entries.lookup_remove, if_pos (beq_self_eq_true _)]
  rw [putGraph, Entries.lookup_concat hnone, Entries.lookup_remove]
  split <;> rfl

theorem lookup_foldl_putGraph (xs row : Row) (key : DescId) : (xs.foldl putGraph row).lookup key = (xs.reverse.lookup key).or (row.lookup key) := by
  induction xs generalizing row with
  | nil => simp
  | cons x xs ih =>
    rw [foldl_cons, ih, lookup_putGraph, reverse_cons, lookup_append, Option.or_assoc, Entries.lookup_cons]
    congr 1
    split <;> simp

-- Two methods of one function have one key.
example : [(1, 7), (1, 8)].foldl putGraph [] = [(1, 8)] := by decide

theorem nodup_foldl_putGraph (xs : Row) {row : Row} (h : (row.map Prod.fst).Nodup) : ((xs.foldl putGraph row).map Prod.fst).Nodup := by
  induction xs generalizing row with
  | nil => exact h
  | cons x xs ih =>
    refine ih ?_
    rw [putGraph, map_append, nodup_append]
    refine ⟨h.sublist (filter_sublist.map _), nodup_singleton _, fun a ha b hb e => ?_⟩
    obtain ⟨y, hy, rfl⟩ := mem_map.1 ha
    obtain rfl := mem_singleton.1 hb
    simpa [e] using (mem_filter.1 hy).2

theorem picks_congr {key key' : DescId → DescId} (h : ∀ d ∈ ds, key d = key' d) (gs : List (Option GraphId)) : picks key ds gs = picks key' ds gs :=
  filterMap_congr fun x hx => by rw [h x.1 (of_mem_zip hx).1]

theorem picks_cons (key : DescId → DescId) (d : DescId) (g : Option GraphId) (ds : List DescId) (gs : List (Option GraphId)) :
    picks key (d :: ds) (g :: gs) = (g.map (key d, ·)).toList ++ picks key ds gs := by
  cases g <;> rfl

end Ana

/-! ## What recording calls keeps -/

namespace World

/-- What stays when calls are recorded.  A variable is only bound to something else when a block is left waiting. -/
structure Records (w w' : World) : Prop where
  flow : w.prog.flow.Grows w'.prog.flow
  sites : w'.progress.sites = w.progress.sites
  pending : ∀ {b : BlockId}, b ∈ w.progress.pending → b ∈ w'.progress.pending
  bound : w'.progress.pending.isEmpty → ∀ v, w'.bound v = w.bound v
  descs : w.descs.size ≤ w'.descs.size
  desc : ∀ {d : Nat}, w.Described d → w'.rowKey d = w.rowKey d ∧ (w'.desc d).kind = (w.desc d).kind

namespace Records

variable {w w' w'' : World}

theorem isEmpty (h : w.Records w') (hw : w'.progress.pending.isEmpty) : w.progress.pending.isEmpty := by
  rw [isEmpty_iff_forall_not_mem] at hw ⊢
  exact fun b hb => hw b (h.pending hb)

theorem trans (h : w.Records w') (h' : w'.Records w'') : w.Records w'' where
  flow := h.flow.trans h'.flow
  sites := h'.sites.trans h.sites
  pending hb := h'.pending (h.pending hb)
  bound hw v := (h'.bound hw v).trans (h.bound (h'.isEmpty hw) v)
  descs := Nat.le_trans h.descs h'.descs
  desc hd := by
    obtain ⟨hkey, hkind⟩ := h.desc hd
    obtain ⟨hkey', hkind'⟩ := h'.desc (hd.mono h.descs)
    exact ⟨hkey'.trans hkey, hkind'.trans hkind⟩

theorem of_calm (h : w.Calm w') : w.Records w' where
  flow := .of_eq (by rw [h.flow])
  sites := h.sites
  pending := h.pending
  bound _ v := by rw [World.bound, World.bound, h.bindings]
  descs := h.descs
  desc := h.desc

theorem of_eq (hf : w.prog.flow.Grows w'.prog.flow) (hp : w'.progress = w.progress) (hd : w'.descs = w.descs) : w.Records w' where
  flow := hf
  sites := by rw [hp]
  pending hb := by rwa [hp]
  bound _ v := by rw [World.bound, World.bound, hp]
  descs := Nat.le_of_eq (congrArg Array.size hd).symm
  desc _ := by simp only [World.rowKey, World.desc, hd, and_self]

theorem of_entered {b : BlockId} (h : w.Entered w' b) : w.Records w' := by
  obtain ⟨w₁, cells, h₁, h₂, hb⟩ := h
  have idle : w.Records w₁ := .of_calm (.of_idle h₁)
  have rest := Records.of_calm (.of_idle h₂)
  refine ⟨idle.flow.trans rest.flow, rest.sites.trans idle.sites, fun hb => rest.pending (idle.pending hb), fun hw => ?_,
    Nat.le_trans idle.descs rest.descs, fun hd => ?_⟩
  · exact absurd hb (isEmpty_iff_forall_not_mem.1 hw b)
  · obtain ⟨hkey, hkind⟩ := idle.desc hd
    obtain ⟨hkey', hkind'⟩ := rest.desc (hd.mono idle.descs)
    exact ⟨hkey'.trans hkey, hkind'.trans hkind⟩

end Records

/-- A state that recording calls can lead to: the two states are in every relation that it keeps to. -/
def LeadsTo (w w' : World) : Prop := ∀ (R : World → World → Prop) [Ana.EndFrame R], R w w'

end World

namespace Ana

instance : EndFrame World.Records where
  trans := .trans
  idle h := .of_calm (.of_idle h)
  calm := .of_calm
  graphs h := .of_eq h.flow.grows rfl rfl
  enter k g b cells := ⟨fun w => (addPendingBlock_enters g b cells k w).elim (fun h => .of_calm (.of_idle h)) .of_entered⟩
  family k d := ⟨fun w => .of_eq (.of_eq rfl) rfl rfl⟩
  join w d e := by
    unfold World.joinFamilies
    split <;> exact .of_eq (.of_eq rfl) rfl rfl
  row w i shape row := .of_eq (.of_eq rfl) rfl rfl
  unreturned w v h := by
    refine ⟨.of_eq rfl, rfl, id, fun _ u => ?_, Nat.le_refl _, fun _ => ⟨rfl, rfl⟩⟩
    rw [World.bound_bindTo]
    split
    · rename_i e
      rw [← e, World.bound, h]
      rfl
    · rfl

instance : EndFrame World.LeadsTo where
  trans h h' R _ := Frame.trans (h R) (h' R)
  idle h _ _ := Frame.idle h
  calm h _ _ := CalmFrame.calm h
  graphs h _ _ := CallFrame.graphs h
  enter k g b cells := ⟨fun w _ _ => (CallFrame.enter k g b cells).to_after w⟩
  family k d := ⟨fun w _ _ => (CallFrame.family k d).to_after w⟩
  join w d e _ _ := CallFrame.join w d e
  row w i shape row _ _ := CallFrame.row w i shape row
  unreturned w v h _ _ := EndFrame.unreturned w v h

end Ana

namespace World

variable {w w' w₀ w₁ : World}

theorem LeadsTo.trans (h : w.LeadsTo w') (h' : w'.LeadsTo w₁) : w.LeadsTo w₁ := fun R _ => Ana.Frame.trans (h R) (h' R)

theorem LeadsTo.records (h : w.LeadsTo w') : w.Records w' := h Records

theorem LeadsTo.tabled (h : w.LeadsTo w') (hw : w.Parted) : w.Tabled w' := h (fun w w' => w.Parted → w.Tabled w') hw

theorem LeadsTo.kind {kind : DescKind} (h : w.LeadsTo w') (hds : ∀ d ∈ ds, w.Described d)
    (hkind : ∀ d ∈ ds.head?, (w'.desc d).kind = kind) : ∀ d ∈ ds.head?, (w.desc d).kind = kind :=
  fun d hd => (h.records.desc (hds d (mem_of_mem_head? hd))).2.symm.trans (hkind d hd)

/-! ## What is recorded for a call -/

/-- What a computation gives on the way from a state to a later one. -/
def Answers (w w' : World) {α : Type} (m : Ana α) (a : α) : Prop := ∃ v v', w.LeadsTo v ∧ m Ana.knot v = .ok a v' ∧ v'.LeadsTo w'

theorem Answers.mono {α : Type} {m : Ana α} {a : α} (h : w.Answers w' m a) (h₀ : w₀.LeadsTo w) (h₁ : w'.LeadsTo w₁) : w₀.Answers w₁ m a := by
  obtain ⟨v, v', hv, e, hv'⟩ := h
  exact ⟨v, v', h₀.trans hv, e, hv'.trans h₁⟩

/-- The members of a call are in one family, and a row for its shape has the graphs that the members use.  Of several members
with one key the row has the graph of the last one. -/
structure Serves (w w' : World) (ds : List DescId) (args : CallArgs) (site : Option PosKey) (shape : CallShape) : Prop where
  known : ∀ d ∈ ds, w'.rowKey d ∈ w'.callPartition.parent
  one : ∀ d ∈ ds, ∀ e ∈ ds, w'.callPartition.rep (w'.rowKey d) = w'.callPartition.rep (w'.rowKey e)
  row : ∃ gs row, List.Forall₂ (fun d g => w.Answers w' (Ana.graphOfCall d args site) g) ds gs ∧
    (∀ key, row.lookup key = (Ana.picks w'.rowKey ds gs).reverse.lookup key) ∧ (row ≠ [] → ∀ d ∈ ds, row ∈ w'.rowsOf (w'.rowKey d) shape)

theorem Serves.mono {args : CallArgs} {site : Option PosKey} {shape : CallShape} (h : w.Serves w' ds args site shape)
    (hw : w'.Parted) (hds : ∀ d ∈ ds, w'.Described d) (h₀ : w₀.LeadsTo w) (h₁ : w'.LeadsTo w₁) : w₀.Serves w₁ ds args site shape := by
  obtain ⟨gs, row, hgs, hrow, hrec⟩ := h.row
  have key (d : DescId) (hd : d ∈ ds) : w₁.rowKey d = w'.rowKey d := (h₁.records.desc (hds d hd)).1
  have t := h₁.tabled hw
  refine ⟨fun d hd => ?_, fun d hd e he => ?_, gs, row, hgs.imp fun _ _ h => h.mono h₀ h₁, fun k => ?_, fun hne d hd => ?_⟩
  · exact key d hd ▸ t.coarser.mem (h.known d hd)
  · rw [key d hd, key e he]
    exact t.coarser.rep (h.known d hd) (h.known e he) (h.one d hd e he)
  · rw [hrow, Ana.picks_congr key]
  · exact key d hd ▸ t.rows (h.known d hd) (hrec hne d hd)

end World

namespace Ana

variable {w w' : World} {args : CallArgs} {site : Option PosKey}

theorem addGraph_ok {d : DescId} {row row' : Row} (h : addGraph args site row d knot w = .ok row' w') :
    ∃ g, graphOfCall d args site knot w = .ok g w' ∧ row' = (picks w.rowKey [d] [g]).foldl putGraph row := by
  obtain ⟨_, _, e, h⟩ := of_bind_ok h
  cases e
  generalize (w.desc d).kind = kind at h
  cases kind
  case frozen => cases h
  case cls => cases h
  -- what can be called has a graph, or none
  all_goals
    obtain ⟨g, w₁, hg, h⟩ := of_bind_ok h
    cases g <;> cases h <;> exact ⟨_, hg, rfl⟩

/-- The row of several descriptions has the graphs that calls of them use. -/
theorem foldlM_addGraph_ok {row row' : Row} (hds : ∀ d ∈ ds, w.Described d) (h : ds.foldlM (addGraph args site) row knot w = .ok row' w') : ∃ gs,
      List.Forall₂ (fun d g => w.Answers w' (graphOfCall d args site) g) ds gs ∧ row' = (picks w.rowKey ds gs).foldl putGraph row := by
  induction ds generalizing row w with
  | nil =>
    cases h
    exact ⟨[], .nil, rfl⟩
  | cons d ds ih =>
    rw [foldlM_cons] at h
    obtain ⟨row₁, w₁, h₁, h⟩ := of_bind_ok h
    obtain ⟨g, hg, rfl⟩ := addGraph_ok h₁
    have lead : w.LeadsTo w₁ := Along.of_ok _ h₁
    have rest : w₁.LeadsTo w' := Along.of_ok _ h
    have hds' (e : DescId) (he : e ∈ ds) : w.Described e := hds e (by simp [he])
    obtain ⟨gs, hgs, rfl⟩ := ih (fun e he => (hds' e he).mono lead.records.descs) h
    refine ⟨g :: gs, .cons ⟨w, w₁, Frame.refl _ w, hg, rest⟩ (hgs.imp fun _ _ h => h.mono lead (Frame.refl _ w')), ?_⟩
    rw [picks_congr fun e he => (lead.records.desc (hds' e he)).1, picks_cons w.rowKey d g ds gs, foldl_append]
    rfl

/-- **A call of functions or methods** is served by the row that is recorded for it. -/
theorem considerFunctions_ok {isMethod : Bool} (hw : w.Parted) (hds : ∀ d ∈ ds, w.Described d)
    (h : considerFunctions ds args site isMethod knot w = .ok ⟨⟩ w') : w.Serves w' ds args site (siteShape isMethod args) := by
  rw [considerFunctions_eq] at h
  obtain ⟨row, w₁, hrow, h⟩ := of_bind_ok h
  have lead : w.LeadsTo w₁ := Along.of_ok _ hrow
  have rest : w₁.LeadsTo w' := by
    have along (i : Nat) (row : Row) : Along World.LeadsTo knot (modify fun w => w.recordRow i (siteShape isMethod args) row : Ana PUnit) :=
      ⟨fun w => CallFrame.row w i _ row⟩
    exact Along.of_ok _ h
  obtain ⟨gs, hgs, rfl⟩ := foldlM_addGraph_ok hds hrow
  obtain ⟨p, fs, e, t, known, one⟩ := mergeCallFamilies_spec (lead.tabled hw).parted ds knot
  rw [bind_of_ok e] at h
  obtain ⟨i, p', fs', e', t', -, hi⟩ := callFamilyOf_spec t.parted (ds.headD 0) knot
  rw [bind_of_ok e'] at h
  cases h
  obtain ⟨-, recorded⟩ := recordRow_spec t'.parted i (siteShape isMethod args)
    (((picks w.rowKey ds gs).foldl putGraph []).mergeSort fun a b => a.1 ≤ b.1)
  refine ⟨fun d hd => t'.coarser.mem (known d hd), fun d hd e he => t'.coarser.rep (known d hd) (known e he) (one d hd e he), gs, _,
    hgs.imp fun _ _ h => h.mono (Frame.refl _ w) rest, fun key => ?_, fun hne d hd => recorded hne (t'.coarser.mem (known d hd)) ?_⟩
  · have nodup : (((picks w.rowKey ds gs).foldl putGraph []).map Prod.fst).Nodup := nodup_foldl_putGraph _ nodup_nil
    rw [← Entries.lookup_of_perm (mergeSort_perm _ _).symm nodup, lookup_foldl_putGraph,
      picks_congr fun d hd => ((lead.trans rest).records.desc (hds d hd)).1]
    simp
  · have hhead : ds.headD 0 ∈ ds := by
      cases ds with
      | nil => cases hd
      | cons d ds => exact mem_cons_self
    have hrep := t'.coarser.rep (known d hd) (known _ hhead) (one d hd _ hhead)
    refine Eq.trans ?_ hi
    exact congrArg p'.infoOf? hrep

/-- **A call of callables other than classes** is served by what is recorded for it. -/
theorem considerCall_ok {nullable : Bool} {result : Annot} {kind : DescKind} (hw : w.Parted)
    (hds : ∀ d ∈ ds, w.Described d) (hkind : ∀ d ∈ ds.head?, (w.desc d).kind = kind) (hcls : kind ≠ .cls)
    (h : considerCall ds nullable args result site knot w = .ok ⟨⟩ w') : w.Serves w' ds args site (siteShape (kind ≠ .function) args) := by
  cases ds with
  | nil => exact ⟨nofun, nofun, [], [], .nil, fun _ => rfl, fun h => absurd rfl h⟩
  | cons d ds =>
    obtain ⟨_, _, e, h⟩ := of_bind_ok h
    cases e
    rw [hkind d rfl] at h
    cases kind with
    | cls => exact absurd rfl hcls
    | frozen =>
      obtain ⟨_, _, -, h⟩ := of_bind_ok h
      cases h
    | function => exact considerFunctions_ok hw hds h
    | method => exact considerFunctions_ok hw hds h
    | frozenMethod => exact considerFunctions_ok hw hds h

end Ana

/-! ## Sites -/

/-- What is recorded for the call at a site.  The callee is annotated as it is at the end.  When it is one of several compile-time
values that have been described, and the first of them is not a class, then all of them are served for the arguments of the call. -/
def World.Closed (w w' : World) (pos : PosKey) (op : FlowOp) : Prop :=
  ∃ a v v', w.LeadsTo v ∧ Ana.bindingOrImpossible ((op.args.head?).getD default) Ana.knot v = .ok a v' ∧ v'.LeadsTo w' ∧
    (∀ x, (op.args.head?).getD default = .var x → a = w'.bound x) ∧
    ∀ ds nullable kind, a = .pbc ds nullable → (∀ d ∈ ds, v'.Described d) → (∀ d ∈ ds.head?, (w'.desc d).kind = kind) → kind ≠ .cls →
      ∃ args, w.Answers w' (Ana.argsOfCall op) args ∧ w.Serves w' ds args (some pos) (Ana.siteShape (kind ≠ .function) args)

namespace Ana

variable {w w' : World}

theorem opAt?_mono (h : w.prog.flow.Grows w'.prog.flow) (hop : opAt? w pos = some op) : opAt? w' pos = some op := by
  unfold opAt? at hop ⊢
  cases hb : pos.block with
  | none => simp [hb] at hop
  | some b =>
    rw [hb] at hop
    dsimp only at hop ⊢
    split at hop
    · rw [if_pos ‹_›]
      exact h.ops hop
    · cases hop

theorem leadsTo_position (w : World) (pos : Option PosKey) : w.LeadsTo { w with position := pos } :=
  fun _ _ => CalmFrame.calm (.of_eq rfl rfl rfl rfl rfl)

theorem of_located_ok {α : Type} {m : Ana α} {k : Knot} {pos : PosKey} {a : α} (h : located pos m k w = .ok a w') : m k w = .ok a w' := by
  change EStateM.tryCatch (m k) (fun f => (do throw (atPlace (← get) pos f) : Ana α) k) w = _ at h
  unfold EStateM.tryCatch at h
  split at h
  · cases h
  · exact h

theorem considerAt_ok {nullable : Bool} {kind : DescKind} (hw : w.Parted) (hds : ∀ d ∈ ds, w.Described d)
    (hkind : ∀ d ∈ ds.head?, (w.desc d).kind = kind) (hcls : kind ≠ .cls) (h : considerAt pos op ds nullable knot w = .ok ⟨⟩ w') : ∃ args,
    w.Answers w' (argsOfCall op) args ∧ w.Serves w' ds args (some pos) (siteShape (kind ≠ .function) args) := by
  obtain ⟨args, w₁, hargs, h⟩ := of_bind_ok h
  obtain ⟨result, w₂, hresult, h⟩ := of_bind_ok h
  obtain ⟨_, _, e, h⟩ := of_bind_ok h
  cases e
  obtain ⟨_, w₃, hcall, h⟩ := of_bind_ok h
  cases h
  have hcall := of_located_ok hcall
  have before : w₁.LeadsTo { w₂ with position := some pos } := .trans (Along.of_ok _ hresult) (leadsTo_position w₂ _)
  have lead : w.LeadsTo { w₂ with position := some pos } := .trans (Along.of_ok _ hargs) before
  have call : World.LeadsTo { w₂ with position := some pos } w₃ := Along.of_ok _ hcall
  have described (d : DescId) (hd : d ∈ ds) := (hds d hd).mono lead.records.descs
  have hkind (d : DescId) (hd : d ∈ ds.head?) : (w₂.desc d).kind = kind := (lead.records.desc (hds d (mem_of_mem_head? hd))).2.trans (hkind d hd)
  have serves := considerCall_ok (lead.tabled hw).parted described hkind hcls hcall
  refine ⟨args, ⟨w, w₁, Frame.refl _ w, hargs, before.trans (call.trans (leadsTo_position w₃ _))⟩, ?_⟩
  exact serves.mono ((lead.trans call).tabled hw).parted (fun d hd => (described d hd).mono call.records.descs) lead (leadsTo_position w₃ _)

/-- **A site that is recorded** is closed, when no block waits then. -/
theorem considerSite_ok (hw : w.Parted) (hop : opAt? w pos = some op)
    (h : considerSite pos knot w = .ok ⟨⟩ w') (hp : w'.progress.pending.isEmpty) : w.Closed w' pos op := by
  have lead : w.LeadsTo w' := Along.of_ok _ h
  obtain ⟨_, _, e, h⟩ := of_bind_ok h
  cases e
  rw [hop] at h
  obtain ⟨a, v, ha, h⟩ := of_bind_ok h
  have lead₁ : w.LeadsTo v := Along.of_ok _ ha
  have rest : v.LeadsTo w' := by
    split at h <;> exact Along.of_ok _ h
  refine ⟨a, w, v, Frame.refl _ w, ha, rest, fun x hx => ?_, fun ds nullable kind e hds hkind hcls => ?_⟩
  · rw [hx] at ha
    cases ha
    exact (lead.records.bound hp x).symm
  · subst e
    obtain ⟨args, hargs, serves⟩ := considerAt_ok (lead₁.tabled hw).parted hds (rest.kind hds hkind) hcls h
    have described (d : DescId) (hd : d ∈ ds) := (hds d hd).mono rest.records.descs
    exact ⟨args, hargs.mono lead₁ (Frame.refl _ w'), serves.mono (lead.tabled hw).parted described lead₁ (Frame.refl _ w')⟩

end Ana

theorem World.Closed.mono {w w' w₀ w₁ : World} (h : w.Closed w' pos op) (hw : w'.Parted) (h₀ : w₀.LeadsTo w)
    (h₁ : w'.LeadsTo w₁) (hp : w₁.progress.pending.isEmpty) : w₀.Closed w₁ pos op := by
  obtain ⟨a, v, v', hv, ha, hv', final, served⟩ := h
  refine ⟨a, v, v', h₀.trans hv, ha, hv'.trans h₁, fun x hx => (final x hx).trans (h₁.records.bound hp x).symm,
    fun ds nullable kind e hds hkind hcls => ?_⟩
  have described (d : DescId) (hd : d ∈ ds) := (hds d hd).mono hv'.records.descs
  obtain ⟨args, hargs, serves⟩ := served ds nullable kind e hds (h₁.kind described hkind) hcls
  exact ⟨args, hargs.mono h₀ h₁, serves.mono hw described h₀ h₁⟩

namespace Ana

variable {w w' : World}

/-! ## Rounds -/

/-- Analyses blocks until none waits and none is left that cannot be analysed. -/
def comeToRest : Ana Unit := do
  drain visitLimit
  checkBlocked

theorem settle_succ (n : Nat) : settle (n + 1) = (do
    comeToRest
    computeAtFixpoint
    if !(← get).progress.pending.isEmpty then settle n) := by
  rw [settle, comeToRest, bind_assoc]

end Ana

/-- The flow comes to rest for the last time: recording the calls has a block wait after each earlier round. -/
inductive World.Rests : World → World → Prop
  | last {w w' : World} (h : Ana.comeToRest Ana.knot w = .ok ⟨⟩ w') : Rests w w'
  | again {w w₁ w₂ w' : World} (h : Ana.comeToRest Ana.knot w = .ok ⟨⟩ w₁) (h' : Ana.computeAtFixpoint Ana.knot w₁ = .ok ⟨⟩ w₂)
      (waits : w₂.progress.pending.isEmpty = false) (rest : Rests w₂ w') : Rests w w'

theorem World.Rests.along {R : World → World → Prop} [Ana.FlowFrame R] {w w' : World} (h : w.Rests w') : R w w' := by
  have rest : Ana.Along R Ana.knot .comeToRest := .bind
  induction h with
  | last h => exact Ana.Along.of_ok _ h
  | again h h' _ _ ih => exact Ana.Frame.trans (Ana.Along.of_ok _ h) (Ana.Frame.trans (Ana.Along.of_ok _ h') ih)

namespace Ana

theorem settle_ok {n : Nat} (h : settle n knot w = .ok ⟨⟩ w') :
    ∃ start, w.Rests start ∧ computeAtFixpoint knot start = .ok ⟨⟩ w' ∧ w'.progress.pending.isEmpty := by
  induction n generalizing w with
  | zero => cases h
  | succ n ih =>
    rw [settle_succ] at h
    obtain ⟨_, w₁, h₁, h⟩ := of_bind_ok h
    obtain ⟨_, w₂, h₂, h⟩ := of_bind_ok h
    obtain ⟨_, _, e, h⟩ := of_bind_ok h
    cases e
    cases hp : w₂.progress.pending.isEmpty with
    | true =>
      rw [hp] at h
      cases h
      exact ⟨w₁, .last h₁, h₂, hp⟩
    | false =>
      rw [hp] at h
      obtain ⟨start, rests, h, hw'⟩ := ih h
      exact ⟨start, .again h₁ h₂ hp rests, h, hw'⟩

theorem forM_bindReturn_ok (gs : List GraphId) (k : Knot) (w : World) :
    ∃ m, (gs.forM bindReturn : Ana PUnit) k w = .ok ⟨⟩ (w.updateProgress fun p => { p with bindings := m }) := by
  induction gs generalizing w with
  | nil => exact ⟨_, rfl⟩
  | cons g gs ih =>
    have hreturn : ∃ m, bindReturn g k w = .ok ⟨⟩ (w.updateProgress fun p => { p with bindings := m }) := by
      change ∃ m, (if (w.progress.bindings[w.prog.flow.returnVar g]?).isNone then bindVar (w.prog.flow.returnVar g) .impossible
        else pure .unit : Ana PUnit) k w = _
      split <;> exact ⟨_, rfl⟩
    obtain ⟨m, e⟩ := hreturn
    obtain ⟨m', e'⟩ := ih (w.updateProgress fun p => { p with bindings := m })
    exact ⟨m', (bind_of_ok e).trans e'⟩

theorem of_atPosition_ok {α : Type} {m : Ana α} {pos : Option PosKey} {k : Knot} {a : α} (h : atPosition pos m k w = .ok a w') :
    ∃ v, m k { w with position := pos } = .ok a v ∧ w' = { v with position := w.position } := by
  obtain ⟨_, _, e, h⟩ := of_bind_ok h
  cases e
  obtain ⟨_, _, e, h⟩ := of_bind_ok h
  cases e
  obtain ⟨r, v, hr, h⟩ := of_bind_ok h
  obtain ⟨_, _, e, h⟩ := of_bind_ok h
  cases e
  change EStateM.tryCatch (.bind (m k) fun a => .pure (.ok a)) (fun f => .pure (Except.error f)) _ = _ at hr
  unfold EStateM.tryCatch EStateM.bind at hr
  cases hm : m k { w with position := pos } with
  | ok b u =>
    rw [hm] at hr
    cases hr
    cases h
    exact ⟨_, rfl, rfl⟩
  | error f u =>
    rw [hm] at hr
    cases hr
    cases h

theorem of_forM_ok {γ : Type} {R : World → World → Prop} [Frame R] {k : Knot} {f : γ → Ana PUnit} [∀ x, Along R k (f x)] {xs : List γ}
    (h : (xs.forM f : Ana PUnit) k w = .ok ⟨⟩ w') {x : γ} (hx : x ∈ xs) : ∃ v v', R w v ∧ f x k v = .ok ⟨⟩ v' ∧ R v' w' := by
  induction xs generalizing w with
  | nil => cases hx
  | cons y ys ih =>
    obtain ⟨_, w₁, hy, hys⟩ := of_bind_ok h
    rcases mem_cons.1 hx with rfl | hx
    · exact ⟨w, w₁, Frame.refl R w, hy, Along.of_ok _ hys⟩
    · obtain ⟨v, v', hv, h, hv'⟩ := ih hys hx
      exact ⟨v, v', Frame.trans (Along.of_ok _ hy) hv, h, hv'⟩

/-- **Recording the calls** closes all sites, when no block waits then. -/
theorem computeAtFixpoint_ok (hw : w.Parted) (h : computeAtFixpoint knot w = .ok ⟨⟩ w') (hp : w'.progress.pending.isEmpty)
    (hpos : pos ∈ w.progress.sites) (hop : opAt? w pos = some op) : w.Closed w' pos op := by
  rw [computeAtFixpoint_eq] at h
  obtain ⟨w₂, hrun, rfl⟩ := of_atPosition_ok h
  obtain ⟨_, _, e, hrun⟩ := of_bind_ok hrun
  cases e
  obtain ⟨_, w₁, hsites, hrest⟩ := of_bind_ok hrun
  obtain ⟨v, v', hv, hsite, hv'⟩ := of_forM_ok (R := World.LeadsTo) hsites (Array.mem_toList_iff.2 hpos)
  have before : w.LeadsTo v := (leadsTo_position w none).trans hv
  have after : v'.LeadsTo { w₂ with position := w.position } := by
    have forget : Along World.LeadsTo knot (modify fun w => { w with emulated := [] } : Ana PUnit) := .calmly fun _ => .of_eq rfl rfl rfl rfl rfl
    exact hv'.trans (.trans (Along.of_ok _ hrest) (leadsTo_position w₂ _))
  have closed := considerSite_ok (before.tabled hw).parted (opAt?_mono before.records.flow hop) hsite (after.records.isEmpty hp)
  exact closed.mono ((before.trans (Along.of_ok _ hsite)).tabled hw).parted before after hp

/-- **Call tables are closed at the fixed point:** when the analysis succeeds, the last time that the flow comes to rest no block
is left waiting by recording the calls, and every site is closed.  Families that are joined for later sites keep it so. -/
theorem tables_closed (hw : w.Parted) (h : complete knot w = .ok ⟨⟩ w') : ∃ start, w.Rests start ∧ lastRound knot start = .ok ⟨⟩ w' ∧
    w'.progress.pending.isEmpty ∧ w'.progress.sites = start.progress.sites ∧
      ∀ pos ∈ w'.progress.sites, ∀ op, opAt? start pos = some op → start.Closed w' pos op := by
  rw [complete_eq] at h
  obtain ⟨_, w₁, hsettle, h⟩ := of_bind_ok h
  obtain ⟨start, rests, hrecord, hp₁⟩ := settle_ok hsettle
  have hround : lastRound knot start = .ok ⟨⟩ w' := (bind_of_ok hrecord).trans h
  have lead : w.Tabled start := rests.along (R := fun w w' => w.Parted → w.Tabled w') hw
  have recorded : start.LeadsTo w₁ := Along.of_ok _ hrecord
  have returned : w₁.LeadsTo w' := Along.of_ok _ h
  obtain ⟨m, e⟩ := forM_bindReturn_ok w₁.progress.graphs.toList knot w₁
  have hp : w'.progress.pending.isEmpty := by
    obtain ⟨_, _, e', h⟩ := of_bind_ok h
    cases e'
    cases e.symm.trans h
    exact hp₁
  have hsites := (recorded.trans returned).records.sites
  refine ⟨start, rests, hround, hp, hsites, fun pos hpos op hop => ?_⟩
  have closed := computeAtFixpoint_ok lead.parted hrecord hp₁ (hsites ▸ hpos) hop
  exact closed.mono (recorded.tabled lead.parted).parted (Frame.refl _ start) returned hp

/-! ## A call of two functions -/

/-- A function that takes nothing and has a graph. -/
def plainFunction (g : GraphId) : Desc := .function { (default : FunctionDesc) with special := some ("default", []), cache := [("", g)] }

/-- A block calls one of two functions through a variable. -/
def callerOfTwo (pos : Option PosKey) : World :=
  { descs := #[plainFunction 7, plainFunction 8]
    prog := { flow := { blocks := #[{ (default : Block) with ops := [{ (default : FlowOp) with name := "simple_call", args := [.var 1] }] }] } }
    position := pos
    progress := { bindings := ({} : Std.HashMap VarId Annot).insert 1 (.pbc [1, 2] false), sites := #[{ block := some 1 }] } }

theorem callerOfTwo_parted (pos : Option PosKey) : (callerOfTwo pos).Parted := .of_empty rfl rfl

theorem considerSite_callerOfTwo : ∃ p fs,
    considerSite { block := some 1 } knot (callerOfTwo none) = .ok ⟨⟩ ((callerOfTwo none).withFamilies p fs) := by
  have hcallee : bindingOrImpossible (.var 1) knot (callerOfTwo none) = .ok (.pbc [1, 2] false) (callerOfTwo none) := by
    change EStateM.Result.ok (((callerOfTwo none).progress.bindings[1]?).getD .impossible) (callerOfTwo none) = _
    simp [callerOfTwo]
  have hcall (pos : Option PosKey) : ∃ p fs, considerCall [1, 2] false { positional := [] } .impossible pos knot (callerOfTwo pos) =
      .ok ⟨⟩ ((callerOfTwo pos).withFamilies p fs) := by
    obtain ⟨p, fs, e, t, -⟩ := mergeCallFamilies_spec (callerOfTwo_parted pos) [1, 2] knot
    obtain ⟨i, p', fs', e', -⟩ := callFamilyOf_spec t.parted ([1, 2].headD 0) knot
    have functions : considerCall [1, 2] false { positional := [] } .impossible pos knot (callerOfTwo pos) =
        considerFunctions [1, 2] { positional := [] } pos false knot (callerOfTwo pos) := rfl
    have hrow : [1, 2].foldlM (addGraph { positional := [] } pos) [] knot (callerOfTwo pos) = .ok [(1, 7), (2, 8)] (callerOfTwo pos) := rfl
    rw [functions, considerFunctions_eq, bind_of_ok hrow, bind_of_ok e, bind_of_ok e']
    exact ⟨_, _, rfl⟩
  obtain ⟨p, fs, e⟩ := hcall (some { block := some 1 })
  refine ⟨p, fs, (bind_of_ok (m := get) rfl).trans ((bind_of_ok hcallee).trans ?_)⟩
  refine (bind_of_ok (m := argsOfCall _) (a := { positional := [] }) rfl).trans ((bind_of_ok (m := resultOf _) rfl).trans ?_)
  exact (bind_of_ok (m := modify _) rfl).trans (bind_of_ok (m := located _ _) (tryCatch_of_ok e))

theorem complete_callerOfTwo : ∃ w', complete knot (callerOfTwo none) = .ok ⟨⟩ w' := by
  obtain ⟨p, fs, e⟩ := considerSite_callerOfTwo
  have hblocked : checkBlocked knot (callerOfTwo none) = .ok ⟨⟩ (callerOfTwo none) := by
    refine (bind_of_ok (m := get) rfl).trans ?_
    rw [show (callerOfTwo none).progress.blocked = {} from rfl, toList_empty, mergeSort_nil]
    rfl
  have hrest : comeToRest knot (callerOfTwo none) = .ok ⟨⟩ (callerOfTwo none) := (bind_of_ok (m := drain visitLimit) rfl).trans hblocked
  have hrecord : computeAtFixpoint knot (callerOfTwo none) = .ok ⟨⟩ ((callerOfTwo none).withFamilies p fs) := by
    have hsites : (do
        (← get).progress.sites.toList.forM considerSite
        (← get).emulated.forM fun c => considerCall c.descs c.nullable { positional := c.args } .impossible none
        modify fun w => { w with emulated := [] } : Ana Unit) knot (callerOfTwo none) = .ok ⟨⟩ ((callerOfTwo none).withFamilies p fs) :=
      (bind_of_ok (m := get) rfl).trans ((bind_of_ok (m := List.forM _ _) ((bind_of_ok e).trans rfl)).trans rfl)
    rw [computeAtFixpoint_eq]
    refine (bind_of_ok (m := get) rfl).trans ((bind_of_ok (m := modify _) rfl).trans ?_)
    exact (bind_of_ok (m := tryCatch _ _) (tryCatch_of_ok ((bind_of_ok hsites).trans rfl))).trans rfl
  have hsettle : settle visitLimit knot (callerOfTwo none) = .ok ⟨⟩ ((callerOfTwo none).withFamilies p fs) := by
    rw [show visitLimit = (visitLimit - 1) + 1 from rfl, settle_succ, bind_of_ok hrest, bind_of_ok hrecord]
    rfl
  refine ⟨(callerOfTwo none).withFamilies p fs, ?_⟩
  rw [complete_eq, bind_of_ok hsettle]
  rfl

theorem tables_closed_callerOfTwo : (callerOfTwo none).Parted ∧ ∃ w', complete knot (callerOfTwo none) = .ok ⟨⟩ w' ∧
    ∃ start, (callerOfTwo none).Rests start ∧ lastRound knot start = .ok ⟨⟩ w' ∧ w'.progress.pending.isEmpty ∧
      w'.progress.sites = start.progress.sites ∧
      ∀ pos ∈ w'.progress.sites, ∀ op, opAt? start pos = some op → start.Closed w' pos op := by
  obtain ⟨w', h⟩ := complete_callerOfTwo
  exact ⟨callerOfTwo_parted none, w', h, tables_closed (callerOfTwo_parted none) h⟩

end Ana
end FlowCompiler
