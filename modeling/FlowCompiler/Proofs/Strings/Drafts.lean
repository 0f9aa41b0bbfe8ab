import FlowCompiler.Proofs.Strings.Results

/-!
# Strings that the trace still writes

A new string is a draft as long as the trace writes its characters.  What a draft stands for changes with each write; no other string
has it as a part, so nothing else changes.  A short draft is virtual, and its characters are noted in its entry; a long one is
allocated, and its string is locked.  The first operation that reads a draft closes it: from then on it stands for its characters.
-/

namespace FlowCompiler.Trace

open OptimizeM Strings Function

variable {R : Option Box} {B U : InfoId → Prop}

/-- Nothing has changed but what is known of one entry. -/
structure OptimizeState.Touches (s : OptimizeState) (i : InfoId) (s' : OptimizeState) : Prop where
  store : s'.store = s.store
  ids : s'.ids = s.ids
  ops : s'.ops = s.ops
  size : s'.infos.size = s.infos.size
  others : ∀ j, j ≠ i → s'.info j = s.info j
  box : (s'.info i).box = (s.info i).box
  key : (s'.info i).key = (s.info i).key

namespace OptimizeState.Touches

variable {s s' : OptimizeState} {i : InfoId}

theorem refl (s : OptimizeState) (i : InfoId) : s.Touches i s := ⟨rfl, rfl, rfl, rfl, fun _ _ => rfl, rfl, rfl⟩

theorem modified {f : Info → Info} (hlt : i < s.infos.size) (hbox : (f (s.info i)).box = (s.info i).box)
    (hkey : (f (s.info i)).key = (s.info i).key) : s.Touches i (s.modified i f) where
  store := rfl
  ids := rfl
  ops := rfl
  size := by simp
  others _ hj := info_modified_of_ne hj
  box := (info_modified hlt).symm ▸ hbox
  key := (info_modified hlt).symm ▸ hkey

theorem box_eq (h : s.Touches i s') (j : InfoId) : (s'.info j).box = (s.info j).box := by
  by_cases hj : j = i
  · exact hj ▸ h.box
  · rw [h.others j hj]

theorem key_eq (h : s.Touches i s') (j : InfoId) : (s'.info j).key = (s.info j).key := by
  by_cases hj : j = i
  · exact hj ▸ h.key
  · rw [h.others j hj]

theorem id?_eq (h : s.Touches i s') (v : Value) : s'.id? v = s.id? v := by rw [OptimizeState.id?, OptimizeState.id?, h.ids]

end OptimizeState.Touches

namespace Scene

variable {σ : Scene} {s s' : OptimizeState} {i j : Nat} {x y : Content} {b d : Prop} {L : Ref → Prop} {v : Value} {n : Int64}

/-- The scene with one string changed: what it stands for, whether it is being allocated, and whether the trace still writes it. -/
def drawing (σ : Scene) (i : InfoId) (x : Content) (b d : Prop) (L : Ref → Prop) : Scene :=
  { σ with
    content := update σ.content i x
    busy := update σ.busy i b
    draft := update σ.draft i d
    locked := L }

theorem content_drawing_self : (σ.drawing i x b d L).content i = x := update_self ..

theorem content_drawing (h : j ≠ i) : (σ.drawing i x b d L).content j = σ.content j := update_of_ne h _ _

theorem busy_drawing_self : (σ.drawing i x b d L).busy i = b := update_self ..

theorem busy_drawing (h : j ≠ i) : (σ.drawing i x b d L).busy j = σ.busy j := update_of_ne h _ _

theorem draft_drawing_self : (σ.drawing i x b d L).draft i = d := update_self ..

theorem draft_drawing (h : j ≠ i) : (σ.drawing i x b d L).draft j = σ.draft j := update_of_ne h _ _

section
variable (ht : s.Touches i s')
include ht

theorem reaches_touches {c : Config} : σ.Reaches s' c ↔ σ.Reaches s c := by rw [Scene.Reaches, Scene.Reaches, ht.store, ht.ops]

theorem defined_touches : σ.Defined s' v ↔ σ.Defined s v := by
  cases v with
  | const k => exact Iff.rfl
  | box b => rw [Scene.Defined, Scene.Defined, ht.ops]

theorem known_touches {b : Box} : σ.Known s' b ↔ σ.Known s b := by rw [Scene.Known, Scene.Known, defined_touches ht, ht.ids]

theorem Gives.drawing (h : σ.Gives s v y) (hL : ∀ r, L r → σ.locked r) : (σ.drawing i x b d L).Gives s' v y where
  defined := (defined_touches ht).2 h.defined
  canon j hj := (ht.box_eq j).trans (h.canon j (ht.id?_eq v ▸ hj))
  const := ht.store ▸ h.const
  given := h.given
  shows c hc := h.shows c ((reaches_touches ht).1 hc)
  unlocked c hc r hr hl := h.unlocked c ((reaches_touches ht).1 hc) r hr (hL r hl)

theorem Gives.number_drawing (h : σ.Gives s v (.num n)) : (σ.drawing i x b d L).Gives s' v (.num n) where
  defined := (defined_touches ht).2 h.defined
  canon j hj := (ht.box_eq j).trans (h.canon j (ht.id?_eq v ▸ hj))
  const := ht.store ▸ h.const
  given := h.given
  shows c hc := h.shows c ((reaches_touches ht).1 hc)
  unlocked c hc r hr _ := by cases (h.shows c ((reaches_touches ht).1 hc)).symm.trans hr

theorem Num.drawing (h : σ.Num s j n) : (σ.drawing i x b d L).Num s' j n := h.imp fun _ hv => ⟨(ht.box_eq j).trans hv.1, hv.2.number_drawing ht⟩

theorem Spells.drawing {c : Option InfoId} {z : Int} (h : σ.Spells s c z) : (σ.drawing i x b d L).Spells s' c z := by
  cases c with
  | none => exact h
  | some j => exact Num.drawing ht h

theorem Builds.drawing {w : Virtual} (h : σ.Builds s j w) (hj : (σ.drawing i x b d L).content j = σ.content j)
    (hpart : ∀ l < j, ¬ σ.draft l → l ≠ i) : (σ.drawing i x b d L).Builds s' j w := by
  have content {l : InfoId} (hl : l ≠ i) : (σ.drawing i x b d L).content l = σ.content l := content_drawing hl
  have free {l : InfoId} (hl : l < j ∧ ¬ σ.draft l) : l < j ∧ ¬ (σ.drawing i x b d L).draft l :=
    ⟨hl.1, (draft_drawing (hpart l hl.1 hl.2)).symm ▸ hl.2⟩
  cases w with
  | plain u chars =>
    obtain ⟨cs, hi, hcs⟩ := h
    exact ⟨cs, hj.trans hi, hcs.imp fun _ _ hx => hx.drawing ht⟩
  | concat u l r length =>
    obtain ⟨hl, hr, p, q, hp, hq, hi, hlen⟩ := h
    exact ⟨free hl, free hr, p, q, (content (hpart l hl.1 hl.2)).trans hp, (content (hpart r hr.1 hr.2)).trans hq, hj.trans hi,
      fun v hv => (hlen v hv).number_drawing ht⟩
  | slice u str start length =>
    obtain ⟨hstr, cs, p, q, hcs, hp, hq, h0, h1, hle, hi⟩ := h
    exact ⟨free hstr, cs, p, q, (content (hpart str hstr.1 hstr.2)).trans hcs, hp.drawing ht, hq.drawing ht, h0, h1, hle, hj.trans hi⟩
  | struct _ _ _ => exact h
  | array _ _ _ => exact h

/-- A draft changes, or a new entry becomes one, or it is one no longer. -/
theorem Sound.drawing (h : σ.Sound s) (hlt : i < s.infos.size) (hpart : σ.draft i ∨ i + 1 = s.infos.size) (hstr : ∃ cs u, x = .str cs u)
    (hvalid : x.Valid) (hunbound : σ.unbound i → b) (hL : ∀ r, L r → σ.locked r) (hdraft : d → (s.info i).box = none ∨ b)
    (hgiven : ∀ c, (σ.given c).isSome = true → s.ids[Value.box c]? ≠ some i) (hplain : (s.info i).isConst = false)
    (hconst : (s'.info i).isConst = false) (hvirt : (s.info i).box = none → (s'.info i).virt ≠ none)
    (hentry : ¬ b → ∀ v, (s.info i).box = some v → (σ.drawing i x b d L).Gives s' v x)
    (hbuilds : ∀ w, (s'.info i).virt = some w → (σ.drawing i x b d L).Builds s' i w) : (σ.drawing i x b d L).Sound s' := by
  exact
    { entry := fun j v hj hv hb => by
        rw [ht.box_eq] at hv
        by_cases e : j = i
        · subst e
          rw [content_drawing_self]
          exact hentry (by rwa [busy_drawing_self] at hb) v hv
        · rw [content_drawing e]
          exact (h.entry j v (ht.size ▸ hj) hv (by rwa [busy_drawing e] at hb)).drawing ht hL
      builds := fun j w hj hw => by
        by_cases e : j = i
        · subst e
          exact hbuilds w hw
        · rw [ht.others j e] at hw
          refine (h.builds j w (ht.size ▸ hj) hw).drawing ht (content_drawing e) fun l hl hd => ?_
          rintro rfl
          rcases hpart with hpart | hpart
          · exact hd hpart
          · exact Nat.lt_irrefl _ (Nat.lt_of_lt_of_le (hpart ▸ Nat.succ_lt_succ hl) (ht.size ▸ hj))
      virtual := fun j hj hv => by
        rw [ht.box_eq] at hv
        by_cases e : j = i
        · subst e
          exact hvirt hv
        · rw [ht.others j e]
          exact h.virtual j (ht.size ▸ hj) hv
      hidden := fun j hj hv => by
        rw [ht.box_eq] at hv
        rw [ht.key_eq, ht.ids]
        obtain ⟨c, hk, hid, hd⟩ := h.hidden j (ht.size ▸ hj) hv
        exact ⟨c, hk, hid, fun hd' => hd ((defined_touches ht).1 hd')⟩
      consts := fun j hc => by
        have e : j ≠ i := by
          rintro rfl
          cases hconst.symm.trans hc
        rw [ht.others j e] at hc ⊢
        rw [content_drawing e, ht.store]
        exact h.consts j hc
      constIds := fun k j hk => by
        obtain ⟨hb, hc⟩ := h.constIds k j (ht.ids ▸ hk)
        have e : j ≠ i := by
          rintro rfl
          cases hplain.symm.trans hc
        rw [ht.others j e]
        exact ⟨hb, hc⟩
      given := fun c cs u j hc hj => by
        rw [ht.ids] at hj
        rw [content_drawing]
        · exact h.given c cs u j hc hj
        · rintro rfl
          exact hgiven c (Option.isSome_iff_exists.2 ⟨_, hc⟩) hj
      ids_lt := fun v j hj => ht.size ▸ h.ids_lt v j (ht.ids ▸ hj)
      last := ht.store ▸ h.last
      boxes := fun c hc => ht.store ▸ h.boxes c ((known_touches ht).1 hc)
      valid := fun j hj => by
        by_cases e : j = i
        · rwa [e, content_drawing_self]
        · rw [content_drawing e]
          exact h.valid j (ht.size ▸ hj)
      busy := fun j hj => by
        rw [ht.size]
        by_cases e : j = i
        · subst e
          rw [content_drawing_self]
          exact ⟨hlt, hstr⟩
        · rw [content_drawing e]
          exact h.busy j (by rwa [busy_drawing e] at hj)
      unbound := fun j hj => by
        by_cases e : j = i
        · subst e
          rw [busy_drawing_self]
          exact hunbound hj
        · rw [busy_drawing e]
          exact h.unbound j hj
      drafts := fun j hj => by
        rw [ht.size, ht.box_eq]
        by_cases e : j = i
        · subst e
          rw [content_drawing_self, busy_drawing_self]
          exact ⟨hstr, hlt, hdraft (by rwa [draft_drawing_self] at hj)⟩
        · rw [content_drawing e, busy_drawing e]
          exact h.drafts j (by rwa [draft_drawing e] at hj)
      plain := fun j hj => by
        by_cases e : j = i
        · exact e ▸ hconst
        · rw [ht.others j e]
          exact h.plain j (by rwa [draft_drawing e] at hj)
      interned := ht.store ▸ h.interned
      runs := by
        rw [ht.store, ht.ops]
        exact h.runs
      kept := fun c hc => h.kept c ((reaches_touches ht).1 hc)
      locked := fun r hr => (h.locked r (hL r hr)).imp id fun hs c hc => hs c ((reaches_touches ht).1 hc) }

theorem Stands.drawing (h : σ.Stands s v y) (hL : ∀ r, L r → σ.locked r) (hi : ∀ cs u, y = .str cs u → s.id? v = some i → σ.draft i) :
    (σ.drawing i x b d L).Stands s' v y := by
  unfold Stands at h ⊢
  rw [ht.id?_eq]
  cases hid : s.id? v with
  | none =>
    rw [hid] at h
    exact ⟨h.1.drawing ht hL, h.2⟩
  | some j =>
    rw [hid] at h
    refine ⟨ht.size ▸ h.1, ?_⟩
    cases y with
    | num n => exact .drawing ht h.2
    | str cs u =>
      have e : j ≠ i := by
        rintro rfl
        exact h.2.1 (hi cs u rfl hid)
      exact ⟨(draft_drawing e).symm ▸ h.2.1, (content_drawing e).trans h.2.2⟩

end

/-! ## Drafts -/

theorem Target.drawing {cs : List Int} {u : Bool} (h : σ.Target s v cs u) (ht : s.Touches i s')
    (hL : ∀ c r, σ.Reaches s c → c.env.val v = .ptr (some r) → σ.locked r → L r) : (σ.drawing i x b d L).Target s' v cs u where
  defined := (defined_touches ht).2 h.defined
  canon k hk := (ht.box_eq k).trans (h.canon k (ht.id?_eq v ▸ hk))
  short := h.short
  shows c hc := by
    have hc := (reaches_touches ht).1 hc
    obtain ⟨r, hr, hv, hstr⟩ := h.shows c hc
    exact ⟨r, hL c r hc hv hr, hv, hstr⟩

theorem Target.altered {cs : List Int} {u : Bool} (h : σ.Target s v cs u) (hL : ∀ r, σ.locked r → L r) : (σ.altered B U L R).Target s v cs u where
  defined := h.defined
  canon := h.canon
  short := h.short
  shows c hc := by
    obtain ⟨r, hr, hv, hstr⟩ := h.shows c hc
    exact ⟨r, hL r hr, hv, hstr⟩

/-- A string that the trace still writes: it is virtual, or it is allocated and locked. -/
structure Drawn (σ : Scene) (s : OptimizeState) (b : Box) (cs : List Int) (u : Bool) (i : InfoId) : Prop where
  named : s.ids[Value.box b]? = some i
  draft : σ.draft i
  content : σ.content i = .str cs u
  key : (s.info i).key = .box b
  plain : (s.info i).isConst = false
  given : ∀ c, (σ.given c).isSome = true → s.ids[Value.box c]? ≠ some i
  unbound : ¬ σ.unbound i
  kind : (¬ σ.busy i ∧ (s.info i).box = none ∧ ∃ w chars, (s.info i).virt = some (.plain w chars)) ∨
    (σ.busy i ∧ (s.info i).box = some (.box b) ∧ (s.info i).virt = none ∧ σ.Target s (.box b) cs u)

namespace Drawn

variable {c : Box} {cs : List Int} {u : Bool} {f : InfoId → Content} {t : Option Value}

section

variable (h : σ.Drawn s c cs u i)
include h

theorem lt (hs : σ.Sound s) : i < s.infos.size := (hs.drafts i h.draft).2.1

theorem grows (hs : σ.Sound s) (hg : σ.Grows s f s') : (σ.naming f).Drawn s' c cs u i := by
  have hinfo := hg.drafts i h.draft
  have hold (w : Value) (hw : σ.Defined s w) (hi : s'.id? w = some i) : s.id? w = some i := by
    obtain hi | ⟨hle, -⟩ | hn := hg.fresh w i hi
    · exact hi
    · exact absurd (h.lt hs) (Nat.not_lt.2 hle)
    · exact absurd hw hn
  exact
    { named := hg.ids (.box c) i h.named
      draft := h.draft
      content := (hg.agrees i (h.lt hs)).trans h.content
      key := hinfo ▸ h.key
      plain := hinfo ▸ h.plain
      given := fun d hd hi => h.given d hd (hold (.box d) (.inl hd) hi)
      unbound := h.unbound
      kind := by
        rw [hinfo]
        refine h.kind.imp id (And.imp id (And.imp id (And.imp id fun ht => ?_)))
        exact
          { defined := hg.defined _ ht.defined
            canon := fun j hj => by
              cases (hg.ids (.box c) i h.named).symm.trans hj
              rw [hinfo]
              exact ht.canon i h.named
            short := ht.short
            shows := fun c' hc' => by
              obtain ⟨c₀, hc₀, hlead⟩ := hg.back c' hc'
              obtain ⟨r, hr, hv, hstr⟩ := ht.shows c₀ hc₀
              exact ⟨r, hr, (hlead.val ht.defined).trans hv, hlead.strings r _ nofun hstr⟩ } }

theorem later (hl : σ.Later t s s')
    (ht : ∀ v, t = some v → σ.Defined s (.box c) → ∀ c₀, σ.Reaches s c₀ → ∀ r, c₀.env c = .ptr (some r) → c₀.env.val v ≠ .ptr (some r)) :
    σ.Drawn s' c cs u i := by
  have hinfo := hl.drafts i h.draft
  exact
    { named := hl.ids ▸ h.named
      draft := h.draft
      content := h.content
      key := hinfo ▸ h.key
      plain := hinfo ▸ h.plain
      given := fun d hd hi => h.given d hd (hl.ids ▸ hi)
      unbound := h.unbound
      kind := by
        rw [hinfo]
        refine h.kind.imp id (And.imp id (And.imp id (And.imp id fun htarget => ?_)))
        exact
          { defined := hl.defined _ htarget.defined
            canon := hl.canon htarget.canon
            short := htarget.short
            shows := fun c' hc' => by
              obtain ⟨c₀, hc₀, hlead⟩ := hl.back c' hc'
              obtain ⟨r, hr, hv, hstr⟩ := htarget.shows c₀ hc₀
              refine ⟨r, hr, (hlead.val htarget.defined).trans hv, hlead.strings r _ (fun v hv' => ?_) hstr⟩
              exact ht v hv' htarget.defined c₀ hc₀ r hv } }

theorem altered (hB : B i ↔ σ.busy i) (hU : U i → σ.unbound i) (hL : ∀ r, σ.locked r → L r) : (σ.altered B U L R).Drawn s c cs u i :=
  { h with
    unbound := fun hu => h.unbound (hU hu)
    kind := h.kind.imp (And.imp (mt hB.1) id) (And.imp hB.2 (And.imp id (And.imp id fun ht => ht.altered hL))) }

theorem asking (R : Option Box) : (σ.asking R).Drawn s c cs u i := h.altered Iff.rfl id fun _ hr => hr

end

theorem drawing (h : σ.Drawn s c cs u j) (ht : s.Touches i s') (hj : j ≠ i)
    (hL : ∀ c₀ r, σ.Reaches s c₀ → c₀.env c = .ptr (some r) → σ.Defined s (.box c) → σ.locked r → L r) : (σ.drawing i x b d L).Drawn s' c cs u j := by
  have hinfo := ht.others j hj
  exact
    { named := ht.ids ▸ h.named
      draft := (draft_drawing hj).symm ▸ h.draft
      content := (content_drawing hj).trans h.content
      key := hinfo ▸ h.key
      plain := hinfo ▸ h.plain
      given := fun e he hi => h.given e he (ht.ids ▸ hi)
      unbound := h.unbound
      kind := by
        rw [hinfo, busy_drawing hj]
        refine h.kind.imp id (And.imp id (And.imp id (And.imp id fun htarget => htarget.drawing ht fun c₀ r hc₀ hr => ?_)))
        exact hL c₀ r hc₀ hr htarget.defined }

theorem written {cs' : List Int} (h : σ.Drawn s c cs u i) (hids : s'.ids = s.ids) (hkey : (s'.info i).key = (s.info i).key)
    (hplain : (s'.info i).isConst = false) (hbox : (s'.info i).box = some (.box c)) (hvirt : (s'.info i).virt = none)
    (ht : (σ.drawing i (.str cs' u) True True L).Target s' (.box c) cs' u) : (σ.drawing i (.str cs' u) True True L).Drawn s' c cs' u i where
  named := hids ▸ h.named
  draft := draft_drawing_self.symm ▸ trivial
  content := content_drawing_self
  key := hkey.trans h.key
  plain := hplain
  given d hd hi := h.given d hd (hids ▸ hi)
  unbound := h.unbound
  kind := .inr ⟨busy_drawing_self.symm ▸ trivial, hbox, hvirt, ht⟩

end Drawn

end Scene

/-! ## Following a trace

What a trace has built so far is a sketch: what its boxes stand for, and which of them are strings that it still writes.  The optimizer
follows the sketch when its state is sound, each closed box stands for what the sketch says, and each string that is still written is a
draft.
-/

/-- What the boxes of a trace stand for, and which of them are strings that the trace still writes. -/
structure Sketch where
  den : Box → Option Content
  draft : Box → Prop

namespace Sketch

/-- A box stands for a content from now on. -/
def bind (k : Sketch) (b : Box) (x : Content) : Sketch := { k with den := update k.den b (some x) }

@[simp] theorem den_bind (k : Sketch) (b : Box) (x : Content) : (k.bind b x).den b = some x := update_self ..

variable {k : Sketch}

theorem den_bind_of_ne {b c : Box} {x : Content} (h : c ≠ b) : (k.bind b x).den c = k.den c := update_of_ne h _ _

/-- A string is written from now on. -/
def opened (k : Sketch) (b : Box) : Sketch := { k with draft := fun c => k.draft c ∨ c = b }

/-- A value is not written any more. -/
def without (k : Sketch) (v : Value) : Sketch := { k with draft := fun c => k.draft c ∧ v ≠ .box c }

theorem without_eq {v : Value} (h : ∀ b, v = .box b → ¬ k.draft b) : k.without v = k := by
  rw [without]
  congr 1
  exact funext fun c => propext ⟨And.left, fun hc => ⟨hc, fun e => h c e hc⟩⟩

/-- The strings among some operands are not written any more. -/
def closed (k : Sketch) (vs : List Value) : Sketch := vs.foldl without k

@[simp] theorem den_closed (k : Sketch) (vs : List Value) : (k.closed vs).den = k.den := by
  induction vs generalizing k with
  | nil => rfl
  | cons v vs ih => exact ih (k.without v)

theorem draft_closed {vs : List Value} {c : Box} : (k.closed vs).draft c ↔ k.draft c ∧ .box c ∉ vs := by
  induction vs generalizing k with
  | nil => simp [closed]
  | cons v vs ih =>
    refine (ih (k := k.without v)).trans ?_
    rw [List.mem_cons, not_or, without, and_assoc]
    exact Iff.and Iff.rfl (Iff.and ne_comm Iff.rfl)

end Sketch

namespace Scene

variable {σ τ : Scene} {k : Sketch} {s s' : OptimizeState} {f : InfoId → Content} {b r : Box} {cs : List Int} {u : Bool} {x : Content}

/-- Two scenes of one run. -/
structure Shares (σ τ : Scene) : Prop where
  start : τ.start = σ.start
  given : τ.given = σ.given
  last : τ.last = σ.last

theorem Shares.refl (σ : Scene) : σ.Shares σ := ⟨rfl, rfl, rfl⟩

theorem Shares.trans {ρ : Scene} (h : σ.Shares τ) (h' : τ.Shares ρ) : σ.Shares ρ :=
  ⟨h'.start.trans h.start, h'.given.trans h.given, h'.last.trans h.last⟩

/-- The boxes of the trace that are known are those of the sketch. -/
def Covers (σ : Scene) (k : Sketch) (s : OptimizeState) : Prop := ∀ b, b.id ≤ σ.last → σ.Known s b → k.den b ≠ none

/-- The boxes of a trace are what the sketch says. -/
structure Traces (σ : Scene) (k : Sketch) (s : OptimizeState) : Prop where
  stands : ∀ b x, k.den b = some x → ¬ k.draft b → σ.Stands s (.box b) x
  drawn : ∀ b, k.draft b → ∃ cs u i, k.den b = some (.str cs u) ∧ σ.Drawn s b cs u i
  /-- Two strings that are written are two strings. -/
  apart : ∀ b c, k.draft b → k.draft c → σ.Defined s (.box b) → σ.Defined s (.box c) → ∀ c₀, σ.Reaches s c₀ → ∀ r,
    c₀.env b = .ptr (some r) → c₀.env c = .ptr (some r) → b = c

/-- The optimizer knows what a trace has built. -/
structure Follows (σ : Scene) (k : Sketch) (s : OptimizeState) : Prop extends σ.Traces k s where
  sound : σ.Sound s
  settled : σ.Settled

theorem Drawn.unique {cs' : List Int} {u' : Bool} {i : Nat} {c : Box} (h : σ.Drawn s b cs u i) (h' : σ.Drawn s c cs' u' i) : b = c := by
  cases h.key.symm.trans h'.key
  rfl

/-- What is defined later of a draft was defined before. -/
theorem Drawn.defined_back {i : Nat} (h : σ.Drawn s b cs u i) (hs' : τ.Sound s') (hd : τ.draft i) (hinfo : s'.info i = s.info i)
    (hb : τ.Defined s' (.box b)) : σ.Defined s (.box b) := by
  rcases h.kind with ⟨-, hbox, -⟩ | ⟨-, -, -, ht⟩
  · obtain ⟨c, hc, -, hn⟩ := hs'.hidden i (hs'.drafts i hd).2.1 (.inl (hinfo ▸ hbox))
    rw [hinfo] at hc
    cases h.key.symm.trans hc
    exact absurd hb hn
  · exact ht.defined

namespace Follows

section

variable (h : σ.Follows k s)
include h

theorem stays_apart (hs' : τ.Sound s') (hdraft : ∀ i, σ.draft i → τ.draft i ∧ s'.info i = s.info i)
    (hback : ∀ c', τ.Reaches s' c' → ∃ c, σ.Reaches s c ∧ ∀ b, σ.Defined s (.box b) → c'.env b = c.env b) :
    ∀ b c, k.draft b → k.draft c → τ.Defined s' (.box b) → τ.Defined s' (.box c) → ∀ c', τ.Reaches s' c' → ∀ r,
      c'.env b = .ptr (some r) → c'.env c = .ptr (some r) → b = c := by
  intro b c hb hc hdb hdc c' hc' r hr hr'
  have back {b : Box} (hb : k.draft b) (hd : τ.Defined s' (.box b)) : σ.Defined s (.box b) := by
    obtain ⟨cs, u, i, -, hdrawn⟩ := h.drawn b hb
    exact hdrawn.defined_back hs' (hdraft i hdrawn.draft).1 (hdraft i hdrawn.draft).2 hd
  obtain ⟨c₀, hc₀, henv⟩ := hback c' hc'
  exact h.apart b c hb hc (back hb hdb) (back hc hdc) c₀ hc₀ r ((henv b (back hb hdb)).symm.trans hr) ((henv c (back hc hdc)).symm.trans hr')

theorem altered {L : Ref → Prop} (hs' : (σ.altered B U L R).Sound s')
    (hl : σ.Later none s s') (hB : ∀ i, σ.draft i → (B i ↔ σ.busy i)) (hU : ∀ i, σ.draft i → U i → σ.unbound i) (hL : ∀ r, σ.locked r → L r)
    (hnew : ∀ r, L r → σ.locked r ∨ ∀ c, σ.Reaches s c → c.store.str? r = none) : (σ.altered B U L R).Traces k s' where
  stands b x hb hd := (h.stands b x hb hd).altered hl hnew
  drawn b hb := by
    obtain ⟨cs, u, i, hden, hdrawn⟩ := h.drawn b hb
    exact ⟨cs, u, i, hden, (hdrawn.later hl nofun).altered (hB i hdrawn.draft) (hU i hdrawn.draft) hL⟩
  apart := h.stays_apart hs' (fun i hi => ⟨hi, hl.drafts i hi⟩) fun c' hc' => (hl.back c' hc').imp fun _ hc => ⟨hc.1, hc.2.env⟩

theorem grows (hs' : (σ.naming f).Sound s') (hg : σ.Grows s f s') : (σ.naming f).Follows k s' where
  sound := hs'
  settled := h.settled
  stands b x hb hd := hg.stands hs' h.sound (h.stands b x hb hd)
  drawn b hb := by
    obtain ⟨cs, u, i, hden, hdrawn⟩ := h.drawn b hb
    exact ⟨cs, u, i, hden, hdrawn.grows h.sound hg⟩
  apart := h.stays_apart hs' (fun i hi => ⟨hi, hg.drafts i hi⟩) fun c' hc' => (hg.back c' hc').imp fun _ hc => ⟨hc.1, hc.2.env⟩

theorem binds (hr : ¬ k.draft r) (hx : σ.Stands s (.box r) x) : σ.Follows (k.bind r x) s where
  sound := h.sound
  settled := h.settled
  stands b y hb hd := by
    by_cases e : b = r
    · subst e
      cases (k.den_bind b x).symm.trans hb
      exact hx
    · exact h.stands b y ((Sketch.den_bind_of_ne e).symm.trans hb) hd
  drawn b hb := by
    obtain ⟨cs, u, i, hden, hdrawn⟩ := h.drawn b hb
    refine ⟨cs, u, i, (Sketch.den_bind_of_ne ?_).trans hden, hdrawn⟩
    rintro rfl
    exact hr hb
  apart := h.apart

theorem asking (R : Option Box) : (σ.asking R).Follows k s where
  toTraces := h.altered (h.sound.asking R) (.refl .none) (fun _ _ => Iff.rfl) (fun _ _ hu => hu) (fun _ hr => hr) fun _ hr => .inl hr
  sound := h.sound.asking R
  settled := h.settled

end

end Follows

theorem Covers.awaits (h : σ.Covers k s) (hr : k.den r = none) (hlast : r.id ≤ σ.last) : (σ.asking (some r)).Awaits s (some r) := by
  rintro b ⟨⟩
  exact ⟨rfl, hlast, fun hk => h r hlast hk hr⟩

theorem Covers.binds (h : σ.Covers k s) (hg : (σ.asking (some r)).Grows s f s') (x : Content) :
    ((σ.asking (some r)).naming f).Covers (k.bind r x) s' := by
  intro b hb hk
  by_cases e : b = r
  · subst e
    rw [Sketch.den_bind]
    exact Option.some_ne_none x
  · rw [Sketch.den_bind_of_ne e]
    exact h b hb ((hg.known b hb hk).resolve_right fun e' => e (Option.some_inj.1 e').symm)

/-- A step of the optimizer succeeds, and after it the optimizer knows what the trace has built. -/
def Advances (σ : Scene) (m : OptimizeM Unit) (s : OptimizeState) (k : Sketch) : Prop :=
  ∃ s' τ, m s = .ok () s' ∧ σ.Shares τ ∧ τ.Follows k s' ∧ τ.Covers k s' ∧ s.store.Strings s'.store ∧ s'.store.calls = s.store.calls

theorem Follows.makes {m : OptimizeM Unit} (h : σ.Follows k s) (hc : σ.Covers k s) (hr : k.den r = none)
    (hm : (σ.asking (some r)).Makes m s fun _ f s' => ((σ.asking (some r)).naming f).Stands s' (.box r) x) : σ.Advances m s (k.bind r x) := by
  obtain ⟨_, s', f, e, hs', hg, hx⟩ := hm
  refine ⟨s', (σ.asking (some r)).naming f, e, ⟨rfl, rfl, rfl⟩, ((h.asking (some r)).grows hs' hg).binds (fun hd => ?_) hx, hc.binds hg x,
    hg.strings, hg.calls⟩
  obtain ⟨cs, u, i, hden, -⟩ := h.drawn r hd
  cases hr.symm.trans hden

end Scene
end FlowCompiler.Trace
