import FlowCompiler.Proofs.Strings.Drafts

/-!
# Writing strings and closing them

The operations that make a string of constant length and write its characters, while the string is virtual and when it is too long to
be, and the end of the writing.
-/

namespace FlowCompiler.Trace

open OptimizeM Strings Option Array Nat

variable {i : Nat} {op : Op} {ch : Int} {v : Value} {n t : Nat} {next : Emit} {m : StringMode} {chars : Array (Option InfoId)}

/-- Makes a string of constant length. -/
abbrev freshOp (m : StringMode) (n : Nat) (r : Box) (t : Nat) : Op := { code := m.newstr, args := [.ofInt n], result := some r, tag := t }

theorem forall₂_set {α β : Type} {R : α → β → Prop} {xs : List α} {ys : List β} (h : List.Forall₂ R xs ys) (p : Nat) {x : α} {y : β}
    (hxy : R x y) : List.Forall₂ R (xs.set p x) (ys.set p y) := by
  induction h generalizing p with
  | nil => exact .nil
  | cons hab h ih =>
    cases p with
    | zero => exact .cons hxy h
    | succ p => exact .cons hab (ih p)

variable {s₀ : OptimizeState} {w : Bool} {s₁ : OptimizeState} {cs' : List Int}

namespace Scene

variable {σ τ : Scene} {k : Sketch} {s s' : OptimizeState} {f : InfoId → Content} {b r : Box} {cs : List Int} {u : Bool} {x : Content}

theorem Shares.known (h : σ.Shares τ) {c : Box} : τ.Known s c ↔ σ.Known s c := by
  rw [Scene.Known, Scene.Known, Scene.Defined, Scene.Defined, h.given]

theorem Shares.covers (h : σ.Shares τ) (hc : σ.Covers k s) : τ.Covers k s := fun c hlast hk => hc c (h.last ▸ hlast) (h.known.1 hk)

theorem Shares.drawing (σ : Scene) (i : InfoId) (x : Content) (b d : Prop) (L : Ref → Prop) : σ.Shares (σ.drawing i x b d L) := ⟨rfl, rfl, rfl⟩

/-! ## Closing -/

theorem Follows.closes_box (h : σ.Follows k s) (hd : k.draft b) : ∃ τ, σ.Shares τ ∧ τ.Follows (k.without (.box b)) s := by
  obtain ⟨cs, u, i, hden, hb⟩ := h.drawn b hd
  let L : Ref → Prop := fun r => σ.locked r ∧ ∀ c, σ.Reaches s c → σ.Defined s (.box b) → c.env b ≠ .ptr (some r)
  have ht := OptimizeState.Touches.refl s i
  have hL : ∀ r, L r → σ.locked r := fun _ hr => hr.1
  have hlt := hb.lt h.sound
  have hvalid := h.sound.valid i hlt
  rw [hb.content] at hvalid
  have hcontent : (σ.drawing i (.str cs u) False False L).content i = σ.content i := content_drawing_self.trans hb.content.symm
  have hs : (σ.drawing i (.str cs u) False False L).Sound s := by
    refine h.sound.drawing ht hlt (.inl hb.draft) ⟨cs, u, rfl⟩ hvalid hb.unbound hL nofun hb.given hb.plain hb.plain
      (fun hbox => h.sound.virtual i hlt hbox) (fun _ v hv => ?_) fun w hw => ?_
    · rcases hb.kind with ⟨-, hbox, -⟩ | ⟨-, hbox, -, htarget⟩
      · cases hv.symm.trans hbox
      · cases hv.symm.trans hbox
        exact
          { defined := htarget.defined
            canon := htarget.canon
            const := nofun
            given := fun c y e hy => by
              cases e
              exact absurd hb.named (hb.given b (isSome_iff_exists.2 ⟨y, hy⟩))
            shows := fun c hc => by
              obtain ⟨r, -, hr, hstr⟩ := htarget.shows c hc
              exact ⟨r, hr, hstr⟩
            unlocked := fun c hc r hr hlock => hlock.2 c hc htarget.defined hr }
    · exact (h.sound.builds i w hlt hw).drawing ht hcontent fun l hl _ => Nat.ne_of_lt hl
  refine ⟨_, .drawing σ i (.str cs u) False False L, { sound := hs, settled := ?_, stands := fun c y hc hnot => ?_, drawn := ?_, apart := ?_ }⟩
  · by_cases e : c = b
    · subst e
      cases hden.symm.trans hc
      refine stands_box hs hb.named ⟨fun hd => ?_, content_drawing_self⟩
      rwa [draft_drawing_self] at hd
    · exact (h.stands c y hc fun hc' => hnot ⟨hc', fun e' => e (by cases e'; rfl)⟩).drawing ht hL fun _ _ _ _ => hb.draft
  · rintro c ⟨hc, hne⟩
    obtain ⟨cs', u', j, hden', hc'⟩ := h.drawn c hc
    refine ⟨cs', u', j, hden', hc'.drawing ht ?_ fun c₀ r hc₀ hr hdef hlock => ⟨hlock, fun c₁ hc₁ hdefb hr' => ?_⟩⟩
    · rintro rfl
      exact hne (congrArg Value.box (hb.unique hc'))
    · cases hc₀.unique hc₁
      exact hne (congrArg Value.box (h.apart b c hd hc hdefb hdef c₀ hc₀ r hr' hr))
  · rintro c d ⟨hc, -⟩ ⟨hd, -⟩
    exact h.apart c d hc hd
  · intro j hj
    by_cases e : j = i
    · subst e
      rw [busy_drawing_self] at hj
      exact hj.elim
    · rw [busy_drawing e] at hj
      rw [draft_drawing e]
      exact h.settled j hj

theorem Follows.closes (h : σ.Follows k s) (vs : List Value) : ∃ τ, σ.Shares τ ∧ τ.Follows (k.closed vs) s := by
  induction vs generalizing σ k with
  | nil => exact ⟨σ, .refl σ, h⟩
  | cons v vs ih =>
    obtain ⟨τ, hτ, h'⟩ : ∃ τ, σ.Shares τ ∧ τ.Follows (k.without v) s := by
      by_cases hv : ∃ b, v = .box b ∧ k.draft b
      · obtain ⟨b, rfl, hb⟩ := hv
        exact h.closes_box hb
      · exact ⟨σ, .refl σ, (Sketch.without_eq fun b e hb => hv ⟨b, e, hb⟩).symm ▸ h⟩
    obtain ⟨ρ, hρ, h''⟩ := ih h'
    exact ⟨ρ, hτ.trans hρ, h''⟩

/-! ## Writing -/

theorem Follows.draws {t : Option Value} {u' : Bool} {B : Prop} (h : σ.Follows k s) (hd : k.draft b) (hb : σ.Drawn s b cs u i) (hs₀ : σ.Sound s₀)
    (hl : σ.Later t s s₀) (htb : ∀ v, t = some v → v = .box b) (ht : s₀.Touches i s') (hs' : (σ.drawing i (.str cs' u') B True σ.locked).Sound s')
    (hb' : (σ.drawing i (.str cs' u') B True σ.locked).Drawn s' b cs' u' i) : (σ.drawing i (.str cs' u') B True σ.locked).Follows (k.bind b
    (.str cs' u')) s' := by
  have later {c : Box} {ds : List Int} {w : Bool} {j : Nat} (hc : k.draft c) (hcb : c ≠ b) (hdrawn : σ.Drawn s c ds w j) :
      σ.Drawn s₀ c ds w j := by
    refine hdrawn.later hl fun v hv hdc c₀ hc₀ r hr hr' => ?_
    cases htb v hv
    exact hcb (h.apart c b hc hd hdc (hl.target _ hv).1 c₀ hc₀ r hr hr')
  have back {c : Box} (hc : k.draft c) (hdef : σ.Defined s₀ (.box c)) : σ.Defined s (.box c) := by
    obtain ⟨_, _, j, -, hdrawn⟩ := h.drawn c hc
    exact hdrawn.defined_back hs₀ hdrawn.draft (hl.drafts j hdrawn.draft) hdef
  exact
    { sound := hs'
      settled := fun j hj => by
        by_cases e : j = i
        · rw [e, draft_drawing_self]
          trivial
        · rw [busy_drawing e] at hj
          rw [draft_drawing e]
          exact h.settled j hj
      stands := fun c y hc hnot => by
        have e : c ≠ b := by
          rintro rfl
          exact hnot hd
        have hc := hl.stands (h.stands c y ((Sketch.den_bind_of_ne e).symm.trans hc) hnot)
        exact hc.drawing ht (fun _ hr => hr) fun _ _ _ _ => hb.draft
      drawn := fun c hc => by
        by_cases e : c = b
        · subst e
          exact ⟨cs', u', i, Sketch.den_bind .., hb'⟩
        · obtain ⟨ds, w, j, hden, hc'⟩ := h.drawn c hc
          refine ⟨ds, w, j, (Sketch.den_bind_of_ne e).trans hden, (later hc e hc').drawing ht ?_ fun _ _ _ _ _ hr => hr⟩
          rintro rfl
          exact e (hc'.unique hb)
      apart := fun c d hc hd hdc hdd c₀ hc₀ r hr hr' => by
        have hdc := (defined_touches ht).1 hdc
        have hdd := (defined_touches ht).1 hdd
        obtain ⟨c₁, hc₁, hlead⟩ := hl.back c₀ ((reaches_touches ht).1 hc₀)
        exact h.apart c d hc hd (back hc hdc) (back hd hdd) c₁ hc₁ r ((hlead.env c (back hc hdc)).symm.trans hr)
          ((hlead.env d (back hd hdd)).symm.trans hr') }

theorem noteChar_eq {i c p : Nat} (hvirt : (s.info i).virt = some (.plain w chars)) : ∃ f : Info → Info, noteChar i p c s = .ok () (s.modified i f) ∧
      f (s.info i) = { s.info i with virt := some (.plain w (chars.setIfInBounds p (some c))) } :=
  ⟨_, rfl, by simp only [hvirt]⟩

theorem Follows.notes {i c p : Nat} (h : σ.Follows k s) (hd : k.draft b) (hb : σ.Drawn s b cs u i) {w : Bool} (hbox : (s.info i).box = none)
    (hvirt : (s.info i).virt = some (.plain w chars)) (hc : σ.Num s c (Int64.ofInt ch)) (hch : Store.isScalar ch = true) :
    ∃ s' τ, noteChar i p c s = .ok () s' ∧ s.Touches i s' ∧ σ.Shares τ ∧ τ.Follows (k.bind b (.str (cs.set p ch) u)) s' := by
  have hlt := hb.lt h.sound
  obtain ⟨f, hrun, hf⟩ := noteChar_eq (p := p) (c := c) hvirt
  have ht : s.Touches i (s.modified i f) := .modified hlt (by rw [hf]) (by rw [hf])
  have hinfo : (s.modified i f).info i = { s.info i with virt := some (.plain w (chars.setIfInBounds p (some c))) } :=
    (OptimizeState.info_modified hlt).trans hf
  obtain ⟨ds, e, hspells⟩ := h.sound.builds i _ hlt hvirt
  cases hb.content.symm.trans e
  have hvalid := h.sound.valid i hlt
  rw [hb.content] at hvalid
  have hunbound : ¬ σ.unbound i := hb.unbound
  have hs' : (σ.drawing i (.str (cs.set p ch) u) False True σ.locked).Sound (s.modified i f) := by
    refine h.sound.drawing ht hlt (.inl hb.draft) ⟨_, _, rfl⟩ (hvalid.set p hch) hunbound
      (fun _ hr => hr) (fun _ => .inl hbox) hb.given hb.plain (by rw [hinfo]; exact hb.plain) (fun _ => by rw [hinfo]; exact some_ne_none _)
      (fun _ v hv => by cases hbox.symm.trans hv) fun v hv => ?_
    rw [hinfo] at hv
    cases hv
    refine ⟨cs.set p ch, content_drawing_self, ?_⟩
    rw [toList_setIfInBounds]
    exact forall₂_set (hspells.imp fun _ _ hx => hx.drawing ht) p (hc.drawing ht)
  refine ⟨s.modified i f, _, hrun, ht, .drawing σ i _ False True σ.locked, h.draws hd hb h.sound (.refl .none) (fun _ e => by cases e) ht hs' ?_⟩
  exact
    { named := hb.named
      draft := draft_drawing_self.symm ▸ trivial
      content := content_drawing_self
      key := ht.key.trans hb.key
      plain := by
        rw [hinfo]
        exact hb.plain
      given := hb.given
      unbound := hunbound
      kind := .inl ⟨fun hbusy => by rwa [busy_drawing_self] at hbusy, ht.box.trans hbox, _, _, congrArg Info.virt hinfo⟩ }

theorem Covers.of_known {k' : Sketch} (h : σ.Covers k s) (hden : ∀ c, k.den c ≠ none → k'.den c ≠ none)
    (hk : ∀ c, c.id ≤ σ.last → σ.Known s' c → σ.Known s c) : σ.Covers k' s' := fun c hlast hc => hden c (h c hlast (hk c hlast hc))

theorem den_bind_ne_none {k : Sketch} {b c : Box} {x : Content} (h : k.den c ≠ none) : (k.bind b x).den c ≠ none := by
  by_cases e : c = b
  · rw [e, Sketch.den_bind]
    exact some_ne_none x
  · rwa [Sketch.den_bind_of_ne e]

theorem indexBelow_of_lt {p n : Nat} (hp : p < n) (hword : p < 2 ^ 63) : indexBelow (some (Int64.ofInt p)) n = some p := by
  have hword := toInt_ofInt_nat hword
  rw [indexBelow, bind_some, if_pos, hword]
  · rfl
  · rw [hword]
    simpa using hp

theorem setItem_eq {i c p : Nat} {s₁ s₂ : OptimizeState} (hargs : op.args = [.box b, .ofInt p, v]) (hid : s.ids[Value.box b]? = some i)
    (hbox : (s.info i).box = none) (hvirt : (s.info i).virt = some (.plain w chars)) (hp : p < chars.size) (hword : p < 2 ^ 63)
    (e₁ : constIntOf (.ofInt p) s = .ok (some (Int64.ofInt p)) s₁) (e₂ : idOf v s₁ = .ok c s₂) : setItem next op s = noteChar i p c s₂ := by
  have hplain : plain? (s.info i) = some (w, chars) := by
    rw [plain?, hvirt, Info.isVirtual, hvirt, hbox]
    rfl
  unfold setItem
  simp only [Op.arg, hargs, List.getElem?_cons_zero, List.getElem?_cons_succ, getD_some]
  refine (bind_eq (idOf_of_id? (s := s) (v := .box b) hid)).trans ((bind_eq rfl).trans ?_)
  rw [hplain]
  refine (bind_eq e₁).trans ?_
  rw [indexBelow_of_lt hp hword]
  exact bind_eq e₂

theorem Follows.sets_virtual {i p : Nat} (h : σ.Follows k s) (hcov : σ.Covers k s) (hd : k.draft b) (hb : σ.Drawn s b cs u i)
    (hbox : (s.info i).box = none) (hvirt : (s.info i).virt = some (.plain w chars)) (hargs : op.args = [.box b, .ofInt p, v]) (hp : p < cs.length)
    (hv : σ.Stands s v (.int ch)) (hch : Store.isScalar ch = true) : σ.Advances (setItem next op) s (k.bind b (.str (cs.set p ch) u)) := by
  have hlt := hb.lt h.sound
  have hvalid := h.sound.valid i hlt
  rw [hb.content] at hvalid
  have hsize : chars.size = cs.length := by
    obtain ⟨ds, e, hspells⟩ := h.sound.builds i _ hlt hvirt
    cases hb.content.symm.trans e
    exact hspells.length_eq
  obtain ⟨_, s₁, f₁, e₁, hs₁, hg₁, rfl, -⟩ := constIntOf_makes h.sound.unasked p
  have h₁ := (h.asking none).grows hs₁ hg₁
  have hb₁ := (hb.asking none).grows h.sound.unasked hg₁
  obtain ⟨c, s₂, f₂, e₂, hs₂, hg₂, hc, -⟩ := idOf_stands hs₁ (hg₁.stands hs₁ h.sound.unasked (hv.asking none))
  have h₂ := h₁.grows hs₂ hg₂
  have hb₂ := hb₁.grows hs₁ hg₂
  have hinfo : s₂.info i = s.info i := (hg₂.drafts i hb₁.draft).trans (hg₁.drafts i hb.draft)
  obtain ⟨s₃, τ, e₃, ht, hτ, h₃⟩ := h₂.notes (p := p) hd hb₂ (hinfo ▸ hbox) (hinfo ▸ hvirt) hc.2 hch
  refine ⟨s₃, τ, ?_, (⟨rfl, rfl, rfl⟩ : σ.Shares ((σ.unasked.naming f₁).naming f₂)).trans hτ, h₃, ?_, ?_, ?_⟩
  · rw [setItem_eq hargs hb.named hbox hvirt (hsize ▸ hp) (Nat.lt_trans hp hvalid.1) e₁ e₂, e₃]
  · refine hτ.covers (.of_known (σ := (σ.unasked.naming f₁).naming f₂) (k := k) (s := s) hcov (fun c => den_bind_ne_none) fun c hlast hk => ?_)
    have hk₂ := (hg₂.known c hlast ((known_touches ht).1 hk)).resolve_right (some_ne_none _).symm
    exact (hg₁.known c hlast hk₂).resolve_right (some_ne_none _).symm
  · rw [ht.store]
    exact hg₁.strings.trans hg₂.strings
  · rw [ht.store]
    exact hg₂.calls.trans hg₁.calls

theorem Sketch.draft_bind {k : Sketch} {b c : Box} {x : Content} : (k.bind b x).draft c ↔ k.draft c := Iff.rfl

theorem Sketch.bind_bind (k : Sketch) (b : Box) (x y : Content) : (k.bind b x).bind b y = k.bind b y := by
  simp only [Sketch.bind, Function.update_idem]

theorem Follows.rewrites {t : Option Value} (h : σ.Follows k s) (hd : k.draft b) (hb : σ.Drawn s b cs u i) (hbox : (s.info i).box = some (.box b))
    (hs₀ : σ.Sound s₀) (hl : σ.Later t s s₀) (htb : ∀ v, t = some v → v = .box b) (ht : s₀.Touches i s') (hplain : (s'.info i).isConst = false)
    (hvirt : (s'.info i).virt = none) (hvalid : (Content.str cs' u).Valid) (htarget : σ.Target s₀ (.box b) cs' u) :
    (σ.drawing i (.str cs' u) True True σ.locked).Follows (k.bind b (.str cs' u)) s' ∧
      (σ.drawing i (.str cs' u) True True σ.locked).Drawn s' b cs' u i ∧
      (σ.drawing i (.str cs' u) True True σ.locked).Target s' (.box b) cs' u := by
  have hinfo := hl.drafts i hb.draft
  have hbox₀ : (s₀.info i).box = some (.box b) := hinfo ▸ hbox
  have hs' : (σ.drawing i (.str cs' u) True True σ.locked).Sound s' := by
    refine hs₀.drawing ht (hl.size ▸ hb.lt h.sound) (.inl hb.draft) ⟨_, _, rfl⟩ hvalid (fun _ => trivial) (fun _ hr => hr)
      (fun _ => .inr trivial) (fun c hc => hl.ids ▸ hb.given c hc) (hinfo ▸ hb.plain) hplain (fun hn => by cases hbox₀.symm.trans hn)
      (fun hn => absurd trivial hn) fun w hw => by cases hvirt.symm.trans hw
  have htarget' : (σ.drawing i (.str cs' u) True True σ.locked).Target s' (.box b) cs' u := htarget.drawing ht fun _ _ _ _ hr => hr
  have hb' : (σ.drawing i (.str cs' u) True True σ.locked).Drawn s' b cs' u i :=
    hb.written (ht.ids.trans hl.ids) (ht.key.trans (congrArg Info.key hinfo)) hplain (ht.box.trans hbox₀) hvirt htarget'
  exact ⟨h.draws hd hb hs₀ hl htb ht hs' hb', hb', htarget'⟩

theorem Follows.sets_allocated {t i p : Nat} (he : Forces (give next)) (h : σ.Follows k s) (hcov : σ.Covers k s) (hd : k.draft b)
    (hb : σ.Drawn s b cs u i) (hbox : (s.info i).box = some (.box b)) (hvirt : (s.info i).virt = none) (htarget : σ.Target s (.box b) cs u)
    (hp : p < cs.length) (hv : σ.Stands s v (.int ch)) (hch : Store.isScalar ch = true) :
    σ.Advances (setItem next { code := m.setitem, args := [.box b, .ofInt p, v], tag := t }) s (k.bind b (.str (cs.set p ch) u)) := by
  have hlt := hb.lt h.sound
  have hvalid := h.sound.valid i hlt
  rw [hb.content] at hvalid
  obtain ⟨hbox', hkey', hvirt', hconst'⟩ := withNonNull_same (s.info i)
  -- the string is known not to be null
  have ht₁ : s.Touches i (s.modified i .withNonNull) := .modified hlt hbox' hkey'
  have hinfo₁ : (s.modified i .withNonNull).info i = (s.info i).withNonNull := OptimizeState.info_modified hlt
  obtain ⟨h₁, hb₁, htarget₁⟩ := (h.asking none).rewrites hd (hb.asking none) hbox (h.asking none).sound (.refl .none) (fun _ e => by cases e) ht₁
    (by rw [hinfo₁, hconst']; exact hb.plain) (by rw [hinfo₁, hvirt', hvirt]) hvalid
    ⟨htarget.defined, htarget.canon, htarget.short, htarget.shows⟩
  have hv₁ := (hv.asking none).drawing ht₁ (x := .str cs u) (b := True) (d := True) (fun _ hr => hr) fun _ _ _ _ => hb.draft
  -- the operation is written out
  have hcode : m.setitem.direct = true := by rcases m with ⟨_ | _⟩ <;> rfl
  obtain ⟨vs, s₂, s₃, e, hs₂, hl₂, -, hvs, hw⟩ := forced_writes { code := m.setitem, args := [.box b, .ofInt p, v], tag := t } [.box b] he
    hcode rfl h₁.sound h₁.settled (by simpa using htarget₁.canon) (.cons (h₁.sound.gives_int p).stands (.cons hv₁ .nil))
  obtain ⟨vp, vch, rfl, hvp, hvch⟩ : ∃ vp vch, vs = [vp, vch] ∧ Gives _ s₂ vp (.int p) ∧ Gives _ s₂ vch (.int ch) := by
    rcases hvs with _ | ⟨hvp, _ | ⟨hvch, _ | _⟩⟩
    exact ⟨_, _, rfl, hvp, hvch⟩
  obtain ⟨hs₃, hl₃, htarget₃⟩ := hs₂.writes_fill hw (htarget₁.later hl₂) rfl (List.length_set : (cs.set p ch).length = _) fun c q hc hq hstr => by
    have hword := toInt_ofInt_nat (Nat.lt_trans hp hvalid.1)
    obtain ⟨store, e, hput⟩ := Config.step_setitem (m := m) hq hstr (hvp.shows c hc) (hvch.shows c hc)
    rw [hword, Int.toNat_natCast, Config.toChar_ofInt hch] at hput
    exact ⟨store, e, hput⟩
  have hl := (hl₂.weaken htarget₁.may).trans hl₃
  have hinfo₃ := (hl.drafts i hb₁.draft).trans hinfo₁
  obtain ⟨h₃, -, -⟩ := h₁.rewrites (Sketch.draft_bind.2 hd) hb₁ (hinfo₁ ▸ hbox'.trans hbox) hs₃ hl (fun _ hv => (some_inj.1 hv).symm)
    (.refl s₃ i) (by rw [hinfo₃, hconst']; exact hb.plain) (by rw [hinfo₃, hvirt', hvirt]) (hvalid.set p hch) htarget₃
  rw [Sketch.bind_bind] at h₃
  have hshares : σ.Shares ((σ.unasked.drawing i (.str cs u) True True σ.locked).drawing i (.str (cs.set p ch) u) True True σ.locked) :=
    ⟨rfl, rfl, rfl⟩
  refine ⟨s₃, _, ?_, hshares, h₃, hshares.covers (hcov.of_known (fun c => den_bind_ne_none) fun c hlast hk => ?_), hl.strings, hl.calls⟩
  · have hplain : plain? (s.info i) = none := by
      rw [plain?, hvirt]
      split <;> first | rfl | cases ‹none = some _›
    refine (bind_eq (idOf_of_id? (s := s) (v := .box b) hb.named)).trans ((bind_eq rfl).trans ?_)
    rw [hplain]
    exact (bind_eq rfl).trans e
  · exact (known_touches ht₁).1 ((hl.known c hlast hk).resolve_right (some_ne_none _).symm)

/-! ## New strings -/

theorem Traces.opens (h : σ.Traces k s) (hs : σ.Sound s) (hset : ∀ j, σ.busy j → σ.draft j ∨ j = i) (hden : k.den r = none) (ht : s.Touches i s')
    (hinfo : s'.info i = s.info i) (hi : i + 1 = s.infos.size) (hnot : ¬ σ.draft i) (hcontent : σ.content i = .str cs u)
    (hother : ∀ b, k.den b ≠ none → s.ids[Value.box b]? ≠ some i) (hr : (σ.drawing i (.str cs u) (σ.busy i) True σ.locked).Drawn s' r cs u i)
    (hfresh : ∀ b, k.draft b → σ.Defined s (.box b) → σ.Defined s (.box r) → ∀ c, σ.Reaches s c → ∀ q, c.env b = .ptr (some q) →
      c.env r ≠ .ptr (some q)) : (σ.drawing i (.str cs u) (σ.busy i) True σ.locked).Follows ((k.bind r (.str cs u)).opened r) s' := by
  have hlt : i < s.infos.size := hi ▸ lt_succ_self i
  have hvalid := hs.valid i hlt
  rw [hcontent] at hvalid
  have hkind := hr.kind
  rw [hinfo, busy_drawing_self] at hkind
  have hdrawn (b : Box) (hb : k.draft b) : b ≠ r := by
    rintro rfl
    obtain ⟨_, _, _, hden', -⟩ := h.drawn b hb
    cases hden.symm.trans hden'
  have hs' : (σ.drawing i (.str cs u) (σ.busy i) True σ.locked).Sound s' := by
    refine hs.drawing ht hlt (.inr hi) ⟨_, _, rfl⟩ hvalid (hs.unbound i) (fun _ hr => hr)
      (fun _ => hkind.elim (fun hv => .inl hv.2.1) fun hb => .inr hb.1)
      (fun c hc => ht.ids ▸ hr.given c hc) (hinfo ▸ hr.plain) hr.plain (fun hn => hinfo.symm ▸ hs.virtual i hlt hn) (fun hb v hv => ?_) fun w hw => ?_
    · rcases hkind with ⟨-, hn, -⟩ | ⟨hb', -⟩
      · cases hn.symm.trans hv
      · exact absurd hb' hb
    · rw [hinfo] at hw
      exact (hs.builds i w hlt hw).drawing ht (content_drawing_self.trans hcontent.symm) fun l hl _ => Nat.ne_of_lt hl
  refine
    { sound := hs'
      stands := fun b y hb hclosed => ?_
      drawn := fun b hb => ?_
      apart := fun b c hb hc hdb hdc c₀ hc₀ q hq hq' => ?_
      settled := fun j hj => ?_ }
  · by_cases e : b = r
    · exact absurd (.inr e) hclosed
    · have hb' := (Sketch.den_bind_of_ne e).symm.trans hb
      refine (h.stands b y hb' fun hb => hclosed (.inl hb)).drawing ht (fun _ hr => hr) fun _ _ _ hid => absurd hid ?_
      exact hother b (by rw [hb']; exact some_ne_none y)
  · rcases hb with hb | rfl
    · obtain ⟨ds, w, j, hden', hj⟩ := h.drawn b hb
      refine ⟨ds, w, j, (Sketch.den_bind_of_ne (hdrawn b hb)).trans hden', hj.drawing ht ?_ fun _ _ _ _ _ hr => hr⟩
      rintro rfl
      exact hnot hj.draft
    · exact ⟨cs, u, i, Sketch.den_bind .., hr⟩
  · replace hdb := (defined_touches ht).1 hdb
    replace hdc := (defined_touches ht).1 hdc
    replace hc₀ := (reaches_touches ht).1 hc₀
    rcases hb with hb | rfl
    · rcases hc with hc | rfl
      · exact h.apart b c hb hc hdb hdc c₀ hc₀ q hq hq'
      · exact absurd hq' (hfresh b hb hdb hdc c₀ hc₀ q hq)
    · rcases hc with hc | rfl
      · exact absurd hq (hfresh c hc hdc hdb c₀ hc₀ q hq')
      · rfl
  · by_cases e : j = i
    · rw [e, draft_drawing_self]
      trivial
    · rw [busy_drawing e] at hj
      rw [draft_drawing e]
      exact (hset j hj).resolve_right e

theorem Grows.other_id (hg : σ.Grows s f s') (hs : σ.Sound s) (hv : σ.Defined s v ∨ s.id? v ≠ none)
    (hbox : (s'.info s.infos.size).box ≠ some v) : s'.id? v ≠ some s.infos.size := by
  intro hid
  have hold {j : InfoId} (hj : s.id? v = some j) : j < s.infos.size := by
    obtain ⟨w, -, hj⟩ := bind_eq_some_iff.1 hj
    exact hs.ids_lt w j hj
  obtain hj | ⟨-, hb⟩ | hn := hg.fresh v _ hid
  · exact Nat.lt_irrefl _ (hold hj)
  · exact hbox hb
  · obtain ⟨j, hj⟩ := ne_none_iff_exists'.1 (hv.resolve_left hn)
    cases (hg.ids v j hj).symm.trans hid
    exact Nat.lt_irrefl _ (hold hj)

theorem Follows.known (h : σ.Follows k s) (hb : k.den b ≠ none) : σ.Defined s (.box b) ∨ s.id? (.box b) ≠ none := by
  by_cases hd : k.draft b
  · obtain ⟨_, _, i, -, hdrawn⟩ := h.drawn b hd
    exact .inr (by rw [OptimizeState.id?_box, hdrawn.named]; exact some_ne_none i)
  · obtain ⟨x, hx⟩ := ne_none_iff_exists'.1 hb
    have hstands := h.stands b x hx hd
    unfold Stands at hstands
    cases hi : s.id? (.box b) with
    | none =>
      rw [hi] at hstands
      exact .inl hstands.1.defined
    | some i => exact .inr (some_ne_none i)

theorem spells_blank (n : Nat) : List.Forall₂ (σ.Spells s) (Array.replicate n none).toList (List.replicate n 0) := by
  induction n with
  | zero => exact .nil
  | succ n ih => exact .cons rfl ih

theorem Follows.makes_blank (op : Op) {n : Nat} (h : σ.Follows k s) (ha : σ.Awaits s (some r)) (hr : op.result = some r) (hn : n < 2 ^ 63)
    (u : Bool) : ∃ s' f, make op (.plain u (Array.replicate n none)) s = .ok () s' ∧ σ.Grows s f s' ∧ (σ.naming f).Follows k s' ∧
      f s.infos.size = .blank n u ∧
      s.Pushes (.box r) { box := none, key := .box r, level := .nonNull, virt := some (.plain u (Array.replicate n none)) } s' := by
  obtain ⟨_, s', f, e, hs', hg, rfl, hp⟩ := make_makes (w := .plain u (Array.replicate n none)) h.sound hr ha (Content.valid_blank hn u)
    fun s' hg => ⟨_, Function.update_self .., spells_blank n⟩
  exact ⟨s', _, e, hg, h.grows hs' hg, Function.update_self .., hp⟩

theorem Follows.opens_virtual (op : Op) {n : Nat} (h : σ.Follows k s) (hcov : σ.Covers k s) (hden : k.den r = none) (hlast : r.id ≤ σ.last)
    (hr : op.result = some r) (hn : n < 2 ^ 63) (u : Bool) :
    σ.Advances (make op (.plain u (Array.replicate n none))) s ((k.bind r (.blank n u)).opened r) := by
  obtain ⟨s', f, e, hg, h', hf, hp⟩ := (h.asking (some r)).makes_blank op (hcov.awaits hden hlast) hr hn u
  have hinfo := info_here hp
  have hsize := size_push hp
  have hold (i : InfoId) (hi : σ.draft i) : i ≠ s.infos.size := Nat.ne_of_lt (h.sound.drafts i hi).2.1
  have hnot : ¬ σ.draft s.infos.size := fun hd => hold _ hd rfl
  have hidle : ¬ σ.busy s.infos.size := fun hb => hnot (h.settled _ hb)
  have hbox (v : Value) : (s'.info s.infos.size).box ≠ some v := by
    rw [hinfo]
    exact fun e => by cases e
  have hshares : σ.Shares (((σ.asking (some r)).naming f).drawing s.infos.size (.blank n u) (σ.busy s.infos.size) True σ.locked) := ⟨rfl, rfl, rfl⟩
  refine ⟨s', _, e, hshares, h'.toTraces.opens h'.sound (fun j hj => .inl (h.settled j hj)) hden (.refl s' _) rfl hsize.symm hnot hf
    (fun b hb => hg.other_id (h.asking _).sound ((h.asking _).known hb) (hbox _)) ?_ fun b hb _ hd => ?_, hcov.binds hg _, hg.strings, hg.calls⟩
  · exact
      { named := by rw [ids_push hp, if_pos rfl]
        draft := draft_drawing_self.symm ▸ trivial
        content := content_drawing_self
        key := by rw [hinfo]
        plain := by rw [hinfo]; rfl
        given := fun c hc => hg.other_id (v := .box c) (h.asking _).sound (.inl (.inl hc)) (hbox _)
        unbound := fun hu => hidle (h.sound.unbound _ hu)
        kind := .inl ⟨by rwa [busy_drawing_self], by rw [hinfo], _, _, congrArg Info.virt hinfo⟩ }
  · obtain ⟨c, hc, -, hundefined⟩ := h'.sound.hidden s.infos.size (hsize ▸ lt_succ_self _) (.inl (by rw [hinfo]))
    rw [hinfo] at hc
    cases hc
    exact absurd hd hundefined

theorem modify_push {α : Type} (xs : Array α) (x : α) (f : α → α) : (xs.push x).modify xs.size f = xs.push (f x) := by
  refine ext_getElem? fun i => ?_
  rw [getElem?_modify, getElem?_push, getElem?_push]
  by_cases h : i = xs.size
  · simp [h]
  · simp [h, Ne.symm h]

theorem Drawn.target (h : σ.Drawn s b cs u i) (hs : σ.Sound s) (hd : σ.Defined s (.box b)) : σ.Target s (.box b) cs u := by
  rcases h.kind with ⟨-, hbox, -⟩ | ⟨-, -, -, ht⟩
  · obtain ⟨c, hc, -, hn⟩ := hs.hidden i (h.lt hs) (.inl hbox)
    cases h.key.symm.trans hc
    exact absurd hd hn
  · exact ht

theorem current_eq (hw : s.Writes op s') : current op s' = .ok op s' := by
  unfold current
  split
  · rfl
  · refine (bind_eq rfl).trans ?_
    rw [hw.noted ‹_›]
    rfl

theorem rememberPure_alike (code : Opcode) {v w : Value} {i j : InfoId} (hv : s.id? v = some i) (hw : s.id? w = some j) :
    ∃ s', rememberPure code [v] w s = .ok () s' ∧ Alike s s' := by
  by_cases hm : s.remembersPure = true
  · have hkey : pureKey? code [v] none s = .ok (some ⟨code, none, [i]⟩) s := by
      have hids : [v].mapM idOf s = .ok [i] s := by
        exact (bind_eq (idOf_of_id? hv)).trans rfl
      exact (bind_eq hids).trans rfl
    refine ⟨{ s with pureOps := s.pureOps.insert ⟨code, none, [i]⟩ j }, ?_, rfl, rfl, rfl, rfl⟩
    refine (bind_eq rfl).trans ?_
    rw [if_pos hm]
    exact (bind_eq hkey).trans ((bind_eq (idOf_of_id? hw)).trans rfl)
  · refine ⟨s, ?_, rfl, rfl, rfl, rfl⟩
    refine (bind_eq rfl).trans ?_
    rw [if_neg hm]
    rfl

theorem Alike.touches (h : Alike s s') (i : InfoId) : s.Touches i s' := by
  have hinfo (j : InfoId) : s'.info j = s.info j := by rw [OptimizeState.info, OptimizeState.info, h.infos]
  exact ⟨h.store, h.ids, h.ops, by rw [h.infos], fun j _ => hinfo j, by rw [hinfo], by rw [hinfo]⟩

theorem Follows.opens_locked {L : Ref → Prop} (h : σ.Follows k s) (hnot : ¬ σ.draft i) (hden : k.den r = none) (hi : i + 1 = s.infos.size)
    (hcontent : σ.content i = .str cs u) (hid : s.ids[Value.box r]? = some i) (hkey : (s.info i).key = .box r)
    (hother : ∀ b, k.den b ≠ none → s.ids[Value.box b]? ≠ some i) (hgiven : ∀ c, (σ.given c).isSome = true → s.ids[Value.box c]? ≠ some i)
    (hs₁ : (σ.allocating (fun j => σ.busy j ∨ j = i) σ.unbound L).Sound s₁) (hl : σ.Later none s s₁) (hL : ∀ q, σ.locked q → L q)
    (hnew : ∀ q, L q → σ.locked q ∨ ∀ c, σ.Reaches s c → c.store.str? q = none)
    (hfresh : ∀ c c' q, σ.Reaches s c → σ.Reaches s₁ c' → c'.env r = .ptr (some q) → c.store.str? q = none)
    (htarget : (σ.allocating (fun j => σ.busy j ∨ j = i) σ.unbound L).Target s₁ (.box r) cs u) (hbox : (s₁.info i).box = some (.box r))
    (hvirt : (s₁.info i).virt = none) (hconst : (s₁.info i).isConst = false) (ht : s₁.Touches i s') (hinfo : s'.info i = s₁.info i) :
    ∃ τ, σ.Shares τ ∧
    τ.Follows ((k.bind r (.str cs u)).opened r) s' := by
  have hold (j : InfoId) (hj : σ.draft j) : j ≠ i := fun e => hnot (e ▸ hj)
  have htraces := h.altered (B := fun j => σ.busy j ∨ j = i) (U := σ.unbound) hs₁ hl
    (fun j hj => ⟨fun hb => hb.resolve_right (hold j hj), .inl⟩) (fun _ _ hu => hu) hL hnew
  have hshares : σ.Shares ((σ.allocating (fun j => σ.busy j ∨ j = i) σ.unbound L).drawing i (.str cs u) (σ.busy i ∨ i = i) True L) := ⟨rfl, rfl, rfl⟩
  refine ⟨_, hshares, htraces.opens hs₁ (fun j hj => hj.imp (h.settled j) id) hden ht hinfo (hl.size ▸ hi) hnot hcontent
    (fun b hb => hl.ids ▸ hother b hb) ?_ fun b hb hdb _ c hc q hq hq' => ?_⟩
  · exact
      { named := ht.ids ▸ hl.ids ▸ hid
        draft := draft_drawing_self.symm ▸ trivial
        content := content_drawing_self
        key := by rw [hinfo, hl.key, hkey]
        plain := by rw [hinfo, hconst]
        given := fun c hc => ht.ids ▸ hl.ids ▸ hgiven c hc
        unbound := fun hu => hnot (h.settled i (h.sound.unbound i hu))
        kind := .inr ⟨busy_drawing_self.symm ▸ .inr rfl, by rw [hinfo, hbox], by rw [hinfo, hvirt], htarget.drawing ht fun _ _ _ _ hq => hq⟩ }
  · obtain ⟨ds, w, j, -, hj⟩ := h.drawn b hb
    have hdef := hj.defined_back hs₁ hj.draft (hl.drafts j hj.draft) hdb
    obtain ⟨c₀, hc₀, hlead⟩ := hl.back c hc
    obtain ⟨p, -, hp, hstr⟩ := (hj.target h.sound hdef).shows c₀ hc₀
    cases hp.symm.trans ((hlead.env b hdef).symm.trans hq)
    cases hstr.symm.trans (hfresh c₀ c q hc₀ hc hq')

theorem Follows.opens_allocated (he : Emits (give next)) (h : σ.Follows k s) (hcov : σ.Covers k s)
    (hden : k.den r = none) (hlast : r.id ≤ σ.last) (hn : n < 2 ^ 63) (hlength : s.ids[Value.ofInt n]? ≠ none) :
    σ.Advances (newString.allocated next m (freshOp m n r t)) s ((k.bind r (.blank n m.unicode)).opened r) := by
  have ha := hcov.awaits hden hlast
  obtain ⟨s₀, f, -, hg, h₀, hf, hp₀⟩ := (h.asking (some r)).makes_blank (freshOp m n r t) ha rfl hn m.unicode
  obtain ⟨y, s₁, e₁, hp₁, hbox, hkey, hvirt, hconst⟩ := idOf_eq (s := s) (v := .box r) ha.id?_eq_none (Value.exact_box r)
  obtain ⟨hbox', hkey', hvirt', hconst'⟩ := withNonNull_same y
  have hnot : ¬ σ.draft s.infos.size := fun hd => Nat.lt_irrefl _ (h.sound.drafts _ hd).2.1
  have hlt : s.infos.size < s₀.infos.size := size_push hp₀ ▸ Nat.lt_succ_self _
  -- the entry gets the box of the result for its value
  let s₂ := s₁.modified s.infos.size Info.withNonNull
  obtain ⟨hs, hl⟩ := h₀.sound.start_allocating (b := r) (f := fun _ => y.withNonNull) hlt hnot
    (by rw [info_here hp₀]) hf (hbox'.trans hbox) (by rw [info_here hp₀]; exact hkey'.trans hkey) (by rw [info_here hp₀]; exact hconst'.trans hconst)
    (fun w hw => by cases (hvirt'.trans hvirt).symm.trans hw)
  obtain ⟨hs₂, hl₂⟩ := hs.alike (show Alike _ s₂ from
    ⟨hp₁.store.trans hp₀.store.symm, hp₁.ids.trans hp₀.ids.symm,
      by simp only [s₂, OptimizeState.modified, hp₁.infos, hp₀.infos, modify_push], hp₁.ops.trans hp₀.ops.symm⟩)
  replace hl₂ := hl.trans hl₂.allocating
  have hinfo₂ : s₂.info s.infos.size = y.withNonNull := by
    rw [OptimizeState.info_modified (size_push hp₁ ▸ Nat.lt_succ_self _), info_here hp₁]
  have hreach (c : Config) : Scene.Reaches _ s₀ c ↔ Scene.Reaches _ s₂ c :=
    (reaches_push hp₀).trans (reaches_push (σ := (σ.asking (some r)).naming f) hp₁).symm
  -- the operation is written out, and the new string is locked
  have hcode : m.newstr.direct = true := by rcases m with ⟨_ | _⟩ <;> rfl
  obtain ⟨s₃, e₃, hw⟩ := he s₂ (freshOp m n r t) hcode (by simpa using (hs₂.gives_int n).canon)
  obtain ⟨L, hs₃, hl₃, hL, hL', hfresh, htarget⟩ := hs₂.start_filling (k := n) (m := m) (fun hu => hnot (h.settled _ (h.sound.unbound _ hu)))
    (by rw [hinfo₂, hbox', hbox]) (by rw [hinfo₂, hkey', hkey]) (hl₂.size ▸ hlt) hn (hs₂.gives_int n) hw
  have hl := hl₂.trans hl₃
  have hid : s₀.ids[Value.box r]? = some s.infos.size := by rw [ids_push hp₀, if_pos rfl]
  have hinfo₃ : s₃.info s.infos.size = y.withNonNull := by rw [OptimizeState.info, hw.infos]; exact hinfo₂
  obtain ⟨j, hj⟩ := ne_none_iff_exists'.1 hlength
  obtain ⟨s₄, e₄, halike⟩ := rememberPure_alike m.strlen ((hl.id? (.box r)).trans hid) ((hl.id? (.ofInt n)).trans (hg.ids (.ofInt n) j hj))
  have hother (v : Value) (hv : σ.Defined s v ∨ s.id? v ≠ none) : s₀.id? v ≠ some s.infos.size :=
    hg.other_id (h.asking _).sound hv (by rw [info_here hp₀]; exact fun e => by cases e)
  obtain ⟨τ, hτ, h₄⟩ := h₀.opens_locked hnot hden (size_push hp₀).symm hf hid (by rw [info_here hp₀]) (fun b hb => hother _ (h.known hb))
    (fun c hc => hother (.box c) (.inl (.inl hc))) hs₃ hl hL (fun q hq => (hL' q hq).imp id fun hq c hc => hq c ((hreach c).1 hc))
    (fun c c' q hc => hfresh c c' q ((hreach c).1 hc)) htarget (by rw [hinfo₃, hbox', hbox]) (by rw [hinfo₃, hvirt', hvirt])
    (by rw [hinfo₃, hconst', hconst]; rfl) (halike.touches _) (by rw [OptimizeState.info, halike.infos]; rfl)
  refine ⟨s₄, τ, ?_, ⟨hτ.start, hτ.given, hτ.last⟩, h₄, ?_, ?_, ?_⟩
  · refine (bind_eq (show idOf (.box r) s = .ok s.infos.size s₁ from e₁)).trans ((bind_eq rfl).trans ((bind_eq e₃).trans ?_))
    exact (bind_eq (current_eq hw)).trans e₄
  · refine hτ.covers fun b hlast hk => hcov.binds (hg.trans hl.grows) (.blank n m.unicode) b hlast ?_
    exact (known_touches (halike.touches s.infos.size)).1 hk
  · rw [halike.store]
    exact hg.strings.trans hl.strings
  · rw [halike.store]
    exact hl.calls.trans hg.calls

theorem newString_eq (e : constIntOf (.ofInt n) s = .ok (some (Int64.ofInt n)) s₁) :
      newString next m (freshOp m n r t) s = (if 0 ≤ Int64.ofInt n && (Int64.ofInt n).toInt ≤ s.limits.constLen then
        make (freshOp m n r t) (.plain m.unicode (Array.replicate (Int64.ofInt n).toInt.toNat none))
      else newString.allocated next m (freshOp m n r t)) s₁ :=
  (bind_eq rfl).trans (bind_eq e)

theorem Follows.makes_string (he : Emits (give next)) (h : σ.Follows k s) (hcov : σ.Covers k s) (hden : k.den r = none) (hlast : r.id ≤ σ.last)
    (hn : n < 2 ^ 63) : σ.Advances (newString next m (freshOp m n r t)) s ((k.bind r (.blank n m.unicode)).opened r) := by
  obtain ⟨_, s₁, f, e, hs₁, hg, rfl, hid⟩ := constIntOf_makes h.sound.unasked n
  have h₁ := (h.asking none).grows hs₁ hg
  have hcov₁ : (σ.unasked.naming f).Covers k s₁ :=
    Covers.of_known (σ := σ.unasked.naming f) hcov (fun _ hc => hc) fun c hlast hk => (hg.known c hlast hk).resolve_right (some_ne_none _).symm
  have hword : (Int64.ofInt n).toInt = n := toInt_ofInt_nat hn
  by_cases hshort : (decide (0 ≤ Int64.ofInt n) && decide ((Int64.ofInt n).toInt ≤ s.limits.constLen)) = true
  · obtain ⟨s', τ, e', hτ, h', hcov', hstrings, hcalls⟩ := h₁.opens_virtual (freshOp m n r t) hcov₁ hden hlast rfl hn m.unicode
    refine ⟨s', τ, ?_, ⟨hτ.start, hτ.given, hτ.last⟩, h', hcov', hg.strings.trans hstrings, hcalls.trans hg.calls⟩
    rw [newString_eq e, if_pos hshort, hword, Int.toNat_natCast, e']
  · obtain ⟨s', τ, e', hτ, h', hcov', hstrings, hcalls⟩ := h₁.opens_allocated (t := t) he hcov₁ hden hlast hn hid
    refine ⟨s', τ, ?_, ⟨hτ.start, hτ.given, hτ.last⟩, h', hcov', hg.strings.trans hstrings, hcalls.trans hg.calls⟩
    rw [newString_eq e, if_neg hshort, e']

end Scene
end FlowCompiler.Trace
