import FlowCompiler.Proofs.Strings.Forcing

/-!
# Reading strings

Reading a string makes entries for the numbers that come up, and the operations of a trace make entries for their results.  The scene
then says what the new entries stand for, and what it said of the old ones stays as it was.  A character is read off the parts of a
string as far as they are known, and from memory otherwise; either way it is the character of the content at that place.
-/

namespace FlowCompiler.Trace

open OptimizeM Function

variable {n : Int64} {w : Virtual}

/-- One more entry, which a value is known by. -/
structure OptimizeState.Pushes (s : OptimizeState) (v : Value) (y : Info) (s' : OptimizeState) : Prop where
  infos : s'.infos = s.infos.push y
  ids : s'.ids = s.ids.insert v s.infos.size
  store : s'.store = s.store
  ops : s'.ops = s.ops
  limits : s'.limits = s.limits

namespace Scene

/-- The scene in which entries stand for something else. -/
def naming (σ : Scene) (f : InfoId → Content) : Scene := { σ with content := f }

/-- What is true of a later state, with more entries. -/
structure Grows (σ : Scene) (s : OptimizeState) (f : InfoId → Content) (s' : OptimizeState) : Prop where
  agrees : ∀ i, i < s.infos.size → f i = σ.content i
  strings : s.store.Strings s'.store
  boxes : s.store.boxes ≤ s'.store.boxes
  calls : s'.store.calls = s.store.calls
  size : s.infos.size ≤ s'.infos.size
  ids : ∀ v i, s.id? v = some i → s'.id? v = some i
  fresh : ∀ v i, s'.id? v = some i → s.id? v = some i ∨ (s.infos.size ≤ i ∧ (s'.info i).box = some v) ∨ ¬ σ.Defined s v
  defined : ∀ v, σ.Defined s v → σ.Defined s' v
  known : ∀ b, b.id ≤ σ.last → σ.Known s' b → σ.Known s b ∨ σ.result = some b
  box : ∀ i v, (s.info i).box = some v → (s'.info i).box = some v
  drafts : ∀ i, σ.draft i → s'.info i = s.info i
  back : ∀ c', σ.Reaches s' c' → ∃ c, σ.Reaches s c ∧ σ.Leads s none c c'

variable {σ : Scene} {s s' s'' : OptimizeState} {f f' : InfoId → Content} {i : InfoId} {v : Value} {x : Content}

theorem Later.grows (h : σ.Later none s s') : σ.Grows s σ.content s' where
  agrees _ _ := rfl
  strings := h.strings
  boxes := h.boxes
  calls := h.calls
  size := Nat.le_of_eq h.size.symm
  ids v _ hi := (h.id? v).trans hi
  fresh v _ hi := .inl ((h.id? v).symm.trans hi)
  defined := h.defined
  known := h.known
  box := h.box
  drafts := h.drafts
  back := h.back

namespace Grows

theorem trans (h : σ.Grows s f s') (h' : (σ.naming f).Grows s' f' s'') : σ.Grows s f' s'' where
  agrees i hi := (h'.agrees i (Nat.lt_of_lt_of_le hi h.size)).trans (h.agrees i hi)
  strings := h.strings.trans h'.strings
  boxes := Nat.le_trans h.boxes h'.boxes
  calls := h'.calls.trans h.calls
  size := Nat.le_trans h.size h'.size
  ids v i hi := h'.ids v i (h.ids v i hi)
  fresh v i hi := by
    rcases h'.fresh v i hi with hi | hi | hi
    · exact (h.fresh v i hi).imp id (Or.imp (And.imp id (h'.box i v)) id)
    · exact .inr (.inl ⟨Nat.le_trans h.size hi.1, hi.2⟩)
    · exact .inr (.inr fun hd => hi (h.defined v hd))
  defined v hv := h'.defined v (h.defined v hv)
  known b hb hk := (h'.known b hb hk).elim (h.known b hb) .inr
  box i v hv := h'.box i v (h.box i v hv)
  drafts i hi := (h'.drafts i hi).trans (h.drafts i hi)
  back c'' hc'' := by
    obtain ⟨c', hc', hl'⟩ := h'.back c'' hc''
    obtain ⟨c, hc, hl⟩ := h.back c' hc'
    exact ⟨c, hc, fun b hb => (hl'.env b (h.defined _ hb)).trans (hl.env b hb), fun r x _ hx => hl'.strings r x nofun (hl.strings r x nofun hx)⟩

theorem gives (h : σ.Grows s f s') (hv : σ.Gives s v x) : (σ.naming f).Gives s' v x where
  defined := h.defined v hv.defined
  canon i hi := by
    rcases h.fresh v i hi with hi | hi | hi
    · exact h.box i v (hv.canon i hi)
    · exact hi.2
    · exact absurd hv.defined hi
  const k hk := (hv.const k hk).mono h.strings
  given := hv.given
  shows c' hc' := by
    obtain ⟨c, hc, hl⟩ := h.back c' hc'
    cases x with
    | num n => exact (hl.val hv.defined).trans (hv.shows c hc)
    | str cs u =>
      obtain ⟨r, hr, hs⟩ := hv.shows c hc
      exact ⟨r, (hl.val hv.defined).trans hr, hl.strings r _ nofun hs⟩
  unlocked c' hc' r hr := by
    obtain ⟨c, hc, hl⟩ := h.back c' hc'
    exact hv.unlocked c hc r (by rw [← hl.val hv.defined, hr])

theorem num (h : σ.Grows s f s') (hn : σ.Num s i n) : (σ.naming f).Num s' i n := by
  obtain ⟨v, hv, hg⟩ := hn
  exact ⟨v, h.box i v hv, h.gives hg⟩

theorem builds (h : σ.Grows s f s') (hi : i < s.infos.size) (hw : σ.Builds s i w) : (σ.naming f).Builds s' i w := by
  have content {j : InfoId} {y : Content} (hj : j < s.infos.size) (e : σ.content j = y) : (σ.naming f).content j = y := (h.agrees j hj).trans e
  cases w with
  | plain u chars =>
    obtain ⟨cs, hcs, hspells⟩ := hw
    refine ⟨cs, content hi hcs, hspells.imp fun c x hx => ?_⟩
    cases c with
    | none => exact hx
    | some j => exact h.num hx
  | concat u l r length =>
    obtain ⟨hl, hr, a, b, ha, hb, hcs, hlen⟩ := hw
    exact ⟨hl, hr, a, b, content (Nat.lt_trans hl.1 hi) ha, content (Nat.lt_trans hr.1 hi) hb, content hi hcs, fun v hv => h.gives (hlen v hv)⟩
  | slice u str start length =>
    obtain ⟨hstr, cs, a, n, hcs, ha, hn, h0, h1, hle, e⟩ := hw
    exact ⟨hstr, cs, a, n, content (Nat.lt_trans hstr.1 hi) hcs, h.num ha, h.num hn, h0, h1, hle, content hi e⟩
  | struct _ _ _ => exact hw
  | array _ _ _ => exact hw

end Grows

/-! ## One more entry -/

/-- The scene in which the next entry stands for a content. -/
def next (σ : Scene) (s : OptimizeState) (x : Content) : InfoId → Content := update σ.content s.infos.size x

/-- What makes a value fit for a new entry: it is not known by another one yet. -/
structure Fits (σ : Scene) (s : OptimizeState) (v : Value) (x : Content) (y : Info) : Prop where
  exact : v.Exact
  new : s.ids[v]? = none
  own : y.box = some v ∨ ¬ σ.Defined s v
  const : ∀ k, v = .const k → y.isConst = true
  box : ∀ b, v = .box b → b.id ≤ s.store.boxes ∧ (b.id ≤ σ.last → σ.Known s b ∨ σ.result = some b)
  given : ∀ b y, v = .box b → σ.given b = some y → x = y

section
variable {y : Info} (hp : s.Pushes v y s')
include hp

theorem size_push : s'.infos.size = s.infos.size + 1 := by rw [hp.infos, Array.size_push]

theorem info_here : s'.info s.infos.size = y := by simp [OptimizeState.info, hp.infos]

theorem info_there (hi : i ≠ s.infos.size) : s'.info i = s.info i := by simp [OptimizeState.info, hp.infos, Array.getElem?_push, hi]

theorem ids_push (w : Value) : s'.ids[w]? = if v = w then some s.infos.size else s.ids[w]? := by
  rw [hp.ids, Std.HashMap.getElem?_insert]
  simp only [beq_iff_eq]

theorem defined_push {w : Value} : σ.Defined s' w ↔ σ.Defined s w := by
  cases w with
  | const k => exact Iff.rfl
  | box b => rw [Scene.Defined, Scene.Defined, hp.ops]

theorem reaches_push {c : Config} : σ.Reaches s' c ↔ σ.Reaches s c := by rw [Scene.Reaches, Scene.Reaches, hp.store, hp.ops]

theorem known_push {b : Box} (hb : σ.Known s' b) : σ.Known s b ∨ v = .box b := by
  rcases hb with hb | hb
  · exact .inl (.inl ((defined_push hp).1 hb))
  · rw [ids_push hp] at hb
    split at hb
    · exact .inr ‹_›
    · exact .inl (.inr hb)

end

theorem lt_of_box {w : Value} (hw : (s.info i).box = some w) : i < s.infos.size := by
  by_contra hge
  rw [OptimizeState.info, Array.getElem?_eq_none (Nat.not_lt.1 hge)] at hw
  cases hw

theorem Grows.push (h : σ.Sound s) {y : Info} (hp : s.Pushes v y s') (hv : σ.Fits s v x y) : σ.Grows s (σ.next s x) s' where
  agrees j hj := update_of_ne (Nat.ne_of_lt hj) _ _
  strings := hp.store ▸ .refl _
  boxes := hp.store ▸ Nat.le_refl _
  calls := by rw [hp.store]
  size := by
    rw [size_push hp]
    exact Nat.le_succ _
  ids w j hj := by
    obtain ⟨k, hk, hj⟩ := Option.bind_eq_some_iff.1 hj
    refine Option.bind_eq_some_iff.2 ⟨k, hk, ?_⟩
    rw [ids_push hp, if_neg, hj]
    rintro rfl
    cases hv.new.symm.trans hj
  fresh w j hj := by
    obtain ⟨k, hk, hj⟩ := Option.bind_eq_some_iff.1 hj
    rw [ids_push hp] at hj
    split at hj
    · cases hj
      rename_i e
      subst e
      cases hv.exact.eq_of_key? hk
      rw [info_here hp]
      exact .inr (hv.own.imp (fun hw => ⟨Nat.le_refl _, hw⟩) id)
    · exact .inl (Option.bind_eq_some_iff.2 ⟨k, hk, hj⟩)
  defined w hw := (defined_push hp).2 hw
  known b hb hk := (known_push hp hk).elim .inl fun e => (hv.box b e).2 hb
  box j w hw := by rw [info_there hp (Nat.ne_of_lt (lt_of_box hw)), hw]
  drafts j hj := info_there hp (Nat.ne_of_lt (h.drafts j hj).2.1)
  back c hc := ⟨c, (reaches_push hp).1 hc, fun _ _ => rfl, fun _ _ _ hr => hr⟩

theorem Sound.push (h : σ.Sound s) {y : Info} (hp : s.Pushes v y s') (hv : σ.Fits s v x y) (hvalid : x.Valid)
    (hgives : ∀ w, y.box = some w → (σ.naming (σ.next s x)).Gives s' w x) (hhidden : y.box = none → y.virt ≠ none ∧ ∃ b, v = .box b ∧ y.key = .box b)
    (hconst : y.isConst = true → ∃ k, y.box = some (.const k) ∧ k.Means s.store x)
    (hbuilds : ∀ w, y.virt = some w → (σ.naming (σ.next s x)).Builds s' s.infos.size w) : (σ.naming
    (σ.next s x)).Sound s' := by
  have hgrows : σ.Grows s (σ.next s x) s' := .push h hp hv
  have hsize := size_push hp
  have hhere := info_here hp
  have hold {j : InfoId} (hj : j < s.infos.size) : s'.info j = s.info j := info_there hp (Nat.ne_of_lt hj)
  have hids := ids_push hp
  have hsplit {j : InfoId} (hj : j < s'.infos.size) : j < s.infos.size ∨ j = s.infos.size :=
    Nat.lt_succ_iff_lt_or_eq.1 (by rwa [hsize] at hj)
  have hat : (σ.naming (σ.next s x)).content s.infos.size = x := update_self ..
  have hbefore {j : InfoId} (hj : j < s.infos.size) : (σ.naming (σ.next s x)).content j = σ.content j := hgrows.agrees j hj
  exact
    { entry := fun j w hj hw hb => by
        rcases hsplit hj with hj | rfl
        · rw [hold hj] at hw
          rw [hbefore hj]
          exact hgrows.gives (h.entry j w hj hw hb)
        · rw [hhere] at hw
          rw [hat]
          exact hgives w hw
      builds := fun j w hj hw => by
        rcases hsplit hj with hj | rfl
        · rw [hold hj] at hw
          exact hgrows.builds hj (h.builds j w hj hw)
        · rw [hhere] at hw
          exact hbuilds w hw
      virtual := fun j hj hb => by
        rcases hsplit hj with hj | rfl
        · rw [hold hj] at hb ⊢
          exact h.virtual j hj hb
        · rw [hhere] at hb ⊢
          exact (hhidden hb).1
      hidden := fun j hj hb => by
        rcases hsplit hj with hj | rfl
        · rw [hold hj] at hb ⊢
          obtain ⟨b, hk, hid, hd⟩ := h.hidden j hj hb
          refine ⟨b, hk, ?_, fun hd' => hd ((defined_push hp).1 hd')⟩
          rw [hids, if_neg, hid]
          rintro rfl
          cases hv.new.symm.trans hid
        · have hb : y.box = none := hb.elim (fun hb => by rwa [hhere] at hb) fun hu => absurd (h.busy _ (h.unbound _ hu)).1 (Nat.lt_irrefl _)
          obtain ⟨-, b, rfl, hk⟩ := hhidden hb
          refine ⟨b, hhere ▸ hk, by rw [hids, if_pos rfl], fun hd => ?_⟩
          rcases hv.own with hw | hw
          · cases hb.symm.trans hw
          · exact hw ((defined_push hp).1 hd)
      consts := fun j hj => by
        by_cases e : j = s.infos.size
        · subst e
          rw [hhere] at hj ⊢
          rw [hat, hp.store]
          exact hconst hj
        · rw [info_there hp e] at hj ⊢
          obtain ⟨k, hk, hm⟩ := h.consts j hj
          rw [hbefore (lt_of_box hk), hp.store]
          exact ⟨k, hk, hm⟩
      constIds := fun k j hj => by
        rw [hids] at hj
        split at hj
        · cases hj
          rename_i e
          subst e
          rw [hhere]
          exact ⟨hv.own.resolve_right fun hd => hd trivial, hv.const k rfl⟩
        · rw [hold (h.ids_lt _ j hj)]
          exact h.constIds k j hj
      given := fun b cs u j hb hj => by
        rw [hids] at hj
        split at hj
        · cases hj
          rw [hat]
          exact hv.given b _ ‹_› hb
        · rw [hbefore (h.ids_lt _ j hj)]
          exact h.given b cs u j hb hj
      ids_lt := fun w j hj => by
        rw [hids] at hj
        rw [hsize]
        split at hj
        · cases hj
          exact Nat.lt_succ_self _
        · exact Nat.lt_succ_of_lt (h.ids_lt w j hj)
      last := hp.store ▸ h.last
      boxes := fun b hb => by
        rw [hp.store]
        exact (known_push hp hb).elim (h.boxes b) fun e => (hv.box b e).1
      valid := fun j hj => by
        rcases hsplit hj with hj | rfl
        · rw [hbefore hj]
          exact h.valid j hj
        · rwa [hat]
      busy := fun j hj => by
        obtain ⟨hj, hc⟩ := h.busy j hj
        rw [hbefore hj, hsize]
        exact ⟨Nat.lt_succ_of_lt hj, hc⟩
      unbound := h.unbound
      drafts := fun j hj => by
        obtain ⟨hc, hj', hb⟩ := h.drafts j hj
        rw [hbefore hj', hold hj', hsize]
        exact ⟨hc, Nat.lt_succ_of_lt hj', hb⟩
      plain := fun j hj => hold (h.drafts j hj).2.1 ▸ h.plain j hj
      interned := hp.store ▸ h.interned
      runs := by
        rw [hp.store, hp.ops]
        exact h.runs
      kept := fun c hc => h.kept c ((reaches_push hp).1 hc)
      locked := fun r hr => (h.locked r hr).imp id fun hs c hc => hs c ((reaches_push hp).1 hc) }

/-! ## Steps that make entries -/

/-- A step succeeds and keeps the state sound, in a scene with more entries. -/
def Makes (σ : Scene) {α : Type} (k : OptimizeM α) (s : OptimizeState) (Q : α → (InfoId → Content) → OptimizeState → Prop) : Prop :=
  ∃ a s' f, k s = .ok a s' ∧ (σ.naming f).Sound s' ∧ σ.Grows s f s' ∧ Q a f s'

namespace Makes

variable {α β : Type} {k : OptimizeM α} {Q Q' : α → (InfoId → Content) → OptimizeState → Prop} {R : β → (InfoId → Content) → OptimizeState → Prop}

theorem pure {a : α} (h : σ.Sound s) (hQ : Q a σ.content s) : σ.Makes (.pure a) s Q := ⟨a, s, σ.content, rfl, h, (Later.refl .none).grows, hQ⟩

theorem bind {g : α → OptimizeM β} (h : σ.Makes k s Q)
    (h' : ∀ a f s', (σ.naming f).Sound s' → σ.Grows s f s' → Q a f s' → (σ.naming f).Makes (g a) s' R) : σ.Makes (k >>= g) s R := by
  obtain ⟨a, s', f, e, hs', hg, hQ⟩ := h
  obtain ⟨b, s'', f', e', hs'', hg', hR⟩ := h' a f s' hs' hg hQ
  exact ⟨b, s'', f', (bind_eq e).trans e', hs'', hg.trans hg', hR⟩

theorem mono (h : σ.Makes k s Q) (hQ : ∀ a f s', (σ.naming f).Sound s' → σ.Grows s f s' → Q a f s' → Q' a f s') : σ.Makes k s Q' := by
  obtain ⟨a, s', f, e, hs', hg, hq⟩ := h
  exact ⟨a, s', f, e, hs', hg, hQ a f s' hs' hg hq⟩

/-- What comes after a step that makes no entry. -/
theorem after {P : α → OptimizeState → Prop} {g : α → OptimizeM β} (h : σ.Does none k s P)
    (h' : ∀ a s', σ.Sound s' → σ.Later none s s' → P a s' → σ.Makes (g a) s' R) : σ.Makes (k >>= g) s R := by
  obtain ⟨a, s', e, hs', hl, hP⟩ := h
  obtain ⟨b, s'', f, e', hs'', hg, hR⟩ := h' a s' hs' hl hP
  exact ⟨b, s'', f, (bind_eq e).trans e', hs'', hl.grows.trans hg, hR⟩

theorem look {a : α} {g : α → OptimizeM β} (e : k s = .ok a s) (h : σ.Makes (g a) s R) : σ.Makes (k >>= g) s R := by
  obtain ⟨b, s', f, e', hs', hg, hR⟩ := h
  exact ⟨b, s', f, (bind_eq e).trans e', hs', hg, hR⟩

theorem get {g : OptimizeState → OptimizeM β} (h : σ.Makes (g s) s R) : σ.Makes (MonadState.get >>= g) s R := h

theorem info {g : Info → OptimizeM β} (h : σ.Makes (g (s.info i)) s R) : σ.Makes (.info i >>= g) s R := h

end Makes

theorem describe_eq (v : Value) (s : OptimizeState) : ∃ y bs, describe v s = .ok y { s with bounds := bs } ∧
    y.box = some v ∧ y.key = v ∧ y.virt = none ∧ y.isConst = v.isConst := by
  rcases v with b | n | d | p
  · by_cases hk : b.kind = .int
    · refine ⟨{ box := some (.box b), key := .box b, bound := some s.bounds.size }, s.bounds.push .unbounded, ?_, rfl, rfl, rfl, rfl⟩
      unfold describe
      dsimp only
      rw [if_pos hk]
      rfl
    · refine ⟨{ box := some (.box b), key := .box b }, s.bounds, ?_, rfl, rfl, rfl, rfl⟩
      unfold describe
      dsimp only
      rw [if_neg hk]
      rfl
  · exact ⟨_, _, rfl, rfl, rfl, rfl, rfl⟩
  · exact ⟨_, _, rfl, rfl, rfl, rfl, rfl⟩
  · exact ⟨_, _, rfl, rfl, rfl, rfl, rfl⟩

theorem idOf_of_id? (h : s.id? v = some i) : idOf v s = .ok i s := by
  refine (bind_eq rfl).trans ?_
  rw [h]
  rfl

theorem idOf_eq (hv : s.id? v = none) (hexact : v.Exact) : ∃ y s', idOf v s = .ok s.infos.size s' ∧ s.Pushes v y s' ∧
    y.box = some v ∧ y.key = v ∧ y.virt = none ∧ y.isConst = v.isConst := by
  obtain ⟨y, bs, hd, hy⟩ := describe_eq v s
  refine ⟨y, { s with bounds := bs, infos := s.infos.push y, ids := s.ids.insert v s.infos.size }, ?_, ⟨rfl, rfl, rfl, rfl, rfl⟩, hy⟩
  refine (bind_eq rfl).trans ?_
  rw [hv]
  refine (bind_eq hd).trans ?_
  refine (bind_eq rfl).trans ?_
  rw [hexact.key?_eq]
  rfl

theorem Gives.exact (hv : σ.Gives s v x) : v.Exact := by
  rintro d rfl
  cases hv.const _ rfl

theorem idOf_makes (h : σ.Sound s) (hv : σ.Gives s v x) (hx : x.Valid) :
    σ.Makes (idOf v) s fun i f s' => (s'.info i).box = some v ∧ (s.id? v = none → i = s.infos.size ∧ f i = x) ∧
      (∀ r, σ.Awaits s r → (σ.naming f).Awaits s' r) ∧ s'.ids[v]? = some i := by
  cases hid : s.id? v with
  | some i =>
    refine ⟨i, s, σ.content, idOf_of_id? hid, h, (Later.refl .none).grows, hv.canon i hid, nofun, fun _ hr => hr, ?_⟩
    rwa [OptimizeState.id?, hv.exact.key?_eq] at hid
  | none =>
    obtain ⟨y, s', e, hp, hbox, -, hvirt, hconst⟩ := idOf_eq hid hv.exact
    have hnew : s.ids[v]? = none := by
      rw [OptimizeState.id?, hv.exact.key?_eq] at hid
      exact hid
    have hknown (b : Box) (hb : v = .box b) : σ.Known s b := .inl (hb ▸ hv.defined)
    have hfits : σ.Fits s v x y :=
      ⟨hv.exact, hnew, .inl hbox, fun k hk => hconst.trans (hk ▸ rfl), fun b hb => ⟨h.boxes b (hknown b hb), fun _ => .inl (hknown b hb)⟩, hv.given⟩
    have hgrows : σ.Grows s (σ.next s x) s' := .push h hp hfits
    refine ⟨_, s', _, e, h.push hp hfits hx (fun w hw => ?_) (fun hn => ?_) (fun hc => ?_) (fun w hw => ?_), hgrows, ?_, fun _ => ⟨rfl, ?_⟩,
      fun r hr b hb => ?_, by rw [ids_push hp, if_pos rfl]⟩
    · cases hbox.symm.trans hw
      exact hgrows.gives hv
    · cases hbox.symm.trans hn
    · cases v with
      | box b => cases hconst.symm.trans hc
      | const k => exact ⟨k, hbox, hv.const k rfl⟩
    · cases hvirt.symm.trans hw
    · rw [info_here hp, hbox]
    · exact update_self ..
    · exact (hr b hb).imp id fun hk => hk.imp id fun hk hk' => hk ((known_push hp hk').elim id (hknown b))

theorem idOf_num (h : σ.Sound s) (hv : σ.Gives s v (.num n)) :
    σ.Makes (idOf v) s fun i f s' => (σ.naming f).Num s' i n ∧ (∀ r, σ.Awaits s r → (σ.naming f).Awaits s' r) ∧ s'.ids[v]? = some i :=
  (idOf_makes h hv trivial).mono fun _ _ _ _ hg hi => ⟨⟨v, hi.1, hg.gives hv⟩, hi.2.2⟩

/-! ## Results -/

variable {r : Box}

theorem Awaits.id?_eq_none (h : σ.Awaits s (some r)) : s.ids[Value.box r]? = .none := by
  by_contra hne
  exact (h r rfl).2.2 (.inr hne)

theorem make_eq {op : Op} (hr : op.result = some r) (s : OptimizeState) : ∃ s', Strings.make op w s = .ok () s' ∧
    s.Pushes (.box r) { box := none, key := .box r, level := .nonNull, virt := some w } s' := by
  refine ⟨{ s with infos := s.infos.push _, ids := s.ids.insert (.box r) s.infos.size }, ?_, rfl, rfl, rfl, rfl, rfl⟩
  unfold Strings.make Virtuals.make
  rw [hr]
  rfl

theorem make_makes {op : Op} (h : σ.Sound s) (hr : op.result = some r) (ha : σ.Awaits s (some r)) (hx : x.Valid)
    (hw : ∀ s', σ.Grows s (σ.next s x) s' → (σ.naming (σ.next s x)).Builds s' s.infos.size w) :
    σ.Makes (Strings.make op w) s fun _ f s' => f = σ.next s x ∧
      s.Pushes (.box r) { box := none, key := .box r, level := .nonNull, virt := some w } s' := by
  obtain ⟨-, hlast, hknown⟩ := ha r rfl
  obtain ⟨s', e, hp⟩ := make_eq (w := w) hr s
  have hfits : σ.Fits s (.box r) x { box := none, key := .box r, level := .nonNull, virt := some w } :=
    { exact := Value.exact_box r
      new := ha.id?_eq_none
      own := .inr fun hd => hknown (.inl hd)
      const := nofun
      box := fun b hb => by
        cases hb
        exact ⟨Nat.le_trans hlast h.last, fun _ => .inr (ha r rfl).1⟩
      given := fun b y hb hy => by
        cases hb
        exact absurd (.inl (.inl (hy ▸ rfl))) hknown }
  have hgrows : σ.Grows s (σ.next s x) s' := .push h hp hfits
  refine ⟨(), s', σ.next s x, e, h.push hp hfits hx nofun (fun _ => ⟨Option.some_ne_none _, r, rfl, rfl⟩) nofun (fun w' hw' => ?_), hgrows,
    rfl, hp⟩
  cases hw'
  exact hw s' hgrows

end Scene

/-! ## Characters -/

open Strings

namespace Scene

variable {σ : Scene} {s s' : OptimizeState} {f : InfoId → Content} {emit : Emit} {m : StringMode} {i : InfoId} {cs : List Int} {u : Bool}
  {k : Nat} {ch : Int} {result : Option Box}

theorem Entry.grows (h : Entry σ s i) (hg : σ.Grows s f s') (hs' : (σ.naming f).Sound s') : Entry (σ.naming f) s' i :=
  ⟨hs', Nat.lt_of_lt_of_le h.lt hg.size, h.free⟩

/-- A place of a string that is read: the string, the entry of the place, and the character there. -/
structure At (σ : Scene) (s : OptimizeState) (str index : InfoId) (ch : Int) : Prop where
  entry : Entry σ s str
  char : ∃ cs u k, σ.content str = .str cs u ∧ σ.Num s index (Int64.ofInt (k : Nat)) ∧ cs[k]? = some ch

theorem At.grows {str index : InfoId} (h : At σ s str index ch) (hg : σ.Grows s f s') (hs' : (σ.naming f).Sound s') :
    At (σ.naming f) s' str index ch := by
  obtain ⟨he, cs, u, k, hc, hn, hch⟩ := h
  exact ⟨he.grows hg hs', cs, u, k, (hg.agrees str he.lt).trans hc, hg.num hn, hch⟩

theorem At.later {str index : InfoId} (h : At σ s str index ch) (hl : σ.Later none s s') (hs' : σ.Sound s') : At σ s' str index ch :=
  h.grows (f := σ.content) hl.grows hs'

theorem force_num (emit : Emit) (h : σ.Num s i n) : ∃ v, force emit i s = .ok v s ∧ σ.Gives s v (.num n) := by
  obtain ⟨v, hv, hg⟩ := h
  exact ⟨v, force_of_box hv, hg⟩

theorem force_asked (he : Emits emit) (h : Entry σ s i) :
    σ.Does none (force emit i) s fun v s' => σ.Gives s' v (σ.content i) ∧ ∀ r, σ.Awaits s r → σ.Awaits s' r :=
  (force_does he ⟨h.sound.unasked, h.lt, h.free⟩).ask.mono fun _ _ _ _ hv => ⟨hv.1.1.asked, hv.2⟩

theorem stringLength_asked (he : Emits emit) (m : StringMode) (h : Entry σ s i) (hc : σ.content i = .str cs u) :
    σ.Does none (stringLength emit m i none) s fun v s' => σ.Gives s' v (.int cs.length) ∧ ∀ r, σ.Awaits s r → σ.Awaits s' r :=
  (stringLength_does he m ⟨h.sound.unasked, h.lt, h.free⟩ hc .none).ask.mono fun _ _ _ _ hv => ⟨hv.1.1.asked, hv.2⟩

theorem addLengths_asked (he : Emits emit) (h : σ.Sound s) {a b : Value} {x y : Int} (ha : σ.Gives s a (.int x)) (hb : σ.Gives s b (.int y)) :
    σ.Does none (addLengths emit a b) s fun v s' => σ.Gives s' v (.int (x + y)) ∧ ∀ r, σ.Awaits s r → σ.Awaits s' r :=
  (addLengths_does he h.unasked .none ha.unasked hb.unasked).ask.mono fun _ _ _ _ hv => ⟨hv.1.asked, hv.2⟩

theorem subLengths_asked (he : Emits emit) (h : σ.Sound s) {a b : Value} {x y : Int} (ha : σ.Gives s a (.int x)) (hb : σ.Gives s b (.int y)) :
    σ.Does none (subLengths emit a b) s fun v s' => σ.Gives s' v (.int (x - y)) ∧ ∀ r, σ.Awaits s r → σ.Awaits s' r :=
  (subLengths_does he h.unasked .none ha.unasked hb.unasked).ask.mono fun _ _ _ _ hv => ⟨hv.1.asked, hv.2⟩

/-- The entry of a character that was read.  The result of the operation at hand is either still to be bound or that entry's. -/
def Character (σ : Scene) (s : OptimizeState) (ch : Int) (i : InfoId) (f : InfoId → Content) (s' : OptimizeState) : Prop :=
  (σ.naming f).Num s' i (Int64.ofInt ch) ∧ ∀ r, σ.Awaits s (some r) → (σ.naming f).Awaits s' (some r) ∨ s'.ids[Value.box r]? = some i

theorem fromMemory_makes (he : Emits emit) {str index : InfoId} (h : At σ s str index ch) (ha : σ.Awaits s result) :
    σ.Makes (charAt.fromMemory emit m str index result) s (σ.Character s ch) := by
  obtain ⟨hentry, cs, u, k, hc, hn, hch⟩ := h
  have hvalid := hentry.sound.valid str hentry.lt
  rw [hc] at hvalid
  refine .after (force_asked he hentry) fun v s₁ hs₁ hl₁ hv => ?_
  obtain ⟨hv, hask⟩ := hv
  rw [hc] at hv
  obtain ⟨w, e, hw⟩ := force_num emit (hl₁.num hn)
  refine .look e ?_
  refine .after (readChar_does he hs₁ hv hw hvalid.1 hch (hask _ ha)) fun c s₂ hs₂ hl₂ hc => ?_
  refine (idOf_num hs₂ hc.1).mono fun i f s₃ _ _ hi => ⟨hi.1, fun r hr => ?_⟩
  rcases hc.2 r (hask _ hr) with rfl | hr'
  · exact .inr hi.2.2
  · exact .inl (hi.2.1 _ hr')

/-- A part of a string is read from the string that it is a part of. -/
theorem whole_makes (he : Emits emit) {str index whole start length : InfoId} (h : At σ s str index ch)
    (hv : (s.info str).virt = some (.slice u whole start length)) : σ.Makes (do
      let i ← force emit index
      let full ← addLengths emit (((← info start).box).getD default) i
      pure (whole, ← idOf full)) s fun r f s' => At (σ.naming f) s' r.1 r.2 ch ∧ r.1 < str ∧ ∀ b, σ.Awaits s b → (σ.naming f).Awaits s' b := by
  obtain ⟨hentry, cs, u', k, hc, hn, hch⟩ := h
  obtain ⟨⟨hlt, hd⟩, ds, a, n, hds, ⟨x, hx, hgx⟩, -, h0, h1, hle, e⟩ := hentry.sound.builds str _ hentry.lt hv
  cases hc.symm.trans e
  have hwhole : Entry σ s whole := ⟨hentry.sound, Nat.lt_trans hlt hentry.lt, hentry.free.of_lt hlt hd⟩
  obtain ⟨v, e, hv⟩ := force_num emit hn
  refine .look e (.info ?_)
  rw [hx]
  rw [Content.num_eq_int h0] at hgx
  refine .after (addLengths_asked he hentry.sound hgx hv) fun full s₁ hs₁ hl₁ hfull => ?_
  obtain ⟨hfull, hask⟩ := hfull
  refine (idOf_num hs₁ hfull).bind fun j f s₂ hs₂ hg hj => ?_
  refine .pure hs₂ ⟨⟨(hwhole.later hl₁ hs₁).grows hg hs₂, ds, u, a.toInt.toNat + k, ?_, hj.1, ?_⟩, hlt, fun b hb => hj.2.1 _ (hask _ hb)⟩
  · exact (hg.agrees whole (hl₁.size ▸ hwhole.lt)).trans hds
  · rw [StringFunction.part, List.getElem?_take] at hch
    split at hch
    · rwa [List.getElem?_drop] at hch
    · cases hch

theorem slice?_eq_some {x : Info} {str start length : InfoId} (h : slice? x = some (str, start, length)) :
    ∃ u, x.virt = some (.slice u str start length) := by
  unfold slice? at h
  split at h
  · cases h
    exact ⟨_, ‹_›⟩
  · cases h

theorem indexBelow_eq_some {n : Option Int64} {size q : Nat} (h : indexBelow n size = some q) : n = some (Int64.ofInt q) ∧ q < size := by
  obtain ⟨k, rfl, hq⟩ := Option.bind_eq_some_iff.1 h
  split at hq
  · rename_i hk
    simp only [Bool.and_eq_true, decide_eq_true_eq] at hk
    cases hq
    refine ⟨?_, by omega⟩
    rw [Int.toNat_of_nonneg hk.1, Int64.ofInt_toInt]
  · cases hq

/-- The character at a place of a string that is no part of another one. -/
def charOf (emit : Emit) (m : StringMode) (n : Nat) (str index : InfoId) (result : Option Box) : OptimizeM InfoId := do
  let at_ := (← info index).constInt?
  match (← info str).virt, at_ with
  | some (.plain _ chars), _ =>
    match (indexBelow at_ chars.size).bind fun k => (chars[k]?).join with
    | some c => pure c
    | none => charAt.fromMemory emit m str index result
  | some (.concat _ l r _), some k => do
    match (← stringLength emit m l none).int? with
    | some len =>
      if k < len then charAt emit m n l index none
      else charAt emit m n r (← idOf (.const (.int (k - len)))) none
    | none => charAt.fromMemory emit m str index result
  | _, _ => charAt.fromMemory emit m str index result

/-- The string that a place of a string is read from, and the place there. -/
def placeOf (emit : Emit) (str index : InfoId) : OptimizeM (InfoId × InfoId) := do
  match slice? (← info str) with
  | some (whole, start, _) => do
    let i ← force emit index
    let full ← addLengths emit (((← info start).box).getD default) i
    pure (whole, ← idOf full)
  | none => pure (str, index)

theorem charAt_succ (n : Nat) (str index : InfoId) : charAt emit m (n + 1) str index result = (do
    ensureNonNull str
    let place ← placeOf emit str index
    charOf emit m n place.1 place.2 result) := by
  refine congrArg _ (funext fun _ => ?_)
  rw [placeOf, bind_assoc]
  refine congrArg _ (funext fun x => ?_)
  cases slice? x with
  | none =>
    rfl
  | some p =>
    simp only [bind_assoc, pure_bind]
    rfl

theorem Num.index (h : σ.Num s i (Int64.ofInt k)) (hn : (s.info i).constInt? = some n) (hk : k < 2 ^ 63) : n = Int64.ofInt k ∧ n.toInt = k := by
  cases h.constInt? hn
  exact ⟨rfl, toInt_ofInt_nat hk⟩

theorem plain_char {k : Nat} {w : Bool} {chars : Array (Option InfoId)} {index c : InfoId} (h : σ.Sound s) (hi : i < s.infos.size)
    (hc : σ.content i = .str cs u) (hvirt : (s.info i).virt = some (.plain w chars)) (hnum : σ.Num s index (Int64.ofInt (k : Nat)))
    (hch : cs[k]? = some ch) (hchar : ((indexBelow (s.info index).constInt? chars.size).bind fun k => (chars[k]?).join) = some c) :
    σ.Num s c (Int64.ofInt ch) := by
  have hvalid := h.valid i hi
  rw [hc] at hvalid
  have hk : k < cs.length := (List.getElem?_eq_some_iff.1 hch).1
  obtain ⟨q, hq, hjoin⟩ := Option.bind_eq_some_iff.1 hchar
  obtain ⟨hconst, hsize⟩ := indexBelow_eq_some hq
  obtain ⟨ds, e, hspells⟩ := h.builds i _ hi hvirt
  cases hc.symm.trans e
  have hlen : chars.size = cs.length := hspells.length_eq
  obtain ⟨-, hqk⟩ := hnum.index hconst (Nat.lt_trans hk hvalid.1)
  rw [toInt_ofInt_nat (by have := hvalid.1; omega)] at hqk
  cases Int.ofNat_inj.1 hqk
  have hspell := hspells.get (by simpa using hsize) hk
  rw [List.get_eq_getElem, List.get_eq_getElem, (List.getElem?_eq_some_iff.1 hch).2] at hspell
  rw [Option.join_eq_some_iff, ← Array.getElem?_toList] at hjoin
  rwa [(List.getElem?_eq_some_iff.1 hjoin).2] at hspell

theorem charOf_makes (he : Emits emit) {n : Nat} {str index : InfoId} (hat : At σ s str index ch) (ha : σ.Awaits s result) (hn : str ≤ n)
    (ih : ∀ {σ s str index ch result}, At σ s str index ch → σ.Awaits s result → str < n →
      σ.Makes (charAt emit m n str index result) s (σ.Character s ch)) :
    σ.Makes (charOf emit m n str index result) s (σ.Character s ch) := by
  have hmemory {s' : OptimizeState} (hl : σ.Later none s s') (hs' : σ.Sound s') (hask : ∀ r, σ.Awaits s r → σ.Awaits s' r) :
      σ.Makes (charAt.fromMemory emit m str index result) s' (σ.Character s ch) :=
    (fromMemory_makes (m := m) he (hat.later hl hs') (hask _ ha)).mono fun _ _ _ _ _ hi => ⟨hi.1, fun r hr => hi.2 r (hask _ hr)⟩
  obtain ⟨hentry, cs, u, k, hc, hnum, hch⟩ := hat
  have hvalid := hentry.sound.valid str hentry.lt
  rw [hc] at hvalid
  have hk : k < cs.length := (List.getElem?_eq_some_iff.1 hch).1
  refine .info (.info ?_)
  split
  · rename_i chars hvirt
    split
    · rename_i c hchar
      exact .pure hentry.sound ⟨plain_char hentry.sound hentry.lt hc hvirt hnum hch hchar, fun _ hr => .inl hr⟩
    · exact hmemory (.refl .none) hentry.sound fun _ hr => hr
  · rename_i l r length n' hvirt hconst
    obtain ⟨⟨hl, hdl⟩, ⟨hr, hdr⟩, xs, ys, hxs, hys, e, -⟩ := hentry.sound.builds str _ hentry.lt hvirt
    cases hc.symm.trans e
    have hleft : Entry σ s l := ⟨hentry.sound, Nat.lt_trans hl hentry.lt, hentry.free.of_lt hl hdl⟩
    have hright : Entry σ s r := ⟨hentry.sound, Nat.lt_trans hr hentry.lt, hentry.free.of_lt hr hdr⟩
    obtain ⟨rfl, hindex⟩ := hnum.index hconst (Nat.lt_trans hk hvalid.1)
    refine .after (stringLength_asked he m hleft hxs) fun len s₁ hs₁ hl₁ hlen => ?_
    obtain ⟨hlen, hask⟩ := hlen
    split
    · rename_i len' hlen'
      cases Value.of_int? hlen'
      cases hlen.int
      have hword : (Int64.ofInt xs.length).toInt = xs.length := toInt_ofInt_nat (by have := hvalid.1; rw [List.length_append] at this; omega)
      split
      · rename_i hlt
        rw [Int64.lt_iff_toInt_lt, hindex, hword, Int.ofNat_lt] at hlt
        rw [List.getElem?_append_left hlt] at hch
        exact (ih ⟨hleft.later hl₁ hs₁, xs, u, k, hxs, hl₁.num hnum, hch⟩ .none (Nat.lt_of_lt_of_le hl hn)).mono fun _ _ _ _ _ hi =>
          ⟨hi.1, fun r hr => hi.2 r (hask _ hr)⟩
      · rename_i hge
        rw [Int64.lt_iff_toInt_lt, hindex, hword, Int.ofNat_lt] at hge
        have hsub : Int64.ofInt k - Int64.ofInt xs.length = Int64.ofInt (k - xs.length : Nat) := by
          rw [← Int64.ofInt_sub, Int.ofNat_sub (Nat.not_lt.1 hge)]
        rw [hsub]
        refine (idOf_num hs₁ (hs₁.gives_const _)).bind fun j f s₂ hs₂ hg hj => ?_
        rw [List.getElem?_append_right (Nat.not_lt.1 hge)] at hch
        exact (ih ⟨(hright.later hl₁ hs₁).grows hg hs₂, ys, u, k - xs.length, (hg.agrees r (hl₁.size ▸ hright.lt)).trans hys, hj.1, hch⟩
          .none (Nat.lt_of_lt_of_le hr hn)).mono fun _ _ _ _ _ hi =>
          ⟨hi.1, fun r hr => hi.2 r (hj.2.1 _ (hask _ hr))⟩
    · exact hmemory hl₁ hs₁ hask
  · exact hmemory (.refl .none) hentry.sound fun _ hr => hr

theorem charAt_makes (he : Emits emit) (n : Nat) : ∀ {σ s str index ch result}, At σ s str index ch → σ.Awaits s result → str < n →
    σ.Makes (charAt emit m n str index result) s (σ.Character s ch) := by
  induction n with
  | zero => exact fun _ _ hn => absurd hn (Nat.not_lt_zero _)
  | succ n ih =>
    intro σ s str index ch result hat ha hn
    rw [charAt_succ]
    refine .after (ensureNonNull_does hat.entry.sound hat.entry.lt hat.entry.free.1) fun _ s₁ hs₁ hl₁ hsame => ?_
    obtain ⟨-, hvirt, hops, -⟩ := hsame
    have hat₁ := hat.later hl₁ hs₁
    refine .bind (Q := fun r f s' => At (σ.naming f) s' r.1 r.2 ch ∧ r.1 ≤ str ∧ ∀ b, σ.Awaits s b → (σ.naming f).Awaits s' b) (.info ?_) ?_
    · split
      · rename_i hslice
        obtain ⟨u, hw⟩ := slice?_eq_some hslice
        exact (whole_makes he hat₁ hw).mono fun _ _ _ _ _ hr => ⟨hr.1, Nat.le_of_lt hr.2.1, fun b hb => hr.2.2 b (hb.quiet hl₁ hops)⟩
      · exact .pure hs₁ ⟨hat₁, Nat.le_refl _, fun _ hb => hb.quiet hl₁ hops⟩
    · rintro ⟨str', index'⟩ f s₂ hs₂ hg₂ ⟨hat₂, hle, hask⟩
      exact (charOf_makes he hat₂ (hask _ ha) (Nat.le_trans hle (Nat.le_of_lt_succ hn)) ih).mono fun _ _ _ _ _ hi =>
        ⟨hi.1, fun r hr => hi.2 r (hask _ hr)⟩

end Scene

end FlowCompiler.Trace
