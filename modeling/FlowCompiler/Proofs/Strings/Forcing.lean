import FlowCompiler.Proofs.Strings.Allocating

/-!
# Allocating strings

A string that is known has the characters that it stands for.  The value of an entry, its length, and the string that is written for it
part by part all have its content; the recursion goes from a string to its parts, which are older.
-/

namespace FlowCompiler.Trace

open OptimizeM Nat List

variable {rest : Nat} {w : Virtual} {done : List Int} {target place : Value}

theorem forall₂_of_mapM {α β : Type} {f : α → Option β} {xs : List α} {ys : List β} (h : xs.mapM f = some ys) :
    List.Forall₂ (fun x y => f x = some y) xs ys := by
  induction xs generalizing ys with
  | nil =>
    cases h
    exact .nil
  | cons x xs ih =>
    rw [mapM_cons] at h
    obtain ⟨y, hy, h⟩ := Option.bind_eq_some_iff.1 h
    obtain ⟨zs, hzs, h⟩ := Option.bind_eq_some_iff.1 h
    cases h
    exact .cons hy (ih hzs)

theorem StringFunction.length_part {cs : List Int} {a n : Int} (h0 : 0 ≤ a) (h1 : 0 ≤ n) (h : a + n ≤ cs.length) : (part cs a n).length = n := by
  rw [part, length_take, length_drop]
  omega

variable {chars : List (Option InfoId)} {result : Option Box}

namespace Scene

variable {σ : Scene} {s s' : OptimizeState} {i : Nat} {cs : List Int} {u : Bool}

/-! ## Known strings -/

theorem Num.constInt? {n k : Int64} (hn : σ.Num s i n) (hk : (s.info i).constInt? = some k) : k = n := by
  obtain ⟨v, hv, hg⟩ := hn
  unfold Info.constInt? at hk
  split at hk
  · rw [hv, Option.bind_some] at hk
    cases Value.of_int? hk
    exact hg.int
  · cases hk

theorem Sound.constRef? (h : σ.Sound s) {r : Ref} (hk : (s.info i).constRef? = some r) :
    ∃ cs u, σ.content i = .str cs u ∧ s.store.str? r = some (cs, u) := by
  unfold Info.constRef? at hk
  split at hk
  · obtain ⟨c, hc, hm⟩ := h.consts i ‹_›
    rw [hc, Option.bind_some] at hk
    cases Value.of_ref? hk
    cases hx : σ.content i with
    | num n =>
      rw [hx] at hm
      cases hm
    | str cs u =>
      rw [hx] at hm
      exact ⟨cs, u, rfl, hm⟩
  · cases hk

theorem chars_eq {ds : List Int} (hcs : ∀ c ∈ cs, Store.isScalar c = true) (hspells : List.Forall₂ (σ.Spells s) chars cs) (e : chars.mapM (fun c => do
      let c ← c
      let code ← (s.info c).constInt?
      pure (Reader.toChar code)) = some ds) : ds = cs := by
  have hall := forall₂_of_mapM e
  clear e
  induction hspells generalizing ds with
  | nil =>
    cases hall
    rfl
  | @cons c x _ _ hx _ ih =>
    cases hall with
    | cons hd hrest =>
      obtain ⟨j, rfl, hj⟩ := Option.bind_eq_some_iff.1 hd
      obtain ⟨code, hcode, hch⟩ := Option.bind_eq_some_iff.1 hj
      cases Num.constInt? hx hcode
      rw [Config.toChar_ofInt (hcs x (by simp))] at hch
      cases hch
      rw [ih (fun y hy => hcs y (by simp [hy])) hrest]

/-- The characters of a string that is known by its parts. -/
theorem Sound.virtualString? (h : σ.Sound s) {n : Nat} (hlt : i < s.infos.size) (hw : σ.Builds s i w)
    (parts : ∀ {j ds}, j < s.infos.size → OptimizeM.constString? s n j = some ds → ∃ u, σ.content j = .str ds u)
    (e : constString?.virtualString? s n w = some cs) : ∃ u, σ.content i = .str cs u := by
  cases w with
  | plain u chars =>
    obtain ⟨ds, hi, hspells⟩ := hw
    rw [constString?.virtualString?] at e
    have hvalid := h.valid i hlt
    rw [hi] at hvalid
    cases chars_eq hvalid.2 hspells e
    exact ⟨u, hi⟩
  | concat u l r length =>
    obtain ⟨⟨hl, -⟩, ⟨hr, -⟩, a, b, ha, hb, hi, -⟩ := hw
    rw [constString?.virtualString?] at e
    obtain ⟨xs, hxs, e⟩ := Option.bind_eq_some_iff.1 e
    obtain ⟨ys, hys, e⟩ := Option.bind_eq_some_iff.1 e
    obtain ⟨_, hxs⟩ := parts (Nat.lt_trans hl hlt) hxs
    obtain ⟨_, hys⟩ := parts (Nat.lt_trans hr hlt) hys
    cases ha.symm.trans hxs
    cases hb.symm.trans hys
    cases e
    exact ⟨_, hi⟩
  | slice u str start length =>
    obtain ⟨⟨hstr, -⟩, ds, a, m, hds, ha, hm, -, -, -, hi⟩ := hw
    rw [constString?.virtualString?] at e
    obtain ⟨first, hfirst, e⟩ := Option.bind_eq_some_iff.1 e
    obtain ⟨len, hlen, e⟩ := Option.bind_eq_some_iff.1 e
    obtain ⟨full, hfull, e⟩ := Option.bind_eq_some_iff.1 e
    obtain ⟨_, hfull⟩ := parts (Nat.lt_trans hstr hlt) hfull
    cases hds.symm.trans hfull
    cases ha.constInt? hfirst
    cases hm.constInt? hlen
    split at e
    · cases e
    · cases e
      exact ⟨u, hi⟩
  | struct _ _ _ =>
    cases hw
  | array _ _ _ =>
    cases hw

theorem Sound.constString? (h : σ.Sound s) (n : Nat) :
    ∀ {i cs}, i < s.infos.size → OptimizeM.constString? s n i = some cs → ∃ u, σ.content i = .str cs u := by
  induction n with
  | zero =>
    intro i cs _ e
    rw [OptimizeM.constString?] at e
    cases e
  | succ n ih =>
    intro i cs hlt e
    rw [OptimizeM.constString?] at e
    split at e
    · obtain ⟨⟨ds, u⟩, hds, rfl⟩ := Option.map_eq_some_iff.1 e
      obtain ⟨r, hr, hs⟩ := Option.bind_eq_some_iff.1 hds
      obtain ⟨cs, u, hc, hs'⟩ := h.constRef? hr
      cases hs.symm.trans hs'
      exact ⟨_, hc⟩
    · split at e
      · exact h.virtualString? hlt (h.builds i _ hlt ‹_›) ih e
      · cases e

theorem Sound.knownString? (h : σ.Sound s) (hlt : i < s.infos.size) :
    ∃ r, OptimizeM.knownString? i s = .ok r s ∧ ∀ cs, r = some cs → ∃ u, σ.content i = .str cs u :=
  ⟨_, rfl, fun _ e => h.constString? _ hlt e⟩

/-! ## What the functions do -/

/-- What is asked of an entry that is looked at. -/
structure Entry (σ : Scene) (s : OptimizeState) (i : InfoId) : Prop where
  sound : σ.Sound s
  lt : i < s.infos.size
  free : σ.Free i

/-- What is asked of the parts of a string, which may be being allocated itself. -/
structure Parts (σ : Scene) (s : OptimizeState) (i : InfoId) (w : Virtual) (cs : List Int) (u : Bool) : Prop where
  sound : σ.Sound s
  lt : i < s.infos.size
  draft : ¬ σ.draft i
  free : ∀ j < i, ¬ σ.draft j → σ.Free j
  builds : σ.Builds s i w
  content : σ.content i = .str cs u

/-- What is asked of a string that is being filled, and of the place where to go on. -/
structure Room (σ : Scene) (s : OptimizeState) (target place : Value) (done : List Int) (rest : Nat) (u : Bool) : Prop where
  target : σ.Target s target (blankAfter done rest) u
  place : σ.Gives s place (.int done.length)

/-- What the functions that allocate do, with a given bound of the depth of the recursion. -/
structure Builder (emit : Emit) (n : Nat) : Prop where
  forces : ∀ {σ s} {i : Nat}, Entry σ s i → ((s.info i).box = none → 4 * i + 4 ≤ n) → 1 ≤ n →
    σ.Does none (forceAux emit n i) s fun v s' => σ.Gives s' v (σ.content i) ∧ (s'.info i).box = some v
  allocates : ∀ {σ s} {i : Nat} {w b}, Entry σ s i → (s.info i).box = none → (s.info i).virt = some w → (s.info i).key = .box b → 4 * i + 3 ≤ n →
    σ.Does none (allocate emit n i (.box b) w) s fun _ s' => (s'.info i).box ≠ none
  measuresParts : ∀ {σ s} {i : Nat} {w cs u}, Parts σ s i w cs u → 2 * i + 1 ≤ n →
    σ.Does none (virtualLength (some emit) n i w) s fun v s' => ∃ x, v = some x ∧ σ.Gives s' x (.int cs.length)
  measures : ∀ {σ s} {i : Nat} {cs u} (m : StringMode) {result : Option Box}, Entry σ s i → σ.content i = .str cs u → σ.Awaits s result → 2 * i + 2 ≤
    n → σ.Does none (stringLengthAux (some emit) m result n i) s fun v s' => ∃ x, v = some x ∧ σ.Gives s' x (.int cs.length) ∧ σ.Answers s x s'
  copies : ∀ {σ s} {i : Nat} {cs u target place done rest w} (m : StringMode), Entry σ s i → σ.content i = .str cs u → cs.length ≤ rest →
    σ.Room s target place done rest w → 4 * i + 5 ≤ n → σ.Does (some target) (copyString emit m n i target place) s (σ.Copied target done cs rest w)
  copiesWhole : ∀ {σ s} {i : Nat} {cs u target place done rest w} (m : StringMode), Entry σ s i → σ.content i = .str cs u → (s.info i).box ≠ none →
    cs.length ≤ rest → σ.Room s target place done rest w → 4 * i + 4 ≤ n →
    σ.Does (some target) (copyWhole emit m n i target place) s (σ.Copied target done cs rest w)
  fills : ∀ {σ s} {i : Nat} {v cs u target place done rest w}, Parts σ s i v cs u → cs.length ≤ rest → σ.Room s target place done rest w →
    4 * i + 2 ≤ n → σ.Does (some target) (fillString emit n v target place) s (σ.Copied target done cs rest w)

variable {emit : Emit} {n : Nat} {m : StringMode} {t : Option Value}

theorem Entry.later (h : Entry σ s i) (hl : σ.Later t s s') (hs' : σ.Sound s') : Entry σ s' i := ⟨hs', hl.size ▸ h.lt, h.free⟩

theorem Parts.unasked (h : Parts σ s i w cs u) : Parts σ.unasked s i w cs u := ⟨h.sound.unasked, h.lt, h.draft, h.free, h.builds.altered, h.content⟩

theorem Room.later (h : σ.Room s target place done rest u)
    (hl : σ.Later none s s') : σ.Room s' target place done rest u := ⟨h.target.later hl, hl.gives h.place⟩

theorem Builder.zero : Builder emit 0 where
  forces _ _ hn := (not_succ_le_zero _ hn).elim
  allocates _ _ _ _ hn := (not_succ_le_zero _ hn).elim
  measuresParts _ hn := (not_succ_le_zero _ hn).elim
  measures _ _ _ _ _ hn := (not_succ_le_zero _ hn).elim
  copies _ _ _ _ _ hn := (not_succ_le_zero _ hn).elim
  copiesWhole _ _ _ _ _ _ hn := (not_succ_le_zero _ hn).elim
  fills _ _ _ hn := (not_succ_le_zero _ hn).elim

theorem forceAux_of_box {v : Value} (hv : (s.info i).box = some v) : forceAux emit (n + 1) i s = .ok v s := by
  rw [forceAux]
  refine (bind_eq rfl).trans ?_
  rw [hv]
  rfl

theorem forceAux_succ (hb : Builder emit n) (h : Entry σ s i) (hn : (s.info i).box = none → 4 * i + 4 ≤ n + 1) :
    σ.Does none (forceAux emit (n + 1) i) s fun v s' => σ.Gives s' v (σ.content i) ∧ (s'.info i).box = some v := by
  cases hv : (s.info i).box with
  | some v =>
    exact ⟨v, s, forceAux_of_box hv, h.sound, .refl .none, h.sound.entry i v h.lt hv h.free.not_busy, hv⟩
  | none =>
    obtain ⟨w, hw⟩ := Option.ne_none_iff_exists'.1 (h.sound.virtual i h.lt hv)
    obtain ⟨b, hk, -, -⟩ := h.sound.hidden i h.lt (.inl hv)
    rw [forceAux]
    refine .info ?_
    rw [hv, hw, hk]
    refine (hb.allocates h hv hw hk (le_of_succ_le_succ (hn hv))).bind fun _ s' hs' hl hne => ?_
    obtain ⟨v, hv'⟩ := Option.ne_none_iff_exists'.1 hne
    refine .info ?_
    rw [hv']
    exact .pure hs' .none ⟨hs'.entry i v (hl.size ▸ h.lt) hv' h.free.not_busy, hv'⟩

/-- What is made of a string depends on its parts only in its length and in how it is filled. -/
theorem allocate_eq {u : Bool} (hw : Virtual.stringMode? w = some ⟨u⟩) (i : InfoId) (b : Box) : allocate emit (n + 1) i (.box b) w = (do
      let d ← depth
      match constString?.virtualString? (← get) d w with
      | some cs => do
        let r ← onStore (Store.intern cs u)
        becomeConst i (some (.ofRef r))
      | none => do
        update i fun x => { x with box := some (.box b) }
        let length := (← virtualLength (some emit) n i w).getD default
        emit { code := (⟨u⟩ : StringMode).newstr, args := [length], result := some b }
        let _ ← fillString emit n w (.box b) zero) := by
  cases w <;> cases hw <;> rw [OptimizeM.allocate] <;> rfl

theorem allocate_succ (he : Emits emit) (hb : Builder emit n) {b : Box} (h : Entry σ s i) (hbox : (s.info i).box = none)
    (hw : (s.info i).virt = some w) (hkey : (s.info i).key = .box b) (hn : 4 * i + 3 ≤ n + 1) :
    σ.Does none (allocate emit (n + 1) i (.box b) w) s fun _ s' => (s'.info i).box ≠ none := by
  have hbuilds := h.sound.builds i w h.lt hw
  obtain ⟨cs, u, hcontent, hmode⟩ : ∃ cs u, σ.content i = .str cs u ∧ Virtual.stringMode? w = some ⟨u⟩ := by
    cases w with
    | plain u chars =>
      obtain ⟨cs, e, -⟩ := hbuilds
      exact ⟨cs, u, e, rfl⟩
    | concat u l r length =>
      obtain ⟨-, -, a, b, -, -, e, -⟩ := hbuilds
      exact ⟨_, u, e, rfl⟩
    | slice u str start length =>
      obtain ⟨-, cs, a, m, -, -, -, -, -, -, e⟩ := hbuilds
      exact ⟨_, u, e, rfl⟩
    | struct _ _ _ => cases hbuilds
    | array _ _ _ => cases hbuilds
  rw [allocate_eq hmode]
  obtain ⟨d, hd⟩ : ∃ d, depth s = .ok d s := ⟨_, rfl⟩
  refine .look hd (.get ?_)
  split
  · rename_i ds hds
    obtain ⟨_, e⟩ := h.sound.virtualString? h.lt hbuilds (fun hj => h.sound.constString? d hj) hds
    cases hcontent.symm.trans e
    have hvalid := h.sound.valid i h.lt
    rw [hcontent] at hvalid
    refine (intern_does h.sound hvalid.2 u).bind fun r s' hs' hl hr => ?_
    obtain ⟨hr, hinfos⟩ := hr
    have hbox' : (s'.info i).box = none := by rwa [OptimizeState.info, hinfos]
    refine (becomeConst_does hs' (hl.size ▸ h.lt) h.free.1 hbox' hcontent hr).mono fun _ s'' _ _ hv => ?_
    rw [hv]
    exact Option.some_ne_none _
  · have hlength : 2 * i + 1 ≤ n := by omega
    have hfill : 4 * i + 2 ≤ n := by omega
    refine (makeString_does he h.sound h.lt h.free hbox hcontent hkey (fun B U L s' hs' hfree hl => ?_) fun B U L s' hs' hfree hl ht => ?_).mono
      fun _ s' _ _ hv => ?_
    · exact hb.measuresParts ⟨hs', hl.size ▸ h.lt, h.free.1, hfree, (hl.builds hbuilds).altered, hcontent⟩ hlength
    · refine (hb.fills ⟨hs', hl.size ▸ h.lt, h.free.1, hfree, (hl.builds hbuilds).altered, hcontent⟩ (Nat.le_refl _)
        ⟨ht, hs'.gives_int 0⟩ hfill).mono fun _ s'' _ _ hc => ?_
      simpa using hc.2
    · rw [hv]
      exact Option.some_ne_none _

theorem virtualLength_succ (he : Emits emit) (hb : Builder emit n) (h : Parts σ s i w cs u) (hn : 2 * i + 1 ≤ n + 1) :
    σ.Does none (virtualLength (some emit) (n + 1) i w) s fun v s' => ∃ x, v = some x ∧ σ.Gives s' x (.int cs.length) := by
  have hbuilds := h.builds
  cases w with
  | plain u chars =>
    obtain ⟨cs, e, hspells⟩ := hbuilds
    cases h.content.symm.trans e
    rw [virtualLength, ← Array.length_toList, hspells.length_eq]
    exact .pure h.sound .none ⟨_, rfl, h.sound.gives_int _⟩
  | concat u l r length =>
    obtain ⟨⟨hl, hdl⟩, ⟨hr, hdr⟩, xs, ys, hxs, hys, e, hlen⟩ := hbuilds
    cases h.content.symm.trans e
    have hl' := Nat.succ_le_of_lt hl
    have hr' := Nat.succ_le_of_lt hr
    cases length with
    | some len =>
      rw [virtualLength]
      exact .pure h.sound .none ⟨len, rfl, hlen len rfl⟩
    | none =>
      rw [virtualLength]
      refine (hb.measures ⟨u⟩ ⟨h.sound, Nat.lt_trans hl h.lt, h.free l hl hdl⟩ hxs .none (by omega)).bind fun a s₁ hs₁ hl₁ ha => ?_
      obtain ⟨a, rfl, ha, -⟩ := ha
      refine (hb.measures ⟨u⟩ ⟨hs₁, hl₁.size ▸ Nat.lt_trans hr h.lt, h.free r hr hdr⟩ hys .none (by omega)).bind fun b s₂ hs₂ hl₂ hb => ?_
      obtain ⟨b, rfl, hb, -⟩ := hb
      refine (intAdd_does he hs₂ .none (hl₂.gives ha) hb).bind fun sum s₃ hs₃ hl₃ hsum => ?_
      obtain ⟨x, rfl, hx⟩ := hsum
      have hwhole : σ.Gives s₃ x (.int (xs ++ ys).length) := by simpa using hx
      refine (update_does hs₃ (hl₃.size ▸ hl₂.size ▸ hl₁.size ▸ h.lt) h.draft rfl rfl (fun _ => Option.some_ne_none _) rfl fun w hw => ?_).bind
        fun _ s₄ hs₄ hl₄ _ => ?_
      · cases hw
        exact .inr ⟨⟨hl, hdl⟩, ⟨hr, hdr⟩, xs, ys, hxs, hys, h.content, fun v hv => by cases hv; exact hwhole⟩
      · exact .pure hs₄ .none ⟨x, rfl, hl₄.gives hwhole⟩
  | slice u str start length =>
    obtain ⟨-, ds, a, k, hds, -, ⟨x, hbox, hx⟩, h0, h1, hle, e⟩ := hbuilds
    cases h.content.symm.trans e
    rw [virtualLength]
    refine .info ?_
    rw [hbox]
    refine .pure h.sound .none ⟨x, rfl, ?_⟩
    rwa [StringFunction.length_part h0 h1 hle, Content.int, Int64.ofInt_toInt]
  | struct _ _ _ => cases hbuilds
  | array _ _ _ => cases hbuilds

theorem stringLengthAux_succ (he : Emits emit) (hb : Builder emit n) (h : Entry σ s i) (hcontent : σ.content i = .str cs u)
    (hresult : σ.Awaits s result) (hn : 2 * i + 2 ≤ n + 1) : σ.Does none (stringLengthAux (some emit) m result (n + 1) i) s fun v s' =>
      ∃ x, v = some x ∧ σ.Gives s' x (.int cs.length) ∧ σ.Answers s x s' := by
  rw [stringLengthAux]
  obtain ⟨known, hrun, hknown⟩ := h.sound.knownString? h.lt
  refine .look hrun ?_
  cases known with
  | some ds =>
    obtain ⟨_, e⟩ := hknown ds rfl
    cases hcontent.symm.trans e
    exact .pure h.sound .none ⟨_, rfl, h.sound.gives_int _, fun _ hr => .inr hr⟩
  | none =>
    refine .info ?_
    cases hvirt : (s.info i).virt with
    | some w =>
      have hbuilds := h.sound.builds i w h.lt hvirt
      have hparts : σ.Parts s i w cs u := ⟨h.sound, h.lt, h.free.1, fun j hj hd => h.free.of_lt hj hd, hbuilds, hcontent⟩
      have hrec : σ.Does none (virtualLength (some emit) n i w) s fun v s' =>
          ∃ x, v = some x ∧ σ.Gives s' x (.int cs.length) ∧ σ.Answers s x s' := by
        refine (hb.measuresParts hparts.unasked (by omega)).ask.mono fun v s' _ _ hv => ?_
        obtain ⟨⟨x, rfl, hx⟩, hask⟩ := hv
        exact ⟨x, rfl, hx.asked, fun r hr => .inr (hask _ hr)⟩
      cases w with
      | plain _ _ => exact hrec
      | concat _ _ _ _ => exact hrec
      | slice _ _ _ _ => exact hrec
      | struct _ _ _ => cases hbuilds
      | array _ _ _ => cases hbuilds
    | none =>
      -- a string that is not virtual has a value, whose length is read from memory
      obtain ⟨k, rfl⟩ : ∃ k, n = k + 1 := ⟨n - 1, by omega⟩
      obtain ⟨v, hbox⟩ : ∃ v, (s.info i).box = some v := by
        cases hbox : (s.info i).box with
        | none => exact absurd hvirt (h.sound.virtual i h.lt hbox)
        | some v => exact ⟨v, rfl⟩
      refine (ensureNonNull_does h.sound h.lt h.free.1).bind fun _ s₂ hs₂ hl₂ hsame => ?_
      obtain ⟨hsame, -, hops, hstore⟩ := hsame
      have hv := hs₂.entry i v (hl₂.size ▸ h.lt) (hsame.trans hbox) h.free.not_busy
      refine .look (forceAux_of_box (hsame.trans hbox)) ?_
      rw [hcontent] at hv
      have hcode : m.strlen.direct = true := by rcases m with ⟨_ | _⟩ <;> rfl
      have hargs : ∀ w ∈ [v], s₂.Canon w := by simp [hv.canon]
      have hrun (s' : OptimizeState) (b : Box) (c : Config) (hl : σ.Later none s₂ s') (hc : σ.Reaches s' c) :
          c.step { code := m.strlen, args := [v], result := some b } = some ⟨Function.update c.env b (.int (Int64.ofInt cs.length)), c.store⟩ :=
        Config.step_strlen ((hl.gives hv).shows c hc)
      cases result with
      | some r =>
        have hr := hresult.quiet hl₂ hops
        obtain ⟨hnew, hid⟩ := hr.new hs₂
        exact (Does.number he hs₂ .none hcode rfl hnew hid hargs fun c hc => hrun s₂ r c (.refl .none) hc).bind fun _ s₃ hs₃ _ hb =>
          .pure hs₃ .none ⟨_, rfl, hb, hresult.answers⟩
      | none =>
        refine (Does.new_number (R := fun x s' => ∃ y, x = some y ∧ σ.unasked.Gives s' y (.int cs.length)) he hs₂.unasked .none hcode hargs
          (fun s' b c hl hc => Config.step_strlen ((hl.gives hv.unasked).shows c hc)) fun r s₃ hs₃ _ hr => .pure hs₃ .none
            ⟨_, rfl, hr⟩).ask.mono fun x s₃ _ _ hx => ?_
        obtain ⟨⟨y, rfl, hy⟩, hask⟩ := hx
        exact ⟨y, rfl, hy.asked, fun r hr => .inr (hask _ (hr.quiet hl₂ hops))⟩

theorem copyString_succ (hb : Builder emit n) {w : Bool} (h : Entry σ s i)
    (hcontent : σ.content i = .str cs u) (hrest : cs.length ≤ rest) (ht : σ.Room s target place done rest w) (hn : 4 * i + 5 ≤ n + 1) :
    σ.Does (some target) (copyString emit m (n + 1) i target place) s (σ.Copied target done cs rest w) := by
  rw [copyString]
  refine .info ?_
  cases hvirt : (s.info i).virt with
  | none => exact hb.copiesWhole m h hcontent (fun hbox => h.sound.virtual i h.lt hbox hvirt) hrest ht (by omega)
  | some v =>
    have hbuilds := h.sound.builds i v h.lt hvirt
    have hparts : σ.Parts s i v cs u := ⟨h.sound, h.lt, h.free.1, fun j hj hd => h.free.of_lt hj hd, hbuilds, hcontent⟩
    have hfill := hb.fills hparts hrest ht (by omega)
    cases v with
    | plain u' chars =>
      dsimp only
      split
      · rename_i hc
        refine hb.copiesWhole ⟨u'⟩ h hcontent (fun hbox => ?_) hrest ht (by omega)
        simp [Info.isVirtual, hvirt, hbox] at hc
      · exact hfill
    | concat _ _ _ _ => exact hfill
    | slice _ _ _ _ => exact hfill
    | struct _ _ _ => cases hbuilds
    | array _ _ _ => cases hbuilds

section

variable (he : Emits emit)
include he

theorem copyWhole_succ (hb : Builder emit n) {w : Bool} (h : Entry σ s i) (hcontent : σ.content i = .str cs u) (hbox : (s.info i).box ≠ none)
    (hrest : cs.length ≤ rest) (ht : σ.Room s target place done rest w) (hn : 4 * i + 4 ≤ n + 1) :
    σ.Does (some target) (copyWhole emit m (n + 1) i target place) s (σ.Copied target done cs rest w) := by
  obtain ⟨v, hv⟩ := Option.ne_none_iff_exists'.1 hbox
  have hvalid := h.sound.valid i h.lt
  rw [hcontent] at hvalid
  rw [copyWhole]
  refine ((hb.measures m h hcontent .none (by omega)).aside ht.target.may).bind fun len s₁ hs₁ hl₁ hlen => ?_
  obtain ⟨hn₁, x, rfl, hx, -⟩ := hlen
  refine ((hb.forces (h.later hn₁ hs₁) (fun e => ?_) (by omega)).aside hl₁.may).bind fun src s₂ hs₂ hl₂ hsrc => ?_
  · cases e.symm.trans (hn₁.box i v hv)
  obtain ⟨hn₂, hsrc, -⟩ := hsrc
  rw [hcontent] at hsrc
  have ht₂ := (ht.later hn₁).later hn₂
  refine (copyContent_does he hvalid (k := 0) (Nat.le_of_eq (Nat.zero_add _)) hrest hs₂ ht₂.target hsrc (hs₂.gives_int 0) ht₂.place
    (hn₂.gives hx)).bind fun v s₃ hs₃ hl₃ hc => ?_
  obtain ⟨p, rfl, hc⟩ := hc
  refine .pure hs₃ hl₃.may ?_
  simpa using hc

/-- One more character: what was never written is zero anyway. -/
theorem fillChar_does {n : Nat} {c : Option InfoId} {x : Int} {w : Bool} (h : σ.Sound s) (hx : σ.Spells s c x) (hscalar : Store.isScalar x = true)
    (ht : σ.Room s target place done (rest + 1) w) : σ.Does (some target) (do
      match c with
      | some c => do
        let ch ← forceAux emit (n + 1) c
        emit { code := m.setitem, args := [target, place, ch] }
      | none => pure ()
      addLengths emit place one) s fun v s' => σ.Room s' target v (done ++ [x]) rest w := by
  have next {s' : OptimizeState} (hs' : σ.Sound s') (hp : σ.Gives s' place (.int done.length)) (ht' : σ.Target s' target (blankAfter
      (done ++ [x]) rest) w) : σ.Does (some target) (addLengths emit place one) s' fun v s'' => σ.Room s'' target v (done ++ [x]) rest w := by
    refine ((addLengths_does he hs' .none hp (hs'.gives_int 1)).aside ht'.may).mono fun v s'' _ _ hv => ⟨ht'.later hv.1, ?_⟩
    simpa using hv.2
  cases c with
  | none =>
    cases hx
    exact next h ht.place (blankAfter.skip done rest ▸ ht.target)
  | some j =>
    obtain ⟨v, hbox, hv⟩ := hx
    refine .look (forceAux_of_box hbox) ?_
    refine (setItem_does he h ht.target ht.place hv hscalar).bind fun _ s' hs' hl ht' => next hs' (hl.gives ht.place) ht'

theorem fillChars_does {n : Nat} {w : Bool} (h : σ.Sound s) (hcs : ∀ c ∈ cs, Store.isScalar c = true) (hspells : List.Forall₂ (σ.Spells s) chars cs)
    (hrest : cs.length ≤ rest) (ht : σ.Room s target place done rest w) : σ.Does (some target) (do
      let mut place := place
      for c in chars do
        match c with
        | some c => do
          let ch ← forceAux emit (n + 1) c
          emit { code := m.setitem, args := [target, place, ch] }
        | none => pure ()
        place ← addLengths emit place one
      pure place) s (σ.Copied target done cs rest w) := by
  let I (chars : List (Option InfoId)) (place : Value) (s' : OptimizeState) : Prop := ∃ before after, cs = before ++ after ∧
    List.Forall₂ (σ.Spells s') chars after ∧ σ.Room s' target place (done ++ before) (rest - before.length) w
  refine (Does.forIn (I := I) h ht.target.may ⟨[], cs, rfl, hspells, by simpa using ht⟩ ?_).bind fun place s' hs' hl hI => ?_
  · rintro c chars place s' hs' hmay ⟨before, after, rfl, hafter, ht⟩
    cases hafter with
    | @cons _ x _ after hx hafter =>
    rw [length_append, length_cons] at hrest
    have hroom : rest - before.length = rest - (before ++ [x]).length + 1 := by simp; omega
    rw [hroom] at ht
    have hchar := (fillChar_does (m := m) (n := n) he hs' hx (hcs x (by simp)) ht).bind (f := fun v => pure (ForInStep.yield v))
      (R := fun r s'' => ∃ b', r = .yield b' ∧ I chars b' s'') fun v s'' hs'' hl hv => by
        refine .pure hs'' hl.may ⟨v, rfl, before ++ [x], after, by simp, hafter.imp fun _ _ hy => hl.spells hy, by simpa using hv⟩
    cases c <;> simpa only [bind_assoc, pure_bind] using hchar
  · obtain ⟨before, after, rfl, hspells, ht⟩ := hI
    cases hspells
    refine .pure hs' hl.may ⟨?_, ?_⟩
    · simpa using ht.place
    · simpa using ht.target

theorem fillString_succ (hb : Builder emit n) {v : Virtual}
    {w : Bool} (h : Parts σ s i v cs u) (hrest : cs.length ≤ rest) (ht : σ.Room s target place done rest w) (hn : 4 * i + 2 ≤ n + 1) :
    σ.Does (some target) (fillString emit (n + 1) v target place) s (σ.Copied target done cs rest w) := by
  have hbuilds := h.builds
  cases v with
  | plain u chars =>
    obtain ⟨cs, e, hspells⟩ := hbuilds
    cases h.content.symm.trans e
    have hvalid := h.sound.valid i h.lt
    rw [h.content] at hvalid
    obtain ⟨k, rfl⟩ : ∃ k, n = k + 1 := ⟨n - 1, by omega⟩
    rw [fillString]
    exact fillChars_does he h.sound hvalid.2 hspells hrest ht
  | concat u l r length =>
    obtain ⟨⟨hl, hdl⟩, ⟨hr, hdr⟩, xs, ys, hxs, hys, e, -⟩ := hbuilds
    cases h.content.symm.trans e
    have hl' := Nat.succ_le_of_lt hl
    have hr' := Nat.succ_le_of_lt hr
    rw [length_append] at hrest
    rw [fillString]
    refine (hb.copies ⟨u⟩ ⟨h.sound, Nat.lt_trans hl h.lt, h.free l hl hdl⟩ hxs (by omega) ht (by omega)).bind fun middle s₁ hs₁ hl₁ hc => ?_
    refine (hb.copies ⟨u⟩ ⟨hs₁, hl₁.size ▸ Nat.lt_trans hr h.lt, h.free r hr hdr⟩ hys (by omega) ⟨hc.2, hc.1⟩ (by omega)).mono
      fun v s₂ _ _ hc => ?_
    simpa [Copied, Nat.sub_sub] using hc
  | slice u str start length =>
    obtain ⟨⟨hstr, hd⟩, ds, a, k, hds, ha, hk, h0, h1, hle, e⟩ := hbuilds
    cases h.content.symm.trans e
    have hstr' := Nat.succ_le_of_lt hstr
    have hvalid := h.sound.valid str (Nat.lt_trans hstr h.lt)
    rw [hds] at hvalid
    rw [fillString]
    refine ((hb.forces ⟨h.sound, Nat.lt_trans hstr h.lt, h.free str hstr hd⟩ (fun _ => by omega) (by omega)).aside ht.target.may).bind
      fun src s₁ hs₁ hl₁ hsrc => ?_
    obtain ⟨hn₁, hsrc, -⟩ := hsrc
    rw [hds] at hsrc
    obtain ⟨x, hx, hgx⟩ := hn₁.num ha
    obtain ⟨y, hy, hgy⟩ := hn₁.num hk
    refine .info (.info ?_)
    rw [hx, hy]
    have ht₁ := ht.later hn₁
    rw [Content.num_eq_int h0] at hgx
    rw [Content.num_eq_int h1] at hgy
    refine (copyContent_does he hvalid (by omega) (by have := StringFunction.length_part h0 h1 hle; omega) hs₁ ht₁.target hsrc hgx ht₁.place
      hgy).bind fun v s₂ hs₂ hl₂ hc => ?_
    obtain ⟨p, rfl, hc⟩ := hc
    exact .pure hs₂ hl₂.may hc
  | struct _ _ _ => cases hbuilds
  | array _ _ _ => cases hbuilds

/-! ## The whole recursion -/

theorem Builder.succ (hb : Builder emit n) : Builder emit (n + 1) where
  forces h hn _ := forceAux_succ hb h hn
  allocates h hbox hw hkey hn := allocate_succ he hb h hbox hw hkey hn
  measuresParts h hn := virtualLength_succ he hb h hn
  measures _ _ h hc hr hn := stringLengthAux_succ he hb h hc hr hn
  copies _ h hc hrest ht hn := copyString_succ hb h hc hrest ht hn
  copiesWhole _ h hc hbox hrest ht hn := copyWhole_succ he hb h hc hbox hrest ht hn
  fills h hrest ht hn := fillString_succ he hb h hrest ht hn

theorem builder (n : Nat) : Builder emit n := by
  induction n with
  | zero => exact .zero
  | succ n ih => exact ih.succ he

theorem force_does (h : Entry σ s i) : σ.Does none (force emit i) s fun v s' => σ.Gives s' v (σ.content i) ∧ (s'.info i).box = some v := by
  have hlt := succ_le_of_lt h.lt
  refine .look (a := 4 * s.infos.size + 8) rfl ?_
  exact (builder he _).forces h (fun _ => by omega) (by omega)

theorem stringLength_does (m : StringMode) (h : Entry σ s i) (hcontent : σ.content i = .str cs u) (hresult : σ.Awaits s result) :
    σ.Does none (stringLength emit m i result) s fun v s' => σ.Gives s' v (.int cs.length) ∧ σ.Answers s v s' := by
  have hlt := succ_le_of_lt h.lt
  refine .look (a := 4 * s.infos.size + 8) rfl ?_
  refine ((builder he _).measures m h hcontent hresult (by omega)).bind fun v s' hs' _ hv => ?_
  obtain ⟨x, rfl, hx⟩ := hv
  exact .pure hs' .none hx

end

end Scene
end FlowCompiler.Trace
