import FlowCompiler.Proofs.Flow.NewClasses
import FlowCompiler.Proofs.Union.Upper

/-!
# Exceptions and their handlers

The last operation of a block raises some classes of exceptions, and the handlers of the block are entered one
after the other.  A handler of a class catches the raised classes below it; of a raised class above it, it catches
its own part, and the raised class goes on to the next handlers as it is.  So a class below a raised one is never
lost before the first handler that catches it.
-/

namespace FlowCompiler

open List
namespace World

theorem isSubclass_iff {w : World} {c b : ClassDefId} : w.isSubclass c b ↔ b ∈ w.mro c := contains_iff_mem

end World

variable {defs : List ClassDefId} {id : LinkId} {a : Option Annot} {c : ClassDefId}

namespace Ana

open World

variable {w w' : World} {excs : List ClassDefId} {handler d e p : ClassDefId}

/-! ## What one handler catches -/

theorem mem_caught : p ∈ caught w excs handler ↔ ∃ d ∈ excs, (handler ∈ w.mro d ∧ p = d) ∨ (handler ∉ w.mro d ∧ d ∈ w.mro handler ∧ p = handler) := by
  rw [caught, mem_eraseDups, mem_filterMap]
  refine exists_congr fun d => and_congr_right fun _ => ?_
  simp only [isSubclass_iff]
  by_cases hd : handler ∈ w.mro d <;> by_cases hh : d ∈ w.mro handler <;> simp [hd, hh, eq_comm]

theorem mem_uncaught : d ∈ uncaught w excs handler ↔ d ∈ excs ∧ handler ∉ w.mro d := by
  rw [uncaught, mem_filter, Bool.not_eq_true', ← Bool.not_eq_true, isSubclass_iff]

theorem handler_mem_mro (h : p ∈ caught w excs handler) : handler ∈ w.mro p := by
  obtain ⟨d, -, ⟨hd, rfl⟩ | ⟨-, -, rfl⟩⟩ := mem_caught.1 h
  · exact hd
  · exact self_mem_mro p

theorem raised_mem_mro (h : p ∈ caught w excs handler) : ∃ d ∈ excs, d ∈ w.mro p := by
  obtain ⟨d, hd, ⟨-, rfl⟩ | ⟨-, hp, rfl⟩⟩ := mem_caught.1 h
  · exact ⟨p, hd, self_mem_mro p⟩
  · exact ⟨d, hd, hp⟩

/-- Of two classes above one, one is above the other: either the raised class is below the handler, or the handler
catches its own part of it. -/
theorem exists_caught (ho : w.Ordered) (hd : d ∈ excs) (he : d ∈ w.mro e) (hh : handler ∈ w.mro e) : ∃ p ∈ caught w excs handler, p ∈ w.mro e := by
  by_cases hbelow : handler ∈ w.mro d
  · exact ⟨d, mem_caught.2 ⟨d, hd, .inl ⟨hbelow, rfl⟩⟩, he⟩
  · have habove : d ∈ w.mro handler := (mem_mro_total ho he hh).resolve_left hbelow
    exact ⟨handler, mem_caught.2 ⟨d, hd, .inr ⟨hbelow, habove, rfl⟩⟩, hh⟩

/-- A raised class is kept for the next handlers while a class below it is not caught. -/
theorem mem_uncaught_of_not_mem (ho : w.Ordered) (hd : d ∈ excs) (he : d ∈ w.mro e) (hh : handler ∉ w.mro e) : d ∈ uncaught w excs handler :=
  mem_uncaught.2 ⟨hd, fun h => hh (mem_mro_trans ho he h)⟩

/-! ## What all handlers catch -/

/-- A handler and the classes that it is entered with. -/
structure Handed where
  handler : ClassDefId
  passed : List ClassDefId

/-- What each handler catches when they are asked one after the other. -/
def handed (w : World) : (handlers excs : List ClassDefId) → List Handed
  | [], _ => []
  | c :: rest, excs => { handler := c, passed := caught w excs c } :: handed w rest (uncaught w excs c)

theorem map_handler_handed (handlers excs : List ClassDefId) : (handed w handlers excs).map Handed.handler = handlers := by
  induction handlers generalizing excs with
  | nil => rfl
  | cons c rest ih => exact congrArg (c :: ·) (ih _)

/-- What no handler catches for certain. -/
def remaining (w : World) (handlers excs : List ClassDefId) : List ClassDefId := handlers.foldl (uncaught w) excs

theorem mem_remaining_of_not_mem {handlers : List ClassDefId} (ho : w.Ordered) (hd : d ∈ excs) (he : d ∈ w.mro e)
    (hh : ∀ c ∈ handlers, c ∉ w.mro e) : d ∈ remaining w handlers excs := by
  induction handlers generalizing excs with
  | nil => exact hd
  | cons c rest ih =>
    obtain ⟨hc, hrest⟩ := forall_mem_cons.1 hh
    exact ih (mem_uncaught_of_not_mem ho hd he hc) hrest

/-- Handlers are entered with raised classes below their own, and a class below a raised one is below one that the
first handler above it is entered with. -/
structure Routed (w : World) (excs : List ClassDefId) (xs : List Handed) : Prop where
  raised : ∀ x ∈ xs, ∀ p ∈ x.passed, ∃ d ∈ excs, w.isSubclass p d
  below : ∀ x ∈ xs, ∀ p ∈ x.passed, w.isSubclass p x.handler
  covers : ∀ {e d : ClassDefId} {pre post : List Handed} {x : Handed}, d ∈ excs → w.isSubclass e d → xs = pre ++ x :: post →
    w.isSubclass e x.handler → (∀ y ∈ pre, ¬ w.isSubclass e y.handler) → ∃ p ∈ x.passed, w.isSubclass e p

/-- **No class is lost before the first handler that is above it.** -/
theorem routed_handed (ho : w.Ordered) (handlers excs : List ClassDefId) : Routed w excs (handed w handlers excs) := by
  induction handlers generalizing excs with
  | nil => exact ⟨nofun, nofun, fun _ _ h => by cases (append_eq_nil_iff.1 h.symm).2⟩
  | cons c rest ih =>
    obtain ⟨raised, below, covers⟩ := ih (uncaught w excs c)
    constructor
    · intro x hx p hp
      rcases mem_cons.1 hx with rfl | hx
      · obtain ⟨d, hd, hpd⟩ := raised_mem_mro hp
        exact ⟨d, hd, isSubclass_iff.2 hpd⟩
      · obtain ⟨d, hd, hpd⟩ := raised x hx p hp
        exact ⟨d, (mem_uncaught.1 hd).1, hpd⟩
    · intro x hx p hp
      rcases mem_cons.1 hx with rfl | hx
      · exact isSubclass_iff.2 (handler_mem_mro hp)
      · exact below x hx p hp
    · intro e d pre post x hd he hxs hx hpre
      cases pre with
      | nil =>
        obtain ⟨rfl, -⟩ := List.cons.inj hxs
        obtain ⟨p, hp, hep⟩ := exists_caught ho hd (isSubclass_iff.1 he) (isSubclass_iff.1 hx)
        exact ⟨p, hp, isSubclass_iff.2 hep⟩
      | cons y pre =>
        obtain ⟨rfl, htail⟩ := List.cons.inj hxs
        obtain ⟨hy, hpre⟩ := forall_mem_cons.1 hpre
        rw [isSubclass_iff] at hy
        exact covers (mem_uncaught_of_not_mem ho hd (isSubclass_iff.1 he) hy) he htail hx hpre

/-! ## The annotation of the exception -/

/-- The annotation that a handler is entered with: none when it catches nothing, and else instances of a class
between its own and all that it catches. -/
def Handed.Enters (w : World) (x : Handed) : Option Annot → Prop
  | none => x.passed = []
  | some a => x.passed ≠ [] ∧ ∃ b, a = .instOf b ∧ w.isSubclass b x.handler ∧ ∀ p ∈ x.passed, w.isSubclass p b

theorem union_instOf (ho : w.Ordered) {a b c : ClassDefId} (ha : c ∈ w.mro a) (hb : c ∈ w.mro b) (k : Knot) :
    ∃ j, union (.instOf a) (.instOf b) k w = .ok (.instOf j) w ∧ c ∈ w.mro j ∧ j ∈ w.mro a ∧ j ∈ w.mro b := by
  have hrun : union (.instOf a) (.instOf b) k w = .ok ((simpleUnion? w (.instOf a) (.instOf b)).getD .object) w := rfl
  by_cases hab : a = b
  · subst hab
    refine ⟨a, ?_, ha, self_mem_mro a, self_mem_mro a⟩
    rw [hrun]
    simp [simpleUnion?, Annot.instOf]
  · cases hj : w.commonBase? a b with
    | none => exact absurd hb (commonBase?_eq_none_iff.1 hj c ha)
    | some j =>
      have hmro := (commonBase?_eq_some_iff ho).1 hj
      obtain ⟨hja, hjb⟩ := (hmro j).1 (self_mem_mro j)
      refine ⟨j, ?_, (hmro c).2 ⟨ha, hb⟩, hja, hjb⟩
      rw [hrun]
      simp [simpleUnion?, Annot.instOf, hab, hj]

theorem foldlM_instOf (ho : w.Ordered) {a c : ClassDefId} (ha : c ∈ w.mro a) (hc : ∀ d ∈ defs, c ∈ w.mro d)
    (k : Knot) : ∃ b, (defs.map .instOf).foldlM union (.instOf a) k w = .ok (.instOf b) w ∧ c ∈ w.mro b ∧ b ∈ w.mro a ∧ ∀ d ∈ defs, b ∈ w.mro d := by
  induction defs generalizing a with
  | nil => exact ⟨a, rfl, ha, self_mem_mro a, nofun⟩
  | cons d rest ih =>
    obtain ⟨hd, hrest⟩ := forall_mem_cons.1 hc
    obtain ⟨j, hj, hcj, hja, hjd⟩ := union_instOf ho ha hd k
    obtain ⟨b, hb, hcb, hbj, hbrest⟩ := ih hcj hrest
    refine ⟨b, ?_, hcb, mem_mro_trans ho hja hbj, forall_mem_cons.2 ⟨mem_mro_trans ho hjd hbj, hbrest⟩⟩
    rw [map_cons, foldlM_cons, bind_of_ok hj, hb]

/-- Instances of classes below one are instances of one below that. -/
theorem instancesOf_spec (ho : w.Ordered) (hne : defs ≠ []) (hc : ∀ d ∈ defs, c ∈ w.mro d)
    (k : Knot) : ∃ b, instancesOf defs k w = .ok (.instOf b) w ∧ c ∈ w.mro b ∧ ∀ d ∈ defs, b ∈ w.mro d := by
  cases defs with
  | nil => exact absurd rfl hne
  | cons d rest =>
    obtain ⟨hd, hrest⟩ := forall_mem_cons.1 hc
    -- the first one is joined with the impossible
    obtain ⟨b, hb, hcb, hbd, hbrest⟩ := foldlM_instOf ho hd hrest k
    exact ⟨b, hb, hcb, forall_mem_cons.2 ⟨hbd, hbrest⟩⟩

/-! ## Following all links -/

/-- A link out of a block that may raise, and what became of it. -/
structure Visit where
  link : LinkId
  /-- None for the link that is taken when nothing is raised. -/
  handed : Option Handed
  /-- The annotation that the handler is entered with. -/
  entered : Option Annot

/-- Enters a handler with what it catches. -/
def enter (g : GraphId) (id : LinkId) (matching : List ClassDefId) : Ana (Option Annot) := do
  if matching.isEmpty then return none
  let exc ← instancesOf matching
  followRaiseLink g id exc
  return some exc

/-- Follows the link that is taken when nothing is raised. -/
def passBy (g : GraphId) (raised : Bool) (id : LinkId) : Ana Unit := if raised then pure ⟨⟩ else followLink g id fun _ => none

/-- Follows the links of a block whose last operation may raise, and tells what became of each. -/
def visit (g : GraphId) (raised : Bool) : (exits : List LinkId) → (excs : List ClassDefId) → Ana (List Visit)
  | [], _ => pure []
  | id :: rest, excs => do
    let w ← get
    if (w.prog.flow.link id).exitCase = .nil then do
      passBy g raised id
      return { link := id, handed := none, entered := none } :: (← visit g raised rest excs)
    else if excs.isEmpty then return []
    else do
      let handler ← handlerClass (w.prog.flow.link id).exitCase
      let w ← get
      let entered ← enter g id (caught w excs handler)
      let v : Visit := { link := id, handed := some { handler, passed := caught w excs handler }, entered }
      return v :: (← visit g raised rest (uncaught (← get) excs handler))

theorem followRaising_eq (g : GraphId) (raised : Bool) (exits : List LinkId) (excs : List ClassDefId) :
    followRaising g raised exits excs = (visit g raised exits excs >>= fun _ => pure ⟨⟩) := by
  induction exits generalizing excs with
  | nil => rfl
  | cons id rest ih =>
    rw [followRaising, visit, bind_assoc]
    refine bind_congr fun w => ?_
    split
    · rename_i hcase
      cases raised <;> simp [passBy, ih, hcase]
    · rename_i hcase
      rw [if_neg hcase]
      by_cases hempty : excs.isEmpty
      · simp [hempty]
      · simp only [hempty, Bool.false_eq_true, if_false, bind_assoc]
        refine bind_congr fun handler => bind_congr fun w => ?_
        by_cases hmatch : (caught w excs handler).isEmpty
        · simp [enter, hmatch, ih]
        · simp [enter, hmatch, ih]

/-- The handlers among the links that were followed. -/
def handlings (visits : List Visit) : List Handed := visits.filterMap Visit.handed

/-- The handlers are asked in the order of the links, and links are left out only when no class remains. -/
structure Follows (w : World) (exits : List LinkId) (excs : List ClassDefId) (visits : List Visit) : Prop where
  links : visits.map Visit.link <+: exits
  handed : handlings visits = handed w ((handlings visits).map Handed.handler) excs
  entered : ∀ v ∈ visits, ∀ x, v.handed = some x → x.Enters w v.entered ∧ (x.passed ≠ [] → v.link ∈ w.progress.followed)
  rest : visits.map Visit.link = exits ∨ remaining w ((handlings visits).map Handed.handler) excs = []

namespace Follows

variable {exits : List LinkId} {visits : List Visit}

theorem skip (h : Follows w exits excs visits) (id : LinkId) :
    Follows w (id :: exits) excs ({ link := id, handed := none, entered := none } :: visits) where
  links := (prefix_cons_inj id).2 h.links
  handed := h.handed
  entered v hv x hx := by
    rcases mem_cons.1 hv with rfl | hv
    · cases hx
    · exact h.entered v hv x hx
  rest := h.rest.imp_left (congrArg (id :: ·))

/-- A handler leaves to the next ones what it does not catch for certain. -/
theorem handle (h : Follows w exits (uncaught w excs handler) visits) (id : LinkId)
    (ha : Handed.Enters w { handler, passed := caught w excs handler } a ∧ (caught w excs handler ≠ [] → id ∈ w.progress.followed)) :
    Follows w (id :: exits) excs ({ link := id, handed := some { handler, passed := caught w excs handler }, entered := a } :: visits) where
  links := (prefix_cons_inj id).2 h.links
  handed := congrArg (Handed.mk handler (caught w excs handler) :: ·) h.handed
  entered v hv x hx := by
    rcases mem_cons.1 hv with rfl | hv
    · cases hx
      exact ha
    · exact h.entered v hv x hx
  rest := h.rest.imp_left (congrArg (id :: ·))

end Follows

/-! ## Later states -/

section Later

variable (h : ∀ {c : Nat}, w.Defined c → w'.mro c = w.mro c) (hc : w.Defined handler) (hd : ∀ d ∈ excs, w.Defined d)

include h hd

theorem uncaught_congr : uncaught w' excs handler = uncaught w excs handler := by
  refine filter_congr fun d hm => ?_
  rw [isSubclass, isSubclass, h (hd d hm)]

include hc

theorem caught_congr : caught w' excs handler = caught w excs handler := by
  refine congrArg List.eraseDups (filterMap_congr fun d hm => ?_)
  simp [isSubclass, h (hd d hm), h hc]

omit h

theorem defined_of_mem_caught (hp : p ∈ caught w excs handler) : w.Defined p := by
  obtain ⟨d, hm, ⟨-, rfl⟩ | ⟨-, -, rfl⟩⟩ := mem_caught.1 hp
  · exact hd p hm
  · exact hc

end Later

theorem Handed.Enters.later {x : Handed} (hx : x.Enters w a) (hw : w.Tree)
    (h : ∀ {c : Nat}, w.Defined c → w'.mro c = w.mro c) (hd : ∀ p ∈ x.passed, w.Defined p) : x.Enters w' a := by
  cases a with
  | none => exact hx
  | some a =>
    obtain ⟨hne, b, rfl, hb, hbelow⟩ := hx
    obtain ⟨p, hp⟩ := exists_mem_of_ne_nil _ hne
    have hbd : w.Defined b := hw.defined_of_mem_mro (hd p hp) (isSubclass_iff.1 (hbelow p hp))
    refine ⟨hne, b, rfl, ?_, fun p hp => ?_⟩
    · rwa [isSubclass, h hbd]
    · rw [isSubclass, h (hd p hp)]
      exact hbelow p hp

/-! ## Runs -/

variable {k : Knot} [KnotAlong Sprouting k] {g : GraphId} {raised : Bool} {exits : List LinkId} {visits : List Visit}

instance sprouting_passBy (id : LinkId) : Along Sprouting k (passBy g raised id) := .ite

theorem handlerClass_defined (hk : Defines k) {exitCase : Datum} (hw : w.Rooted) (h : handlerClass exitCase k w = .ok c w') : w'.Defined c := by
  cases exitCase with
  | cls c => exact uniqueClassDef_defined hk hw h
  | _ => cases h

/-- The link of a handler that is entered counts as followed from then on. -/
theorem followRaiseLink_follows {exc : Annot} (hw : w.Rooted) (h : followRaiseLink g id exc k w = .ok ⟨⟩ w') : id ∈ w'.progress.followed := by
  let Follows (m : Ana Unit) := ∀ w, w.Rooted → m k w = .ok ⟨⟩ w' → id ∈ w'.progress.followed
  have first {α : Type} {m : Ana α} {f : α → Ana Unit} [Along Sprouting k m] (hf : ∀ a, Follows (f a)) : Follows (m >>= f) := by
    intro w hw h
    obtain ⟨a, w₁, hm, h⟩ := of_bind_ok h
    exact hf a w₁ (Along.of_ok (R := Sprouting) m hm hw).rooted h
  have enters (b : BlockId) (cells : List Annot) : Follows (markFollowed id >>= fun _ => addPendingBlock g b cells) := by
    intro w hw h
    obtain ⟨_, w₁, hm, h⟩ := of_bind_ok h
    have rooted := (Along.of_ok (R := Sprouting) (markFollowed id) hm hw).rooted
    cases hm
    exact (Along.of_ok (R := Sprouting) (addPendingBlock g b cells) h rooted).followed Std.HashMap.mem_insert_self
  suffices Follows (followRaiseLink g id exc) from this w hw h
  refine first fun w => ?_
  dsimp only
  cases varOf? (w.prog.flow.link id).lastException <;> cases varOf? (w.prog.flow.link id).lastExcValue
  · exact first fun _ => enters _ _
  · exact first fun _ => first fun _ => enters _ _
  · exact first fun _ => first fun _ => first fun _ => enters _ _
  · exact first fun _ => first fun _ => first fun _ => first fun _ => enters _ _

theorem enter_spec {passed : List ClassDefId} (hw : w.Rooted) (hp : ∀ p ∈ passed, handler ∈ w.mro p) (h : enter g id passed k w = .ok a w') :
    w.Sprouts w' ∧ Handed.Enters w { handler, passed } a ∧ (passed ≠ [] → id ∈ w'.progress.followed) := by
  unfold enter at h
  by_cases hne : passed = []
  · subst hne
    cases h
    exact ⟨.refl hw, rfl, absurd rfl⟩
  · rw [if_neg (by simpa using hne)] at h
    obtain ⟨b, hb, hhandler, hbelow⟩ := instancesOf_spec hw.tree.ordered hne hp k
    rw [bind_of_ok hb] at h
    obtain ⟨_, w₁, hlink, h⟩ := of_bind_ok h
    cases h
    have hs := Along.of_ok (R := Sprouting) (followRaiseLink g id (.instOf b)) hlink hw
    exact ⟨hs, ⟨hne, b, rfl, isSubclass_iff.2 hhandler, fun p hp => isSubclass_iff.2 (hbelow p hp)⟩, fun _ => followRaiseLink_follows hw hlink⟩

omit [KnotAlong Sprouting k] in
/-- What becomes of the first link: it is not a handler, nothing is left to catch, or it is a handler and is asked. -/
theorem visit_cons_ok (h : visit g raised (id :: exits) excs k w = .ok visits w') :
    (∃ vs w₁, passBy g raised id k w = .ok ⟨⟩ w₁ ∧ visit g raised exits excs k w₁ = .ok vs w' ∧
      visits = { link := id, handed := none, entered := none } :: vs) ∨
    (excs = [] ∧ visits = [] ∧ w' = w) ∨
    ∃ c w₁ a w₂ vs, handlerClass (w.prog.flow.link id).exitCase k w = .ok c w₁ ∧ enter g id (caught w₁ excs c) k w₁ = .ok a w₂ ∧
      visit g raised exits (uncaught w₂ excs c) k w₂ = .ok vs w' ∧
      visits = { link := id, handed := some { handler := c, passed := caught w₁ excs c }, entered := a } :: vs := by
  obtain ⟨_, _, e, h⟩ := of_bind_ok h
  cases e
  split at h
  · obtain ⟨_, w₁, hpass, h⟩ := of_bind_ok h
    obtain ⟨vs, w₂, hrest, h⟩ := of_bind_ok h
    cases h
    exact .inl ⟨vs, w₁, hpass, hrest, rfl⟩
  · split at h
    · rename_i hempty
      cases h
      exact .inr (.inl ⟨isEmpty_iff.1 hempty, rfl, rfl⟩)
    · obtain ⟨c, w₁, hclass, h⟩ := of_bind_ok h
      obtain ⟨_, _, e, h⟩ := of_bind_ok h
      cases e
      obtain ⟨a, w₂, henter, h⟩ := of_bind_ok h
      obtain ⟨_, _, e, h⟩ := of_bind_ok h
      cases e
      obtain ⟨vs, w₃, hrest, h⟩ := of_bind_ok h
      cases h
      exact .inr (.inr ⟨c, w₁, a, w₂, vs, hclass, henter, hrest, rfl⟩)

/-- **Links are followed one after the other** with what the handlers before have left. -/
theorem visit_spec (hk : Defines k) (hw : w.Rooted) (hd : ∀ d ∈ excs, w.Defined d) (h : visit g raised exits excs k w = .ok visits w') :
    w.Sprouts w' ∧ Follows w' exits excs visits := by
  induction exits generalizing excs w visits with
  | nil =>
    cases h
    exact ⟨.refl hw, prefix_refl [], rfl, nofun, .inl rfl⟩
  | cons id rest ih =>
    rcases visit_cons_ok h with ⟨vs, w₁, hpass, hrest, rfl⟩ | ⟨rfl, rfl, rfl⟩ | ⟨c, w₁, a, w₂, vs, hclass, henter, hrest, rfl⟩
    · have hs := Along.of_ok (R := Sprouting) (passBy g raised id) hpass hw
      obtain ⟨hs', hf⟩ := ih hs.rooted (fun d hm => (hd d hm).mono hs.size) hrest
      exact ⟨hs.trans hs', hf.skip id⟩
    · exact ⟨.refl hw, nil_prefix, rfl, nofun, .inr rfl⟩
    · have hs₁ := Along.of_ok (R := Sprouting) (handlerClass _) hclass hw
      have hc := handlerClass_defined hk hw hclass
      have hd₁ (d) (hm : d ∈ excs) : w₁.Defined d := (hd d hm).mono hs₁.size
      obtain ⟨hs₂, hentered⟩ := enter_spec hs₁.rooted (fun p hp => handler_mem_mro hp) henter
      have hd₂ (d) (hm : d ∈ excs) : w₂.Defined d := (hd₁ d hm).mono hs₂.size
      obtain ⟨hs₃, hf⟩ := ih hs₂.rooted (fun d hm => hd₂ d (mem_uncaught.1 hm).1) hrest
      -- the hierarchy above classes that are there stays as it is
      have hmro₁ {x : Nat} (hx : w₁.Defined x) : w'.mro x = w₁.mro x := (hs₂.trans hs₃).mro hs₁.rooted hx
      have hmro₂ {x : Nat} (hx : w₂.Defined x) : w'.mro x = w₂.mro x := hs₃.mro hs₂.rooted hx
      rw [← uncaught_congr hmro₂ hd₂] at hf
      rw [← caught_congr hmro₁ hc hd₁] at hentered ⊢
      refine ⟨(hs₁.trans hs₂).trans hs₃, hf.handle id
        ⟨hentered.1.later hs₁.rooted.tree hmro₁ fun p hp => ?_, fun hne => hs₃.followed (hentered.2 hne)⟩⟩
      rw [caught_congr hmro₁ hc hd₁] at hp
      exact defined_of_mem_caught hc hd₁ hp

/-- **Exceptions reach their handlers**: in every hierarchy, handlers get classes below their own, and a class below
a raised one is below one that the first handler above it gets.  A run of the analysis enters handlers in that way, each
with instances of a class above all that it gets, and their links count as followed afterwards; it only leaves handlers out when
every class has found one. -/
theorem exceptions_reach_handlers : (∀ (w : World) (handlers excs : List ClassDefId), w.Ordered →
      (handed w handlers excs).map Handed.handler = handlers ∧ Routed w excs (handed w handlers excs)) ∧
    ∀ (n : Nat) (g : GraphId) (raised : Bool) (exits : List LinkId) (excs : List ClassDefId) (w w' : World),
      w.Formed → (∀ d ∈ excs, w.Defined d) → followRaising g raised exits excs (knotAux n) w = .ok ⟨⟩ w' →
      ∃ visits, visit g raised exits excs (knotAux n) w = .ok visits w' ∧ visits.map Visit.link <+: exits ∧
        Routed w' excs (handlings visits) ∧
        (∀ v ∈ visits, ∀ x, v.handed = some x → x.Enters w' v.entered ∧ (x.passed ≠ [] → v.link ∈ w'.progress.followed)) ∧
        ∀ e d, d ∈ excs → w'.isSubclass e d → (∃ x ∈ handlings visits, w'.isSubclass e x.handler) ∨ visits.map Visit.link = exits := by
  constructor
  · intro w handlers excs ho
    exact ⟨map_handler_handed handlers excs, routed_handed ho handlers excs⟩
  · intro n g raised exits excs w w' hw hd h
    rw [followRaising_eq] at h
    obtain ⟨visits, _, hrun, h⟩ := of_bind_ok h
    cases h
    obtain ⟨hs, hf⟩ := visit_spec (sprouting_knotAux n).2 ⟨hw.tree, fun h => hw.indexed.known (w.known_eq _ ▸ h)⟩ hd hrun
    have ho := hs.rooted.tree.ordered
    refine ⟨visits, hrun, hf.links, ?_, hf.entered, fun e d hmem he => ?_⟩
    · rw [hf.handed]
      exact routed_handed ho ..
    · by_cases hx : ∃ x ∈ handlings visits, w'.isSubclass e x.handler
      · exact .inl hx
      · refine .inr (hf.rest.resolve_right fun hnone => ?_)
        have hleft : d ∈ remaining w' ((handlings visits).map Handed.handler) excs :=
          mem_remaining_of_not_mem ho hmem (isSubclass_iff.1 he) fun c hc hec => by
            obtain ⟨x, hxm, rfl⟩ := mem_map.1 hc
            exact hx ⟨x, hxm, isSubclass_iff.2 hec⟩
        rw [hnone] at hleft
        cases hleft

/-- The classes of failed lookups, and a block that handles a missing key. -/
def lookups : World where
  classDefs := #[{ name := "LookupError", key := "", desc := 1, base := none, subs := [2, 3] },
    { name := "KeyError", key := "", desc := 2, base := some 1 }, { name := "IndexError", key := "", desc := 3, base := some 1 }]
  descs := #[.cls { cls := 0, name := "LookupError", classDefs := [("", 1)] }, .cls { cls := 1, name := "KeyError", base := some 1, classDefs := [("",
    2)] }, .cls { cls := 2, name := "IndexError", base := some 1, classDefs := [("", 3)] }]
  descIndex := ({} : Std.HashMap Datum DescId).insert (.cls 1) 2
  prog := { flow := { blocks := #[{ inputs := [] }], links := #[{ args := [], target := 1, exitCase := .cls 1 }] } }

theorem formed_lookups : lookups.Formed := by
  have cases_of_defined {c : Nat} (hc : lookups.Defined c) : c = 1 ∨ c = 2 ∨ c = 3 := by
    have h : c ≤ 3 := hc.2
    have := hc.1
    omega
  have noAttr (c : ClassDefId) (name : String) : lookups.attrOf? c name = none := by
    match c with
    | 0 | 1 | 2 | 3 | c + 4 => rfl
  constructor
  · constructor
    · intro c b hc h
      rcases cases_of_defined hc with rfl | rfl | rfl <;> cases h <;> decide
    · intro c c' hc
      constructor
      · intro h
        rcases cases_of_defined hc with rfl | rfl | rfl
        · rcases mem_pair.1 h with rfl | rfl <;> exact ⟨⟨by decide, by decide⟩, rfl⟩
        · cases h
        · cases h
      · rintro ⟨hc', h⟩
        rcases cases_of_defined hc' with rfl | rfl | rfl <;> cases h <;> decide
    · intro c hc
      rcases cases_of_defined hc with rfl | rfl | rfl <;> decide
  · constructor
    · intro d c key h
      match d with
      | 0 | 1 | 2 | 3 =>
        cases mem_singleton.1 (Entries.mem_of_lookup h)
        exact ⟨by decide, by decide⟩
      | d + 4 => cases h
    · intro d b h
      match d with
      | 0 | 1 => cases h
      | 2 | 3 =>
        cases h
        exact Nat.zero_lt_succ 2
      | d + 4 => cases h
    · intro v d h
      simp only [lookups, Std.HashMap.getElem?_insert, Std.HashMap.getElem?_empty] at h
      split at h
      · cases h
        exact Nat.one_lt_succ_succ 1
      · cases h
  · intro c hc
    rcases cases_of_defined hc with rfl | rfl | rfl <;> unfold World.Described <;> decide
  · intro c name a hc h
    cases (noAttr c name).symm.trans h
  · intro c i j name hc hi hj h
    simp [noAttr] at h
  · intro c i name hc hi h
    simp [noAttr] at h

theorem handlerClass_lookups (n : Nat) : handlerClass (.cls 1) (knotAux (n + 1)) lookups = .ok 2 lookups := by
  have hindex : lookups.descIndex[Datum.cls 1]? = some 2 := Std.HashMap.getElem?_insert_self
  have hdesc : descOf (.cls 1) (knotAux (n + 1)) lookups = .ok 2 lookups := by
    change describe (.cls 1) (knotAux n) lookups = .ok 2 lookups
    unfold describe
    rw [bind_of_ok (show (get : Ana World) (knotAux n) lookups = .ok lookups lookups from rfl), hindex]
    rfl
  exact bind_of_ok hdesc

omit [KnotAlong Sprouting k] in
theorem addPendingBlock_nil {b : BlockId} (h : (w.prog.flow.block b).inputs = []) :
    ∃ u w', addPendingBlock g b [] k w = .ok u w' := by
  unfold addPendingBlock
  rw [bind_of_ok (show (get : Ana World) k w = .ok w w from rfl)]
  rw [h, if_neg (by simp)]
  refine Total.ite (.bind (.modifyGet _) fun _ => ?_) ?_ k w
  all_goals
    refine .ite (.bind (fun _ w => ⟨_, w, rfl⟩) fun _ => .bind .get fun w => ?_)
      (.bind (fun _ w => ⟨_, _, rfl⟩) fun _ => .bind .get fun w => ?_)
    -- the block is scheduled unless it has been analysed
    all_goals
      split
      · exact .pure _
      · exact .modifyGet _

/-- What a failed lookup raises meets a handler of missing keys and one of failed lookups: the first one gets missing
keys, and the second one all the rest.  A block that only handles missing keys is followed in the same way. -/
theorem lookups_reach_handlers : lookups.Ordered ∧ handed lookups [2, 1] [1] = [{ handler := 2, passed := [2] }, { handler := 1, passed := [1] }] ∧
    Routed lookups [1] (handed lookups [2, 1] [1]) ∧ lookups.Formed ∧ (∀ d ∈ [1], lookups.Defined d) ∧
    ∃ w', followRaising 0 true [0] [1] (knotAux 1) lookups = .ok ⟨⟩ w' ∧ visit 0 true [0] [1] (knotAux 1) lookups =
        .ok [{ link := 0, handed := some { handler := 2, passed := [2] }, entered := some (.instOf 2) }] w' ∧
      Routed w' [1] [{ handler := 2, passed := [2] }] := by
  have hmark : markFollowed 0 (knotAux 1) lookups = .ok ⟨⟩ ((markFollowed 0).after (knotAux 1) lookups) := rfl
  obtain ⟨_, w', hadd⟩ := addPendingBlock_nil (w := (markFollowed 0).after (knotAux 1) lookups) (g := 0) (b := 1) (k := knotAux 1) rfl
  have hlink : followRaiseLink 0 0 (.instOf 2) (knotAux 1) lookups = .ok ⟨⟩ w' := by
    change (markFollowed 0 >>= fun _ => addPendingBlock 0 1 []) (knotAux 1) lookups = _
    rw [bind_of_ok hmark, hadd]
  have hget : (get : Ana World) (knotAux 1) lookups = .ok lookups lookups := rfl
  have henter : enter 0 0 (caught lookups [1] 2) (knotAux 1) lookups = .ok (some (.instOf 2)) w' := bind_of_ok hlink
  have hvisit : visit 0 true [0] [1] (knotAux 1) lookups =
      .ok [{ link := 0, handed := some { handler := 2, passed := [2] }, entered := some (.instOf 2) }] w' := by
    unfold visit
    rw [bind_of_ok hget]
    exact (bind_of_ok (handlerClass_lookups 0)).trans ((bind_of_ok hget).trans (bind_of_ok henter))
  have hrun : followRaising 0 true [0] [1] (knotAux 1) lookups = .ok ⟨⟩ w' := by
    rw [followRaising_eq, bind_of_ok hvisit]
    rfl
  have hdefined : ∀ d ∈ [1], lookups.Defined d := by
    intro d hd
    rw [mem_singleton.1 hd]
    exact ⟨by decide, by decide⟩
  obtain ⟨pure, run⟩ := exceptions_reach_handlers
  obtain ⟨visits, hvisits, -, hrouted, -⟩ := run 1 0 true [0] [1] lookups w' formed_lookups hdefined hrun
  cases hvisit.symm.trans hvisits
  exact ⟨formed_lookups.tree.ordered, rfl, (pure lookups [2, 1] [1] formed_lookups.tree.ordered).2, formed_lookups, hdefined, w', hrun,
    hvisit, hrouted⟩

end Ana
end FlowCompiler
