import FlowCompiler.Proofs.Registers.Values

/-!
# A machine that runs on given registers

A machine does what the registers tell it: it performs the moves that are noted, an operation writes the register of its result,
and a callee leaves something else in the registers that it may change and its result in the register for results.  However
operations follow one another, every box that was given a value and is still needed has this value wherever it is said to be
(`Registers.Machine.holds_run`), as long as nobody is left in the register for results when a call is made.

That is so when all registers are saved, or when a callee may change the register for results anyway.  In general it is not
(`Registers.Machine.not_holds_run`): whoever is in the register for results is written to the frame after the call only.
-/

namespace FlowCompiler.Trace.Registers

open Option

variable {ν : Type}

structure Machine (ν : Type) where
  regs : Registers
  cells : Cells ν
  /-- The boxes that were given a value. -/
  given : List Box := []

/-- What happens on a machine. -/
inductive Step (ν : Type) where
  /-- A box comes in the frame. -/
  | input (b : Box)
  /-- An operation needs a value in a register. -/
  | ensure (c : Value) (forbidden : List Box) (d : Demand)
  /-- An operation writes its result. -/
  | result (b : Box) (forbidden : List Box) (d : Demand)
  /-- An operation overwrites an argument with its result. -/
  | resultIn (b : Box) (c : Value) (forbidden : List Box)
  /-- A call after which `junk` is in the registers that the callee may change. -/
  | call (stored : List Box) (mode : SaveMode) (junk : Nat → ν) (result : Option Box)
  | releaseAll (cs : List Value)
  | next

/-- The cells when a callee is done. -/
def Cells.clobber (c : Cells ν) (m : Registers) (junk : Nat → ν) : Cells ν :=
  { c with reg := fun r => if m.callerSaved.contains r || r = m.resultReg then junk r else c.reg r }

namespace Machine

/-! ## Running -/

variable (value : Box → ν) (imm : Value → ν)

/-- The registers when all that was noted is done. -/
def ready (M : Machine ν) : Registers := { M.regs with moves := [] }

/-- The registers change, and the machine performs the moves that this takes. -/
def obey (M : Machine ν) (f : Registers → Registers) : Machine ν := { M with regs := f M.ready, cells := (f M.ready).cells imm M.cells }

/-- An operation writes its result to the register that was found for it. -/
def finish (M : Machine ν) (b : Box) : Machine ν :=
  match M.regs.regOf? b with
  | some r => { M with cells := M.cells.write (value b) (.reg r), given := b :: M.given }
  | none => M

/-- The machine when a call is made. -/
def saved (M : Machine ν) (stored : List Box) (mode : SaveMode) : Machine ν := M.obey imm fun m => m.beforeCall stored mode

def exec (M : Machine ν) : Step ν → Machine ν
  | .input b =>
    let M := M.obey imm fun m => (m.locate (.box b)).2
    match M.regs.frame.get? b with
    | some s => { M with cells := M.cells.write (value b) (.frame s), given := b :: M.given }
    | none => M
  | .ensure c forbidden d => M.obey imm (ended (Registers.ensure c forbidden d))
  | .result b forbidden d => (M.obey imm (ended (force b forbidden d))).finish value b
  | .resultIn b c forbidden => (M.obey imm (ended (Registers.resultIn b c forbidden))).finish value b
  | .call stored mode junk result =>
    let M := M.saved imm stored mode
    let M := { M with cells := M.cells.clobber M.regs junk }
    match result with
    | none => M
    | some b =>
      let M := { M with cells := M.cells.write (value b) (.reg M.regs.resultReg), given := b :: M.given }
      M.obey imm fun m => m.afterCall b
  | .releaseAll cs => M.obey imm fun m => m.releaseAll cs
  | .next => M.obey imm fun m => { m with position := m.position + 1 }

def run (M : Machine ν) (steps : List (Step ν)) : Machine ν := steps.foldl (exec value imm) M

/-- No box is given a value twice. -/
def Single (M : Machine ν) : Step ν → Prop
  | .input b | .result b _ _ | .resultIn b _ _ => b ∉ M.given
  | .call _ _ _ (some b) => b ∉ M.given
  | _ => True

/-- Nobody is left in the register for results when a call is made. -/
def Clear (M : Machine ν) : Step ν → Prop
  | .call stored mode _ _ => (M.saved imm stored mode).regs.ownerOf M.regs.resultReg = none
  | _ => True

/-- Something is so before each step of a run. -/
def Throughout (P : Machine ν → Step ν → Prop) (M : Machine ν) : List (Step ν) → Prop
  | [] => True
  | step :: steps => P M step ∧ Throughout P (M.exec value imm step) steps

instance (M : Machine ν) : (step : Step ν) → Decidable (M.Single step)
  | .input b | .result b _ _ | .resultIn b _ _ => inferInstanceAs (Decidable (b ∉ M.given))
  | .call _ _ _ (some b) => inferInstanceAs (Decidable (b ∉ M.given))
  | .call _ _ _ none | .ensure .. | .releaseAll _ | .next => .isTrue trivial

instance decidableThroughout {P : Machine ν → Step ν → Prop} [∀ M step, Decidable (P M step)] (M : Machine ν) :
    (steps : List (Step ν)) → Decidable (Throughout value imm P M steps)
  | [] => .isTrue trivial
  | step :: steps =>
    have : Decidable (Throughout value imm P (M.exec value imm step) steps) := decidableThroughout _ steps
    inferInstanceAs (Decidable (P M step ∧ Throughout value imm P (M.exec value imm step) steps))

/-- A box has its value wherever it is, and is somewhere. -/
structure Holds (M : Machine ν) (b : Box) : Prop where
  reg : ∀ {r : Nat}, M.regs.regOf? b = some r → M.cells.reg r = value b
  place : ∀ {s : FrameSlot} {p : Int}, M.regs.frame.get? b = some s → p ∈ s.places → M.cells.place p = value b
  located : (M.regs.regOf? b).isSome ∨ (M.regs.frame.get? b).isSome

/-! ## Steps -/

/-- A machine, which has the registers that there were at first, has its values where they are said to be. -/
structure Sound (first : Registers) (M : Machine ν) : Prop where
  keeps : Keeps value M.given M.given M.regs M.cells
  fixed : Fixed first M.regs
  result : first.resultReg < first.count

variable {value imm} {M : Machine ν} {first : Registers} {b : Box} {stored : List Box} {mode : SaveMode}

namespace Sound

section

variable (h : M.Sound value first)
include h

theorem holds (hb : b ∈ M.given) (halive : M.regs.isAlive b = true) : M.Holds value b := ⟨h.keeps.reg hb, h.keeps.place hb, h.keeps.located hb halive⟩

theorem ready : Keeps value M.given M.given M.ready M.cells :=
  ⟨h.keeps.consistent.of_eq rfl rfl rfl rfl, h.keeps.apart, h.keeps.reg, h.keeps.place, h.keeps.located, h.keeps.known⟩

theorem fixed_ready : Fixed first M.ready := ⟨h.fixed.count, h.fixed.callerSaved, h.fixed.resultReg⟩

theorem obey {f : Registers → Registers}
      (hf : ∀ {m : Registers}, Keeps value M.given M.given m (m.cells imm M.cells) → Keeps value M.given M.given (f m) ((f m).cells imm M.cells) ∧
        Fixed m (f m)) : (M.obey imm f).Sound value first := by
  obtain ⟨hkeeps, hfixed⟩ := hf h.ready
  exact ⟨hkeeps, h.fixed_ready.trans hfixed, h.result⟩

theorem saved : (M.saved imm stored mode).Sound value first := h.obey fun hm => ⟨hm.beforeCall, (Serves.beforeCall hm.consistent).fixed⟩

theorem finish (hb : b ∉ M.given) {x : RegisterM Nat}
    (hx : Ends x M.ready (fun r n => (Keeps value M.given (b :: M.given) n (n.cells imm M.cells) ∧ n.regOf? b = some r ∧ n.frame.get? b = none) ∧
      Serves M.ready n) fun n => Keeps value M.given M.given n (n.cells imm M.cells) ∧ Serves M.ready n) :
    ((M.obey imm (ended x)).finish value b).Sound value first := by
  unfold Ends at hx
  unfold Machine.obey ended
  cases e : x M.ready with
  | ok r n =>
    rw [e] at hx
    obtain ⟨⟨hkeeps, hr, hs⟩, hserves⟩ := hx
    have hwritten := hkeeps.write (u := value b) fun {x} hx hq => absurd (hkeeps.consistent.eq_of_reg hr hq ▸ hx) hb
    have hgiven := hwritten.give (fun hq => ?_) (fun hs' _ => nomatch hs.symm.trans hs') (.inl (isSome_of_mem hr))
    · simp only [Machine.finish, hr]
      exact ⟨hgiven, h.fixed_ready.trans hserves.fixed, h.result⟩
    · cases hr.symm.trans hq
      exact if_pos rfl
  | error _ n =>
    rw [e] at hx
    simp only [Machine.finish, (hx.1.nowhere hb).1]
    exact ⟨hx.1, h.fixed_ready.trans hx.2.fixed, h.result⟩

theorem input (hb : b ∉ M.given) : (M.exec value imm (.input b)).Sound value first := by
  obtain ⟨hr, hs⟩ := h.ready.nowhere hb
  have own : (M.ready.frame.slot b).2.get? b = some (M.ready.frame.slot b).1 := by rw [FrameSlots.get?_slot, if_pos rfl]
  have hslot := h.ready.mono.slot (u := value b) (b := b) List.mem_cons_self fun _ => rfl
  have hgiven := hslot.give (fun hr' => nomatch hr.symm.trans hr') (fun hs' hp => ?_) (.inr (isSome_of_mem own))
  · have e : M.exec value imm (.input b) = { M with
        regs := { M.ready with frame := (M.ready.frame.slot b).2 },
        cells := M.cells.write (value b) (.frame (M.ready.frame.slot b).1), given := b :: M.given } := by
      have hlocate : (M.ready.locate (.box b)).2 = { M.ready with frame := (M.ready.frame.slot b).2 } := by rw [locate, hr]
      simp only [Machine.exec, Machine.obey, hlocate, own]
      rfl
    rw [e]
    exact ⟨hgiven, h.fixed_ready.trans ⟨rfl, rfl, rfl⟩, h.result⟩
  · cases own.symm.trans hs'
    exact if_pos hp

/-- What a callee leaves does not matter if no box is in the registers that it may change. -/
theorem clobber (howner : M.regs.ownerOf M.regs.resultReg = none) (hsaved : ∀ {x r}, r ∈ M.regs.callerSaved → M.regs.regOf? x ≠ some r)
    (junk : Nat → ν) : ({ M with cells := M.cells.clobber M.regs junk } : Machine ν).Sound value first := by
  refine ⟨⟨h.keeps.consistent, h.keeps.apart, fun {x r} hx hr => ?_, h.keeps.place, h.keeps.located, h.keeps.known⟩, h.fixed, h.result⟩
  rw [Cells.clobber]
  dsimp only
  rw [if_neg]
  · exact h.keeps.reg hx hr
  · intro hmem
    rcases Bool.or_eq_true_iff.1 hmem with hmem | hmem
    · exact hsaved (List.contains_iff_mem.1 hmem) hr
    · rw [← h.keeps.consistent.owner_iff, of_decide_eq_true hmem, howner] at hr
      cases hr

theorem answer (hb : b ∉ M.given) (howner : M.regs.ownerOf M.regs.resultReg = none) :
    (({ M with cells := M.cells.write (value b) (.reg M.regs.resultReg), given := b :: M.given } : Machine ν).obey imm
      fun m => m.afterCall b).Sound value first := by
  have hwritten : ({ M with cells := M.cells.write (value b) (.reg M.regs.resultReg) } : Machine ν).Sound value first := by
    refine ⟨h.keeps.write fun {x} _ hx => ?_, h.fixed, h.result⟩
    rw [← h.keeps.consistent.owner_iff, howner] at hx
    cases hx
  have hreg : M.regs.resultReg < M.regs.count := by
    rw [h.fixed.resultReg, h.fixed.count]
    exact h.result
  have hserves := Serves.afterCall hwritten.ready.consistent (hwritten.ready.nowhere hb).1 hreg
  exact ⟨hwritten.ready.afterCall hb howner hreg (if_pos rfl), hwritten.fixed_ready.trans hserves.fixed, h.result⟩

theorem call {junk : Nat → ν} {result : Option Box} (hsingle : M.Single (.call stored mode junk result))
    (hclear : M.Clear imm (.call stored mode junk result)) : (M.exec value imm (.call stored mode junk result)).Sound value first := by
  have hsaved : (M.saved imm stored mode).Sound value first := h.saved
  have hserves : Serves M.ready (M.saved imm stored mode).regs := .beforeCall h.ready.consistent
  have howner : (M.saved imm stored mode).regs.ownerOf (M.saved imm stored mode).regs.resultReg = none := by
    rw [hserves.fixed.resultReg]
    exact hclear
  have hleft := hsaved.clobber howner (fun {x r} hr => regOf?_beforeCall_ne h.ready.consistent (.inr (by
    rwa [hserves.fixed.callerSaved] at hr))) junk
  cases result with
  | none => exact hleft
  | some b => exact hleft.answer hsingle howner

/-- **One step.**  If the values are where they are said to be, they are so after a step. -/
theorem exec {step : Step ν} (hsingle : M.Single step) (hclear : M.Clear imm step) : (M.exec value imm step).Sound value first := by
  cases step with
  | input b => exact h.input hsingle
  | ensure c forbidden d =>
    exact h.obey fun hm => ((ensure_keeps hm).and (ensure_serves hm.consistent)).ended.imp_right Serves.fixed
  | result b forbidden d =>
    exact h.finish hsingle (((force_binds h.ready hsingle).and (force_room h.ready.consistent)).mono
      (fun _ _ hn => ⟨hn.1, hn.2.1.toServes⟩) fun _ hn => ⟨hn.1, hn.2.toServes⟩)
  | resultIn b c forbidden =>
    exact h.finish hsingle ((resultIn_binds h.ready hsingle).and (resultIn_serves h.ready.consistent (h.ready.nowhere hsingle).1))
  | call stored mode junk result => exact h.call hsingle hclear
  | releaseAll cs =>
    exact h.obey fun hm => ⟨hm.releaseAll cs, (Serves.releaseAll hm.consistent cs).fixed⟩
  | next => exact h.obey fun hm => ⟨hm.next, rfl, rfl, rfl⟩

theorem clear (hsaved : first.resultReg ∈ first.callerSaved) (step : Step ν) : M.Clear imm step := by
  cases step with
  | call stored mode junk result =>
    have hsound : (M.saved imm stored mode).Sound value first := h.saved
    have hmem : M.regs.resultReg ∈ M.regs.callerSaved := by rwa [h.fixed.resultReg, h.fixed.callerSaved]
    refine eq_none_iff_forall_ne_some.2 fun x hx => ?_
    exact regOf?_beforeCall_ne h.ready.consistent (.inr hmem) (hsound.keeps.consistent.owner_iff.1 hx)
  | _ => trivial

theorem run {steps : List (Step ν)} (hsingle : Throughout value imm Single M steps)
    (hclear : first.resultReg ∈ first.callerSaved ∨ Throughout value imm (Clear imm) M steps) : (M.run value imm steps).Sound value first := by
  induction steps generalizing M with
  | nil => exact h
  | cons step steps ih =>
    have hstep : M.Clear imm step := hclear.elim (fun hsaved => h.clear hsaved step) And.left
    exact ih (h.exec hsingle.1 hstep) hsingle.2 (hclear.imp_right And.right)

theorem saved_all {r : Nat} (hr : r < first.count) : r ∈ (M.saved imm stored .all).regs.free := by
  have hsaved : (M.saved imm stored .all).Sound value first := h.saved
  refine hsaved.keeps.consistent.free_iff.2 ⟨hsaved.fixed.count ▸ hr, eq_none_iff_forall_ne_some.2 fun x hx => ?_⟩
  exact regOf?_beforeCall_ne h.ready.consistent (.inl rfl) (hsaved.keeps.consistent.owner_iff.1 hx)

theorem placed_all (hb : b ∈ M.given) (halive : (M.saved imm stored .all).regs.isAlive b = true) :
    ((M.saved imm stored .all).regs.frame.get? b).isSome := by
  have hsaved : (M.saved imm stored .all).Sound value first := h.saved
  refine (hsaved.keeps.located hb halive).resolve_left fun hx => ?_
  obtain ⟨r, hr⟩ := isSome_iff_exists.1 hx
  exact regOf?_beforeCall_ne h.ready.consistent (.inl rfl) hr

end

end Sound

/-! ## Runs -/

/-- A machine before its first step, with an empty frame. -/
def boot (settings : RegisterSettings) (frame : FrameSlots) (lifetimes : Lifetimes) (noLowByte : List Nat) (cells : Cells ν) : Machine ν :=
  { regs := start settings { frame with bindings := [], free := [] } lifetimes noLowByte, cells }

theorem Sound.boot {settings : RegisterSettings} (hlow : 0 ≤ settings.resultReg) (hhigh : settings.resultReg < settings.registers)
    {frame : FrameSlots} {lifetimes : Lifetimes} {noLowByte : List Nat} {cells : Cells ν} :
    (boot settings frame lifetimes noLowByte cells).Sound value (boot settings frame lifetimes noLowByte cells).regs where
  keeps := ⟨.start, .empty, nofun, nofun, nofun, fun h => by rcases h with h | h <;> cases h⟩
  fixed := .refl _
  result := by
    change settings.resultReg.toNat < settings.registers.toNat
    omega

/-- **Values are kept.**  While operations with new results, calls and requests for registers follow one another, every box that
was given a value and is still needed is in a register or in the frame, and has its value wherever it is, if a callee may change
the register for results, or at least nobody is left there when a call is made.  This is also so when registers were saved for a
call; and when all of them were saved, they are all free, and whoever is needed is in the frame. -/
theorem holds_run {settings : RegisterSettings} (hlow : 0 ≤ settings.resultReg) (hhigh : settings.resultReg < settings.registers) (frame : FrameSlots)
    (lifetimes : Lifetimes) (noLowByte : List Nat) (cells : Cells ν) {steps : List (Step ν)}
    (hsingle : Throughout value imm Single (boot settings frame lifetimes noLowByte cells) steps)
    (hclear : settings.resultReg ∈ settings.callerSaved ∨ Throughout value imm (Clear imm) (boot settings frame lifetimes noLowByte cells) steps) :
    let M := (boot settings frame lifetimes noLowByte cells).run value imm steps
    (∀ b ∈ M.given, M.regs.isAlive b = true → M.Holds value b) ∧
      ∀ stored mode, (∀ b ∈ M.given, (M.saved imm stored mode).regs.isAlive b = true → (M.saved imm stored mode).Holds value b) ∧
        (mode = .all → (∀ b ∈ M.given, (M.saved imm stored mode).regs.isAlive b = true → ((M.saved imm stored mode).regs.frame.get? b).isSome) ∧
            ∀ r < settings.registers.toNat, r ∈ (M.saved imm stored mode).regs.free) := by
  intro M
  have h : M.Sound value (boot settings frame lifetimes noLowByte cells).regs :=
    (Sound.boot hlow hhigh).run hsingle (hclear.imp_left fun hsaved => List.mem_map.2 ⟨_, hsaved, rfl⟩)
  refine ⟨fun b => h.holds, fun stored mode => ⟨fun b => h.saved.holds, ?_⟩⟩
  rintro rfl
  exact ⟨fun b => h.placed_all, fun r => h.saved_all⟩

/-- With one register: a second result sends the first one to the frame, the first one is loaded again, which sends the second
one there, and the result of a call takes the register over. -/
theorem holds_run_one_register :
    let value : Box → Nat := Box.id
    let imm : Value → Nat := fun _ => 0
    let a : Box := ⟨1, .int⟩
    let b : Box := ⟨2, .int⟩
    let c : Box := ⟨3, .int⟩
    let M := (boot { registers := 1, callerSaved := [0] } {} { spans := [(a, ⟨0, 9⟩), (b, ⟨0, 9⟩), (c, ⟨0, 9⟩)] } []
      ⟨fun _ => 0, fun _ => 0⟩).run value imm
        [.result a [] {}, .result b [] {}, .ensure (.box a) [] {}, .call [] .callerSaved (fun _ => 7) (some c)]
    (∀ b ∈ M.given, M.regs.isAlive b = true → M.Holds value b) ∧
      M.given = [c, b, a] ∧ (M.cells.place 0, M.cells.place 1, M.cells.reg 0) = (1, 2, 3) :=
  ⟨(holds_run (by decide) (by decide) {} _ [] _ (by decide +kernel) (.inl (by decide))).1, by decide +kernel, by decide +kernel⟩

/-- A box that is in the register for results when a call is made, and stays there as the callee is not said to change this
register, is written to the frame after the call, when the result is there. -/
theorem not_holds_run :
    let settings : RegisterSettings := { registers := 2, callerSaved := [1], resultReg := 0 }
    let value : Box → Nat := Box.id
    let imm : Value → Nat := fun _ => 0
    let a : Box := ⟨1, .int⟩
    let b : Box := ⟨2, .int⟩
    let M := boot settings {} { spans := [(a, ⟨0, 9⟩), (b, ⟨1, 9⟩)] } [] ⟨fun _ => 0, fun _ => 0⟩
    let steps : List (Step Nat) := [.result a [] {}, .call [] .callerSaved (fun _ => 7) (some b)]
    ({ regs := settings } : Settings).validate = .ok () ∧ Throughout value imm Single M steps ∧
      a ∈ (M.run value imm steps).given ∧ (M.run value imm steps).regs.isAlive a = true ∧
      ¬ (M.run value imm steps).Holds value a := by
  intro settings value imm a b M steps
  have haccepted : ({ regs := settings } : Settings).problem? = none := by decide +kernel
  refine ⟨by rw [Settings.validate, haccepted], by decide +kernel, by decide +kernel, by decide +kernel, fun h => ?_⟩
  have hslot : (M.run value imm steps).regs.frame.get? a = some ⟨0, 1⟩ := by decide +kernel
  have hplace : (M.run value imm steps).cells.place 0 = 1 := h.place hslot (by decide)
  exact absurd hplace (by decide +kernel)

end Machine
end FlowCompiler.Trace.Registers
