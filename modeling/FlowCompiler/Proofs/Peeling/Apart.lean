import FlowCompiler.Proofs.Line

/-!
# Executing beside a frame

Two stores that are the same but for one frame, which both have at the same number.  What an operation makes of its operands does not
depend on that frame: it gives the same result in both stores, or fails in the same way, and the stores differ in nothing but the
frame afterwards.  The only way in which executing touches a frame at all is forcing it.
-/

namespace FlowCompiler.Trace

variable {f : Frame → Frame}

/-- The resume data that a frame is forced with, if the descriptor is one of a guard behind a call that may force it. -/
def forcedData? (gs : Array GuardDescr) (d : Option Descr) : Option (Option ResumeData) :=
  match d with
  | some (.guard g) =>
    let x := (gs[g]?).getD default
    if x.isForced then some x.data else none
  | _ => none

/-- Being forced with one descriptor or the other is the same, because neither has resume data. -/
structure Quiet (gs : Array GuardDescr) (d d' : Option Descr) : Prop where
  same : forcedData? gs d' = forcedData? gs d
  blank : ∀ data, forcedData? gs d ≠ some (some data)

/-- Two frames that differ in the values of their boxes, in what they have saved, and in whether the last operation overflowed. -/
structure Frame.Alike (gs : Array GuardDescr) (f f' : Frame) : Prop where
  token : f'.token = f.token
  exc : f'.exc = f.exc
  forced : f'.forced = f.forced
  saved : f'.saved = f.saved
  descr : Quiet gs f.descr f'.descr
  pending : Option.Rel (fun g g' : Op => Quiet gs g.descr g'.descr) f.pendingGuard f'.pendingGuard

/-- Two stores that are the same but for one frame. -/
structure Apart (gs : Array GuardDescr) (i : FrameId) (s s' : Store) : Prop where
  rest : s' = s.withFrames s'.frames
  guards : s.guards = gs
  size : s'.frames.size = s.frames.size
  others : ∀ j, j ≠ i → s'.frame j = s.frame j
  here : Frame.Alike gs (s.frame i) (s'.frame i)

/-- Both results are values, and the same one, or both are failures, and the same one. -/
inductive Agree {ε α : Type} (R : Store → Store → Prop) : EStateM.Result ε Store α → EStateM.Result ε Store α → Prop
  | ok {s s' : Store} (a : α) (h : R s s') : Agree R (.ok a s) (.ok a s')
  | error {s s' : Store} (e : ε) (h : R s s') : Agree R (.error e s) (.error e s')

theorem Agree.bind {ε α β : Type} {R : Store → Store → Prop} {m m' : EStateM ε Store α} {f f' : α → EStateM ε Store β} {s s' : Store}
    (h : Agree R (m s) (m' s')) (hf : ∀ a t t', R t t' → Agree R (f a t) (f' a t')) : Agree R ((m >>= f) s) ((m' >>= f') s') := by
  change Agree R (EStateM.bind m f s) (EStateM.bind m' f' s')
  unfold EStateM.bind
  cases hm : m s <;> cases hm' : m' s' <;> rw [hm, hm'] at h <;> cases h
  · exact hf _ _ _ ‹_›
  · exact .error _ ‹_›

theorem Agree.of_ok {ε α : Type} {R : Store → Store → Prop} {a a' : α} {s s' : Store}
    (h : Agree R (.ok a s : EStateM.Result ε Store α) (.ok a' s')) : a' = a ∧ R s s' := by
  cases h with
  | ok _ h => exact ⟨rfl, h⟩

/-! ## Changes of frames -/

theorem Store.frame_updateFrame_of_ne {s : Store} {i j : FrameId} (h : i ≠ j) : (s.updateFrame j f).frame i = s.frame i := by
  rw [Store.frame, Store.updateFrame, Array.getElem?_modify, if_neg (Ne.symm h)]
  rfl

theorem Store.frame_updateFrame_of_ge {s : Store} {i j : FrameId} (h : s.frames.size ≤ i) : (s.updateFrame j f).frame i = s.frame i := by
  rw [Store.frame, Store.frame, Array.getElem?_eq_none h, Array.getElem?_eq_none (by simpa using h)]

theorem Store.updateFrame_id (s : Store) (i : FrameId) : s.updateFrame i id = s := by
  have h : s.frames.modify i id = s.frames := Array.ext (by simp) fun j _ _ => by simp [Array.getElem_modify]
  rw [Store.updateFrame, h]

namespace Apart

variable {gs : Array GuardDescr} {i j : FrameId} {s s' : Store}

section

variable (h : Apart gs i s s')
include h

theorem guard (g : GuardId) : s.guard g = (gs[g]?).getD default := by rw [Store.guard, h.guards]

theorem guard' (g : GuardId) : s'.guard g = (gs[g]?).getD default := by
  rw [h.rest]
  exact h.guard g

theorem updateFrame {f g : Frame → Frame} (hf : (f (s.frame i)).Alike gs (g (s'.frame i))) : Apart gs i (s.updateFrame i f) (s'.updateFrame i g) where
  rest := by
    rw [h.rest]
    rfl
  guards := h.guards
  size := by simpa using h.size
  others j hj := by rw [Store.frame_updateFrame_of_ne hj, Store.frame_updateFrame_of_ne hj, h.others j hj]
  here := by
    rcases Nat.lt_or_ge i s.frames.size with hi | hi
    · rw [Store.frame_updateFrame hi, Store.frame_updateFrame (h.size ▸ hi)]
      exact hf
    · rw [Store.frame_updateFrame_of_ge hi, Store.frame_updateFrame_of_ge (h.size ▸ hi)]
      exact h.here

theorem updateLeft (hf : (f (s.frame i)).Alike gs (s'.frame i)) : Apart gs i (s.updateFrame i f) s' := by
  have hid := h.updateFrame (g := id) hf
  rwa [Store.updateFrame_id] at hid

theorem updateRight {g : Frame → Frame} (hg : (s.frame i).Alike gs (g (s'.frame i))) : Apart gs i s (s'.updateFrame i g) := by
  have hid := h.updateFrame (f := id) hg
  rwa [Store.updateFrame_id] at hid

theorem updateFrame_of_ne (hj : j ≠ i) : Apart gs i (s.updateFrame j f) (s'.updateFrame j f) where
  rest := by
    rw [h.rest]
    rfl
  guards := h.guards
  size := by simpa using h.size
  others k hk := by
    by_cases e : k = j
    · subst e
      rcases Nat.lt_or_ge k s.frames.size with hi | hi
      · rw [Store.frame_updateFrame hi, Store.frame_updateFrame (h.size ▸ hi), h.others k hk]
      · rw [Store.frame_updateFrame_of_ge hi, Store.frame_updateFrame_of_ge (h.size ▸ hi), h.others k hk]
    · rw [Store.frame_updateFrame_of_ne e, Store.frame_updateFrame_of_ne e, h.others k hk]
  here := by
    rw [Store.frame_updateFrame_of_ne (Ne.symm hj), Store.frame_updateFrame_of_ne (Ne.symm hj)]
    exact h.here

end

end Apart

/-! ## Steps that do not see the frame -/

/-- A step does the same in two stores that differ in a frame. -/
def Blind {ε α : Type} (gs : Array GuardDescr) (i : FrameId) (m : EStateM ε Store α) : Prop :=
  ∀ s s', Apart gs i s s' → Agree (Apart gs i) (m s) (m s')

namespace Blind

variable {gs : Array GuardDescr} {i : FrameId}

/-- What does not see the frame from one store on. -/
def From (gs : Array GuardDescr) (i : FrameId) (s : Store) {ε α : Type} (m : EStateM ε Store α) : Prop :=
  ∀ s', Apart gs i s s' → Agree (Apart gs i) (m s) (m s')

theorem inherited (gs : Array GuardDescr) (i : FrameId) : Inherited fun _ _ s => From gs i s where
  pure a _ _ h := .ok a h
  throw e _ _ h := .error e h
  bind hm hf s' h := .bind (hm s' h) fun a t t' => hf a t t'
  get {ε β f s} hf h s' hs := by
    have e : f s' = f s := by
      rw [hs.rest]
      exact hf s _
    change Agree (Apart gs i) (f s s) (f s' s')
    rw [e]
    exact h s' hs
  modifyGet {ε α f s} hf hg _ s' h := by
    have hframes (t : Store) : (f t).2.frames = t.frames := congrArg (fun p => p.2.frames) (hf t t.frames)
    have e : f s' = ((f s).1, (f s).2.withFrames s'.frames) := by
      rw [← hf s s'.frames, ← h.rest]
    have hstore : Apart gs i (f s).2 (f s').2 := by
      refine ⟨?_, (hg s).trans h.guards, ?_, fun j hj => ?_, ?_⟩
      · rw [hframes s', e]
      · rw [hframes, hframes]
        exact h.size
      · rw [Store.frame, Store.frame, hframes, hframes]
        exact h.others j hj
      · rw [Store.frame, Store.frame, hframes, hframes]
        exact h.here
    have e₁ : (f s').1 = (f s).1 := by rw [e]
    change Agree (Apart gs i) (.ok (f s).1 (f s).2) (.ok (f s').1 (f s').2)
    rw [e₁]
    exact .ok _ hstore
  onStore {α m s} h s' hs := by
    have ha := h s' hs
    unfold Exec.onStore EStateM.run
    cases e : m s <;> cases e' : m s' <;> rw [e, e'] at ha <;> cases ha
    · exact .ok _ ‹_›
    · exact .error _ ‹_›

theorem newObject (o : Object) : Blind gs i (Store.newObject o) := (inherited gs i).newObject o

end Blind

/-! ## Forcing -/

namespace Exec

variable {gs : Array GuardDescr} {i j : FrameId} {g : GuardId} {s s' : Store}

theorem agree_keepVirtuals (h : Apart gs i s s') (hj : j ≠ i) : Agree (Apart gs i) (keepVirtuals g j s) (keepVirtuals g j s') := by
  have hguard : s'.guard g = s.guard g := (h.guard' g).trans (h.guard g).symm
  cases hd : (s.guard g).data with
  | none =>
    rw [keepVirtuals_blank hd, keepVirtuals_blank (hguard ▸ hd)]
    exact .ok _ (h.updateFrame_of_ne hj)
  | some data =>
    rw [keepVirtuals_data hd, keepVirtuals_data (hguard ▸ hd), h.others j hj]
    exact .bind ((Blind.inherited gs i).forceAll _ _ s s' h) fun objs t t' ht => .ok _ (ht.updateFrame_of_ne hj)

/-- What forcing does to a frame is not seen by its descriptor alone. -/
theorem settle_of_quiet {d : Option Descr} (hg : s.guards = gs) (hd : (s.frame j).descr = d) (h : ∀ data, forcedData? gs d ≠ some (some data)) :
    settle j s = .ok ⟨⟩ (if (forcedData? gs d).isSome then s.updateFrame j fun f => { f with saved := some [] } else s) := by
  subst hd
  rw [settle]
  rcases hd : (s.frame j).descr with _ | d
  · rfl
  · cases d with
    | guard g =>
      rw [hd] at h
      have hguard : s.guard g = (gs[g]?).getD default := by rw [Store.guard, hg]
      simp only [forcedData?, ← hguard] at h ⊢
      split
      · rename_i hf
        rw [if_pos hf] at h
        have hblank : (s.guard g).data = none := by
          cases hdata : (s.guard g).data with
          | none => rfl
          | some data => exact absurd (by rw [hdata]) (h data)
        rw [keepVirtuals_blank hblank]
        rfl
      · rfl
    | _ => rfl

theorem agree_settle_here (h : Apart gs i s s') : Agree (Apart gs i) (settle i s) (settle i s') := by
  have hq := h.here.descr
  have hg' : s'.guards = gs := by
    rw [h.rest]
    exact h.guards
  rw [settle_of_quiet h.guards rfl hq.blank, settle_of_quiet hg' rfl (by rw [hq.same]; exact hq.blank), hq.same]
  refine .ok _ ?_
  split
  · exact h.updateFrame ⟨h.here.token, h.here.exc, h.here.forced, rfl, hq, h.here.pending⟩
  · exact h

theorem agree_settle_there (h : Apart gs i s s') (hj : j ≠ i) : Agree (Apart gs i) (settle j s) (settle j s') := by
  rw [settle, settle, h.others j hj]
  split
  · rename_i g _
    rw [show s'.guard g = s.guard g from (h.guard' g).trans (h.guard g).symm]
    split
    · exact agree_keepVirtuals h hj
    · exact .ok _ h
  · exact .ok _ h

theorem alike_mark {f f' : Frame} (h : f.Alike gs f') : (mark f).Alike gs (mark f') := by
  have hp := h.pending
  unfold mark
  cases hf : f.pendingGuard <;> cases hf' : f'.pendingGuard <;> rw [hf, hf'] at hp <;> cases hp
  · exact ⟨h.token, h.exc, rfl, h.saved, h.descr, .none⟩
  · rename_i hq
    exact ⟨h.token, h.exc, rfl, h.saved, hq, .some hq⟩

end Exec

namespace Blind

variable {gs : Array GuardDescr} {i : FrameId}

theorem forceFrame (j : FrameId) : Blind gs i (Exec.forceFrame j) := by
  intro s s' h
  rw [Exec.forceFrame_eq, Exec.forceFrame_eq]
  by_cases hj : j = i
  · subst hj
    exact Exec.agree_settle_here (h.updateFrame (Exec.alike_mark h.here))
  · exact Exec.agree_settle_there (h.updateFrame_of_ne hj) hj

theorem execute (code : Opcode) (descr : Option Descr) (args : List Value) : Blind gs i (Trace.execute code descr args) :=
  (inherited gs i).execute code descr forceFrame args

end Blind
end FlowCompiler.Trace
