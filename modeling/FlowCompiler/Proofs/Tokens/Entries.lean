import FlowCompiler.Proofs.Tokens.Retrace
import FlowCompiler.Trace.Session.Compile

/-!
# Loops that are entered

A loop is entered by its keys until a generation gives it up.  Most of what a session does keeps its books: which loops are entered, when
they were used, and how many there are.  A new loop gets a number of its own, is used when it is sent to the engine, and then entered; a
generation takes out what it gives up (`Onward`).  So an entered loop is always alive (`loopFor?_served`).
-/

namespace FlowCompiler.Trace

open List

variable {α : Type}

/-! ## Books -/

def Store.cellCount (s : Store) : Nat := s.cells.size

def Engine.cellCount (e : Engine) : Nat := e.store.cellCount

/-- The books of a session: the loops that are entered, when they were used, and how many loops there are. -/
def Session.books (s : Session) := (s.entries, s.ages, s.engine.cellCount)

namespace Keeps

instance countVisible {m : EngineM α} [h : Keeps Engine.visible m] : Keeps Engine.cellCount m := ⟨fun e => congrArg (·.1.1.size) (h.kept e)⟩

instance booksKept {m : SessionM α} [h : Keeps Session.kept m] : Keeps Session.books m :=
  ⟨fun s => congrArg (fun v => (v.1.2, v.2, v.1.1.1.1.size)) (h.kept s)⟩

instance countCell (c : CellId) (f : Cell → Cell) : Keeps Store.cellCount (ε := Failure) (modify fun s : Store => s.updateCell c f) :=
  .beside fun _ => Array.size_modify

instance countTarget (t : TargetId) (f : Target → Target) : Keeps Store.cellCount (ε := Failure) (modify fun s : Store => s.updateTarget t f) :=
  .beside fun _ => rfl

instance countGuard (g : GuardId) (f : GuardDescr → GuardDescr) : Keeps Store.cellCount (ε := Failure) (modify fun s : Store => s.updateGuard g f) :=
  .beside fun _ => rfl

instance newTarget (cell : Option CellId) : Keeps Store.cellCount (Store.newTarget cell) := .besideGet fun _ => by
  cases cell
  · rfl
  · exact Array.size_modify

instance invalidate (w : Nat) : Keeps Store.cellCount (ε := Failure) (modify fun s : Store => s.invalidate w) := by
  have marked (cs : List CellId) (s : Store) : (cs.foldl (fun s c => s.updateCell c fun k => { k with invalidated := true }) s).cellCount =
      s.cellCount := by
    induction cs generalizing s with
    | nil => rfl
    | cons c cs ih => exact (ih _).trans Array.size_modify
  exact .beside fun s => marked _ s

instance countOnStore {m : StoreM α} [Keeps Store.cellCount m] : Keeps Engine.cellCount (Engine.onStore m) := engineStore fun _ _ => id

instance booksOnEngine {m : EngineM α} [Keeps Engine.cellCount m] : Keeps Session.books (Session.onEngine m) :=
  sessionEngine fun s _ kept => congrArg (s.entries, s.ages, ·) kept

instance booksOnStore {m : StoreM α} [Keeps Store.cellCount m] : Keeps Session.books (Session.onStore m) := booksOnEngine

instance store : Keeps Session.kept Session.store := bind

/-! ### Optimizing -/

instance copyOp (r : Peel.Renaming) (op : Op) : Keeps Store.tokens (Peel.copyOp r op) := by
  have record (b : Box) (v : Const) : Keeps Store.tokens (ε := Failure) (Store.record b v) := .beside fun _ => rfl
  unfold Peel.copyOp
  extract_lets rest
  have restKept (d : Option Descr) : Keeps Store.tokens (rest d) := by
    dsimp only [rest]
    cases op.result <;> infer_instance
  clear_value rest
  split <;> infer_instance

instance copyOps (r : Peel.Renaming) (ops : List Op) : Keeps Store.tokens (Peel.copyOps r ops) := by
  induction ops generalizing r with
  | nil => exact pure _
  | cons op ops ih => exact bind

instance materialize (args : List Value) : Keeps Store.tokens (Peel.materialize args) := by
  refine bind (h := mapM (h := fun v => ?_))
  cases v <;> infer_instance

variable (cell : CellId) (inputs : List Box)

instance peel (preamble body : List Op) (jumpArgs : List Value) : Keeps Store.tokens (Peel.peel cell preamble inputs body jumpArgs) := bind

instance compilePeeled (preamble body : List Op) (jumpArgs : List Value) :
    Keeps Session.kept (Session.compilePeeled cell preamble inputs body jumpArgs) := bind

instance closeLoop (target : TargetId) (body : List Op) (jumpArgs : List Value) :
    Keeps Session.books (Session.closeLoop cell target inputs body jumpArgs) := by
  refine seq fun s => ?_
  extract_lets label rest
  have restKept (d : Descr) : Keeps Session.books (rest d) := by
    refine seq fun p => ?_
    dsimp only
    split <;> infer_instance
  clear_value rest
  infer_instance

instance booksUnlessInvalid {m : SessionM α} [Keeps Session.books m] : Keeps Session.books (Session.unlessInvalid m) := unlessSeen fun _ _ => rfl

/-! ### Sending units -/

instance linkTargets (ops : List Op) : Keeps Session.books (Session.linkTargets cell ops) := by
  refine forM (h := fun op => ?_)
  split <;> infer_instance

instance watchFields (watches : List Nat) : Keeps Session.books (Session.watchFields cell watches) := by
  have watched (f : Store → Array (List CellId)) : Keeps Store.cellCount (ε := Failure) (modify fun s : Store => { s with watches := f s }) :=
    .beside fun _ => rfl
  have := watched fun s => watches.foldl (fun ws w => ws.modify w (· ++ [cell])) s.watches
  exact booksOnStore

instance addUnit (number : Int) (kind : UnitKind) (l : Loop) (a : Assembly) : Keeps Session.books (Session.addUnit number kind l a) :=
  .beside fun _ => rfl

instance engineCompileLoop (ops : List Op) : Keeps Engine.cellCount (Engine.compileLoop inputs ops cell) := by
  have entered (c : CodeCache → CodeCache) : Keeps Engine.cellCount (ε := Failure) (modify fun e : Engine =>
      { store := e.store.updateCell cell fun k => { k with compiled := true }, code := c e.code }) := .beside fun _ => Array.size_modify
  refine seq fun e => seq fun p => ?_
  have := entered fun c => c.enterLoop cell { p.1 with token := some cell }
  infer_instance

instance engineCompileBridge (guard : Descr) (ops : List Op) (cell : Option CellId) :
    Keeps Engine.cellCount (Engine.compileBridge guard inputs ops cell) := by
  have entered (c : CodeCache → CodeCache) : Keeps Engine.cellCount (ε := Failure) (modify fun e : Engine => { e with code := c e.code }) :=
    .beside fun _ => rfl
  refine seq fun e => seq fun p => seq fun e => ?_
  have := entered fun c => c.enterBridge guard { p.1 with token := cell }
  split <;> infer_instance

instance compiling {unit : String} {m : EngineM α} [Keeps Engine.cellCount m] : Keeps Session.books (Session.compiling unit m) := tryCatch

end Keeps

namespace Session

variable {n : Nat} {s s' : Session} {l : Loop} {kind : UnitKind} {cell c : CellId} {key : String}

/-! ## Ages -/

theorem isAlive_iff {a : LoopAges} : a.isAlive c = true ↔ ∃ g, (c, g) ∈ a.lastUse := by
  simp [LoopAges.isAlive]

theorem isAlive_touch (a : LoopAges) (c d : CellId) : (a.touch c).isAlive d = true ↔ a.isAlive d = true ∨ d = c := by
  simp only [isAlive_iff, LoopAges.touch, mem_append, mem_filter]
  by_cases e : d = c <;> simp [e]

/-- The loops that the next generation gives up. -/
def overdue (s : Session) : List CellId := (s.ages.next fun c => (s.engine.store.cell c).invalidated).1

theorem mem_overdue : c ∈ s.overdue ↔ ∃ g, (c, g) ∈ s.ages.lastUse ∧
    (({ s.ages with generation := s.ages.generation + 1 } : LoopAges).isExpired g = true ∨ (s.engine.store.cell c).invalidated = true) := by
  simp [overdue, LoopAges.next, partition_eq_filter_filter]

theorem freeLoops (cs : List CellId) (s : Session) : (cs.foldl freeLoop s).ages = s.ages ∧
    (cs.foldl freeLoop s).entries = s.entries.filter (·.2 ∉ cs) ∧ (cs.foldl freeLoop s).engine.cellCount = s.engine.cellCount := by
  induction cs generalizing s with
  | nil => simp
  | cons c cs ih =>
    obtain ⟨ages, entries, count⟩ := ih (s.freeLoop c)
    refine ⟨ages, entries.trans ?_, count.trans Array.size_modify⟩
    simp [freeLoop, filter_filter, Bool.and_comm]

theorem entries_nextGeneration : s.nextGeneration.2.entries = s.entries.filter (·.2 ∉ s.overdue) := (freeLoops _ _).2.1

theorem count_nextGeneration : s.nextGeneration.2.engine.cellCount = s.engine.cellCount := (freeLoops _ _).2.2

theorem isAlive_nextGeneration (h : s.ages.isAlive c = true) (hc : c ∉ s.overdue) : s.nextGeneration.2.ages.isAlive c = true := by
  obtain ⟨g, hg⟩ := isAlive_iff.1 h
  have kept := not_exists.1 (mt mem_overdue.2 hc) g
  have lastUse : (c, g) ∈ (s.ages.next fun c => (s.engine.store.cell c).invalidated).2.lastUse := by
    simpa [LoopAges.next, partition_eq_filter_filter, hg] using kept
  refine isAlive_iff.2 ⟨g, ?_⟩
  rw [nextGeneration, (freeLoops _ _).1]
  exact lastUse

/-! ## What a request does to the books -/

/-- Every loop that is entered is alive. -/
def Lively (s : Session) : Prop := ∀ p ∈ s.entries, s.ages.isAlive p.2 = true

/-- What a request does to the books: there are more loops, entered loops are alive, and what is entered was entered before, or is a loop from
a number on. -/
structure Onward (n : Nat) (s s' : Session) : Prop where
  count : s.engine.cellCount ≤ s'.engine.cellCount
  lively : s.Lively → s'.Lively
  entries : n ≤ s.engine.cellCount → ∀ p ∈ s'.entries, p ∈ s.entries ∨ n ≤ p.2

instance : Std.Refl (Onward n) := ⟨fun _ => ⟨Nat.le_refl _, id, fun _ _ => .inl⟩⟩

instance : Trans (Onward n) (Onward n) (Onward n) where
  trans h h' := {
    count := Nat.le_trans h.count h'.count
    lively := h'.lively ∘ h.lively
    entries hn p hp := (h'.entries (Nat.le_trans hn h.count) p hp).elim (h.entries hn p) .inr }

theorem onward {m : SessionM α} [h : Keeps books m] : Leads (Onward n) m := fun s => by
  obtain ⟨entries, rest⟩ := Prod.mk.inj (h.kept s)
  obtain ⟨ages, count⟩ := Prod.mk.inj rest
  exact ⟨Nat.le_of_eq count.symm, by rw [Lively, Lively, entries, ages]; exact id, fun _ _ => entries ▸ fun hp => .inl hp⟩

theorem Onward.touch (s : Session) (c : CellId) : Onward n s (s.touch c) :=
  ⟨Nat.le_refl _, fun h p hp => (isAlive_touch ..).2 (.inl (h p hp)), fun _ _ => .inl⟩

theorem Onward.nextGeneration (s : Session) : Onward n s s.nextGeneration.2 where
  count := Nat.le_of_eq count_nextGeneration.symm
  lively h p hp := by
    obtain ⟨hp, hc⟩ := mem_filter.1 (entries_nextGeneration ▸ hp)
    exact isAlive_nextGeneration (h p hp) (of_decide_eq_true hc)
  entries _ p hp := .inl (mem_filter.1 (entries_nextGeneration ▸ hp)).1

theorem Onward.attachEntry (hn : n ≤ c) (hc : s.ages.isAlive c = true) : Onward n s (s.attachEntry key c) where
  count := Nat.le_refl _
  lively h := forall_mem_cons.2 ⟨hc, fun p hp => h p (mem_filter.1 hp).1⟩
  entries _ p hp := by
    rcases mem_cons.1 hp with rfl | hp
    · exact .inr hn
    · exact .inl (mem_filter.1 hp).1

theorem onward_sendLoop : Leads (Onward n) (sendLoop l kind cell) := by
  have numbered : Keeps Session.books (ε := Failure) (modify fun s : Session => { s with lastNumber := s.lastNumber + 1 }) := .beside fun _ => rfl
  exact onward.bind fun _ => onward.bind fun _ => onward.bind fun _ => onward.bind fun _ => onward.bind fun _ => onward.bind fun _ =>
    onward.bind fun _ s => .touch s cell

theorem isAlive_sendLoop {u : PUnit} (e : sendLoop l kind cell s = .ok u s') : s'.ages.isAlive cell = true := by
  iterate 7 obtain ⟨_, _, _, e⟩ := of_bind_ok e
  cases e
  exact (isAlive_touch ..).2 (.inr rfl)

/-- A loop is sent to the engine and then entered. -/
theorem onward_enter {m : SessionM α} (hn : n ≤ cell) (hm : ∀ s, after m s = s.attachEntry key cell) :
    Leads (Onward n) (sendLoop l kind cell >>= fun _ => m) :=
  onward_sendLoop.bind_ok fun e => hm _ ▸ .attachEntry hn (isAlive_sendLoop e)

theorem onward_newCell {f : CellId → SessionM α} (h : ∀ n c, n ≤ c → Leads (Onward n) (f c)) : Leads (Onward n) (onStore Store.newCell >>= f) := by
  intro s
  let s₁ : Session := { s with engine := { s.engine with store := { s.engine.store with cells := s.engine.store.cells.push {} } } }
  have run : (onStore Store.newCell >>= f) s = f s.engine.cellCount s₁ := bind_of_ok (onStore_ok rfl)
  have first (n : Nat) : Onward n s s₁ := ⟨by simp [s₁, Engine.cellCount, Store.cellCount], id, fun _ _ => .inl⟩
  rw [after, run]
  by_cases hn : n ≤ s.engine.cellCount
  · exact Trans.trans (first n) (h n _ hn s₁)
  · have later : Onward 0 s (after (f s.engine.cellCount) s₁) := Trans.trans (first 0) (h 0 _ (Nat.zero_le _) s₁)
    exact ⟨later.count, later.lively, fun hn' => absurd hn' hn⟩

theorem onward_sendBridge {g : GuardId} : Leads (Onward n) (sendBridge g l) := by
  refine onward.bind fun _ => onward.bind fun _ => onward.bind fun _ => onward.bind fun a => ?_
  split
  · exact onward.bind fun _ => Leads.bind (fun s => .touch s _) fun _ => onward
  · exact onward

variable {resume : ResumeKey} {trace : Recording} {start : Nat} {inputs : List Box} {jumpArgs : List Value} {part : Loop}

theorem onward_attach : Leads (Onward n) (attach resume l) := by
  cases resume with
  | guard g => exact onward_sendBridge.bind fun _ => onward
  | entry key => exact onward_newCell fun n c hc => onward_enter hc fun _ => rfl

theorem onward_compileLoop : Leads (Onward n) (compileLoop key trace start inputs jumpArgs) := by
  refine onward.bind fun body => onward_newCell fun n c hc => onward.bind fun target => onward.bind fun closed => ?_
  cases closed with
  | none => exact onward
  | some p => exact onward.bind fun _ => onward_enter hc fun _ => rfl

theorem onward_compileBridge : Leads (Onward n) (compileBridge trace resume) := by
  refine onward.bind fun ops => onward.bind fun s => onward.bind fun closed => ?_
  cases closed with
  | none => exact onward
  | some p =>
    dsimp only
    split
    · exact onward
    · exact onward_attach.bind fun _ => onward

theorem onward_compileRetrace : Leads (Onward n) (compileRetrace key trace start jumpArgs part resume cell) := by
  refine onward.bind fun body => ?_
  split
  · exact onward
  · refine onward.bind fun _ => onward.bind fun closed => ?_
    cases closed with
    | none => exact onward
    | some p => exact onward.bind fun _ => onward.bind fun _ => onward.bind fun _ => onward_attach.bind fun _ => onward

/-! ## Requests -/

/-- What is asked of a session. -/
inductive Request where
  | loop (key : String) (trace : Recording) (start : Nat) (inputs : List Box) (jumpArgs : List Value)
  | bridge (trace : Recording) (resume : ResumeKey)
  | retrace (key : String) (trace : Recording) (start : Nat) (jumpArgs : List Value) (part : Loop) (resume : ResumeKey) (cell : CellId)
  /-- A loop becomes invalid. -/
  | invalidate (c : CellId)
  /-- A field changes that loops may rely on. -/
  | change (w : Nat)
  /-- A loop is used. -/
  | keep (c : CellId)
  | nextGeneration

def perform (s : Session) : Request → Session
  | .loop key trace start inputs jumpArgs => after (compileLoop key trace start inputs jumpArgs) s
  | .bridge trace resume => after (compileBridge trace resume) s
  | .retrace key trace start jumpArgs part resume cell => after (compileRetrace key trace start jumpArgs part resume cell) s
  | .invalidate c => after (onStore (modify fun s => s.updateCell c fun k => { k with invalidated := true })) s
  | .change w => after (onStore (modify fun s => s.invalidate w)) s
  | .keep c => s.touch c
  | .nextGeneration => s.nextGeneration.2

def serve (s : Session) (rs : List Request) : Session := rs.foldl perform s

theorem onward_perform (s : Session) (r : Request) : Onward n s (s.perform r) := by
  cases r with
  | loop => exact onward_compileLoop s
  | bridge => exact onward_compileBridge s
  | retrace => exact onward_compileRetrace s
  | invalidate c => exact onward (m := onStore (modify fun s => s.updateCell c fun k => { k with invalidated := true })) s
  | change w => exact onward (m := onStore (modify fun s => s.invalidate w)) s
  | keep c => exact .touch s c
  | nextGeneration => exact .nextGeneration s

theorem onward_serve (s : Session) (rs : List Request) : Onward n s (s.serve rs) := by
  induction rs generalizing s with
  | nil => exact Std.Refl.refl s
  | cons r rs ih => exact Trans.trans (onward_perform (n := n) s r) (ih _)

theorem entries_make (settings : TraceSettings) (code : CodeCache) (store : Store) : (make settings code store).entries = [] := by
  unfold make
  split
  rfl

/-- **A loop that is entered is alive.**  No generation gave it up, and it was valid when they began, as far as there was such a loop then. -/
theorem loopFor?_served {settings : TraceSettings} {code : CodeCache} {store : Store} {rs : List Request}
    (h : ((make settings code store).serve rs).loopFor? key = some c) :
    ((make settings code store).serve rs).ages.isAlive c = true ∧ ∀ before later, rs = before ++ .nextGeneration :: later →
        ((make settings code store).serve before).engine.cellCount ≤ c ∨ c ∉ ((make settings code store).serve before).overdue ∧
            (((make settings code store).serve before).engine.store.cell c).invalidated = false := by
  have entered := Entries.mem_of_lookup h
  have first := entries_make settings code store
  generalize make settings code store = start at entered first ⊢
  have alive (rs : List Request) : (start.serve rs).Lively := (onward_serve (n := 0) start rs).lively (by simp [Lively, first])
  refine ⟨alive rs _ entered, ?_⟩
  rintro before later rfl
  generalize hs : start.serve before = s
  have served : start.serve (before ++ .nextGeneration :: later) = s.nextGeneration.2.serve later := hs ▸ foldl_append
  rw [served] at entered
  rcases (onward_serve s.nextGeneration.2 later).entries (Nat.le_refl _) _ entered with kept | new
  · obtain ⟨kept, hc⟩ := mem_filter.1 (entries_nextGeneration ▸ kept)
    have hc := of_decide_eq_true hc
    refine .inr ⟨hc, Bool.eq_false_iff.2 fun invalid => hc ?_⟩
    obtain ⟨g, hg⟩ := isAlive_iff.1 (hs ▸ alive before _ (hs ▸ kept))
    exact mem_overdue.2 ⟨g, hg, .inr invalid⟩
  · exact .inl (count_nextGeneration ▸ new)

/-- A loop without operations. -/
def emptyLoop : Request := .loop "L" { inputs := [], ops := [] } 0 [] []

def fresh : Session := make { counterSize := 1 } {} {}

theorem loopFor?_served_once : (fresh.serve [emptyLoop, .nextGeneration]).loopFor? "L" = some 0 ∧
    (fresh.serve [emptyLoop, .nextGeneration]).ages.isAlive 0 = true ∧ 0 ∉ (fresh.serve [emptyLoop]).overdue := by
  have entered : (fresh.serve [emptyLoop, .nextGeneration]).loopFor? "L" = some 0 := by decide +kernel
  have served := loopFor?_served entered
  refine ⟨entered, served.1, ?_⟩
  rcases served.2 [emptyLoop] [] rfl with new | kept
  · exact absurd new (by decide +kernel)
  · exact kept.1

end Session
end FlowCompiler.Trace
