import FlowCompiler.Trace.Counter
import FlowCompiler.Trace.Session.Exit

/-!
# Several threads

Threads take steps in any order: they count the calls of one counter, and they fail at one guard.
-/

/-!
## Counting on several threads

Threads that share a table of counters read a counter and replace what they have read by its successor, unless another thread was
faster; then they read again.  Whatever the order of their steps, a counter is as far as it would be if the calls had been made
one after another (`Counter.Race.exact_run`): no call is lost, and each time that the threshold is reached exactly one call is
told so.

A counter has 32 bits, so that this takes a threshold of at most `2 ^ 32`; with a greater one a counter goes back to zero without
anybody being told (`Counter.Race.lost_tick`).
-/

namespace FlowCompiler.Trace.Counter

open List

/-- The state of a single counter. -/
def count (c : Counter) (i : Nat) : UInt32 := (c.cells[i]?).getD 0

theorem lookup_eq (c : Counter) (hash : UInt32) : c.lookup hash = c.count (c.index hash) := rfl

theorem count_set {c : Counter} {i : Nat} {hash n : UInt32} (hi : i < c.cells.size) :
    (c.set hash n).count i = if c.index hash = i then n else c.count i := by
  rw [count, set, Array.getElem?_setIfInBounds]
  split
  · rename_i e
    rw [if_pos (e ▸ hi)]
    rfl
  · rfl

/-- Below the threshold a counter goes up by one, and from there back to zero. -/
theorem bump_eq {T : Nat} {n : UInt32} (hT : T ≤ UInt32.size) (hn : n.toNat < T) : ((bump T n).1 = true ∧ (bump T n).2.toNat = 0 ∧ n.toNat + 1 = T) ∨
      ((bump T n).1 = false ∧ (bump T n).2.toNat = n.toNat + 1 ∧ n.toNat + 1 < T) := by
  rw [bump]
  split <;> rename_i h
  · exact .inl ⟨rfl, rfl, by omega⟩
  · refine .inr ⟨rfl, ?_, by omega⟩
    rw [UInt32.toNat_add, Nat.mod_eq_of_lt]
    · rfl
    · change n.toNat + 1 < UInt32.size
      omega

/-! ### Threads -/

/-- A call that counts one more. -/
structure Tick where
  hash : UInt32
  threshold : Int

/-- Where a thread is: it does not count, is about to read its counter, or is about to replace what it has read. -/
inductive Stage where
  | idle
  | reading (k : Tick)
  | swapping (k : Tick) (n : UInt32)

/-- Threads that share a table. -/
structure Race (ι : Type) where
  counter : Counter
  stage : ι → Stage := fun _ => .idle
  /-- The calls that have returned, with what they were told; the last one first. -/
  returned : List (Tick × Bool) := []

/-- What can happen next: a thread makes a call, or does a single step of the one that it has made. -/
inductive Act (ι : Type) where
  | call (t : ι) (k : Tick)
  | read (t : ι)
  | swap (t : ι)

namespace Race

section

variable {ι : Type} [DecidableEq ι]

def enter (R : Race ι) (t : ι) (s : Stage) : Race ι := { R with stage := fun u => if u = t then s else R.stage u }

def act (R : Race ι) : Act ι → Race ι
  | .call t k =>
    match R.stage t with
    | .idle => R.enter t (.reading k)
    | _ => R
  | .read t =>
    match R.stage t with
    | .reading k => R.enter t (.swapping k (R.counter.lookup k.hash))
    | _ => R
  | .swap t =>
    match R.stage t with
    | .swapping k n =>
      if R.counter.lookup k.hash = n then
        { R.enter t .idle with
          counter := R.counter.set k.hash (bump k.threshold n).2, returned := (k, (bump k.threshold n).1) :: R.returned }
      else R.enter t (.reading k)
    | _ => R

def run (R : Race ι) (acts : List (Act ι)) : Race ι := acts.foldl act R

end

variable {ι : Type}

/-- How many calls on a counter have returned. -/
def calls (R : Race ι) (i : Nat) : Nat := R.returned.countP fun e => R.counter.index e.1.hash = i

/-- How many calls on a counter were told that the threshold is reached. -/
def crossings (R : Race ι) (i : Nat) : Nat := R.returned.countP fun e => R.counter.index e.1.hash = i && e.2

/-! ### No call is lost -/

/-- A counter is where the calls that have returned bring it, and all others on it have the same threshold. -/
structure Exact (c : Counter) (i T : Nat) (R : Race ι) : Prop where
  shift : R.counter.shift = c.shift
  size : R.counter.cells.size = c.cells.size
  pending : ∀ {t : ι} {k : Tick}, (R.stage t = .reading k ∨ ∃ n, R.stage t = .swapping k n) → c.index k.hash = i → k.threshold = T
  lt : (R.counter.count i).toNat < T
  total : R.crossings i * T + (R.counter.count i).toNat = (c.count i).toNat + R.calls i

namespace Exact

variable {c : Counter} {i T : Nat} {R : Race ι} {t : ι} {k : Tick} {s : Stage}

section

variable (h : R.Exact c i T)
include h

theorem index_eq (hash : UInt32) : R.counter.index hash = c.index hash := by rw [index, h.shift, index]

theorem enter [DecidableEq ι] (hs : ∀ {k}, (s = .reading k ∨ ∃ n, s = .swapping k n) → c.index k.hash = i → k.threshold = T) :
    (R.enter t s).Exact c i T := by
  refine ⟨h.shift, h.size, fun {u k} hu hk => ?_, h.lt, h.total⟩
  by_cases e : u = t
  · simp only [Race.enter, if_pos e] at hu
    exact hs hu hk
  · simp only [Race.enter, if_neg e] at hu
    exact h.pending hu hk

theorem bumped (hi : i < c.cells.size) (hT : T ≤ UInt32.size) (hk : c.index k.hash = i) (hkT : k.threshold = T) : ({ R with
      counter := R.counter.set k.hash (bump k.threshold (R.counter.count i)).2
      returned := (k, (bump k.threshold (R.counter.count i)).1) :: R.returned } : Race ι).Exact c i T := by
  have hindex : R.counter.index k.hash = i := (h.index_eq k.hash).trans hk
  have hcount : (R.counter.set k.hash (bump k.threshold (R.counter.count i)).2).count i = (bump T (R.counter.count i)).2 := by
    rw [count_set (h.size ▸ hi), if_pos hindex, hkT]
  have htotal := h.total
  rw [crossings, calls] at htotal
  refine ⟨h.shift, (Array.size_setIfInBounds ..).trans h.size, h.pending, ?_, ?_⟩
  · rw [hcount]
    rcases bump_eq hT h.lt with ⟨-, hzero, -⟩ | ⟨-, hsucc, hlt⟩
    · have := h.lt
      omega
    · omega
  · change List.countP (fun (e : Tick × Bool) => R.counter.index e.1.hash = i && e.2) _ * T + _ =
      _ + List.countP (fun (e : Tick × Bool) => R.counter.index e.1.hash = i) _
    rw [hcount, hkT, countP_cons, countP_cons]
    simp only [hindex, decide_true, Bool.true_and, if_true]
    rcases bump_eq hT h.lt with ⟨hot, hzero, hlast⟩ | ⟨hot, hsucc, -⟩
    · rw [hot, if_pos rfl, Nat.add_mul]
      omega
    · rw [hot, if_neg nofun, Nat.add_zero]
      omega

theorem passed (hi : i < c.cells.size) (hk : c.index k.hash ≠ i) (n : UInt32) (hot : Bool) :
    ({ R with counter := R.counter.set k.hash n, returned := (k, hot) :: R.returned } : Race ι).Exact c i T := by
  have hindex : R.counter.index k.hash ≠ i := fun e => hk ((h.index_eq k.hash).symm.trans e)
  have hcount : (R.counter.set k.hash n).count i = R.counter.count i := by rw [count_set (h.size ▸ hi), if_neg hindex]
  refine ⟨h.shift, (Array.size_setIfInBounds ..).trans h.size, h.pending, ?_, ?_⟩
  · rw [hcount]
    exact h.lt
  · change List.countP (fun (e : Tick × Bool) => R.counter.index e.1.hash = i && e.2) _ * T + _ =
      _ + List.countP (fun (e : Tick × Bool) => R.counter.index e.1.hash = i) _
    rw [hcount, countP_cons_of_neg (by simp [hindex]), countP_cons_of_neg (by simp [hindex])]
    exact h.total

theorem act [DecidableEq ι] (hi : i < c.cells.size) (hT : T ≤ UInt32.size) {a : Act ι}
    (ha : ∀ t (k : Tick), a = .call t k → c.index k.hash = i → k.threshold = T) : (R.act a).Exact c i T := by
  cases a with
  | call t k =>
    simp only [Race.act]
    split
    · refine h.enter ?_
      rintro k' (e | ⟨n, e⟩) hk
      · cases e
        exact ha t k rfl hk
      · cases e
    · exact h
  | read t =>
    simp only [Race.act]
    split
    · rename_i k hk
      refine h.enter ?_
      rintro k' (e | ⟨n, e⟩)
      · cases e
      · cases e
        exact h.pending (.inl hk)
    · exact h
  | swap t =>
    simp only [Race.act]
    split
    · rename_i k n hk
      split
      · rename_i e
        have hidle : (R.enter t .idle).Exact c i T := h.enter nofun
        by_cases hindex : c.index k.hash = i
        · have hn : n = R.counter.count i := by rw [← e, lookup_eq, h.index_eq, hindex]
          rw [hn]
          exact hidle.bumped hi hT hindex (h.pending (.inr ⟨n, hk⟩) hindex)
        · exact hidle.passed hi hindex _ _
      · refine h.enter ?_
        rintro k' (e | ⟨n', e⟩)
        · cases e
          exact h.pending (.inr ⟨n, hk⟩)
        · cases e
    · exact h

theorem run [DecidableEq ι] (hi : i < c.cells.size) (hT : T ≤ UInt32.size) {acts : List (Act ι)}
    (hacts : ∀ t (k : Tick), Act.call t k ∈ acts → c.index k.hash = i → k.threshold = T) : (R.run acts).Exact c i T := by
  induction acts generalizing R with
  | nil => exact h
  | cons a acts ih =>
    refine ih (h.act hi hT fun t k e => hacts t k (e ▸ mem_cons_self)) fun t k hk => hacts t k (mem_cons_of_mem _ hk)

end

end Exact

/-- Whatever the order in which the steps of any threads on a table are done: if the calls on a counter all have one threshold,
which is above the counter at first, then the calls that were told that it is reached and the counter add up to the calls that
have returned, and there was one such call each time that it was reached. -/
theorem exact_run [DecidableEq ι] {c : Counter} {i T : Nat} (hi : i < c.cells.size) (hT : T ≤ UInt32.size) (hstart : (c.count i).toNat < T)
    {acts : List (Act ι)} (hacts : ∀ t (k : Tick), Act.call t k ∈ acts → c.index k.hash = i → k.threshold = T) :
    let R : Race ι := ({ counter := c } : Race ι).run acts
    R.crossings i * T + (R.counter.count i).toNat = (c.count i).toNat + R.calls i ∧ R.crossings i = ((c.count i).toNat + R.calls i) / T := by
  intro R
  have first : ({ counter := c } : Race ι).Exact c i T := by
    refine ⟨rfl, rfl, ?_, hstart, ?_⟩
    · rintro t k (e | ⟨n, e⟩)
      · cases e
      · cases e
    · simp [crossings, calls]
  have h : R.Exact c i T := first.run hi hT hacts
  refine ⟨h.total, ?_⟩
  rw [← h.total, Nat.mul_comm, Nat.mul_add_div (by omega), Nat.div_eq_of_lt h.lt, Nat.add_zero]

/-- Two threads read a counter at the same time; the one that is late has to read again, and is told that the threshold is
reached. -/
theorem exact_run_two_threads : 0 < (make 16 40).cells.size ∧ 2 ≤ UInt32.size ∧ ((make 16 40).count 0).toNat < 2 ∧
    let R : Race Bool := ({ counter := make 16 40 } : Race Bool).run
      [.call false ⟨5, 2⟩, .call true ⟨7, 2⟩, .read false, .read true, .swap true, .swap false, .read false, .swap false]
    R.crossings 0 * 2 + (R.counter.count 0).toNat = ((make 16 40).count 0).toNat + R.calls 0 ∧
      R.crossings 0 = (((make 16 40).count 0).toNat + R.calls 0) / 2 := by
  have hi : 0 < (make 16 40).cells.size := by decide
  have hstart : ((make 16 40).count 0).toNat < 2 := by decide
  refine ⟨hi, by decide, hstart, exact_run hi (by decide) hstart fun t k hk _ => ?_⟩
  simp only [mem_cons, Act.call.injEq, reduceCtorEq, not_mem_nil, or_false] at hk
  rcases hk with ⟨-, rfl⟩ | ⟨-, rfl⟩ <;> rfl

/-- A counter that cannot go on to a threshold goes back to zero, and nobody is told. -/
theorem lost_tick : let c : Counter := { cells := #[4294967295], shift := 32, keep := 100 }
    let R : Race Unit := ({ counter := c } : Race Unit).run [.call () ⟨0, 4294967297⟩, .read (), .swap ()]
    (c.count 0).toNat < 4294967297 ∧ R.calls 0 = 1 ∧ R.crossings 0 = 0 ∧ R.counter.count 0 = 0 ∧
      R.crossings 0 * 4294967297 + (R.counter.count 0).toNat ≠ (c.count 0).toNat + R.calls 0 := by
  decide

end Race
end FlowCompiler.Trace.Counter

/-!
## A guard that fails on several threads

Threads that share a guard read its word, and replace what they have read unless another thread was faster; then they read again.
The lowest bit of the word is a lock: whatever the order of the steps, at most one thread holds it, the other bits stay as they
are, and a failure that meets the lock is not counted (`Guarding.protocol`).

A thread that cannot take the lock has met another one that holds it, unless it holds the lock already and only forgot so
(`Guarding.start_again`).
-/

namespace FlowCompiler.Trace

namespace GuardStatus

variable {s s' : GuardStatus}

/-! ### The lowest bit and the others -/

theorem isBusy_iff : s.isBusy = true ↔ s.word &&& busyBit ≠ 0 := by rw [isBusy, decide_eq_true_iff]

theorem start?_eq_some : s.start? = some s' ↔ s.isBusy = false ∧ s' = ⟨s.word ||| busyBit⟩ := by
  rw [start?]
  cases s.isBusy <;> simp [eq_comm]

theorem start?_eq_none : s.start? = none ↔ s.isBusy = true := by
  rw [start?]
  cases s.isBusy <;> simp

theorem isBusy_of_start? (h : s.start? = some s') : s'.isBusy = true := by
  rw [(start?_eq_some.1 h).2, isBusy_iff]
  have e : (s.word ||| busyBit) &&& busyBit = 1 := by
    refine UInt32.toBitVec_inj.1 ?_
    ext i hi
    simp only [busyBit, UInt32.toBitVec_and, UInt32.toBitVec_or, BitVec.getElem_and, BitVec.getElem_or]
    grind
  rw [e]
  decide

theorem finish_of_start? (h : s.start? = some s') : s'.finish = s.finish := by
  rw [(start?_eq_some.1 h).2, finish, finish, mk.injEq]
  refine UInt32.toBitVec_inj.1 ?_
  ext i hi
  simp only [busyBit, UInt32.toBitVec_and, UInt32.toBitVec_or, UInt32.toBitVec_not, BitVec.getElem_and, BitVec.getElem_or, BitVec.getElem_not]
  grind

theorem isBusy_finish : s.finish.isBusy = false := by
  rw [isBusy, decide_eq_false_iff_not, ne_eq, Decidable.not_not]
  change s.word &&& ~~~busyBit &&& busyBit = 0
  rw [UInt32.and_assoc]
  simp [busyBit]

theorem finish_finish : s.finish.finish = s.finish := by
  rw [finish, finish, mk.injEq, UInt32.and_assoc, UInt32.and_self]

theorem kindOf_finish : s.finish.kindOf = s.kindOf := by
  have e : s.finish.word &&& kindMask = s.word &&& kindMask := by
    change s.word &&& ~~~busyBit &&& kindMask = _
    rw [UInt32.and_assoc]
    rfl
  rw [kindOf, kindOf, e]

theorem number_finish : s.finish.word >>> shift = s.word >>> shift := by
  refine UInt32.toBitVec_inj.1 ?_
  ext i hi
  have low : ∀ j < 32, 3 ≤ j → (~~~busyBit).toBitVec.getLsbD j = true := by decide
  change (((s.word &&& ~~~busyBit).toBitVec >>> 3).getLsbD i) = (s.word.toBitVec >>> 3).getLsbD i
  rw [BitVec.getLsbD_ushiftRight, BitVec.getLsbD_ushiftRight, UInt32.toBitVec_and, BitVec.getLsbD_and]
  by_cases hlt : 3 + i < 32
  · rw [low _ hlt (by omega), Bool.and_true]
  · rw [BitVec.getLsbD_of_ge _ _ (by omega), Bool.false_and]

end GuardStatus

/-! ### Threads -/

namespace Guarding

/-- A call of a thread: it takes the lock, gives it back, or counts a failure with some values. -/
inductive Call where
  | start
  | finish
  | fail (f : Frame) (eagerness : Int)

/-- Where a thread is in its call: about to read the word, or about to replace what it has read; a failure that does not meet the
lock is then counted under a hash. -/
inductive Stage where
  | idle
  | starting
  | marking (old new : GuardStatus)
  | finishing
  | clearing (old : GuardStatus)
  | failing (f : Frame) (eagerness : Int)
  | counting (hash : UInt32) (eagerness : Int)

/-- What a call returns. -/
inductive Answer where
  | started (ok : Bool)
  | finished
  | failed (due : Bool)
deriving DecidableEq

/-- What can happen next: a thread makes a call, or does a single step of the one that it has made. -/
inductive Act (ι : Type) where
  | call (t : ι) (c : Call)
  | step (t : ι)

end Guarding

open Guarding

/-- Threads that share a guard and the counters. -/
structure Guarding (ι : Type) where
  guard : GuardDescr
  counter : Counter
  stage : ι → Stage := fun _ => .idle
  /-- Whether a thread has taken the lock and not given it back. -/
  holds : ι → Bool := fun _ => false
  /-- What the calls have returned, the last one first. -/
  answers : List (ι × Answer) := []

namespace Guarding

section

variable {ι : Type} [DecidableEq ι]

def enter (M : Guarding ι) (t : ι) (s : Stage) : Guarding ι := { M with stage := fun u => if u = t then s else M.stage u }

/-- The call of a thread returns. -/
def reply (M : Guarding ι) (t : ι) (a : Answer) : Guarding ι := { M.enter t .idle with answers := (t, a) :: M.answers }

/-- The word changes, and with it who holds the lock. -/
def swap (M : Guarding ι) (t : ι) (new : GuardStatus) (held : Bool) : Guarding ι :=
  { M with guard := { M.guard with status := new }, holds := fun u => if u = t then held else M.holds u }

/-- A single step of a thread. -/
def step (M : Guarding ι) (t : ι) : Guarding ι :=
  match M.stage t with
  | .idle => M
  | .starting =>
    match M.guard.status.start? with
    | none => M.reply t (.started false)
    | some new => M.enter t (.marking M.guard.status new)
  | .marking old new => if M.guard.status = old then (M.swap t new true).reply t (.started true) else M.enter t .starting
  | .finishing => M.enter t (.clearing M.guard.status)
  | .clearing old => if M.guard.status = old then (M.swap t old.finish false).reply t .finished else M.enter t .finishing
  | .failing f eagerness =>
    if M.guard.code = .guardNotInvalidated then M.reply t (.failed false)
    else match Session.failureHash? M.guard f with
      | none => M.reply t (.failed false)
      | some hash => M.enter t (.counting hash eagerness)
  | .counting hash eagerness =>
    { M with counter := (M.counter.tick hash eagerness).2 }.reply t (.failed (M.counter.tick hash eagerness).1)

/-- A thread that is in no call makes one; only who holds the lock gives it back. -/
def call (M : Guarding ι) (t : ι) (c : Call) : Guarding ι :=
  match M.stage t, c with
  | .idle, .start => M.enter t .starting
  | .idle, .finish => if M.holds t then M.enter t .finishing else M
  | .idle, .fail f eagerness => M.enter t (.failing f eagerness)
  | _, _ => M

def act (M : Guarding ι) : Act ι → Guarding ι
  | .call t c => M.call t c
  | .step t => M.step t

def run (M : Guarding ι) (acts : List (Act ι)) : Guarding ι := acts.foldl act M

end

/-! ### The lock -/

variable {ι : Type}

/-- The lowest bit says whether somebody holds the lock, which is at most one; the other bits are as they were at first. -/
structure Sound (first : GuardStatus) (M : Guarding ι) : Prop where
  busy : M.guard.status.isBusy = true ↔ ∃ t, M.holds t = true
  unique : ∀ {t u : ι}, M.holds t = true → M.holds u = true → t = u
  rest : M.guard.status.finish = first.finish
  marking : ∀ {t : ι} {old new : GuardStatus}, M.stage t = .marking old new → old.start? = some new
  ending : ∀ {t : ι}, (M.stage t = .finishing ∨ ∃ old, M.stage t = .clearing old) → M.holds t = true

variable [DecidableEq ι] {first : GuardStatus} {M : Guarding ι} {t : ι} {s : Stage}

namespace Sound

section

variable (h : M.Sound first)
include h

theorem enter (hmarking : ∀ {old new}, s = .marking old new → old.start? = some new)
    (hending : (s = .finishing ∨ ∃ old, s = .clearing old) → M.holds t = true) : (M.enter t s).Sound first := by
  refine ⟨h.busy, h.unique, h.rest, fun {u old new} hu => ?_, fun {u} hu => ?_⟩
  · by_cases e : u = t
    · simp only [Guarding.enter, if_pos e] at hu
      exact hmarking hu
    · simp only [Guarding.enter, if_neg e] at hu
      exact h.marking hu
  · by_cases e : u = t
    · simp only [Guarding.enter, if_pos e] at hu
      exact e ▸ hending hu
    · simp only [Guarding.enter, if_neg e] at hu
      exact h.ending hu

theorem reply (a : Answer) : (M.reply t a).Sound first := by
  have hidle : (M.enter t .idle).Sound first := h.enter nofun fun h => by rcases h with h | ⟨_, h⟩ <;> cases h
  exact ⟨hidle.busy, hidle.unique, hidle.rest, hidle.marking, hidle.ending⟩

theorem take {new : GuardStatus} (hnew : M.guard.status.start? = some new) : (M.swap t new true).Sound first := by
  have nobody {u : ι} : M.holds u = false := by
    have hfree := (GuardStatus.start?_eq_some.1 hnew).1
    refine Bool.eq_false_iff.2 fun hu => ?_
    cases hfree.symm.trans (h.busy.2 ⟨u, hu⟩)
  have holds {u : ι} : (M.swap t new true).holds u = true ↔ u = t := by
    rw [swap]
    by_cases e : u = t <;> simp [e, nobody]
  refine ⟨iff_of_true (GuardStatus.isBusy_of_start? hnew) ⟨t, holds.2 rfl⟩, fun ht hu => (holds.1 ht).trans (holds.1 hu).symm,
    (GuardStatus.finish_of_start? hnew).trans h.rest, h.marking, fun {u} hu => ?_⟩
  cases nobody.symm.trans (h.ending hu)

theorem give (ht : M.holds t = true) : ((M.swap t M.guard.status.finish false).reply t .finished).Sound first := by
  have nobody {u : ι} : (M.swap t M.guard.status.finish false).holds u = false := by
    rw [swap]
    by_cases e : u = t
    · exact if_pos e
    · dsimp only
      rw [if_neg e]
      exact Bool.eq_false_iff.2 fun hu => e (h.unique hu ht)
  refine ⟨iff_of_false ?_ ?_, fun {u v} hu => ?_, GuardStatus.finish_finish.trans h.rest, fun {u old new} hu => ?_, fun {u} hu => ?_⟩
  · exact Bool.eq_false_iff.1 GuardStatus.isBusy_finish
  · rintro ⟨u, hu⟩
    cases nobody.symm.trans hu
  · cases nobody.symm.trans hu
  · by_cases e : u = t
    · simp only [Guarding.reply, Guarding.enter, if_pos e] at hu
      cases hu
    · simp only [Guarding.reply, Guarding.enter, if_neg e] at hu
      exact h.marking hu
  · by_cases e : u = t
    · simp only [Guarding.reply, Guarding.enter, if_pos e] at hu
      rcases hu with hu | ⟨_, hu⟩ <;> cases hu
    · simp only [Guarding.reply, Guarding.enter, if_neg e] at hu
      exact absurd (h.unique (h.ending hu) ht) e

theorem step : (M.step t).Sound first := by
  rw [Guarding.step]
  split
  · exact h
  · split
    · exact h.reply _
    · rename_i new hnew
      refine h.enter (fun e => ?_) fun e => ?_
      · cases e
        exact hnew
      · rcases e with e | ⟨_, e⟩ <;> cases e
  · rename_i old new hstage
    split
    · rename_i e
      exact (h.take (e ▸ h.marking hstage)).reply _
    · exact h.enter nofun fun e => by rcases e with e | ⟨_, e⟩ <;> cases e
  · rename_i hstage
    exact h.enter nofun fun _ => h.ending (.inl hstage)
  · rename_i old hstage
    split
    · rename_i e
      exact e ▸ h.give (h.ending (.inr ⟨old, hstage⟩))
    · exact h.enter nofun fun _ => h.ending (.inr ⟨old, hstage⟩)
  · split
    · exact h.reply _
    · split
      · exact h.reply _
      · exact h.enter nofun fun e => by rcases e with e | ⟨_, e⟩ <;> cases e
  · rename_i hash eagerness hstage
    have counted : ({ M with counter := (M.counter.tick hash eagerness).2 } : Guarding ι).Sound first :=
      ⟨h.busy, h.unique, h.rest, h.marking, h.ending⟩
    exact counted.reply _

theorem call (c : Call) : (M.call t c).Sound first := by
  unfold Guarding.call
  split
  · exact h.enter nofun fun e => by rcases e with e | ⟨_, e⟩ <;> cases e
  · split
    · rename_i hholds
      exact h.enter nofun fun _ => hholds
    · exact h
  · exact h.enter nofun fun e => by rcases e with e | ⟨_, e⟩ <;> cases e
  · exact h

theorem run (acts : List (Act ι)) : (M.run acts).Sound first := by
  induction acts generalizing M with
  | nil => exact h
  | cons a acts ih =>
    cases a with
    | call t c => exact ih (h.call c)
    | step t => exact ih h.step

end

end Sound

/-! ### Calls that fail -/

theorem failureHash?_of_isBusy {g : GuardDescr} (f : Frame) (h : g.status.isBusy = true) : Session.failureHash? g f = none := by
  rw [Session.failureHash?, GuardStatus.counter?, if_pos h]
  rfl

/-- A failure that meets the lock is neither counted nor answered with a bridge. -/
theorem step_failing {f : Frame} {eagerness : Int} (ht : M.stage t = .failing f eagerness) (hbusy : M.guard.status.isBusy = true) :
    M.step t = M.reply t (.failed false) := by
  simp only [step, ht, failureHash?_of_isBusy f hbusy, ite_self]

/-- Who is refused the lock reads the word right then, and somebody holds the lock. -/
theorem isBusy_of_refused {a : Act ι} (h : (M.act a).answers = (t, .started false) :: M.answers) : M.guard.status.isBusy = true := by
  have grown {t' : ι} {a' : Answer} {M' : Guarding ι} (hM : M'.answers = M.answers)
      (h : (M'.reply t' a').answers = (t, .started false) :: M.answers) : a' = .started false := by
    change (t', a') :: M'.answers = _ at h
    rw [hM] at h
    exact congrArg Prod.snd (List.cons.inj h).1
  have same {M' : Guarding ι} (hM : M'.answers = M.answers) (h : M'.answers = (t, .started false) :: M.answers) : False :=
    (List.cons_ne_self _ _) (h.symm.trans hM)
  cases a with
  | call u c =>
    simp only [act, call] at h
    split at h
    · exact (same rfl h).elim
    · split at h
      · exact (same rfl h).elim
      · exact (same rfl h).elim
    · exact (same rfl h).elim
    · exact (same rfl h).elim
  | step u =>
    simp only [act, step] at h
    split at h
    · exact (same rfl h).elim
    · split at h
      · rename_i hnone
        exact GuardStatus.start?_eq_none.1 hnone
      · exact (same rfl h).elim
    · split at h
      · cases grown rfl h
      · exact (same rfl h).elim
    · exact (same rfl h).elim
    · split at h
      · cases grown rfl h
      · exact (same rfl h).elim
    · split at h
      · cases grown rfl h
      · split at h
        · cases grown rfl h
        · exact (same rfl h).elim
    · cases grown rfl h

/-- Whatever the order in which the steps of any threads on a guard are done: at most one thread holds the lock, and the lowest
bit of the word says whether one does; the kind and the number in the word stay as they are; a failure that meets the lock changes
no counter and is not answered with a bridge; and who is refused the lock holds it, or another thread does so at this moment. -/
theorem protocol {g : GuardDescr} {counter : Counter} (hg : g.status.isBusy = false) (acts : List (Act ι)) :
    let M : Guarding ι := ({ guard := g, counter } : Guarding ι).run acts
    (∀ t u, M.holds t = true → M.holds u = true → t = u) ∧ (M.guard.status.isBusy = true ↔ ∃ t, M.holds t = true) ∧
    (M.guard.status.kindOf = g.status.kindOf ∧ M.guard.status.word >>> GuardStatus.shift = g.status.word >>> GuardStatus.shift) ∧
    (∀ t f eagerness, M.stage t = .failing f eagerness → M.guard.status.isBusy = true →
      (M.step t).counter = M.counter ∧ (M.step t).stage t = .idle ∧ (M.step t).answers = (t, .failed false) :: M.answers) ∧
    ∀ t a, (M.act a).answers = (t, .started false) :: M.answers → M.holds t = true ∨ ∃ u, u ≠ t ∧ M.holds u = true := by
  intro M
  have start : ({ guard := g, counter } : Guarding ι).Sound g.status := by
    refine ⟨iff_of_false (Bool.eq_false_iff.1 hg) ?_, nofun, rfl, nofun, ?_⟩
    · rintro ⟨t, ht⟩
      cases ht
    · rintro t (ht | ⟨old, ht⟩) <;> cases ht
  have h : M.Sound g.status := start.run acts
  refine ⟨fun t u => h.unique, h.busy, ⟨?_, ?_⟩, fun t f eagerness ht hbusy => ?_, fun t a ha => ?_⟩
  · rw [← GuardStatus.kindOf_finish, h.rest, GuardStatus.kindOf_finish]
  · rw [← GuardStatus.number_finish, h.rest, GuardStatus.number_finish]
  · rw [step_failing ht hbusy]
    exact ⟨rfl, if_pos rfl, rfl⟩
  · obtain ⟨u, hu⟩ := h.busy.1 (isBusy_of_refused ha)
    by_cases e : u = t
    · exact .inl (e ▸ hu)
    · exact .inr ⟨u, e, hu⟩

/-- Of two threads that read the free word at the same time one takes the lock; the other one reads again, and is refused. -/
theorem protocol_two_threads : (GuardStatus.counted 64).isBusy = false ∧ let g : GuardDescr := { code := .guardTrue, status := .counted 64 }
    let M : Guarding Bool := ({ guard := g, counter := .make 16 40 } : Guarding Bool).run
      [.call false .start, .call true .start, .step false, .step true, .step true, .step false]
    (∀ t u, M.holds t = true → M.holds u = true → t = u) ∧ (M.guard.status.isBusy = true ↔ ∃ t, M.holds t = true) ∧
    (M.guard.status.kindOf = g.status.kindOf ∧ M.guard.status.word >>> GuardStatus.shift = g.status.word >>> GuardStatus.shift) ∧
    (∀ t f eagerness, M.stage t = .failing f eagerness → M.guard.status.isBusy = true →
      (M.step t).counter = M.counter ∧ (M.step t).stage t = .idle ∧ (M.step t).answers = (t, .failed false) :: M.answers) ∧
    ∀ t a, (M.act a).answers = (t, .started false) :: M.answers → M.holds t = true ∨ ∃ u, u ≠ t ∧ M.holds u = true := by
  have hg : (GuardStatus.counted 64).isBusy = false := by decide
  exact ⟨hg, protocol hg _⟩

/-- A thread that holds the lock and asks for it again is refused, although no other thread is there. -/
theorem start_again :
    let M : Guarding Unit := ({ guard := { code := .guardTrue }, counter := .make 16 40 } : Guarding Unit).run
      [.call () .start, .step (), .step (), .call () .start]
    (M.step ()).answers = ((), .started false) :: M.answers ∧ ¬∃ u, u ≠ () ∧ M.holds u = true := by
  refine ⟨by rfl, ?_⟩
  rintro ⟨u, hu, -⟩
  exact hu rfl

end Guarding
end FlowCompiler.Trace
