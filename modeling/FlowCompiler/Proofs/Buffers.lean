import Mathlib.Algebra.Ring.Int.Defs
import FlowCompiler.Proofs.Keeps
import FlowCompiler.RawMemory

/-!
# Buffers are accounted for

What code does with an arena is built from a few steps (`Acts`): it takes and frees buffers, looks at the arena, fails and handles failures,
and runs code of the same kind in a scope.  Each of them leads to a later arena (`Later`): a freed buffer stays so, and the count of live
bytes changes by what is taken or freed.  So the count is right in every arena that such code leads to (`Accounted`).
-/

namespace FlowCompiler.Arena

open List

open Trace (Leads after after_of_ok after_of_error bind_of_ok bind_of_error)

variable {α β : Type} {a a' : Arena} {r : BufferRef} {b b' : RawBuffer}

/-! ## Live buffers -/

/-- A buffer that was taken and not freed. -/
def IsLive (a : Arena) (r : BufferRef) (b : RawBuffer) : Prop := a.buffer? r = some b ∧ b.freed = false

/-- A buffer that was freed. -/
def IsFreed (a : Arena) (r : BufferRef) : Prop := ∃ b, a.buffer? r = some b ∧ b.freed = true

theorem mem_live {i : Nat} : (i, b) ∈ a.live ↔ a.IsLive ⟨a.key, i⟩ b := by
  simp only [live, IsLive, buffer?, mem_filter, mem_map, Prod.exists, Prod.mk.injEq, mk_mem_zipIdx_iff_le_and_getElem?_sub]
  cases i with
  | zero =>
    simp only [gt_iff_lt, Nat.lt_irrefl, decide_false, Bool.and_false, Bool.false_eq_true, if_false, reduceCtorEq, false_and, iff_false]
    rintro ⟨⟨_, i, h, rfl, rfl⟩, -⟩
    omega
  | succ i =>
    have at_succ : (∃ c j, (1 ≤ j ∧ a.buffers.toList[j - 1]? = some c) ∧ j = i + 1 ∧ c = b) ↔ a.buffers[i]? = some b := by
      rw [← Array.getElem?_toList]
      exact ⟨by rintro ⟨_, _, ⟨_, h⟩, rfl, rfl⟩; exact h, fun h => ⟨b, i + 1, ⟨Nat.succ_pos i, h⟩, rfl, rfl⟩⟩
    rw [at_succ]
    simp

theorem live_sorted (a : Arena) : a.live.Pairwise (·.1 < ·.1) := by
  refine .filter _ (pairwise_map.2 ?_)
  rw [← pairwise_map (f := Prod.snd) (R := (· < ·)), zipIdx_map_snd]
  exact pairwise_lt_range'

/-- What a buffer adds to the live bytes. -/
def weight (b : RawBuffer) : Int := if b.freed then 0 else b.size

/-- What the buffers add to the live bytes. -/
def weights (bs : List RawBuffer) : Int := (bs.map weight).sum

theorem weights_set {bs : List RawBuffer} {i : Nat} (h : bs[i]? = some b) (b' : RawBuffer) :
    weights (bs.set i b') = weights bs - weight b + weight b' := by
  unfold weights
  induction bs generalizing i with
  | nil => cases h
  | cons c bs ih =>
    cases i with
    | zero =>
      cases h
      simp only [set_cons_zero, map_cons, sum_cons]
      omega
    | succ i =>
      simp only [set_cons_succ, map_cons, sum_cons, ih h]
      omega

/-- The sizes of the live buffers add up to what all buffers count for. -/
theorem sum_live (a : Arena) : (a.live.map fun p => (p.2.size : Int)).sum = weights a.buffers.toList := by
  suffices h : ∀ (bs : List RawBuffer) k, ((((bs.zipIdx k).map fun p => (p.2, p.1)).filter fun p => !p.2.freed).map fun p =>
      (p.2.size : Int)).sum = weights bs from h _ 1
  intro bs
  unfold weights
  induction bs with
  | nil => exact fun _ => rfl
  | cons b bs ih =>
    intro k
    rw [map_cons, sum_cons, ← ih (k + 1), weight]
    cases hb : b.freed <;> simp [hb]

/-! ## Later arenas -/

/-- A later arena: a freed buffer stays so, and the count of live bytes follows the buffers. -/
structure Later (a a' : Arena) : Prop where
  kept : ∀ r (b : RawBuffer), a.buffer? r = some b → ∃ b' : RawBuffer, a'.buffer? r = some b' ∧ (b.freed = true → b'.freed = true)
  count : a'.liveBytes - weights a'.buffers.toList = a.liveBytes - weights a.buffers.toList

instance : Std.Refl Later := ⟨fun _ => ⟨fun _ b h => ⟨b, h, id⟩, rfl⟩⟩

instance : Trans Later Later Later where
  trans h h' := {
    kept r x hx := by
      obtain ⟨y, hy, hf⟩ := h.kept r x hx
      obtain ⟨z, hz, hg⟩ := h'.kept r y hy
      exact ⟨z, hz, hg ∘ hf⟩
    count := h'.count.trans h.count }

theorem Later.isFreed (h : Later a a') : a.IsFreed r → a'.IsFreed r := fun ⟨_, hb, hf⟩ =>
  have ⟨b', hb', hf'⟩ := h.kept r _ hb
  ⟨b', hb', hf' hf⟩

/-! ### One buffer -/

theorem buffer?_eq_some : a.buffer? r = some b ↔ r.arena = a.key ∧ 0 < r.id ∧ a.buffers[r.id - 1]? = some b := by
  simp [buffer?, and_assoc]

variable {bufs : List (BufferRef × String)} {n : Int} {tag : String} {s : BufferRef}

theorem buffer?_push :
    buffer? { a with buffers := a.buffers.push b, liveBytes := n } s = if s = ⟨a.key, a.buffers.size + 1⟩ then some b else a.buffer? s := by
  obtain ⟨k, i⟩ := s
  simp only [buffer?, BufferRef.mk.injEq, Array.getElem?_push]
  cases i with
  | zero => simp
  | succ i => by_cases hk : k = a.key <;> simp [hk]

theorem buffer?_set (h : a.buffer? r = some b) :
    buffer? { a with buffers := a.buffers.set! (r.id - 1) b', liveBytes := n } s = if s = r then some b' else a.buffer? s := by
  obtain ⟨hk, hi, hb⟩ := buffer?_eq_some.1 h
  obtain ⟨k, i⟩ := r
  obtain ⟨l, j⟩ := s
  cases hk
  obtain ⟨i, rfl⟩ : ∃ j, i = j + 1 := ⟨i - 1, by simp only at hi; omega⟩
  have hlt := (Array.getElem?_eq_some_iff.1 hb).1
  simp only [buffer?, BufferRef.mk.injEq, Array.set!_eq_setIfInBounds, Array.getElem?_setIfInBounds]
  cases j with
  | zero => simp
  | succ j =>
    by_cases hl : l = a.key <;> by_cases hj : i = j <;> simp_all [eq_comm]

theorem Later.push (a : Arena) (b : RawBuffer) (hn : weight b = n) :
    Later a { a with buffers := a.buffers.push b, liveBytes := a.liveBytes + n } where
  kept r x hx := by
    refine ⟨x, ?_, id⟩
    rw [buffer?_push, if_neg, hx]
    rintro rfl
    simpa using (buffer?_eq_some.1 hx).2.2
  count := by
    simp only [Array.toList_push, weights, map_append, sum_append, map_cons, map_nil, sum_singleton, hn]
    omega

theorem Later.set (h : a.buffer? r = some b) (hn : a.liveBytes - weight b + weight b' = n) (hf : b.freed = true → b'.freed = true) :
    Later a { a with buffers := a.buffers.set! (r.id - 1) b', liveBytes := n } where
  kept s x hx := by
    rw [buffer?_set h]
    split
    · subst s
      cases h.symm.trans hx
      exact ⟨b', rfl, hf⟩
    · exact ⟨x, hx, id⟩
  count := by
    have := weights_set ((Array.getElem?_toList ..).trans (buffer?_eq_some.1 h).2.2) b'
    simp only [Array.set!_eq_setIfInBounds, Array.toList_setIfInBounds, this]
    omega

/-! ## What code does -/

/-- Code that uses an arena: it takes and frees buffers, writes them and looks at them, fails and handles failures, and runs such code in a
scope. -/
inductive Acts : {α : Type} → M α → Prop
  | pure {α : Type} (v : α) : Acts (Pure.pure v : M α)
  | fail {α : Type} (f : Failure) : Acts (throw f : M α)
  | look : Acts (get : M Arena)
  | bind {α β : Type} {m : M α} {f : α → M β} : Acts m → (∀ v, Acts (f v)) → Acts (m >>= f)
  | handle {α : Type} {m : M α} {f : Failure → M α} : Acts m → (∀ e, Acts (f e)) → Acts (tryCatch m f)
  | malloc (n : Int) (tag : String) : Acts (malloc n tag)
  | copy (bs : List UInt8) : Acts (ofBytes bs)
  | write (r : BufferRef) (i : Nat) (v : UInt8) : Acts (poke r i v)
  | free (r : BufferRef) (tag : String) : Acts (free r tag)
  | freeAll : Acts freeAll
  | withText {α : Type} (bs : List UInt8) {act : BufferRef → M α} : (∀ r, Acts (act r)) → Acts (withText bs act)
  | withBuffer {α : Type} (n : Int) {act : BufferRef → M α} : (∀ r, Acts (act r)) → Acts (withBuffer n act)
  | withTexts {α : Type} (texts : List (List UInt8)) {act : List BufferRef → M α} : (∀ rs, Acts (act rs)) → Acts (withTexts texts act)

theorem malloc_ok {n : Nat} : malloc n tag a =
    .ok ⟨a.key, a.buffers.size + 1⟩ { a with buffers := a.buffers.push { bytes := List.replicate n 0, tag }, liveBytes := a.liveBytes + n } :=
  rfl

theorem malloc_error (hn : n < 0) :
    malloc n tag a = .error (.rawMemory Code.rawAllocation ("malloc " ++ tag) (some (.plain s!"negative size {n}"))) a := by
  rw [malloc, if_pos hn]
  rfl

theorem ofBytes_ok {bs : List UInt8} : ofBytes bs a = .ok ⟨a.key, a.buffers.size + 1⟩
    { a with buffers := a.buffers.push { bytes := bs ++ [0], tag := textTag }, liveBytes := a.liveBytes + (bs.length + 1 : Nat) } := by
  unfold ofBytes
  refine (bind_of_ok (malloc_ok (n := bs.length + 1))).trans ((bind_of_ok (m := modify _) rfl).trans ?_)
  have set_push (b c : RawBuffer) : (a.buffers.push b).setIfInBounds a.buffers.size c = a.buffers.push c := Array.ext' (by simp)
  rw [buffer?_push, if_pos rfl]
  simp only [Array.set!_eq_setIfInBounds, Nat.add_sub_cancel, set_push]
  rfl

theorem free_ok (h : a.buffer? r = some b) (hb : b.freed = false) : free r tag a =
    .ok () { a with buffers := a.buffers.set! (r.id - 1) { b with freed := true }, liveBytes := a.liveBytes - b.size } := by
  refine (bind_of_ok (m := get) rfl).trans ?_
  simp only [h, hb]
  rfl

theorem free_error (h : ∀ b, a.buffer? r = some b → b.freed = true) :
    free r tag a = .error (.rawMemory Code.rawDoubleFree ("free " ++ tag) none) a := by
  refine (bind_of_ok (m := get) rfl).trans ?_
  cases hb : a.buffer? r with
  | none => rfl
  | some b =>
    simp only [h b hb]
    rfl

theorem malloc_later (n : Int) (tag : String) : Leads Later (malloc n tag) := by
  intro a
  cases n with
  | negSucc n => rw [after_of_error (malloc_error (Int.negSucc_lt_zero n))]; exact Std.Refl.refl a
  | ofNat n => exact after_of_ok malloc_ok ▸ .push a _ (by simp [weight, RawBuffer.size])

theorem ofBytes_later (bs : List UInt8) : Leads Later (ofBytes bs) := fun a => by
  rw [after_of_ok ofBytes_ok]
  exact .push a _ (by simp [weight, RawBuffer.size])

theorem free_later (r : BufferRef) (tag : String) : Leads Later (free r tag) := by
  intro a
  by_cases h : ∃ b, a.buffer? r = some b ∧ b.freed = false
  · obtain ⟨b, h, hb⟩ := h
    rw [after_of_ok (free_ok h hb)]
    exact Later.set h (by simp [weight, hb]) fun _ => rfl
  · rw [after_of_error (free_error (by simpa using h))]
    exact Std.Refl.refl a

theorem poke_later (r : BufferRef) (i : Nat) (v : UInt8) : Leads Later (poke r i v) := by
  intro a
  rw [after_of_ok (m := poke r i v) rfl]
  dsimp only
  split
  · rename_i b h
    exact .set h (by simp [weight, RawBuffer.size]) id
  · exact Std.Refl.refl a

/-! ### Releasing -/

theorem failureOf_ok {α : Type} {m : M α} : ∃ f, failureOf m a = .ok f (after m a) := by
  have h : failureOf m a = match m a with
    | .ok _ a' => .ok none a'
    | .error f a' => .ok (some f) a' := by
    change EStateM.tryCatch (.bind m _) _ a = _
    unfold EStateM.tryCatch EStateM.bind
    cases m a <;> rfl
  rw [h, Trace.after]
  cases m a with
  | ok _ _ => exact ⟨_, rfl⟩
  | error f _ => exact ⟨_, rfl⟩

theorem after_free (h : a.buffer? r = some b) : (after (free r tag) a).IsFreed r := by
  cases hb : b.freed with
  | false =>
    rw [after_of_ok (free_ok h hb)]
    exact ⟨_, (buffer?_set h).trans (if_pos rfl), rfl⟩
  | true =>
    rw [after_of_error (free_error fun c hc => by cases h.symm.trans hc; exact hb)]
    exact ⟨b, h, hb⟩

/-- Freeing buffers one after another ends with all of them freed. -/
theorem freeEach_ok (bufs : List (BufferRef × String)) (before : Option Failure) (a : Arena) :
    ∃ f a', freeEach before bufs a = .ok f a' ∧ Later a a' ∧ ∀ p ∈ bufs, (∃ b, a.buffer? p.1 = some b) → a'.IsFreed p.1 := by
  induction bufs generalizing before a with
  | nil => exact ⟨before, a, rfl, Std.Refl.refl a, by simp⟩
  | cons p bufs ih =>
    obtain ⟨r, tag⟩ := p
    obtain ⟨f, hf⟩ := failureOf_ok (m := free r tag) (a := a)
    obtain ⟨g, a', hg, hl, hfreed⟩ := ih (Failure.join before f) (after (free r tag) a)
    have hfree := free_later r tag a
    refine ⟨g, a', (bind_of_ok hf).trans hg, Trans.trans hfree hl, ?_⟩
    rintro p hp ⟨b, hb⟩
    obtain rfl | hp := mem_cons.1 hp
    · exact hl.isFreed (after_free hb)
    · obtain ⟨b', hb', -⟩ := hfree.kept p.1 b hb
      exact hfreed p hp ⟨b', hb'⟩

theorem after_releasing {act : M α} : Later (after act a) (after (releasing bufs act) a) ∧
    ∀ p ∈ bufs, (∃ b, (after act a).buffer? p.1 = some b) → (after (releasing bufs act) a).IsFreed p.1 := by
  have run : releasing bufs act a = match act a with
    | .ok v a' => (do orThrow (← freeEach none bufs); pure v : M α) a'
    | .error f a' => (do throw ((← freeEach (some f) bufs).getD f) : M α) a' := by
    change EStateM.bind (.tryCatch (.bind act _) _) _ a = _
    unfold EStateM.tryCatch EStateM.bind
    dsimp only
    cases act a <;> rfl
  cases e : act a with
  | ok v a₁ =>
    obtain ⟨f, a₂, hf, h⟩ := freeEach_ok bufs none a₁
    rw [e] at run
    rw [after_of_ok e]
    have : after (releasing bufs act) a = a₂ := by
      rw [Trace.after, run]
      simp only [bind_of_ok hf]
      cases f <;> rfl
    exact this ▸ h
  | error f a₁ =>
    obtain ⟨g, a₂, hg, h⟩ := freeEach_ok bufs (some f) a₁
    rw [e] at run
    rw [after_of_error e, after_of_error (run.trans (bind_of_ok hg))]
    exact h

theorem Acts.later {m : M α} (h : Acts m) : Leads Later m := by
  have releasing {α : Type} (bufs : List (BufferRef × String)) {act : M α} (h : Leads Later act) : Leads Later (releasing bufs act) :=
    fun a => Trans.trans (h a) after_releasing.1
  induction h with
  | pure v => exact .pure v
  | fail f => exact fun a => Std.Refl.refl a
  | look => exact fun a => Std.Refl.refl a
  | bind _ _ ih ih' => exact ih.bind ih'
  | handle _ _ ih ih' => exact ih.tryCatch ih'
  | malloc n tag => exact malloc_later n tag
  | copy bs => exact ofBytes_later bs
  | write r i v => exact poke_later r i v
  | free r tag => exact free_later r tag
  | freeAll =>
    intro a
    obtain ⟨f, a', hf, h, -⟩ := freeEach_ok (a.live.map fun p => (⟨a.key, p.1⟩, p.2.tag)) none a
    have : after Arena.freeAll a = a' := by
      have run : Arena.freeAll a = orThrow f a' := bind_of_ok hf
      rw [Trace.after, run]
      cases f <;> rfl
    exact this ▸ h
  | withText bs _ ih => exact (ofBytes_later bs).bind fun r => releasing _ (ih r)
  | withBuffer n _ ih => exact (malloc_later n _).bind fun r => releasing _ (ih r)
  | withTexts texts _ ih => exact (Leads.mapM ofBytes_later).bind fun rs => releasing _ (ih rs)

/-! ## Accounts -/

/-- A step makes a buffer and changes no other.  Its number is greater than those of the buffers that were made before. -/
def Takes (a : Arena) (m : M BufferRef) (b : RawBuffer) : Prop :=
  ∃ r a', m a = .ok r a' ∧ a'.IsLive r b ∧ (∀ s c, a.buffer? s = some c → s.id < r.id) ∧ ∀ s ≠ r, a'.buffer? s = a.buffer? s

theorem takes_of_push {m : M BufferRef} (hb : b.freed = false)
    (h : m a = .ok ⟨a.key, a.buffers.size + 1⟩ { a with buffers := a.buffers.push b, liveBytes := n }) : a.Takes m b := by
  refine ⟨_, _, h, ⟨buffer?_push.trans (if_pos rfl), hb⟩, fun s c hs => ?_, fun s hs => buffer?_push.trans (if_neg hs)⟩
  have := (Array.getElem?_eq_some_iff.1 (buffer?_eq_some.1 hs).2.2).1
  dsimp only
  omega

/-- What holds of the buffers of an arena, now and whatever is done with it. -/
structure Accounted (a : Arena) : Prop where
  /-- The buffers that are live, by their numbers, are those listed and those counted. -/
  listed : ∃ ls : List (Nat × RawBuffer), ls.Pairwise (·.1 < ·.1) ∧ (∀ i b, (i, b) ∈ ls ↔ a.IsLive ⟨a.key, i⟩ b) ∧
    a.leaks = ls.map (fun (i, b) => s!"#{i} {b.tag} ({b.size} bytes)") ∧ a.liveBytes = (ls.map fun p => (p.2.size : Int)).sum
  taken (n : Nat) (tag : String) : a.Takes (malloc n tag) { bytes := List.replicate n 0, tag }
  copied (bs : List UInt8) : a.Takes (ofBytes bs) { bytes := bs ++ [0], tag := textTag }
  given {r : BufferRef} {b : RawBuffer} (tag : String) : a.IsLive r b →
    ∃ a', free r tag a = .ok () a' ∧ a'.IsFreed r ∧ ∀ s ≠ r, a'.buffer? s = a.buffer? s
  refused {r : BufferRef} {tag : String} {f : Failure} {a' : Arena} : free r tag a = .error f a' → a' = a
  gone {α : Type} {m : M α} {r : BufferRef} : Acts m → a.IsFreed r → (after m a).IsFreed r
  text {α : Type} (bs : List UInt8) {act : BufferRef → M α} : (∀ r, Acts (act r)) →
    ∃ r a', ofBytes bs a = .ok r a' ∧ (after (withText bs act) a).IsFreed r
  buffer {α : Type} (n : Int) {act : BufferRef → M α} : (∀ r, Acts (act r)) →
    (∃ f, withBuffer n act a = .error f a) ∨ ∃ r a', malloc n "scoped" a = .ok r a' ∧ (after (withBuffer n act) a).IsFreed r
  texts {α : Type} (ts : List (List UInt8)) {act : List BufferRef → M α} : (∀ rs, Acts (act rs)) →
    ∃ rs a', ts.mapM ofBytes a = .ok rs a' ∧ ∀ r ∈ rs, (after (withTexts ts act) a).IsFreed r

theorem mapM_ofBytes_ok (ts : List (List UInt8)) (a : Arena) : ∃ rs a', ts.mapM ofBytes a = .ok rs a' ∧ ∀ r ∈ rs, ∃ b, a'.buffer? r = some b := by
  induction ts generalizing a with
  | nil => exact ⟨[], a, rfl, by simp⟩
  | cons t ts ih =>
    obtain ⟨r, a₁, hr, ⟨hb, -⟩, -⟩ := takes_of_push (m := ofBytes t) (a := a) rfl ofBytes_ok
    obtain ⟨rs, a₂, hrs, hknown⟩ := ih a₁
    obtain ⟨b', hb', -⟩ := ((Leads.mapM ofBytes_later).ok hrs).kept r _ hb
    refine ⟨r :: rs, a₂, ?_, forall_mem_cons.2 ⟨⟨b', hb'⟩, hknown⟩⟩
    rw [mapM_cons, bind_of_ok hr, bind_of_ok hrs]
    rfl

/-- Buffers that are known when a scope begins are freed when it ends. -/
theorem isFreed_scope {m : M β} (bufs : β → List (BufferRef × String)) {act : β → M α} {v : β} (hm : m a = .ok v a')
    (hact : Acts (act v)) {p : BufferRef × String} (hp : p ∈ bufs v) (hb : ∃ b, a'.buffer? p.1 = some b) :
    (after (m >>= fun v => releasing (bufs v) (act v)) a).IsFreed p.1 := by
  have run : after (m >>= fun v => releasing (bufs v) (act v)) a = after (releasing (bufs v) (act v)) a' := by
    rw [Trace.after, bind_of_ok hm]
    rfl
  obtain ⟨b, hb⟩ := hb
  obtain ⟨b', hb', -⟩ := (hact.later a').kept p.1 b hb
  exact run ▸ after_releasing.2 p hp ⟨b', hb'⟩

/-- Buffers are accounted for, whatever is done with the arena. -/
theorem accounted_of_acts {m : M α} (h : Acts m) (key : Nat) : Accounted (after m { key }) where
  listed := by
    refine ⟨_, live_sorted _, fun i b => mem_live, rfl, ?_⟩
    have := (h.later { key }).count
    rw [sum_live]
    simpa [weights, Int.sub_eq_zero] using this
  taken _ _ := takes_of_push rfl malloc_ok
  copied _ := takes_of_push rfl ofBytes_ok
  given tag := fun ⟨hb, hf⟩ => ⟨_, free_ok hb hf, ⟨_, (buffer?_set hb).trans (if_pos rfl), rfl⟩, fun s hs => (buffer?_set hb).trans (if_neg hs)⟩
  refused := by
    intro r tag f a' e
    by_cases h : ∃ b, Arena.buffer? (after m { key }) r = some b ∧ b.freed = false
    · obtain ⟨b, hb, hf⟩ := h
      cases (free_ok hb hf).symm.trans e
    · cases (free_error (by simpa using h)).symm.trans e
      rfl
  gone hm := (hm.later _).isFreed
  text bs _ hact :=
    have ⟨r, a', hr, ⟨hb, _⟩, _⟩ := takes_of_push (m := ofBytes bs) rfl ofBytes_ok
    ⟨r, a', hr, isFreed_scope (fun r => [(r, textTag)]) hr (hact r) (mem_singleton_self _) ⟨_, hb⟩⟩
  buffer n _ hact := by
    cases n with
    | negSucc n => exact .inl ⟨_, bind_of_error (malloc_error (Int.negSucc_lt_zero n))⟩
    | ofNat n =>
      obtain ⟨r, a', hr, ⟨hb, -⟩, -⟩ := takes_of_push (m := malloc n "scoped") rfl malloc_ok
      exact .inr ⟨r, a', hr, isFreed_scope (fun r => [(r, "scoped")]) hr (hact r) (mem_singleton_self _) ⟨_, hb⟩⟩
  texts ts _ hact :=
    have ⟨rs, a', hrs, hknown⟩ := mapM_ofBytes_ok ts _
    ⟨rs, a', hrs, fun r hr => isFreed_scope (List.map (·, textTag)) hrs (hact rs) (mem_map_of_mem hr) (hknown r hr)⟩

/-- A text is freed in its own scope, and once more, which fails; a buffer is left behind. -/
def careless : M Unit := withText [104, 105] fun r => do
  free r textTag
  let _ ← malloc 3 "kept"
  free r textTag

theorem accounted_of_careless : (after careless {}).liveBytes = 3 ∧ Accounted (after careless {}) :=
  ⟨rfl, accounted_of_acts (.withText _ fun r => .bind (.free r _) fun _ => .bind (.malloc 3 _) fun _ => .free r _) 0⟩

end FlowCompiler.Arena
