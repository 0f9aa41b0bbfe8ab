import FlowCompiler.Failure

/-!
# Raw buffers

Buffers outside the garbage-collected heap are taken from an arena and must be given back on every
path.  The arena knows the buffers that are still live, so leaks can be listed.  A buffer belongs to
the arena that made it: an arena refuses to free a buffer of another one, and refuses to free a buffer
twice.
-/

namespace FlowCompiler

/-- A handle on a buffer: its arena and its number there. -/
structure BufferRef where
  arena : Nat
  id : Nat
deriving DecidableEq, Repr

structure RawBuffer where
  bytes : List UInt8
  tag : String
  freed : Bool := false

def RawBuffer.size (b : RawBuffer) : Nat := b.bytes.length

/-- An arena; buffer number `k` is the entry at `k - 1`. -/
structure Arena where
  key : Nat := 0
  buffers : Array RawBuffer := #[]
  liveBytes : Int := 0
deriving Inhabited

namespace Arena

abbrev M := EStateM Failure Arena

def rawFailure {α : Type} (code op : String) (inner : Option Failure) : M α := throw (.rawMemory code op inner)

def buffer? (a : Arena) (r : BufferRef) : Option RawBuffer :=
  if r.arena = a.key && r.id > 0 then a.buffers[r.id - 1]? else none

/-- A buffer of `n` zero bytes. -/
def malloc (n : Int) (tag : String) : M BufferRef := do
  if n < 0 then rawFailure Code.rawAllocation ("malloc " ++ tag) (some (.plain s!"negative size {n}"))
  else
    let a ← get
    set { a with
      buffers := a.buffers.push { bytes := List.replicate n.toNat 0, tag }
      liveBytes := a.liveBytes + n }
    pure ⟨a.key, a.buffers.size + 1⟩

/-- Gives a buffer back; `tag` names it in the failure. -/
def free (r : BufferRef) (tag : String) : M Unit := do
  let a ← get
  match a.buffer? r with
  | some b =>
    if b.freed then rawFailure Code.rawDoubleFree ("free " ++ tag) none
    else set { a with
      buffers := a.buffers.set! (r.id - 1) { b with freed := true }
      liveBytes := a.liveBytes - b.size }
  | none => rawFailure Code.rawDoubleFree ("free " ++ tag) none

/-- The live buffers with their numbers, in the order of allocation. -/
def live (a : Arena) : List (Nat × RawBuffer) :=
  ((a.buffers.toList.zipIdx 1).map fun (b, i) => (i, b)).filter fun (_, b) => !b.freed

/-- Runs an action and gives back its failure, if any, as a value. -/
def failureOf {α : Type} (act : M α) : M (Option Failure) :=
  tryCatch (do let _ ← act; pure none) (fun f => pure (some f))

/-- Frees buffers one after another, joining the failures to an earlier one. -/
def freeEach (before : Option Failure) : List (BufferRef × String) → M (Option Failure)
  | [] => pure before
  | (r, tag) :: rest => do
    let f ← failureOf (free r tag)
    freeEach (Failure.join before f) rest

def orThrow (f : Option Failure) : M Unit :=
  match f with
  | some f => throw f
  | none => pure ()

def freeAll : M Unit := do
  let a ← get
  orThrow (← freeEach none (a.live.map fun (i, b) => (⟨a.key, i⟩, b.tag)))

def leaks (a : Arena) : List String := a.live.map fun (i, b) => s!"#{i} {b.tag} ({b.size} bytes)"

def checkLeaks : M Unit := do
  let ls := (← get).leaks
  if ls.isEmpty then pure ()
  else
    let names := String.intercalate ", " ls
    throw (.plain s!"{ls.length} raw buffers leaked: {names}")

/-- Replaces one byte of a live buffer. -/
def poke (r : BufferRef) (i : Nat) (v : UInt8) : M Unit := modify fun a =>
  match a.buffer? r with
  | some b => { a with buffers := a.buffers.set! (r.id - 1) { b with bytes := b.bytes.set i v } }
  | none => a

/-- The tag of copies of texts. -/
def textTag : String := "str2charp"

/-- A copy of a text with a zero byte at its end. -/
def ofBytes (bs : List UInt8) : M BufferRef := do
  let r ← malloc (bs.length + 1) textTag
  modify fun a => match a.buffer? r with
    | some b => { a with buffers := a.buffers.set! (r.id - 1) { b with bytes := bs ++ [0] } }
    | none => a
  pure r

def bytesOf (r : BufferRef) : M (List UInt8) := do
  pure ((((← get).buffer? r).map RawBuffer.bytes).getD [])

/-- The bytes up to the first zero. -/
def toTextBytes (r : BufferRef) : M (List UInt8) := do pure ((← bytesOf r).takeWhile (· ≠ 0))

/-- The first `n` bytes, zeros included. -/
def firstBytes (r : BufferRef) (n : Nat) : M (List UInt8) := do pure ((← bytesOf r).take n)

/-- Runs an action on fresh buffers and frees them on every path. -/
def releasing {α : Type} (bufs : List (BufferRef × String)) (act : M α) : M α := do
  let r ← tryCatch (do pure (Except.ok (← act))) (fun f => pure (Except.error f))
  match r with
  | .ok v => orThrow (← freeEach none bufs); pure v
  | .error f => do
    let g ← freeEach (some f) bufs
    throw (g.getD f)

/-- A zero-terminated copy of a text for the time of an action. -/
def withText {α : Type} (bs : List UInt8) (act : BufferRef → M α) : M α := do
  let r ← ofBytes bs
  releasing [(r, textTag)] (act r)

/-- A buffer for the time of an action. -/
def withBuffer {α : Type} (n : Int) (act : BufferRef → M α) : M α := do
  let r ← malloc n "scoped"
  releasing [(r, "scoped")] (act r)

/-- Copies of several texts for the time of an action. -/
def withTexts {α : Type} (texts : List (List UInt8)) (act : List BufferRef → M α) : M α := do
  let rs ← texts.mapM ofBytes
  releasing (rs.map (·, textTag)) (act rs)

end Arena
end FlowCompiler
