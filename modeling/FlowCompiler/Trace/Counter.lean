/-!
# Counters of hot code

A table of counters that is shared by loops and guards.  The upper bits of a hash choose the counter, so
that the table may be small; code that falls on the same counter is counted together.
-/

/-! ## BLAKE2b

The hash function BLAKE2b with digests of 32 bytes and no key.  A message is cut into blocks of 128 bytes,
the last one padded with zeros, and each block is mixed into a state of eight words in twelve rounds. -/

namespace FlowCompiler.Blake2

/-- The fractional parts of the square roots of the first eight primes. -/
def initial : Array UInt64 :=
  #[0x6a09e667f3bcc908, 0xbb67ae8584caa73b, 0x3c6ef372fe94f82b, 0xa54ff53a5f1d36f1,
    0x510e527fade682d1, 0x9b05688c2b3e6c1f, 0x1f83d9abfb41bd6b, 0x5be0cd19137e2179]

/-- The order in which a round takes the words of a block. -/
def schedule : List (List Nat) :=
  [ [0, 1, 2, 3, 4, 5, 6, 7, 8, 9, 10, 11, 12, 13, 14, 15],
    [14, 10, 4, 8, 9, 15, 13, 6, 1, 12, 0, 2, 11, 7, 5, 3],
    [11, 8, 12, 0, 5, 2, 15, 13, 10, 14, 3, 6, 7, 1, 9, 4],
    [7, 9, 3, 1, 13, 12, 11, 14, 2, 6, 5, 10, 4, 0, 15, 8],
    [9, 0, 5, 7, 2, 4, 10, 15, 14, 1, 11, 12, 6, 8, 3, 13],
    [2, 12, 6, 10, 0, 11, 8, 3, 4, 13, 7, 5, 15, 14, 1, 9],
    [12, 5, 1, 15, 14, 13, 4, 10, 0, 7, 6, 3, 9, 2, 8, 11],
    [13, 11, 7, 14, 12, 1, 3, 9, 5, 0, 15, 4, 8, 6, 2, 10],
    [6, 15, 14, 9, 11, 3, 0, 8, 12, 2, 13, 7, 1, 4, 10, 5],
    [10, 2, 8, 4, 7, 6, 1, 5, 15, 11, 9, 14, 3, 12, 13, 0] ]

def rounds : List (List Nat) := schedule ++ schedule.take 2

/-- The words that the eight mixing steps of a round work on: first the columns, then the diagonals. -/
def lanes : List (Nat × Nat × Nat × Nat) :=
  [(0, 4, 8, 12), (1, 5, 9, 13), (2, 6, 10, 14), (3, 7, 11, 15),
    (0, 5, 10, 15), (1, 6, 11, 12), (2, 7, 8, 13), (3, 4, 9, 14)]

def rotateRight (x : UInt64) (n : UInt64) : UInt64 := (x >>> n) ||| (x <<< (64 - n))

def word (v : Array UInt64) (i : Nat) : UInt64 := (v[i]?).getD 0

/-- Mixes two words of the block into four words of the state. -/
def mix (v : Array UInt64) (lane : Nat × Nat × Nat × Nat) (x y : UInt64) : Array UInt64 :=
  let (ia, ib, ic, id) := lane
  let a := word v ia + word v ib + x
  let d := rotateRight (word v id ^^^ a) 32
  let c := word v ic + d
  let b := rotateRight (word v ib ^^^ c) 24
  let a := a + b + y
  let d := rotateRight (d ^^^ a) 16
  let c := c + d
  let b := rotateRight (b ^^^ c) 63
  (((v.setIfInBounds ia a).setIfInBounds ib b).setIfInBounds ic c).setIfInBounds id d

/-- One round. -/
def round (block v : Array UInt64) (order : List Nat) : Array UInt64 :=
  lanes.zipIdx.foldl (fun v (lane, i) =>
    mix v lane (word block ((order[2 * i]?).getD 0)) (word block ((order[2 * i + 1]?).getD 0))) v

/-- Mixes a block into the state; `count` is the number of bytes up to the end of the block. -/
def compress (h block : Array UInt64) (count : Nat) (last : Bool) : Array UInt64 :=
  let v := h ++ initial
  let v := v.modify 12 (· ^^^ UInt64.ofNat count)
  let v := if last then v.modify 14 (~~~ ·) else v
  let v := rounds.foldl (round block) v
  h.mapIdx fun i x => x ^^^ word v i ^^^ word v (i + 8)

/-- The number whose bytes are given, lowest first. -/
def ofLittleEndian (bytes : List UInt8) : Nat := bytes.foldr (fun b n => b.toNat + 256 * n) 0

def littleEndian : (bytes : Nat) → (n : Nat) → List UInt8
  | 0, _ => []
  | k + 1, n => UInt8.ofNat n :: littleEndian k (n / 256)

/-- The words of a block, which is padded with zeros. -/
def wordsOf (bytes : List UInt8) : Array UInt64 :=
  ((List.range 16).map fun i => UInt64.ofNat (ofLittleEndian ((bytes.drop (8 * i)).take 8))).toArray

/-- Mixes all blocks into the state; the last one may be shorter, and empty only if the message is. -/
def absorb : (fuel : Nat) → (h : Array UInt64) → (count : Nat) → List UInt8 → Array UInt64
  | 0, h, _, _ => h
  | n + 1, h, count, bytes =>
    if bytes.length ≤ 128 then compress h (wordsOf bytes) (count + bytes.length) true
    else absorb n (compress h (wordsOf (bytes.take 128)) (count + 128) false) (count + 128) (bytes.drop 128)

/-- The state before the first block, for digests of 32 bytes. -/
def start : Array UInt64 := initial.modify 0 (· ^^^ 0x01010020)

/-- The digest of 32 bytes. -/
def digest (bytes : List UInt8) : List UInt8 :=
  ((absorb (bytes.length + 1) start 0 bytes).toList.take 4).flatMap fun w => littleEndian 8 w.toNat

end FlowCompiler.Blake2

namespace FlowCompiler.Trace

structure Counter where
  cells : Array UInt32
  /-- How many low bits of a hash are ignored. -/
  shift : Nat
  /-- The percentage that a decay keeps. -/
  keep : UInt32
  nextHash : UInt32 := 0
deriving Inhabited

namespace Counter

/-- A table whose size is a power of two. -/
def make (size : Nat) (decay : Int) : Counter :=
  { cells := Array.replicate size 0, shift := 32 - size.log2, keep := UInt32.ofInt (100 - decay) }

def size (c : Counter) : Nat := c.cells.size

/-- The counter that a hash falls on. -/
def index (c : Counter) (hash : UInt32) : Nat := hash.toNat >>> c.shift

def lookup (c : Counter) (hash : UInt32) : UInt32 := (c.cells[c.index hash]?).getD 0

def set (c : Counter) (hash n : UInt32) : Counter := { c with cells := c.cells.setIfInBounds (c.index hash) n }

def reset (c : Counter) (hash : UInt32) : Counter := c.set hash 0

/-- One more on a single counter; at the threshold it starts again and the code is hot. -/
def bump (threshold : Int) (n : UInt32) : Bool × UInt32 :=
  if (n.toNat : Int) + 1 ≥ threshold then (true, 0) else (false, n + 1)

/-- Counts one more for a hash. -/
def tick (c : Counter) (hash : UInt32) (threshold : Int) : Bool × Counter :=
  let (hot, n) := bump threshold (c.lookup hash)
  (hot, c.set hash n)

/-- Every counter loses its share. -/
def decay (c : Counter) : Counter :=
  { c with cells := c.cells.map fun n => (n.toUInt64 * c.keep.toUInt64 / 100).toUInt32 }

/-- A hash for a new guard; hashes given out one after another fall on neighbouring counters. -/
def fetchHash (c : Counter) : UInt32 × Counter :=
  let step : UInt32 := if c.shift < 32 then UInt32.ofNat (Nat.pow 2 c.shift) else 1
  (c.nextHash, { c with nextHash := c.nextHash + step })

/-- The first four bytes of a digest. -/
def hashBytes (bytes : List UInt8) : UInt32 := UInt32.ofNat (Blake2.ofLittleEndian ((Blake2.digest bytes).take 4))

/-- The hash of the key of a loop. -/
def hashKey (key : String) : UInt32 := hashBytes key.toUTF8.toList

/-- The hash of a guard together with a value it failed on. -/
def hashValue (base : UInt32) (value : UInt64) : UInt32 :=
  hashBytes (Blake2.littleEndian 4 base.toNat ++ Blake2.littleEndian 8 value.toNat)

end Counter
end FlowCompiler.Trace
