namespace RoomLedger.Blake3

structure Row where
  a : UInt32
  b : UInt32
  c : UInt32
  d : UInt32

namespace Row

def map₂ (f : UInt32 → UInt32 → UInt32) (x y : Row) : Row := ⟨f x.a y.a, f x.b y.b, f x.c y.c, f x.d y.d⟩

def rotateRight (w : UInt32) (n : UInt32) : UInt32 := (w >>> n) ||| (w <<< (32 - n))

def stir (n : UInt32) (x y : Row) : Row := map₂ (fun v w => rotateRight (v ^^^ w) n) x y

def add (x y : Row) : Row := map₂ (· + ·) x y

def turn (x : Row) : Row := ⟨x.b, x.c, x.d, x.a⟩

end Row

structure State where
  r0 : Row
  r1 : Row
  r2 : Row
  r3 : Row

abbrev Words := Vector UInt32 16

def State.mix (s : State) (even odd : Row) : State :=
  let r0 := (s.r0.add s.r1).add even
  let r3 := Row.stir 16 s.r3 r0
  let r2 := s.r2.add r3
  let r1 := Row.stir 12 s.r1 r2
  let r0 := (r0.add r1).add odd
  let r3 := Row.stir 8 r3 r0
  let r2 := r2.add r3
  let r1 := Row.stir 7 r1 r2
  ⟨r0, r1, r2, r3⟩

-- Columns first; then the rows are turned so that diagonals stand as columns, and turned back.
def State.round (s : State) (m : Words) : State :=
  let s := s.mix ⟨m[0], m[2], m[4], m[6]⟩ ⟨m[1], m[3], m[5], m[7]⟩
  let s := State.mix ⟨s.r0, s.r1.turn, s.r2.turn.turn, s.r3.turn.turn.turn⟩
    ⟨m[8], m[10], m[12], m[14]⟩ ⟨m[9], m[11], m[13], m[15]⟩
  ⟨s.r0, s.r1.turn.turn.turn, s.r2.turn.turn, s.r3.turn⟩

def permute (m : Words) : Words :=
  #v[m[2], m[6], m[3], m[10], m[7], m[0], m[4], m[13], m[1], m[11], m[12], m[5], m[9], m[14], m[15], m[8]]

def rounds : Nat → State → Words → State
  | 0, s, _ => s
  | n + 1, s, m => rounds n (s.round m) (permute m)

structure Chaining where
  low : Row
  high : Row

def start : Chaining :=
  ⟨⟨0x6a09e667, 0xbb67ae85, 0x3c6ef372, 0xa54ff53a⟩, ⟨0x510e527f, 0x9b05688c, 0x1f83d9ab, 0x5be0cd19⟩⟩

def chunkStart : UInt32 := 1
def chunkEnd : UInt32 := 2
def parent : UInt32 := 4
def root : UInt32 := 8

def compress (value : Chaining) (m : Words) (counter : UInt64) (size flags : UInt32) : Chaining :=
  let s := rounds 7
    ⟨value.low, value.high, start.low, ⟨counter.toUInt32, (counter >>> 32).toUInt32, size, flags⟩⟩ m
  ⟨Row.map₂ (· ^^^ ·) s.r0 s.r2, Row.map₂ (· ^^^ ·) s.r1 s.r3⟩

-- The word whose lowest byte stands first; missing bytes are zero.
def littleEndian (bytes : List UInt8) : UInt32 :=
  bytes.foldr (fun b w => (w <<< 8) ||| b.toUInt32) 0

def words (block : List UInt8) : Words :=
  Vector.ofFn fun i => littleEndian ((block.drop (4 * i.val)).take 4)

-- Cuts a list into pieces of `size`, the last one shorter; `fuel` bounds their number.
def pieces (size : Nat) : Nat → List UInt8 → List (List UInt8)
  | 0, _ => []
  | fuel + 1, bytes =>
    match bytes.splitAt size with
    | (piece, []) => [piece]
    | (piece, rest) => piece :: pieces size fuel rest

-- The blocks of a chunk in turn; `extra` marks the last one when the chunk is the whole input.
def chunkBlocks (counter : UInt64) (extra : UInt32) (value : Chaining) (flags : UInt32) :
    List (List UInt8) → Chaining
  | [] => value
  | [block] =>
    compress value (words block) counter (UInt32.ofNat block.length) (flags ||| chunkEnd ||| extra)
  | block :: rest =>
    chunkBlocks counter extra (compress value (words block) counter 64 flags) 0 rest

def chunk (counter : Nat) (extra : UInt32) (bytes : List UInt8) : Chaining :=
  chunkBlocks (UInt64.ofNat counter) extra start chunkStart (pieces 64 16 bytes)

def join (extra : UInt32) (left right : Chaining) : Chaining :=
  let m := #v[left.low.a, left.low.b, left.low.c, left.low.d, left.high.a, left.high.b, left.high.c,
    left.high.d, right.low.a, right.low.b, right.low.c, right.low.d, right.high.a, right.high.b,
    right.high.c, right.high.d]
  compress start m 0 64 (parent ||| extra)

-- A value without a partner moves up as it is.
def joinPairs : List Chaining → List Chaining
  | left :: right :: rest => join 0 left right :: joinPairs rest
  | values => values

theorem length_joinPairs (values : List Chaining) :
    2 * (joinPairs values).length ≤ values.length + 1 := by
  induction values using joinPairs.induct with
  | case1 left right rest ih => simp only [joinPairs, List.length_cons]; omega
  | case2 values h =>
    match values with
    | [] => simp [joinPairs]
    | [_] => simp [joinPairs]
    | a :: b :: rest => exact absurd rfl (h a b rest)

def tree : List Chaining → Chaining
  | [] => start
  | [value] => value
  | [left, right] => join root left right
  | a :: b :: c :: rest => tree (joinPairs (a :: b :: c :: rest))
termination_by values => values.length
decreasing_by
  have := length_joinPairs (a :: b :: c :: rest)
  simp only [List.length_cons] at this ⊢
  omega

def Row.bytes (x : Row) : List UInt8 :=
  [x.a, x.b, x.c, x.d].flatMap fun (w : UInt32) =>
    [w.toUInt8, (w >>> 8).toUInt8, (w >>> 16).toUInt8, (w >>> 24).toUInt8]

def hash (input : List UInt8) : List UInt8 :=
  let value := match pieces 1024 (input.length / 1024 + 1) input with
    | [whole] => chunk 0 root whole
    | chunks => tree (chunks.mapIdx fun i bytes => chunk i 0 bytes)
  value.low.bytes ++ value.high.bytes

end RoomLedger.Blake3
