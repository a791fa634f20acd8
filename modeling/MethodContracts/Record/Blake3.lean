import MethodContracts.Bytes

/-!
# BLAKE3

The checksum of stored records: the 32-byte BLAKE3 hash of a byte sequence.

The input is cut into chunks of 1024 bytes, and a chunk into blocks of 64. Chunks are the
leaves of a binary tree whose left subtrees are as large as a power of two allows. Every
node is given by the arguments of its last compression, so that the root can be finished
with a flag of its own.
-/

namespace MethodContracts.Blake3

/-- A chaining value. -/
abbrev Chain := Vector UInt32 8

/-- A message block, and the state of a compression. -/
abbrev Block := Vector UInt32 16

/-- The chaining value that every chunk starts from. -/
def initial : Chain := #v[
  0x6a09e667, 0xbb67ae85, 0x3c6ef372, 0xa54ff53a, 0x510e527f, 0x9b05688c, 0x1f83d9ab, 0x5be0cd19]

/-- How the words of a message move between rounds. -/
def permutation : Vector (Fin 16) 16 := #v[2, 6, 3, 10, 7, 0, 4, 13, 1, 11, 12, 5, 9, 14, 15, 8]

/-- The first block of a chunk. -/
def chunkStart : UInt32 := 1

/-- The last block of a chunk. -/
def chunkEnd : UInt32 := 2

/-- A node with two children. -/
def parent : UInt32 := 4

/-- The root of the tree. -/
def root : UInt32 := 8

/-! ## Compression -/

/-- The word with its bits moved right and around. -/
def rotateRight (w : UInt32) (n : UInt32) : UInt32 := (w >>> n) ||| (w <<< (32 - n))

/-- Mixes two message words into four words of the state. -/
def mix (s : Block) (a b c d : Fin 16) (x y : UInt32) : Block :=
  let s := s.set a (s[a] + s[b] + x)
  let s := s.set d (rotateRight (s[d] ^^^ s[a]) 16)
  let s := s.set c (s[c] + s[d])
  let s := s.set b (rotateRight (s[b] ^^^ s[c]) 12)
  let s := s.set a (s[a] + s[b] + y)
  let s := s.set d (rotateRight (s[d] ^^^ s[a]) 8)
  let s := s.set c (s[c] + s[d])
  s.set b (rotateRight (s[b] ^^^ s[c]) 7)

/-- One round: the columns of the state and then its diagonals. -/
def round (s m : Block) : Block :=
  let s := mix s 0 4 8 12 m[0] m[1]
  let s := mix s 1 5 9 13 m[2] m[3]
  let s := mix s 2 6 10 14 m[4] m[5]
  let s := mix s 3 7 11 15 m[6] m[7]
  let s := mix s 0 5 10 15 m[8] m[9]
  let s := mix s 1 6 11 12 m[10] m[11]
  let s := mix s 2 7 8 13 m[12] m[13]
  mix s 3 4 9 14 m[14] m[15]

/-- The message with its words moved. -/
def permute (m : Block) : Block := permutation.map fun i => m[i]

/-- Rounds with a permutation of the message after each. -/
def rounds : Nat → Block → Block → Block
  | 0, s, _ => s
  | n + 1, s, m => rounds n (round s m) (permute m)

/-- The arguments of a compression. -/
structure Output where
  chain : Chain
  block : Block
  counter : UInt64
  length : UInt32
  flags : UInt32

/-- The chaining value that a compression results in. -/
def Output.compress (o : Output) : Chain :=
  let s : Block := #v[
    o.chain[0], o.chain[1], o.chain[2], o.chain[3], o.chain[4], o.chain[5], o.chain[6],
    o.chain[7], initial[0], initial[1], initial[2], initial[3], o.counter.toUInt32,
    (o.counter >>> 32).toUInt32, o.length, o.flags]
  let s := rounds 7 s o.block
  Vector.ofFn fun i : Fin 8 => s[i.castAdd 8] ^^^ s[i.natAdd 8]

/-! ## The tree -/

/-- Cuts a sequence into pieces of `k + 1` elements; the last piece may be shorter. -/
def pieces {α : Type} (k : Nat) : List α → List (List α)
  | [] => []
  | a :: rest => (a :: rest.take k) :: pieces k (rest.drop k)
termination_by as => as.length

/-- The words of a block, low bytes first; what is missing counts as zeros. -/
def blockWords (bytes : Bytes) : Block :=
  let a := bytes.toArray
  let byte (i : Nat) : UInt32 := (a.getD i 0).toUInt32
  Vector.ofFn fun i : Fin 16 =>
    byte (4 * i) ||| (byte (4 * i + 1) <<< 8) ||| (byte (4 * i + 2) <<< 16) |||
      (byte (4 * i + 3) <<< 24)

/-- Goes through the blocks of a chunk. The last one is left to be compressed. -/
def chunkFrom (chain : Chain) (counter : UInt64) (flags : UInt32) : List Bytes → Output
  | [] => ⟨chain, blockWords [], counter, 0, flags ||| chunkEnd⟩
  | [last] => ⟨chain, blockWords last, counter, UInt32.ofNat last.length, flags ||| chunkEnd⟩
  | block :: rest =>
    chunkFrom (Output.compress ⟨chain, blockWords block, counter, 64, flags⟩) counter 0 rest

/-- A chunk with its number. -/
def chunk (counter : Nat) (bytes : Bytes) : Output :=
  chunkFrom initial (UInt64.ofNat counter) chunkStart (pieces 63 bytes)

/-- The node above two nodes. -/
def join (left right : Output) : Output :=
  ⟨initial, left.compress ++ right.compress, 0, 64, parent⟩

/-- How many of at least two chunks are on the left: the largest power of two that leaves one. -/
def leftCount (n : Nat) : Nat := Nat.pow 2 (n - 1).log2

theorem leftCount_pos (n : Nat) : 0 < leftCount n := Nat.pow_pos (by decide)

theorem leftCount_lt {n : Nat} (h : 2 ≤ n) : leftCount n < n :=
  Nat.lt_of_le_of_lt (Nat.log2_self_le (by omega)) (by omega)

/-- The node over consecutive chunks, the first of which has the given number. -/
def tree (counter : Nat) : List Bytes → Output
  | [] => chunk counter []
  | [bytes] => chunk counter bytes
  | a :: b :: rest =>
    let n := leftCount (rest.length + 2)
    join (tree counter ((a :: b :: rest).take n)) (tree (counter + n) ((a :: b :: rest).drop n))
termination_by chunks => chunks.length
decreasing_by
  all_goals
    have := leftCount_pos (rest.length + 2)
    have := leftCount_lt (n := rest.length + 2) (by omega)
    simp
    omega

/-- The bytes of a word, the low one first. -/
def wordBytes (w : UInt32) : Bytes :=
  [w.toUInt8, (w >>> 8).toUInt8, (w >>> 16).toUInt8, (w >>> 24).toUInt8]

/-- The hash of a byte sequence. -/
def hash (bytes : Bytes) : Bytes :=
  let top := tree 0 (pieces 1023 bytes)
  (Output.compress { top with flags := top.flags ||| root }).toList.flatMap wordBytes

theorem length_hash (bytes : Bytes) : (hash bytes).length = 32 := by
  simp [hash, wordBytes, List.length_flatMap, List.map_const']

end MethodContracts.Blake3
