import Cogrouping.Bytes

/-!
The BLAKE3 hash of a byte string, 32 bytes long. The input is cut into chunks of 1024 bytes; each
chunk is hashed block by block, and the chaining values of the chunks are joined in a binary tree
whose left subtree is always a full one.
-/

namespace Cogrouping.Blake3

abbrev Words := Vector UInt32 16

abbrev Chain := Vector UInt32 8

def initial : Chain :=
  #v[0x6A09E667, 0xBB67AE85, 0x3C6EF372, 0xA54FF53A, 0x510E527F, 0x9B05688C, 0x1F83D9AB, 0x5BE0CD19]

def chunkStart : UInt32 := 1
def chunkEnd : UInt32 := 2
def parent : UInt32 := 4
def root : UInt32 := 8

def rotateRight (word : UInt32) (count : UInt32) : UInt32 :=
  word >>> count ||| word <<< (32 - count)

def quarter (state : Words) (a b c d : Fin 16) (first second : UInt32) : Words :=
  let wordA := state[a] + state[b] + first
  let wordD := rotateRight (state[d] ^^^ wordA) 16
  let wordC := state[c] + wordD
  let wordB := rotateRight (state[b] ^^^ wordC) 12
  let wordA := wordA + wordB + second
  let wordD := rotateRight (wordD ^^^ wordA) 8
  let wordC := wordC + wordD
  let wordB := rotateRight (wordB ^^^ wordC) 7
  (((state.set a wordA).set b wordB).set c wordC).set d wordD

def round (state block : Words) : Words :=
  let state := quarter state 0 4 8 12 block[0] block[1]
  let state := quarter state 1 5 9 13 block[2] block[3]
  let state := quarter state 2 6 10 14 block[4] block[5]
  let state := quarter state 3 7 11 15 block[6] block[7]
  let state := quarter state 0 5 10 15 block[8] block[9]
  let state := quarter state 1 6 11 12 block[10] block[11]
  let state := quarter state 2 7 8 13 block[12] block[13]
  quarter state 3 4 9 14 block[14] block[15]

def permute (block : Words) : Words :=
  #v[block[2], block[6], block[3], block[10], block[7], block[0], block[4], block[13],
    block[1], block[11], block[12], block[5], block[9], block[14], block[15], block[8]]

def rounds : Nat → Words → Words → Words
  | 0, state, _ => state
  | count + 1, state, block => rounds count (round state block) (permute block)

def compress (chain : Chain) (block : Words) (counter : UInt64) (size flags : UInt32) : Chain :=
  let state : Words :=
    #v[chain[0], chain[1], chain[2], chain[3], chain[4], chain[5], chain[6], chain[7],
      initial[0], initial[1], initial[2], initial[3],
      counter.toUInt32, (counter >>> 32).toUInt32, size, flags]
  let state := rounds 7 state block
  #v[state[0] ^^^ state[8], state[1] ^^^ state[9], state[2] ^^^ state[10], state[3] ^^^ state[11],
    state[4] ^^^ state[12], state[5] ^^^ state[13], state[6] ^^^ state[14], state[7] ^^^ state[15]]

def word (bytes : Bytes) : UInt32 :=
  (bytes.take 4).foldr (fun byte number => number <<< 8 ||| byte.toUInt32) 0

def blockWords (bytes : Bytes) : Words :=
  Vector.ofFn fun index => word (bytes.drop (4 * index.val))

/-- What is left to compress of a node of the tree, whose root compression has a flag of its own. -/
structure Node where
  chain : Chain
  block : Words
  counter : UInt64
  size : UInt32
  flags : UInt32

def Node.chaining (node : Node) : Chain :=
  compress node.chain node.block node.counter node.size node.flags

def chunkBlocks (counter : UInt64) : Nat → Chain → UInt32 → Bytes → Node
  | 0, chain, flags, bytes =>
      ⟨chain, blockWords bytes, counter, UInt32.ofNat bytes.length, flags ||| chunkEnd⟩
  | fuel + 1, chain, flags, bytes =>
      if bytes.length ≤ 64 then
        ⟨chain, blockWords bytes, counter, UInt32.ofNat bytes.length, flags ||| chunkEnd⟩
      else
        chunkBlocks counter fuel (compress chain (blockWords (bytes.take 64)) counter 64 flags) 0
          (bytes.drop 64)

def chunk (counter : UInt64) (bytes : Bytes) : Node :=
  chunkBlocks counter 15 initial chunkStart bytes

def join (left right : Chain) : Node :=
  ⟨initial, left ++ right, 0, 64, parent⟩

/-- The chunks of the left subtree: the largest power of two below the number of chunks. -/
def leftChunks (bytes : Bytes) : Nat := Nat.pow 2 ((bytes.length - 1) / 1024).log2

/-- The tree over the chunks from `counter` on; `fuel` bounds its height. -/
def tree : Nat → UInt64 → Bytes → Node
  | 0, counter, bytes => chunk counter bytes
  | fuel + 1, counter, bytes =>
      if bytes.length ≤ 1024 then chunk counter bytes
      else
        let left := leftChunks bytes
        join (tree fuel counter (bytes.take (left * 1024))).chaining
          (tree fuel (counter + UInt64.ofNat left) (bytes.drop (left * 1024))).chaining

def wordBytes (word : UInt32) : Bytes :=
  [word.toUInt8, (word >>> 8).toUInt8, (word >>> 16).toUInt8, (word >>> 24).toUInt8]

def hash (bytes : Bytes) : Bytes :=
  let node := tree 64 0 bytes
  (compress node.chain node.block 0 node.size (node.flags ||| root)).toList.flatMap wordBytes

end Cogrouping.Blake3
