/-!
# The BLAKE3 digest

BLAKE3 cuts its input into chunks of 1024 bytes and these into blocks of 64 bytes.  The blocks of a
chunk are compressed one after the other; the chunks are the leaves of a binary tree whose left parts
hold as many chunks as the greatest power of two allows.  The digest is the compression of the root.
-/

namespace LiveSchema
namespace Blake3

/-- Eight words: what a part of the tree is condensed to. -/
abbrev ChainingValue := Vector UInt32 8

/-- Sixteen words: a block of input, or the state of a compression. -/
abbrev Block := Vector UInt32 16

/-- The initial chaining value. -/
def initialValue : ChainingValue :=
  #v[0x6A09E667, 0xBB67AE85, 0x3C6EF372, 0xA54FF53A, 0x510E527F, 0x9B05688C, 0x1F83D9AB, 0x5BE0CD19]

/-- The order in which a round takes the words of the block of the round before. -/
def permutation : Vector (Fin 16) 16 :=
  #v[2, 6, 3, 10, 7, 0, 4, 13, 1, 11, 12, 5, 9, 14, 15, 8]

def chunkStart : UInt32 := 1

def chunkEnd : UInt32 := 2

def parentNode : UInt32 := 4

def rootNode : UInt32 := 8

/-- A word turned to the right. -/
def rotate (word : UInt32) (places : UInt32) : UInt32 :=
  (word >>> places) ||| (word <<< (32 - places))

/-! ## Compression -/

/-- Mixes two words of the block into four words of the state. -/
def mix (state : Block) (a b c d : Fin 16) (x y : UInt32) : Block :=
  let va := state[a] + state[b] + x
  let vd := rotate (state[d] ^^^ va) 16
  let vc := state[c] + vd
  let vb := rotate (state[b] ^^^ vc) 12
  let va := va + vb + y
  let vd := rotate (vd ^^^ va) 8
  let vc := vc + vd
  let vb := rotate (vb ^^^ vc) 7
  (((state.set a va).set b vb).set c vc).set d vd

/-- Mixes the whole block into the columns and then the diagonals of the state. -/
def round (state block : Block) : Block :=
  let state := mix state 0 4 8 12 block[0] block[1]
  let state := mix state 1 5 9 13 block[2] block[3]
  let state := mix state 2 6 10 14 block[4] block[5]
  let state := mix state 3 7 11 15 block[6] block[7]
  let state := mix state 0 5 10 15 block[8] block[9]
  let state := mix state 1 6 11 12 block[10] block[11]
  let state := mix state 2 7 8 13 block[12] block[13]
  mix state 3 4 9 14 block[14] block[15]

/-- The block in the order of the next round. -/
def permute (block : Block) : Block :=
  permutation.map fun index => block[index]

/-- The given number of rounds. -/
def rounds : Nat → Block → Block → Block
  | 0, state, _ => state
  | count + 1, state, block => rounds count (round state block) (permute block)

/-- A node of the tree before its compression. -/
structure Node where
  value : ChainingValue
  block : Block
  counter : UInt64
  length : UInt32
  flags : UInt32

namespace Node

/-- The chaining value of a node. -/
def compress (node : Node) : ChainingValue :=
  let v := node.value
  let state : Block :=
    #v[v[0], v[1], v[2], v[3], v[4], v[5], v[6], v[7],
      initialValue[0], initialValue[1], initialValue[2], initialValue[3],
      node.counter.toUInt32, (node.counter >>> 32).toUInt32, node.length, node.flags]
  let state := rounds 7 state node.block
  Vector.ofFn fun (i : Fin 8) => state[i.val] ^^^ state[i.val + 8]

end Node

/-! ## Chunks -/

/-- The word of four bytes, the least significant first. -/
def wordOf (bytes : List UInt8) : UInt32 :=
  bytes.foldr (fun byte word => (word <<< 8) ||| byte.toUInt32) 0

/-- The block of up to 64 bytes, filled up with zeros. -/
def blockOf (bytes : List UInt8) : Block :=
  let padded := bytes ++ List.replicate (64 - bytes.length) 0
  Vector.ofFn fun (i : Fin 16) => wordOf ((padded.drop (4 * i.val)).take 4)

/-- The last node of a chunk, the blocks before it compressed into `value`. -/
def chunkFrom (counter : UInt64) (value : ChainingValue) (start : UInt32) (bytes : List UInt8) :
    Node :=
  if bytes.length ≤ 64 then
    ⟨value, blockOf bytes, counter, UInt32.ofNat bytes.length, start ||| chunkEnd⟩
  else
    let block : Node := ⟨value, blockOf (bytes.take 64), counter, 64, start⟩
    chunkFrom counter block.compress 0 (bytes.drop 64)
termination_by bytes.length
decreasing_by
  simp only [List.length_drop]
  omega

/-- The last node of a chunk. -/
def chunk (counter : UInt64) (bytes : List UInt8) : Node :=
  chunkFrom counter initialValue chunkStart bytes

/-! ## The tree -/

/-- The parent of two parts of the tree. -/
def parent (left right : ChainingValue) : Node :=
  ⟨initialValue, left ++ right, 0, 64, parentNode⟩

/-- How many bytes the left part of a tree over more than one chunk holds. -/
def leftLength (length : Nat) : Nat :=
  1024 * Nat.pow 2 ((length - 1) / 1024).log2

theorem leftLength_lt {length : Nat} (h : 1024 < length) : leftLength length < length := by
  have positive : (length - 1) / 1024 ≠ 0 := by omega
  have bound := Nat.log2_self_le positive
  simp only [leftLength, Nat.pow_eq]
  omega

theorem leftLength_pos (length : Nat) : 0 < leftLength length := by
  simp only [leftLength, Nat.pow_eq]
  have := Nat.two_pow_pos ((length - 1) / 1024).log2
  omega

/-- The root of the tree over some bytes, which start with the chunk of number `counter`. -/
def tree (counter : Nat) (bytes : List UInt8) : Node :=
  if small : bytes.length ≤ 1024 then chunk (UInt64.ofNat counter) bytes
  else
    let left := leftLength bytes.length
    have := leftLength_lt (Nat.lt_of_not_le small)
    have := leftLength_pos bytes.length
    parent (tree counter (bytes.take left)).compress
      (tree (counter + left / 1024) (bytes.drop left)).compress
termination_by bytes.length
decreasing_by
  · simp only [List.length_take]
    omega
  · simp only [List.length_drop]
    omega

/-! ## The digest -/

/-- The two hexadecimal digits of a byte. -/
def byteHex (byte : Nat) : List Char :=
  [Nat.digitChar (byte / 16), Nat.digitChar (byte % 16)]

/-- The bytes of a word in hexadecimal digits, the least significant byte first. -/
def wordHex (word : UInt32) : List Char :=
  (List.range 4).flatMap fun place => byteHex (word.toNat / Nat.pow 256 place % 256)

/-- The digest of some bytes, as 64 hexadecimal digits. -/
def digest (bytes : List UInt8) : String :=
  let root := tree 0 bytes
  let value := { root with flags := root.flags ||| rootNode }.compress
  String.ofList (value.toList.flatMap wordHex)

/-- The digest of a text. -/
def digestText (text : String) : String :=
  digest text.toUTF8.toList

end Blake3
end LiveSchema
