/-
# The compression function of BLAKE3

A chaining value of eight words and a block of sixteen words are mixed in seven rounds. Every round
applies the quarter mix `quarter` to the columns and then to the diagonals of a state of four by four
words, and the words of the block are permuted between rounds.
-/

namespace ScriptUpgrade
namespace Digest

/-- Words of 32 bits, with arithmetic modulo 2³². -/
abbrev Words := Array UInt32

/-- The initial chaining value. -/
def initial : Words :=
  #[0x6A09E667, 0xBB67AE85, 0x3C6EF372, 0xA54FF53A, 0x510E527F, 0x9B05688C, 0x1F83D9AB, 0x5BE0CD19]

/-- The position from which each word of a block is taken between two rounds. -/
def permutation : List Nat :=
  [2, 6, 3, 10, 7, 0, 4, 13, 1, 11, 12, 5, 9, 14, 15, 8]

/-- The word at a position. -/
def word (words : Words) (i : Nat) : UInt32 :=
  words.getD i 0

/-- A word rotated to the right by `n` bits, `0 < n < 32`. -/
def rotate (x n : UInt32) : UInt32 :=
  (x >>> n) ||| (x <<< (32 - n))

/-- Mixes the words at four positions of the state with two words of the block. -/
def quarter (state : Words) (a b c d : Nat) (x y : UInt32) : Words :=
  let a₁ := word state a + word state b + x
  let d₁ := rotate (word state d ^^^ a₁) 16
  let c₁ := word state c + d₁
  let b₁ := rotate (word state b ^^^ c₁) 12
  let a₂ := a₁ + b₁ + y
  let d₂ := rotate (d₁ ^^^ a₂) 8
  let c₂ := c₁ + d₂
  let b₂ := rotate (b₁ ^^^ c₂) 7
  (((state.setIfInBounds a a₂).setIfInBounds b b₂).setIfInBounds c c₂).setIfInBounds d d₂

/-- The positions that a round mixes: the columns, then the diagonals. -/
def lanes : List (Nat × Nat × Nat × Nat) :=
  [(0, 4, 8, 12), (1, 5, 9, 13), (2, 6, 10, 14), (3, 7, 11, 15),
   (0, 5, 10, 15), (1, 6, 11, 12), (2, 7, 8, 13), (3, 4, 9, 14)]

/-- One round over the state with the words of a block. -/
def round (state block : Words) : Words :=
  lanes.zipIdx.foldl
    (fun state ((a, b, c, d), i) =>
      quarter state a b c d (word block (2 * i)) (word block (2 * i + 1)))
    state

/-- The words of a block for the next round. -/
def permute (block : Words) : Words :=
  (permutation.map (word block)).toArray

/-- `n` rounds over the state, the block permuted after each. -/
def rounds : Nat → Words → Words → Words
  | 0, state, _ => state
  | n + 1, state, block => rounds n (round state block) (permute block)

/-- A block ready to be compressed: the chaining value it is mixed with, its words, its counter, how
many bytes it holds, and the flags of its place in the tree. -/
structure Node where
  chain : Words
  block : Words
  counter : Nat
  size : Nat
  flags : UInt32

/-- The chaining value that a node yields, with further flags. -/
def Node.compress (node : Node) (flags : UInt32) : Words :=
  let state := node.chain ++ initial.extract 0 4 ++
    #[node.counter.toUInt32, (node.counter >>> 32).toUInt32, node.size.toUInt32, node.flags ||| flags]
  let mixed := rounds 7 state node.block
  ((List.range 8).map fun i => word mixed i ^^^ word mixed (i + 8)).toArray

end Digest
end ScriptUpgrade
