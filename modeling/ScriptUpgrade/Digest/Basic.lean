/-
# Digests of contents

The digest of a sequence of bytes is the start of its BLAKE3 hash, sixteen hexadecimal digits. The
bytes are cut into chunks of 1024 bytes, the chunks are chained block by block, and they are the
leaves of a binary tree whose left subtrees hold a power of two of chunks, as many as leave at least
one byte to the right.
-/

import ScriptUpgrade.Digest.Compression
import ScriptUpgrade.Text.Basic

namespace ScriptUpgrade
namespace Digest

/-- A sequence of bytes. -/
abbrev Bytes := List UInt8

/-- The flag of the first block of a chunk. -/
def chunkStart : UInt32 := 1

/-- The flag of the last block of a chunk. -/
def chunkEnd : UInt32 := 2

/-- The flag of a node with two subtrees. -/
def parent : UInt32 := 4

/-- The flag of the root. -/
def root : UInt32 := 8

/-- The number that four bytes make up, the lowest first; missing bytes are zero. -/
def littleEndian (bytes : Bytes) : UInt32 :=
  bytes.foldr (fun byte value => byte.toUInt32 ||| (value <<< 8)) 0

/-- The sixteen words of a block of up to 64 bytes. -/
def blockWords (bytes : Bytes) : Words :=
  ((List.range 16).map fun i => littleEndian ((bytes.drop (4 * i)).take 4)).toArray

/-- The last node of a chunk that continues with `bytes` after the chaining value `chain`. -/
def chunkFrom (counter : Nat) (chain : Words) (flags : UInt32) (bytes : Bytes) : Node :=
  if 64 < bytes.length then
    let block : Node := ⟨chain, blockWords (bytes.take 64), counter, 64, flags⟩
    chunkFrom counter (block.compress 0) 0 (bytes.drop 64)
  else ⟨chain, blockWords bytes, counter, bytes.length, flags ||| chunkEnd⟩
termination_by bytes.length
decreasing_by
  rw [List.length_drop]
  omega

/-- The size of the left subtree of more than 1024 bytes: the largest power of two of chunks that
leaves at least one byte to the right. -/
def leftSize (size : Nat) : Nat :=
  1024 <<< ((size - 1) / 1024).log2

/-- The left subtree is not empty and is not everything. -/
theorem leftSize_bounds {size : Nat} (h : 1024 < size) : 0 < leftSize size ∧ leftSize size < size := by
  have hne : (size - 1) / 1024 ≠ 0 := by
    have := Nat.div_le_div_right (c := 1024) (show 1024 ≤ size - 1 by omega)
    omega
  have hpow := Nat.log2_self_le hne
  have hpos := Nat.two_pow_pos ((size - 1) / 1024).log2
  have hmul := Nat.mul_div_le (size - 1) 1024
  unfold leftSize
  rw [Nat.shiftLeft_eq]
  constructor
  · omega
  · have := Nat.mul_le_mul_left 1024 hpow
    omega

/-- The top node of the tree over some bytes whose first chunk has the given number. -/
def tree (counter : Nat) (bytes : Bytes) : Node :=
  if h : 1024 < bytes.length then
    let size := leftSize bytes.length
    let left := (tree counter (bytes.take size)).compress 0
    let right := (tree (counter + size / 1024) (bytes.drop size)).compress 0
    ⟨initial, left ++ right, 0, 64, parent⟩
  else chunkFrom counter initial chunkStart bytes
termination_by bytes.length
decreasing_by
  · have := leftSize_bounds h
    rw [List.length_take]
    omega
  · have := leftSize_bounds h
    rw [List.length_drop]
    omega

/-- The two hexadecimal digits of a byte. -/
def hexByte (byte : UInt8) : Text :=
  let digits := "0123456789abcdef".toList
  [digits.getD (byte.toNat / 16) '0', digits.getD (byte.toNat % 16) '0']

/-- The bytes of a word, the lowest first. -/
def bytesOf (x : UInt32) : Bytes :=
  [x.toUInt8, (x >>> 8).toUInt8, (x >>> 16).toUInt8, (x >>> 24).toUInt8]

/-- The digest of some bytes: the first eight bytes of their hash. -/
def ofBytes (bytes : Bytes) : Text :=
  let hash := (tree 0 bytes).compress root
  (bytesOf (word hash 0) ++ bytesOf (word hash 1)).flatMap hexByte

end Digest
end ScriptUpgrade
