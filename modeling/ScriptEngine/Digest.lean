/-! # Source digests

The BLAKE3 hash of a text, 256 bits long. The input is cut into chunks of 1024 bytes; each chunk is a chain
of compressions over blocks of 64 bytes, and the chunks are the leaves of a binary tree whose inner nodes
compress the chaining values of their children. The last compression, at the root, is marked as such.
-/

namespace ScriptEngine.Digest

abbrev Word := UInt32

/-- The initial chaining value. -/
def initial : Vector Word 8 :=
  #v[0x6A09E667, 0xBB67AE85, 0x3C6EF372, 0xA54FF53A, 0x510E527F, 0x9B05688C, 0x1F83D9AB, 0x5BE0CD19]

def chunkStart : Word := 1
def chunkEnd : Word := 2
def parentNode : Word := 4
def root : Word := 8

def rotateRight (x : Word) (n : Word) : Word := (x >>> n) ||| (x <<< (32 - n))

/-- The quarter round: mixes two message words into four words of the state. -/
def mix (v : Vector Word 16) (a b c d : Fin 16) (x y : Word) : Vector Word 16 :=
  let va := v[a] + v[b] + x
  let vd := rotateRight (v[d] ^^^ va) 16
  let vc := v[c] + vd
  let vb := rotateRight (v[b] ^^^ vc) 12
  let va := va + vb + y
  let vd := rotateRight (vd ^^^ va) 8
  let vc := vc + vd
  let vb := rotateRight (vb ^^^ vc) 7
  (((v.set a va).set b vb).set c vc).set d vd

/-- One round: the columns of the state, then its diagonals. -/
def round (v m : Vector Word 16) : Vector Word 16 :=
  let v := mix v 0 4 8 12 m[0] m[1]
  let v := mix v 1 5 9 13 m[2] m[3]
  let v := mix v 2 6 10 14 m[4] m[5]
  let v := mix v 3 7 11 15 m[6] m[7]
  let v := mix v 0 5 10 15 m[8] m[9]
  let v := mix v 1 6 11 12 m[10] m[11]
  let v := mix v 2 7 8 13 m[12] m[13]
  mix v 3 4 9 14 m[14] m[15]

/-- The order of the message words in the next round. -/
def permute (m : Vector Word 16) : Vector Word 16 :=
  #v[m[2], m[6], m[3], m[10], m[7], m[0], m[4], m[13],
     m[1], m[11], m[12], m[5], m[9], m[14], m[15], m[8]]

def rounds : Nat → Vector Word 16 → Vector Word 16 → Vector Word 16
  | 0, v, _ => v
  | n + 1, v, m => rounds n (round v m) (permute m)

/-- A compression that has not been made yet: whether it is the root is known only at the end. -/
structure Node where
  chain : Vector Word 8
  block : Vector Word 16
  counter : Nat
  length : Word
  flags : Word

/-- The chaining value that a node yields under additional flags. -/
def Node.compress (n : Node) (extra : Word) : Vector Word 8 :=
  let low : Word := UInt32.ofNat n.counter
  let high : Word := UInt32.ofNat (n.counter / 4294967296)
  let start : Vector Word 16 :=
    (n.chain ++ #v[initial[0], initial[1], initial[2], initial[3], low, high, n.length,
      n.flags ||| extra])
  let v := rounds 7 start n.block
  Vector.ofFn fun i : Fin 8 => v[i.val] ^^^ v[i.val + 8]

/-- Sixteen little-endian words; missing bytes are zero. -/
def blockWords (bytes : List UInt8) : Vector Word 16 :=
  let padded := (bytes ++ List.replicate (64 - bytes.length) 0).toArray
  Vector.ofFn fun i : Fin 16 =>
    let byte (k : Nat) : Word := (padded.getD (4 * i.val + k) 0).toUInt32
    byte 0 ||| (byte 1 <<< 8) ||| (byte 2 <<< 16) ||| (byte 3 <<< 24)

/-- Pieces of a given positive size; `fuel` bounds their number. -/
def pieces (size : Nat) : Nat → List UInt8 → List (List UInt8)
  | 0, _ => []
  | fuel + 1, bytes =>
    if bytes.length ≤ size then [bytes]
    else bytes.take size :: pieces size fuel (bytes.drop size)

/-- The node of a chunk: every block but the last is compressed into the chaining value. -/
def chainBlocks (counter : Nat) (chain : Vector Word 8) (flags : Word) : List (List UInt8) → Node
  | [] => ⟨chain, blockWords [], counter, 0, flags ||| chunkEnd⟩
  | [last] =>
    ⟨chain, blockWords last, counter, UInt32.ofNat last.length, flags ||| chunkEnd⟩
  | block :: rest =>
    let node : Node := ⟨chain, blockWords block, counter, 64, flags⟩
    chainBlocks counter (node.compress 0) 0 rest

def chunk (counter : Nat) (bytes : List UInt8) : Node :=
  chainBlocks counter initial chunkStart (pieces 64 17 bytes)

def parent (left right : Node) : Node :=
  ⟨initial, left.compress 0 ++ right.compress 0, 0, 64, parentNode⟩

/-- Joins neighbours; a last node without a neighbour passes up. -/
def joinLevel : List Node → List Node
  | left :: right :: rest => parent left right :: joinLevel rest
  | rest => rest

/-- Joins levels until one node is left. Pairing neighbours makes every left subtree a full one of the
largest size that leaves something for the right. -/
def joinAll : Nat → List Node → List Node
  | 0, nodes => nodes
  | _, [] => []
  | _, [node] => [node]
  | fuel + 1, nodes => joinAll fuel (joinLevel nodes)

/-- The 32 bytes of the digest of a byte sequence. -/
def ofBytes (bytes : List UInt8) : List UInt8 :=
  let count := bytes.length / 1024 + 1
  let leaves := (pieces 1024 count bytes).mapIdx chunk
  match joinAll count leaves with
  | node :: _ =>
    (node.compress root).toList.flatMap fun w : Word =>
      [w.toUInt8, (w >>> 8).toUInt8, (w >>> 16).toUInt8, (w >>> 24).toUInt8]
  | [] => []

end ScriptEngine.Digest

namespace ScriptEngine

/-- A 256-bit digest. -/
structure SourceDigest where
  bytes : List UInt8
deriving DecidableEq, Repr

/-- The digest of a text in UTF-8. -/
def SourceDigest.of (source : String) : SourceDigest := ⟨Digest.ofBytes source.toUTF8.toList⟩

/-- The digest of a program that was not read from a text. -/
def SourceDigest.zero : SourceDigest := ⟨List.replicate 32 0⟩

/-- Two lower-case hexadecimal digits for each byte. -/
def SourceDigest.hex (d : SourceDigest) : String :=
  String.ofList (d.bytes.flatMap fun b =>
    [Nat.digitChar (b.toNat / 16), Nat.digitChar (b.toNat % 16)])

end ScriptEngine
