import PrecompiledHeaders.Text.Hex
import PrecompiledHeaders.Text.Utf8
/-! The BLAKE3 digest of a byte sequence, 256 bits, written as 64 lower-case hexadecimal digits.
Chunks of 1024 bytes are the leaves of a binary tree; nodes are kept unfinished until they are
known not to be the root, because the root is finished with a flag of its own. -/
namespace PrecompiledHeaders.Digest

abbrev Words8 := Vector UInt32 8
abbrev Words16 := Vector UInt32 16

def iv : Words8 :=
  #v[0x6A09E667, 0xBB67AE85, 0x3C6EF372, 0xA54FF53A, 0x510E527F, 0x9B05688C, 0x1F83D9AB,
    0x5BE0CD19]

def chunkStart : UInt32 := 1
def chunkEnd : UInt32 := 2
def parentNode : UInt32 := 4
def rootNode : UInt32 := 8

def rotateRight (word count : UInt32) : UInt32 := (word >>> count) ||| (word <<< (32 - count))

def mix (v : Words16) (a b c d : Fin 16) (x y : UInt32) : Words16 :=
  let va := v[a] + v[b] + x
  let vd := rotateRight (v[d] ^^^ va) 16
  let vc := v[c] + vd
  let vb := rotateRight (v[b] ^^^ vc) 12
  let va := va + vb + y
  let vd := rotateRight (vd ^^^ va) 8
  let vc := vc + vd
  let vb := rotateRight (vb ^^^ vc) 7
  (((v.set a va).set b vb).set c vc).set d vd

def round (v m : Words16) : Words16 :=
  let v := mix v 0 4 8 12 m[0] m[1]
  let v := mix v 1 5 9 13 m[2] m[3]
  let v := mix v 2 6 10 14 m[4] m[5]
  let v := mix v 3 7 11 15 m[6] m[7]
  let v := mix v 0 5 10 15 m[8] m[9]
  let v := mix v 1 6 11 12 m[10] m[11]
  let v := mix v 2 7 8 13 m[12] m[13]
  mix v 3 4 9 14 m[14] m[15]

/-- The message words in the order of the next round. -/
def permute (m : Words16) : Words16 :=
  #v[m[2], m[6], m[3], m[10], m[7], m[0], m[4], m[13], m[1], m[11], m[12], m[5], m[9], m[14],
    m[15], m[8]]

def rounds : Nat → Words16 → Words16 → Words16
  | 0, v, _ => v
  | n + 1, v, m => rounds n (round v m) (permute m)

/-- A node of the tree before it is finished: all inputs of its last compression. -/
structure Node where
  chaining : Words8
  block : Words16
  counter : UInt64
  length : UInt32
  flags : UInt32

def Node.compress (n : Node) (extra : UInt32) : Words8 :=
  let h := n.chaining
  let v := rounds 7
    #v[h[0], h[1], h[2], h[3], h[4], h[5], h[6], h[7], iv[0], iv[1], iv[2], iv[3],
      n.counter.toUInt32, (n.counter >>> 32).toUInt32, n.length, n.flags ||| extra] n.block
  #v[v[0] ^^^ v[8], v[1] ^^^ v[9], v[2] ^^^ v[10], v[3] ^^^ v[11], v[4] ^^^ v[12],
    v[5] ^^^ v[13], v[6] ^^^ v[14], v[7] ^^^ v[15]]

def byteAt (bytes : Array UInt8) (i : Nat) : UInt32 := (bytes.getD i 0).toUInt32

/-- Sixteen little-endian words from `start` on; bytes beyond the end count as zero. -/
def blockWords (bytes : Array UInt8) (start : Nat) : Words16 :=
  Vector.ofFn fun i : Fin 16 =>
    let pos := start + 4 * i.val
    byteAt bytes pos ||| (byteAt bytes (pos + 1) <<< 8) ||| (byteAt bytes (pos + 2) <<< 16)
      ||| (byteAt bytes (pos + 3) <<< 24)

/-- The blocks of one chunk from `start` on, the last of them left unfinished. -/
def chunkFrom (bytes : Array UInt8) (counter : UInt64) (stop : Nat) :
    Nat → Nat → Words8 → UInt32 → Node
  | 0, start, chaining, flags =>
    ⟨chaining, blockWords (bytes.extract start stop) 0, counter, (stop - start).toUInt32,
      flags ||| chunkEnd⟩
  | blocks + 1, start, chaining, flags =>
    let node : Node := ⟨chaining, blockWords bytes start, counter, 64, flags⟩
    chunkFrom bytes counter stop blocks (start + 64) (node.compress 0) 0

def chunk (bytes : Array UInt8) (index : Nat) : Node :=
  let start := 1024 * index
  let stop := min bytes.size (start + 1024)
  chunkFrom bytes index.toUInt64 stop ((stop - start - 1) / 64) start iv chunkStart

def parent (left right : Node) : Node :=
  let l := left.compress 0
  let r := right.compress 0
  ⟨iv, #v[l[0], l[1], l[2], l[3], l[4], l[5], l[6], l[7],
    r[0], r[1], r[2], r[3], r[4], r[5], r[6], r[7]], 0, 64, parentNode⟩

/-- One level up: neighbours are joined, and a last node without neighbour stays. -/
def joinPairs : List Node → List Node
  | left :: right :: rest => parent left right :: joinPairs rest
  | nodes => nodes

def joinAll : Nat → List Node → List Node
  | 0, nodes => nodes
  | fuel + 1, nodes => if nodes.length ≤ 1 then nodes else joinAll fuel (joinPairs nodes)

def rootWords (bytes : List UInt8) : Words8 :=
  let data := bytes.toArray
  let leaves := (List.range (max 1 ((data.size + 1023) / 1024))).map (chunk data)
  match joinAll leaves.length leaves with
  | root :: _ => root.compress rootNode
  | [] => iv

def wordBytes (w : UInt32) : List UInt8 :=
  [w.toUInt8, (w >>> 8).toUInt8, (w >>> 16).toUInt8, (w >>> 24).toUInt8]

end Digest

/-- The digest of `bytes`. -/
def digest (bytes : List UInt8) : String :=
  String.ofList (((Digest.rootWords bytes).toList.flatMap Digest.wordBytes).flatMap Text.hexByte)

/-- The digest of a text's UTF-8 form. -/
def digestText (s : String) : String := digest (Text.Utf8.encode s)

end PrecompiledHeaders
