import PrecompiledHeaders.Json.Writer
import PrecompiledHeaders.Digest
/-! Digests of given texts. The kernel is slow on vectors of machine words, so the digest of a single
chunk is restated here on natural numbers, which the kernel has arithmetic for, and both are proved
equal. -/
namespace PrecompiledHeaders
namespace Digest

/-! ### Words as natural numbers -/

structure Four where
  (a b c d : Nat)

structure Eight where
  (x0 x1 x2 x3 x4 x5 x6 x7 : Nat)

structure Sixteen where
  (x0 x1 x2 x3 x4 x5 x6 x7 x8 x9 x10 x11 x12 x13 x14 x15 : Nat)

/-- `k n`, for which `n` is evaluated first: a number that is used often is to be computed once. -/
def forced {α : Type} (n : Nat) (k : Nat → α) : α :=
  match n with
  | .zero => k .zero
  | .succ m => k m.succ

theorem forced_eq {α : Type} (n : Nat) (k : Nat → α) : forced n k = k n := by
  cases n <;> rfl

def Eight.forced {α : Type} (v : Eight) (k : Eight → α) : α :=
  Digest.forced v.x0 fun x0 => Digest.forced v.x1 fun x1 =>
  Digest.forced v.x2 fun x2 => Digest.forced v.x3 fun x3 =>
  Digest.forced v.x4 fun x4 => Digest.forced v.x5 fun x5 =>
  Digest.forced v.x6 fun x6 => Digest.forced v.x7 fun x7 => k ⟨x0, x1, x2, x3, x4, x5, x6, x7⟩

theorem Eight.forced_eq {α : Type} (v : Eight) (k : Eight → α) : v.forced k = k v := by
  simp only [forced, Digest.forced_eq]

def Sixteen.forced {α : Type} (v : Sixteen) (k : Sixteen → α) : α :=
  Eight.forced ⟨v.x0, v.x1, v.x2, v.x3, v.x4, v.x5, v.x6, v.x7⟩ fun l =>
  Eight.forced ⟨v.x8, v.x9, v.x10, v.x11, v.x12, v.x13, v.x14, v.x15⟩ fun r =>
    k ⟨l.x0, l.x1, l.x2, l.x3, l.x4, l.x5, l.x6, l.x7,
      r.x0, r.x1, r.x2, r.x3, r.x4, r.x5, r.x6, r.x7⟩

theorem Sixteen.forced_eq {α : Type} (v : Sixteen) (k : Sixteen → α) : v.forced k = k v := by
  simp only [forced, Eight.forced_eq]

def addNat (a b : Nat) : Nat := (a + b) % 4294967296

def rotateNat (w n : Nat) : Nat := (w >>> n) ||| ((w <<< (32 - n)) % 4294967296)

theorem toNat_add (a b : UInt32) : (a + b).toNat = addNat a.toNat b.toNat := by
  rw [UInt32.toNat_add, addNat]

theorem toNat_rotateRight (w : UInt32) :
    (rotateRight w 16).toNat = rotateNat w.toNat 16 ∧
    (rotateRight w 12).toNat = rotateNat w.toNat 12 ∧
    (rotateRight w 8).toNat = rotateNat w.toNat 8 ∧
    (rotateRight w 7).toNat = rotateNat w.toNat 7 := by
  simp [rotateRight, rotateNat, UInt32.toNat_or, UInt32.toNat_shiftLeft, UInt32.toNat_shiftRight]

/-! ### Rounds -/

def mixNat (a b c d x y : Nat) : Four :=
  let a := addNat (addNat a b) x
  let d := rotateNat (d ^^^ a) 16
  let c := addNat c d
  let b := rotateNat (b ^^^ c) 12
  let a := addNat (addNat a b) y
  let d := rotateNat (d ^^^ a) 8
  let c := addNat c d
  let b := rotateNat (b ^^^ c) 7
  ⟨a, b, c, d⟩

def roundNat (v m : Sixteen) : Sixteen :=
  let p := mixNat v.x0 v.x4 v.x8 v.x12 m.x0 m.x1
  let q := mixNat v.x1 v.x5 v.x9 v.x13 m.x2 m.x3
  let r := mixNat v.x2 v.x6 v.x10 v.x14 m.x4 m.x5
  let s := mixNat v.x3 v.x7 v.x11 v.x15 m.x6 m.x7
  let t := mixNat p.a q.b r.c s.d m.x8 m.x9
  let u := mixNat q.a r.b s.c p.d m.x10 m.x11
  let w := mixNat r.a s.b p.c q.d m.x12 m.x13
  let z := mixNat s.a p.b q.c r.d m.x14 m.x15
  ⟨t.a, u.a, w.a, z.a, z.b, t.b, u.b, w.b, w.c, z.c, t.c, u.c, u.d, w.d, z.d, t.d⟩

def permuteNat (m : Sixteen) : Sixteen :=
  ⟨m.x2, m.x6, m.x3, m.x10, m.x7, m.x0, m.x4, m.x13, m.x1, m.x11, m.x12, m.x5, m.x9, m.x14,
    m.x15, m.x8⟩

def roundsNat : Nat → Sixteen → Sixteen → Sixteen
  | 0, v, _ => v
  | n + 1, v, m => roundsNat n (roundNat v m) (permuteNat m)

def ofWords (v : Words16) : Sixteen :=
  match v.toList with
  | [x0, x1, x2, x3, x4, x5, x6, x7, x8, x9, x10, x11, x12, x13, x14, x15] =>
    ⟨x0.toNat, x1.toNat, x2.toNat, x3.toNat, x4.toNat, x5.toNat, x6.toNat, x7.toNat, x8.toNat,
      x9.toNat, x10.toNat, x11.toNat, x12.toNat, x13.toNat, x14.toNat, x15.toNat⟩
  | _ => ⟨0, 0, 0, 0, 0, 0, 0, 0, 0, 0, 0, 0, 0, 0, 0, 0⟩

def wordAt (v : Words16) (i : Fin 16) : Nat := (v.get i).toNat

theorem ofWords_eq (v : Words16) : ofWords v =
    ⟨wordAt v 0, wordAt v 1, wordAt v 2, wordAt v 3, wordAt v 4, wordAt v 5, wordAt v 6, wordAt v 7,
      wordAt v 8, wordAt v 9, wordAt v 10, wordAt v 11, wordAt v 12, wordAt v 13, wordAt v 14,
      wordAt v 15⟩ := by
  obtain ⟨⟨l⟩, hl⟩ := v
  match l, hl with
  | [_, _, _, _, _, _, _, _, _, _, _, _, _, _, _, _], _ => rfl

section

variable (v m : Words16) (x y : UInt32)

theorem wordAt_mix (a b c d i : Fin 16) : wordAt (mix v a b c d x y) i =
    let q := mixNat (wordAt v a) (wordAt v b) (wordAt v c) (wordAt v d) x.toNat y.toNat
    if d = i then q.d else if c = i then q.c else if b = i then q.b else if a = i then q.a
    else wordAt v i := by
  have hget : ∀ (w : Words16) (i : Fin 16), wordAt w i = w[i].toNat := fun _ _ => rfl
  simp only [hget, mix, mixNat, Fin.getElem_fin, Vector.getElem_set,
    Fin.val_inj, apply_ite UInt32.toNat, toNat_rotateRight, toNat_add, UInt32.toNat_xor]

/-! One lemma for each of the four columns, then one for each of the four diagonals. -/

theorem ofWords_column0 : ofWords (mix v 0 4 8 12 x y) =
    let w := ofWords v
    let q := mixNat w.x0 w.x4 w.x8 w.x12 x.toNat y.toNat
    { w with x0 := q.a, x4 := q.b, x8 := q.c, x12 := q.d } := by
  simp [ofWords_eq, wordAt_mix]

theorem ofWords_column1 : ofWords (mix v 1 5 9 13 x y) =
    let w := ofWords v
    let q := mixNat w.x1 w.x5 w.x9 w.x13 x.toNat y.toNat
    { w with x1 := q.a, x5 := q.b, x9 := q.c, x13 := q.d } := by
  simp [ofWords_eq, wordAt_mix]

theorem ofWords_column2 : ofWords (mix v 2 6 10 14 x y) =
    let w := ofWords v
    let q := mixNat w.x2 w.x6 w.x10 w.x14 x.toNat y.toNat
    { w with x2 := q.a, x6 := q.b, x10 := q.c, x14 := q.d } := by
  simp [ofWords_eq, wordAt_mix]

theorem ofWords_column3 : ofWords (mix v 3 7 11 15 x y) =
    let w := ofWords v
    let q := mixNat w.x3 w.x7 w.x11 w.x15 x.toNat y.toNat
    { w with x3 := q.a, x7 := q.b, x11 := q.c, x15 := q.d } := by
  simp [ofWords_eq, wordAt_mix]

theorem ofWords_diagonal0 : ofWords (mix v 0 5 10 15 x y) =
    let w := ofWords v
    let q := mixNat w.x0 w.x5 w.x10 w.x15 x.toNat y.toNat
    { w with x0 := q.a, x5 := q.b, x10 := q.c, x15 := q.d } := by
  simp [ofWords_eq, wordAt_mix]

theorem ofWords_diagonal1 : ofWords (mix v 1 6 11 12 x y) =
    let w := ofWords v
    let q := mixNat w.x1 w.x6 w.x11 w.x12 x.toNat y.toNat
    { w with x1 := q.a, x6 := q.b, x11 := q.c, x12 := q.d } := by
  simp [ofWords_eq, wordAt_mix]

theorem ofWords_diagonal2 : ofWords (mix v 2 7 8 13 x y) =
    let w := ofWords v
    let q := mixNat w.x2 w.x7 w.x8 w.x13 x.toNat y.toNat
    { w with x2 := q.a, x7 := q.b, x8 := q.c, x13 := q.d } := by
  simp [ofWords_eq, wordAt_mix]

theorem ofWords_diagonal3 : ofWords (mix v 3 4 9 14 x y) =
    let w := ofWords v
    let q := mixNat w.x3 w.x4 w.x9 w.x14 x.toNat y.toNat
    { w with x3 := q.a, x4 := q.b, x9 := q.c, x14 := q.d } := by
  simp [ofWords_eq, wordAt_mix]

theorem ofWords_round : ofWords (round v m) = roundNat (ofWords v) (ofWords m) := by
  simp only [round, ofWords_column0, ofWords_column1, ofWords_column2, ofWords_column3,
    ofWords_diagonal0, ofWords_diagonal1, ofWords_diagonal2, ofWords_diagonal3]
  rw [ofWords_eq m]
  rfl

theorem ofWords_rounds (n : Nat) : ofWords (rounds n v m) = roundsNat n (ofWords v) (ofWords m) := by
  induction n generalizing v m with
  | zero => rfl
  | succ n ih =>
    have hpermute : ofWords (permute m) = permuteNat (ofWords m) := by
      rw [ofWords_eq, ofWords_eq]
      rfl
    rw [rounds, ih, ofWords_round, hpermute, roundsNat]

end

/-! ### Blocks -/

/-- The bytes as one number, the first byte lowest, so that the words are parts of it. -/
def numberOf : List UInt8 → Nat
  | [] => 0
  | byte :: bytes => byte.toNat + 256 * numberOf bytes

def wordNat (n i : Nat) : Nat := (n >>> (32 * i)) % 4294967296

def blockNat (n : Nat) : Sixteen :=
  ⟨wordNat n 0, wordNat n 1, wordNat n 2, wordNat n 3, wordNat n 4, wordNat n 5, wordNat n 6,
    wordNat n 7, wordNat n 8, wordNat n 9, wordNat n 10, wordNat n 11, wordNat n 12, wordNat n 13,
    wordNat n 14, wordNat n 15⟩

/-- Bytes beyond the end count as zero. -/
def byteNat (bytes : List UInt8) (i : Nat) : Nat := (bytes.getD i 0).toNat

theorem byteNat_lt (bytes : List UInt8) (i : Nat) : byteNat bytes i < 256 := UInt8.toNat_lt _

theorem numberOf_drop (bytes : List UInt8) (i : Nat) :
    numberOf (bytes.drop i) = byteNat bytes i + 256 * numberOf (bytes.drop (i + 1)) := by
  by_cases h : i < bytes.length
  · rw [List.drop_eq_getElem_cons h, numberOf, byteNat, List.getD_eq_getElem?_getD,
      List.getElem?_eq_getElem h, Option.getD_some]
  · rw [List.drop_eq_nil_of_le (by omega), List.drop_eq_nil_of_le (by omega), byteNat,
      List.getD_eq_getElem?_getD, List.getElem?_eq_none (by omega)]
    rfl

theorem numberOf_shiftRight (bytes : List UInt8) (i : Nat) :
    numberOf bytes >>> (8 * i) = numberOf (bytes.drop i) := by
  induction i with
  | zero => simp
  | succ i ih =>
    have hlt := byteNat_lt bytes i
    rw [Nat.mul_succ, Nat.shiftRight_add, ih, numberOf_drop, Nat.shiftRight_eq_div_pow]
    omega

/-- A word is put together from its bytes. -/
theorem wordNat_numberOf (bytes : List UInt8) (i : Nat) : wordNat (numberOf bytes) i =
    byteNat bytes (4 * i) ||| (byteNat bytes (4 * i + 1) <<< 8) ||| (byteNat bytes (4 * i + 2) <<< 16)
      ||| (byteNat bytes (4 * i + 3) <<< 24) := by
  have h₀ : byteNat bytes (4 * i) < 2 ^ 8 := byteNat_lt bytes (4 * i)
  have h₁ := byteNat_lt bytes (4 * i + 1)
  have h₂ := byteNat_lt bytes (4 * i + 2)
  have h₃ := byteNat_lt bytes (4 * i + 3)
  have hor : ∀ {low high n : Nat}, low < 2 ^ n → low ||| high <<< n = low + 2 ^ n * high := by
    intro low high n hlt
    rw [Nat.or_comm, ← Nat.shiftLeft_add_eq_or_of_lt hlt, Nat.shiftLeft_eq, Nat.mul_comm, Nat.add_comm]
  have h₀₁ : byteNat bytes (4 * i) + 2 ^ 8 * byteNat bytes (4 * i + 1) < 2 ^ 16 := by omega
  have h₀₂ : byteNat bytes (4 * i) + 2 ^ 8 * byteNat bytes (4 * i + 1) +
      2 ^ 16 * byteNat bytes (4 * i + 2) < 2 ^ 24 := by omega
  rw [hor h₀, hor h₀₁, hor h₀₂, wordNat, show 32 * i = 8 * (4 * i) by omega, numberOf_shiftRight,
    numberOf_drop, numberOf_drop, numberOf_drop, numberOf_drop]
  simp only [Nat.add_assoc, Nat.reduceAdd]
  omega

theorem ofWords_blockWords (bytes : List UInt8) (start : Nat) :
    ofWords (blockWords bytes.toArray start) = blockNat (numberOf (bytes.drop start)) := by
  have hbyte : ∀ i, (byteAt bytes.toArray (start + i)).toNat = byteNat (bytes.drop start) i := by
    intro i
    simp [byteAt, byteNat, List.getD_eq_getElem?_getD]
  have hshift : ∀ i n, n ≤ 24 → byteNat (bytes.drop start) i <<< n % 4294967296 =
      byteNat (bytes.drop start) i <<< n := by
    intro i n hn
    refine Nat.mod_eq_of_lt ?_
    have hlt := byteNat_lt (bytes.drop start) i
    rw [Nat.shiftLeft_eq]
    calc _ < 2 ^ 8 * 2 ^ n := Nat.mul_lt_mul_of_pos_right hlt (Nat.two_pow_pos n)
      _ = 2 ^ (8 + n) := (Nat.pow_add ..).symm
      _ ≤ 2 ^ 32 := Nat.pow_le_pow_right (by omega) (by omega)
  have hword : ∀ i : Fin 16, wordAt (blockWords bytes.toArray start) i =
      wordNat (numberOf (bytes.drop start)) i := by
    intro i
    have hget : ∀ w : Words16, wordAt w i = w[i].toNat := fun _ => rfl
    simp [hget, blockWords, Nat.add_assoc, hbyte, wordNat_numberOf, hshift]
  simp only [ofWords_eq, hword]
  rfl

def ofEight (h : Words8) : Eight :=
  match h.toList with
  | [x0, x1, x2, x3, x4, x5, x6, x7] =>
    ⟨x0.toNat, x1.toNat, x2.toNat, x3.toNat, x4.toNat, x5.toNat, x6.toNat, x7.toNat⟩
  | _ => ⟨0, 0, 0, 0, 0, 0, 0, 0⟩

theorem ofEight_eq (h : Words8) : ofEight h =
    ⟨(h.get 0).toNat, (h.get 1).toNat, (h.get 2).toNat, (h.get 3).toNat, (h.get 4).toNat,
      (h.get 5).toNat, (h.get 6).toNat, (h.get 7).toNat⟩ := by
  obtain ⟨⟨l⟩, hl⟩ := h
  match l, hl with
  | [_, _, _, _, _, _, _, _], _ => rfl

theorem toList_eq (w : Words8) : w.toList = [.ofNat (ofEight w).x0, .ofNat (ofEight w).x1,
    .ofNat (ofEight w).x2, .ofNat (ofEight w).x3, .ofNat (ofEight w).x4, .ofNat (ofEight w).x5,
    .ofNat (ofEight w).x6, .ofNat (ofEight w).x7] := by
  simp only [ofEight_eq, UInt32.ofNat_toNat]
  obtain ⟨⟨l⟩, hl⟩ := w
  match l, hl with
  | [_, _, _, _, _, _, _, _], _ => rfl

/-- The words that the compression of a block of the first chunk starts from. -/
def startNat (h : Eight) (length flags : Nat) : Sixteen :=
  ⟨h.x0, h.x1, h.x2, h.x3, h.x4, h.x5, h.x6, h.x7, 0x6A09E667, 0xBB67AE85, 0x3C6EF372, 0xA54FF53A,
    0, 0, length, flags⟩

/-- Both halves of the words in one. -/
def halves (v : Sixteen) : Eight :=
  ⟨v.x0 ^^^ v.x8, v.x1 ^^^ v.x9, v.x2 ^^^ v.x10, v.x3 ^^^ v.x11, v.x4 ^^^ v.x12, v.x5 ^^^ v.x13,
    v.x6 ^^^ v.x14, v.x7 ^^^ v.x15⟩

def compressNat (h : Eight) (block : Sixteen) (length flags : Nat) : Eight :=
  (startNat h length flags).forced fun v => block.forced fun m => halves (roundsNat 7 v m)

theorem ofEight_compress (h : Words8) (block : Words16) (length flags extra : UInt32) :
    ofEight ((Node.mk h block 0 length flags).compress extra) =
      compressNat (ofEight h) (ofWords block) length.toNat (flags ||| extra).toNat := by
  have hstart : startNat (ofEight h) length.toNat (flags ||| extra).toNat =
      ofWords #v[h[0], h[1], h[2], h[3], h[4], h[5], h[6], h[7], iv[0], iv[1], iv[2], iv[3],
        (0 : UInt64).toUInt32, ((0 : UInt64) >>> 32).toUInt32, length, flags ||| extra] := by
    rw [ofEight_eq]
    rfl
  have hhalves : ∀ v : Words16, ofEight #v[v[0] ^^^ v[8], v[1] ^^^ v[9], v[2] ^^^ v[10],
      v[3] ^^^ v[11], v[4] ^^^ v[12], v[5] ^^^ v[13], v[6] ^^^ v[14], v[7] ^^^ v[15]] =
        halves (ofWords v) := by
    intro v
    rw [ofEight_eq, ofWords_eq]
    rfl
  rw [compressNat, Sixteen.forced_eq, Sixteen.forced_eq, hstart, ← ofWords_rounds, ← hhalves]
  rfl

/-- What is left of a chunk that is the root itself: so many more blocks, the bytes as a number, and how
many there are. -/
def chunkNat : Nat → Nat → Nat → Eight → Nat → Eight
  | 0, n, length, h, flags => compressNat h (blockNat n) length (flags ||| 10)
  | blocks + 1, n, length, h, flags =>
    (compressNat h (blockNat n) 64 flags).forced fun h =>
      forced (n >>> 512) fun n => chunkNat blocks n (length - 64) h 0

theorem ofEight_chunk {bytes : List UInt8} (hlength : bytes.length ≤ 1024) (blocks start : Nat)
    (h : Words8) (flags : UInt32) :
    ofEight ((chunkFrom bytes.toArray 0 bytes.length blocks start h flags).compress rootNode) =
      chunkNat blocks (numberOf (bytes.drop start)) (bytes.length - start) (ofEight h) flags.toNat := by
  induction blocks generalizing start h flags with
  | zero =>
    have hextract : bytes.toArray.extract start bytes.length = (bytes.drop start).toArray := by
      rw [List.extract_toArray, List.extract_eq_take_drop, List.take_of_length_le (by simp)]
    have hflags : (flags ||| chunkEnd ||| rootNode).toNat = flags.toNat ||| 10 := by
      rw [UInt32.toNat_or, UInt32.toNat_or, Nat.or_assoc]
      rfl
    have hrest : (bytes.length - start).toUInt32.toNat = bytes.length - start :=
      Nat.mod_eq_of_lt (by omega)
    rw [chunkFrom, chunkNat, ofEight_compress, hextract, ofWords_blockWords, List.drop_zero, hflags,
      hrest]
  | succ blocks ih =>
    have hrest : numberOf (bytes.drop start) >>> 512 = numberOf (bytes.drop (start + 64)) := by
      rw [← List.drop_drop]
      exact numberOf_shiftRight _ 64
    rw [chunkFrom, chunkNat, Eight.forced_eq, forced_eq, ih, ofEight_compress, ofWords_blockWords, hrest,
      Nat.sub_sub]
    simp

end Digest

/-- `digest`, by arithmetic on natural numbers if there is only one chunk. -/
def digestNat (bytes : List UInt8) : String :=
  if bytes.length ≤ 1024 then
    let h := Digest.forced (Digest.numberOf bytes) fun n =>
      Digest.chunkNat ((bytes.length - 1) / 64) n bytes.length (Digest.ofEight Digest.iv) 1
    String.ofList (([h.x0, h.x1, h.x2, h.x3, h.x4, h.x5, h.x6, h.x7].flatMap fun n =>
      Digest.wordBytes (.ofNat n)).flatMap Text.hexByte)
  else digest bytes

open Digest in
theorem digest_eq_digestNat (bytes : List UInt8) : digest bytes = digestNat bytes := by
  by_cases h : bytes.length ≤ 1024
  · have hleaves : max 1 ((bytes.length + 1023) / 1024) = 1 := by omega
    have hstop : min bytes.length (0 + 1024) = bytes.length := by omega
    have hchunk : chunk bytes.toArray 0 =
        chunkFrom bytes.toArray 0 bytes.length ((bytes.length - 1) / 64) 0 iv chunkStart := by
      simp only [chunk, List.size_toArray, Nat.mul_zero, hstop, Nat.sub_zero]
      rfl
    have hroot : rootWords bytes = (chunk bytes.toArray 0).compress rootNode := by
      simp only [rootWords, List.size_toArray, hleaves]
      rfl
    have hvalue := ofEight_chunk h ((bytes.length - 1) / 64) 0 iv chunkStart
    rw [List.drop_zero, Nat.sub_zero] at hvalue
    rw [digest, hroot, hchunk, toList_eq, hvalue, digestNat, if_pos h, forced_eq]
    rfl
  · rw [digestNat, if_neg h]

/-! ### Texts -/

theorem Text.Utf8.encode_injective : Function.Injective Text.Utf8.encode := by
  intro s t h
  have hdata : s.toUTF8.data = t.toUTF8.data := Array.toList_inj.mp h
  exact String.toByteArray_inj.mp (ByteArray.ext hdata)

theorem Text.Utf8.encode_ofList (cs : List Char) :
    encode (String.ofList cs) = cs.flatMap String.utf8EncodeChar := by
  rw [encode, String.toUTF8, String.toByteArray_ofList, List.utf8Encode, List.data_toByteArray,
    List.toList_toArray]

/-- The bytes of a text, character by character. -/
def utf8Of (cs : List Char) : List UInt8 := cs.flatMap String.utf8EncodeChar

theorem utf8Of_append (cs ds : List Char) : utf8Of (cs ++ ds) = utf8Of cs ++ utf8Of ds :=
  List.flatMap_append

theorem encode_eq_utf8Of (s : String) : Text.Utf8.encode s = utf8Of s.toList := by
  rw [← String.ofList_toList (s := s), Text.Utf8.encode_ofList, String.toList_ofList, utf8Of]

/-! The kernel is slow in taking a text apart into characters, so values are written byte by byte: what
has to be escaped is a single byte. -/

namespace Json

def escapeByte (b : UInt8) : List UInt8 :=
  if b < 128 then utf8Of (escapeChar (Char.ofNat b.toNat)) else [b]

theorem le_of_mem_utf8EncodeChar {c : Char} (hc : ¬ c.toNat ≤ 127) :
    ∀ b ∈ String.utf8EncodeChar c, ¬ b < 128 := by
  have hbyte : ∀ n, 128 ≤ n → n < 256 → ¬ UInt8.ofNat n < 128 := by
    intro n hle hlt
    rw [UInt8.lt_iff_toNat_lt, UInt8.toNat_ofNat_of_lt' hlt]
    exact Nat.not_lt.mpr hle
  intro b hb
  have hval : ¬ c.val.toNat ≤ 127 := hc
  rw [String.utf8EncodeChar.eq_1, if_neg hval] at hb
  split at hb
  · simp only [List.mem_cons, List.not_mem_nil, or_false] at hb
    rcases hb with rfl | rfl <;> exact hbyte _ (by omega) (by omega)
  · split at hb <;> simp only [List.mem_cons, List.not_mem_nil, or_false] at hb
    · rcases hb with rfl | rfl | rfl <;> exact hbyte _ (by omega) (by omega)
    · rcases hb with rfl | rfl | rfl | rfl <;> exact hbyte _ (by omega) (by omega)

theorem utf8Of_escapeChar (c : Char) :
    utf8Of (escapeChar c) = (String.utf8EncodeChar c).flatMap escapeByte := by
  by_cases hc : c.toNat ≤ 127
  · have hbyte : (UInt8.ofNat c.toNat).toNat = c.toNat :=
      UInt8.toNat_ofNat_of_lt' (Nat.lt_of_le_of_lt hc (by decide))
    have hlt : UInt8.ofNat c.toNat < 128 := by
      rw [UInt8.lt_iff_toNat_lt, hbyte]
      exact Nat.lt_succ_of_le hc
    have hone : String.utf8EncodeChar c = [UInt8.ofNat c.toNat] := by
      rw [String.utf8EncodeChar.eq_1]
      exact if_pos hc
    rw [hone, List.flatMap_singleton, escapeByte, if_pos hlt, hbyte, Char.ofNat_toNat]
  · have hplain : escapeChar c = [c] := by
      have hne : ∀ d : Char, d.toNat ≤ 127 → c ≠ d := fun d hd he => hc (he ▸ hd)
      rw [escapeChar, if_neg (hne _ (by decide)), if_neg (hne _ (by decide)), if_neg (hne _ (by decide)),
        if_neg (hne _ (by decide)), if_neg (hne _ (by decide)), if_neg (hne _ (by decide)),
        if_neg (hne _ (by decide)), if_neg (by omega)]
    have hkept : ∀ bs : List UInt8, (∀ b ∈ bs, ¬ b < 128) → bs.flatMap escapeByte = bs := by
      intro bs hbs
      induction bs with
      | nil => rfl
      | cons b bs ih =>
        rw [List.flatMap_cons, ih fun b hb => hbs b (List.mem_cons_of_mem _ hb), escapeByte,
          if_neg (hbs b List.mem_cons_self)]
        rfl
    rw [hplain, hkept _ (le_of_mem_utf8EncodeChar hc)]
    exact List.flatMap_singleton ..

def textBytes (s : String) : List UInt8 := 34 :: ((Text.Utf8.encode s).flatMap escapeByte ++ [34])

theorem utf8Of_writeText (s : String) : utf8Of (writeText s) = textBytes s := by
  have hescape : utf8Of (s.toList.flatMap escapeChar) = (utf8Of s.toList).flatMap escapeByte := by
    induction s.toList with
    | nil => rfl
    | cons c cs ih =>
      rw [List.flatMap_cons, utf8Of_append, ih, utf8Of_escapeChar, ← List.flatMap_append]
      rfl
  show utf8Of ('"' :: (_ ++ ['"'])) = _
  rw [textBytes, encode_eq_utf8Of, ← hescape]
  exact congrArg (34 :: ·) (utf8Of_append _ _)

mutual

/-- `write` in UTF-8. -/
def writeBytes : Json → List UInt8
  | .text s => textBytes s
  | .list (x :: xs) => 91 :: (writeBytes x ++ writeItemBytes xs)
  | .object ((name, x) :: fields) =>
    123 :: (textBytes name ++ 58 :: (writeBytes x ++ writeFieldBytes fields))
  | x => utf8Of (write x)

def writeItemBytes : List Json → List UInt8
  | [] => [93]
  | x :: xs => 44 :: (writeBytes x ++ writeItemBytes xs)

def writeFieldBytes : List (String × Json) → List UInt8
  | [] => [125]
  | (name, x) :: fields => 44 :: (textBytes name ++ 58 :: (writeBytes x ++ writeFieldBytes fields))

end

mutual

theorem utf8Of_write (x : Json) : utf8Of (write x) = writeBytes x := by
  match x with
  | .null | .bool _ | .int _ | .decimal _ | .broken | .list [] | .object [] => rfl
  | .text s => exact utf8Of_writeText s
  | .list (y :: ys) =>
    rw [writeBytes, ← utf8Of_write y, ← utf8Of_writeItems ys, ← utf8Of_append]
    rfl
  | .object ((name, y) :: fields) =>
    rw [writeBytes, ← utf8Of_writeText, ← utf8Of_write y, ← utf8Of_writeFields fields, ← utf8Of_append]
    exact congrArg (123 :: ·) (utf8Of_append _ _)

theorem utf8Of_writeItems (xs : List Json) : utf8Of (writeItems xs) = writeItemBytes xs := by
  match xs with
  | [] => rfl
  | x :: xs =>
    rw [writeItemBytes, ← utf8Of_write x, ← utf8Of_writeItems xs, ← utf8Of_append]
    rfl

theorem utf8Of_writeFields (fields : List (String × Json)) :
    utf8Of (writeFields fields) = writeFieldBytes fields := by
  match fields with
  | [] => rfl
  | (name, x) :: fields =>
    rw [writeFieldBytes, ← utf8Of_writeText, ← utf8Of_write x, ← utf8Of_writeFields fields,
      ← utf8Of_append]
    exact congrArg (44 :: ·) (utf8Of_append _ _)

end

end Json

theorem encode_compact (j : Json) : Text.Utf8.encode j.compact = j.writeBytes := by
  rw [Json.compact, Text.Utf8.encode_ofList, ← utf8Of, Json.utf8Of_write]

theorem encode_append_compact (s : String) (j : Json) :
    Text.Utf8.encode (s ++ j.compact) = Text.Utf8.encode s ++ j.writeBytes := by
  rw [← encode_compact]
  simp only [encode_eq_utf8Of, String.toList_append, utf8Of_append]

end PrecompiledHeaders
