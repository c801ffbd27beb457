/-! Byte sequences read as UTF-8. A sequence that is no text is described by where its first fault
is and by how many bytes no continuation could have saved; a reader that goes on replaces each
such fault by one replacement character. -/
namespace PrecompiledHeaders.Text.Utf8

/-- What stands at the head of a byte sequence; widths count bytes. -/
inductive Head where
  | char (c : Char) (width : Nat)
  | invalid (width : Nat)
  | cut (width : Nat)
  deriving DecidableEq, Repr

def isTail (b : UInt8) : Bool := 0x80 ≤ b && b ≤ 0xBF

def payload (b : UInt8) : Nat := b.toNat % 64

/-- The second byte's range after lead byte `a`; the narrow ranges keep out overlong forms,
surrogates and numbers above the last character. -/
def secondIn (a b : UInt8) : Bool :=
  if a = 0xE0 then 0xA0 ≤ b && b ≤ 0xBF
  else if a = 0xED then 0x80 ≤ b && b ≤ 0x9F
  else if a = 0xF0 then 0x90 ≤ b && b ≤ 0xBF
  else if a = 0xF4 then 0x80 ≤ b && b ≤ 0x8F
  else isTail b

def head (a : UInt8) (rest : List UInt8) : Head :=
  if a < 0x80 then .char (Char.ofNat a.toNat) 1
  else if 0xC2 ≤ a && a ≤ 0xDF then
    match rest with
    | [] => .cut 1
    | b :: _ =>
      if isTail b then .char (Char.ofNat (a.toNat % 32 * 64 + payload b)) 2 else .invalid 1
  else if 0xE0 ≤ a && a ≤ 0xEF then
    match rest with
    | [] => .cut 1
    | b :: rest =>
      if !secondIn a b then .invalid 1
      else match rest with
        | [] => .cut 2
        | c :: _ =>
          if isTail c then
            .char (Char.ofNat ((a.toNat % 16 * 64 + payload b) * 64 + payload c)) 3
          else .invalid 2
  else if 0xF0 ≤ a && a ≤ 0xF4 then
    match rest with
    | [] => .cut 1
    | b :: rest =>
      if !secondIn a b then .invalid 1
      else match rest with
        | [] => .cut 2
        | c :: rest =>
          if !isTail c then .invalid 2
          else match rest with
            | [] => .cut 3
            | d :: _ =>
              if isTail d then
                .char (Char.ofNat
                  (((a.toNat % 8 * 64 + payload b) * 64 + payload c) * 64 + payload d)) 4
              else .invalid 3
  else .invalid 1

/-- Why a byte sequence is no text: a fault after `from` good bytes, of a known width unless the
sequence ends too early. -/
structure Fault where
  start : Nat
  width : Option Nat
  deriving DecidableEq, Repr

def Fault.message (f : Fault) : String :=
  match f.width with
  | some n => s!"invalid utf-8 sequence of {n} bytes from index {f.start}"
  | none => s!"incomplete utf-8 byte sequence from index {f.start}"

/-- `skip` bytes belong to the character read last; `seen` bytes are behind. -/
def decodeFrom (skip seen : Nat) : List UInt8 → Except Fault (List Char)
  | [] => .ok []
  | a :: rest =>
    if skip > 0 then decodeFrom (skip - 1) (seen + 1) rest
    else match head a rest with
      | .char c n => (decodeFrom (n - 1) (seen + 1) rest).map (c :: ·)
      | .invalid n => .error ⟨seen, some n⟩
      | .cut _ => .error ⟨seen, none⟩

def decode (bytes : List UInt8) : Except Fault String :=
  (decodeFrom 0 0 bytes).map String.ofList

def lossyFrom (skip : Nat) : List UInt8 → List Char
  | [] => []
  | a :: rest =>
    if skip > 0 then lossyFrom (skip - 1) rest
    else match head a rest with
      | .char c n => c :: lossyFrom (n - 1) rest
      | .invalid n => '\uFFFD' :: lossyFrom (n - 1) rest
      | .cut n => '\uFFFD' :: lossyFrom (n - 1) rest

def lossy (bytes : List UInt8) : String := String.ofList (lossyFrom 0 bytes)

def encode (s : String) : List UInt8 := s.toUTF8.data.toList

end PrecompiledHeaders.Text.Utf8
