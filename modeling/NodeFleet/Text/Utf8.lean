set_option autoImplicit false
namespace NodeFleet

abbrev Bytes := List UInt8

def isContinuation (b : UInt8) : Bool := 0x80 ≤ b && b ≤ 0xbf

def secondByteRange (b : UInt8) : UInt8 × UInt8 :=
  if b = 0xe0 then (0xa0, 0xbf)
  else if b = 0xed then (0x80, 0x9f)
  else if b = 0xf0 then (0x90, 0xbf)
  else if b = 0xf4 then (0x80, 0x8f)
  else (0x80, 0xbf)

def followingBytes (b : UInt8) : Option Nat :=
  if b < 0x80 then some 0
  else if b < 0xc2 then none
  else if b < 0xe0 then some 1
  else if b < 0xf0 then some 2
  else if b < 0xf5 then some 3
  else none

def isSecondByte (lead b : UInt8) : Bool :=
  (secondByteRange lead).1 ≤ b && b ≤ (secondByteRange lead).2

/--
The character that begins with `lead`, if there is one, and how many of the bytes after `lead`
belong to it or to the broken piece in its place.
-/
def leadingChar (lead : UInt8) (rest : Bytes) : Option Char × Nat :=
  match followingBytes lead with
  | some 0 => (some (Char.ofNat lead.toNat), 0)
  | some 1 =>
    match rest with
    | b :: _ =>
      if isSecondByte lead b then
        (some (Char.ofNat ((lead.toNat - 0xc0) * 64 + (b.toNat - 0x80))), 1)
      else (none, 0)
    | [] => (none, 0)
  | some 2 =>
    match rest with
    | b :: r =>
      if isSecondByte lead b then
        match r with
        | c :: _ =>
          if isContinuation c then
            (some (Char.ofNat (((lead.toNat - 0xe0) * 64 + (b.toNat - 0x80)) * 64
              + (c.toNat - 0x80))), 2)
          else (none, 1)
        | [] => (none, 1)
      else (none, 0)
    | [] => (none, 0)
  | some _ =>
    match rest with
    | b :: r =>
      if isSecondByte lead b then
        match r with
        | c :: q =>
          if isContinuation c then
            match q with
            | d :: _ =>
              if isContinuation d then
                (some (Char.ofNat ((((lead.toNat - 0xf0) * 64 + (b.toNat - 0x80)) * 64
                  + (c.toNat - 0x80)) * 64 + (d.toNat - 0x80))), 3)
              else (none, 2)
            | [] => (none, 2)
          else (none, 1)
        | [] => (none, 1)
      else (none, 0)
    | [] => (none, 0)
  | none => (none, 0)

/-- Characters and broken pieces from left to right, after passing over `skip` bytes. -/
def readUtf8 : Nat → Bytes → List (Option Char)
  | _, [] => []
  | n + 1, _ :: rest => readUtf8 n rest
  | 0, b :: rest => (leadingChar b rest).1 :: readUtf8 (leadingChar b rest).2 rest

def replacementChar : Char := '\ufffd'

def decodeLossy (bytes : Bytes) : String :=
  String.ofList ((readUtf8 0 bytes).map fun c => c.getD replacementChar)

def decodeStrict? (bytes : Bytes) : Option (List Char) := (readUtf8 0 bytes).mapM id

def encodeText (s : String) : Bytes := s.toUTF8.toList

end NodeFleet
