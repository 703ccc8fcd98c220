import Mathlib.Algebra.Group.Nat.Defs
import Mathlib.Data.List.Basic

/-!
# Sha256 — the SHA-256 digest and its hexadecimal form

A direct transcription of the digest: padding, message schedule, compression.  The definitions are
executable; nothing in this development relies on the digest being hard to invert or on the absence
of collisions.  What is proved is its shape: a digest has 32 bytes, and its hexadecimal form is not
empty.
-/

namespace RelayPoint.Sha256

abbrev Word := BitVec 32

/-! ## Constants -/

def roundConstants : List Word :=
  [0x428a2f98#32, 0x71374491#32, 0xb5c0fbcf#32, 0xe9b5dba5#32,
   0x3956c25b#32, 0x59f111f1#32, 0x923f82a4#32, 0xab1c5ed5#32,
   0xd807aa98#32, 0x12835b01#32, 0x243185be#32, 0x550c7dc3#32,
   0x72be5d74#32, 0x80deb1fe#32, 0x9bdc06a7#32, 0xc19bf174#32,
   0xe49b69c1#32, 0xefbe4786#32, 0x0fc19dc6#32, 0x240ca1cc#32,
   0x2de92c6f#32, 0x4a7484aa#32, 0x5cb0a9dc#32, 0x76f988da#32,
   0x983e5152#32, 0xa831c66d#32, 0xb00327c8#32, 0xbf597fc7#32,
   0xc6e00bf3#32, 0xd5a79147#32, 0x06ca6351#32, 0x14292967#32,
   0x27b70a85#32, 0x2e1b2138#32, 0x4d2c6dfc#32, 0x53380d13#32,
   0x650a7354#32, 0x766a0abb#32, 0x81c2c92e#32, 0x92722c85#32,
   0xa2bfe8a1#32, 0xa81a664b#32, 0xc24b8b70#32, 0xc76c51a3#32,
   0xd192e819#32, 0xd6990624#32, 0xf40e3585#32, 0x106aa070#32,
   0x19a4c116#32, 0x1e376c08#32, 0x2748774c#32, 0x34b0bcb5#32,
   0x391c0cb3#32, 0x4ed8aa4a#32, 0x5b9cca4f#32, 0x682e6ff3#32,
   0x748f82ee#32, 0x78a5636f#32, 0x84c87814#32, 0x8cc70208#32,
   0x90befffa#32, 0xa4506ceb#32, 0xbef9a3f7#32, 0xc67178f2#32]

structure Working where
  (a b c d e f g h : Word)
  deriving DecidableEq

def Working.start : Working :=
  ⟨0x6a09e667#32, 0xbb67ae85#32, 0x3c6ef372#32, 0xa54ff53a#32,
   0x510e527f#32, 0x9b05688c#32, 0x1f83d9ab#32, 0x5be0cd19#32⟩

def Working.add (s t : Working) : Working :=
  ⟨s.a + t.a, s.b + t.b, s.c + t.c, s.d + t.d, s.e + t.e, s.f + t.f, s.g + t.g, s.h + t.h⟩

def Working.words (s : Working) : List Word :=
  [s.a, s.b, s.c, s.d, s.e, s.f, s.g, s.h]

/-! ## Compression -/

def bigSigma0 (x : Word) : Word :=
  x.rotateRight 2 ^^^ x.rotateRight 13 ^^^ x.rotateRight 22

def bigSigma1 (x : Word) : Word :=
  x.rotateRight 6 ^^^ x.rotateRight 11 ^^^ x.rotateRight 25

def smallSigma0 (x : Word) : Word :=
  x.rotateRight 7 ^^^ x.rotateRight 18 ^^^ (x >>> 3)

def smallSigma1 (x : Word) : Word :=
  x.rotateRight 17 ^^^ x.rotateRight 19 ^^^ (x >>> 10)

def ch (x y z : Word) : Word :=
  (x &&& y) ^^^ (~~~x &&& z)

def maj (x y z : Word) : Word :=
  (x &&& y) ^^^ (x &&& z) ^^^ (y &&& z)

def round (s : Working) (k w : Word) : Working :=
  let t₁ := s.h + bigSigma1 s.e + ch s.e s.f s.g + k + w
  let t₂ := bigSigma0 s.a + maj s.a s.b s.c
  ⟨t₁ + t₂, s.a, s.b, s.c, s.d + t₁, s.e, s.f, s.g⟩

/-- The rounds of one block; the second argument is the sliding window of 16 schedule words. -/
def rounds : List Word → List Word → Working → Working
  | k :: ks, w :: ws, s =>
    let next := smallSigma1 (ws.getD 13 0) + ws.getD 8 0 + smallSigma0 (ws.getD 0 0) + w
    rounds ks (ws ++ [next]) (round s k w)
  | _, _, s => s

def blocks : Nat → List Word → Working → Working
  | 0, _, s => s
  | n + 1, ws, s => blocks n (ws.drop 16) (s.add (rounds roundConstants (ws.take 16) s))

/-! ## Bytes and words -/

def bigEndian (n x : Nat) : List UInt8 :=
  (List.range n).map fun i => UInt8.ofNat (x / 256 ^ (n - 1 - i))

def wordsOf : List UInt8 → List Word
  | a :: b :: c :: d :: rest =>
    BitVec.ofNat 32 (a.toNat * 2 ^ 24 + b.toNat * 2 ^ 16 + c.toNat * 2 ^ 8 + d.toNat) :: wordsOf rest
  | _ => []

def pad (m : List UInt8) : List UInt8 :=
  m ++ [0x80] ++ List.replicate ((119 - m.length % 64) % 64) 0 ++ bigEndian 8 (8 * m.length)

def sum256 (m : List UInt8) : List UInt8 :=
  let p := pad m
  (blocks (p.length / 64) (wordsOf p) Working.start).words.flatMap fun w => bigEndian 4 w.toNat

theorem length_bigEndian (n x : Nat) : (bigEndian n x).length = n := by
  simp [bigEndian]

theorem length_sum256 (m : List UInt8) : (sum256 m).length = 32 := by
  simp [sum256, Working.words, length_bigEndian]

/-! ## Hexadecimal -/

def hexDigit (n : Nat) : Char :=
  if n < 10 then Char.ofNat (48 + n) else Char.ofNat (87 + n)

def encodeToString (bytes : List UInt8) : String :=
  String.ofList (bytes.flatMap fun x => [hexDigit (x.toNat / 16), hexDigit (x.toNat % 16)])

theorem encodeToString_sum256_ne (m : List UInt8) : encodeToString (sum256 m) ≠ "" := by
  intro h
  have hlist : (sum256 m).flatMap
      (fun x => [hexDigit (x.toNat / 16), hexDigit (x.toNat % 16)]) = [] := by
    have hnil : (encodeToString (sum256 m)).toList = [] := by
      simp [h]
    simpa only [encodeToString, String.toList_ofList] using hnil
  have hempty : sum256 m = [] := by
    cases hs : sum256 m with
    | nil => rfl
    | cons x xs => simp [hs] at hlist
  have hlen := length_sum256 m
  simp [hempty] at hlen

-- The digest of the three letters `abc` starts with ba7816bf.
example : (sum256 [97, 98, 99]).take 4 = [0xba, 0x78, 0x16, 0xbf] := by decide +kernel

end RelayPoint.Sha256
