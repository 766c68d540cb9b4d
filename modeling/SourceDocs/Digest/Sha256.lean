set_option autoImplicit false

/-! # SHA-256

A message is padded to a whole number of blocks of 64 bytes. Every block updates eight registers in
64 rounds; the digest is the bytes of the registers after the last block. -/

namespace SourceDocs.Sha256

/-- The eight registers. -/
structure Registers where
  a : UInt32
  b : UInt32
  c : UInt32
  d : UInt32
  e : UInt32
  f : UInt32
  g : UInt32
  h : UInt32

namespace Registers

/-- The registers before the first block. -/
def initial : Registers :=
  ⟨0x6a09e667, 0xbb67ae85, 0x3c6ef372, 0xa54ff53a, 0x510e527f, 0x9b05688c, 0x1f83d9ab, 0x5be0cd19⟩

/-- The sum of registers, one by one. -/
def add (x y : Registers) : Registers :=
  ⟨x.a + y.a, x.b + y.b, x.c + y.c, x.d + y.d, x.e + y.e, x.f + y.f, x.g + y.g, x.h + y.h⟩

/-- The registers in order. -/
def words (r : Registers) : List UInt32 :=
  [r.a, r.b, r.c, r.d, r.e, r.f, r.g, r.h]

end Registers

/-- The constants of the rounds. -/
def constants : List UInt32 :=
  [0x428a2f98, 0x71374491, 0xb5c0fbcf, 0xe9b5dba5, 0x3956c25b, 0x59f111f1, 0x923f82a4, 0xab1c5ed5,
    0xd807aa98, 0x12835b01, 0x243185be, 0x550c7dc3, 0x72be5d74, 0x80deb1fe, 0x9bdc06a7, 0xc19bf174,
    0xe49b69c1, 0xefbe4786, 0x0fc19dc6, 0x240ca1cc, 0x2de92c6f, 0x4a7484aa, 0x5cb0a9dc, 0x76f988da,
    0x983e5152, 0xa831c66d, 0xb00327c8, 0xbf597fc7, 0xc6e00bf3, 0xd5a79147, 0x06ca6351, 0x14292967,
    0x27b70a85, 0x2e1b2138, 0x4d2c6dfc, 0x53380d13, 0x650a7354, 0x766a0abb, 0x81c2c92e, 0x92722c85,
    0xa2bfe8a1, 0xa81a664b, 0xc24b8b70, 0xc76c51a3, 0xd192e819, 0xd6990624, 0xf40e3585, 0x106aa070,
    0x19a4c116, 0x1e376c08, 0x2748774c, 0x34b0bcb5, 0x391c0cb3, 0x4ed8aa4a, 0x5b9cca4f, 0x682e6ff3,
    0x748f82ee, 0x78a5636f, 0x84c87814, 0x8cc70208, 0x90befffa, 0xa4506ceb, 0xbef9a3f7, 0xc67178f2]

/-- A word turned right by some bits. -/
def rotate (x n : UInt32) : UInt32 := (x >>> n) ||| (x <<< (32 - n))

/-- One round, with its constant and its word of the message. -/
def round (k w : UInt32) (r : Registers) : Registers :=
  let s₁ := rotate r.e 6 ^^^ rotate r.e 11 ^^^ rotate r.e 25
  let choice := (r.e &&& r.f) ^^^ ((~~~r.e) &&& r.g)
  let t₁ := r.h + s₁ + choice + k + w
  let s₀ := rotate r.a 2 ^^^ rotate r.a 13 ^^^ rotate r.a 22
  let majority := (r.a &&& r.b) ^^^ (r.a &&& r.c) ^^^ (r.b &&& r.c)
  ⟨t₁ + (s₀ + majority), r.a, r.b, r.c, r.d + t₁, r.e, r.f, r.g⟩

/-- The word that follows sixteen words of the schedule. -/
def nextWord (window : List UInt32) : UInt32 :=
  let word (i : Nat) := window.getD i 0
  let s₀ := rotate (word 1) 7 ^^^ rotate (word 1) 18 ^^^ (word 1 >>> 3)
  let s₁ := rotate (word 14) 17 ^^^ rotate (word 14) 19 ^^^ (word 14 >>> 10)
  word 0 + s₀ + word 9 + s₁

/-- The rounds of some constants. The window is the sixteen words of the schedule from the current
round on. -/
def rounds : List UInt32 → List UInt32 → Registers → Registers
  | k :: ks, w :: window, r =>
    rounds ks (window ++ [nextWord (w :: window)]) (round k w r)
  | _, _, r => r

/-- The words of bytes, the highest byte of each first. -/
def wordsOf : List UInt8 → List UInt32
  | a :: b :: c :: d :: rest =>
    (a.toUInt32 <<< 24 ||| b.toUInt32 <<< 16 ||| c.toUInt32 <<< 8 ||| d.toUInt32) :: wordsOf rest
  | _ => []

/-- The bytes of a word, the highest first. -/
def bytesOf (w : UInt32) : List UInt8 :=
  [(w >>> 24).toUInt8, (w >>> 16).toUInt8, (w >>> 8).toUInt8, w.toUInt8]

/-- The bytes that the length of a message in bits is written as. -/
def lengthBytes (length : Nat) : List UInt8 :=
  let bits := UInt64.ofNat (8 * length)
  bytesOf (bits >>> 32).toUInt32 ++ bytesOf bits.toUInt32

/-- A message with its padding. -/
def padded (message : List UInt8) : List UInt8 :=
  message ++ 0x80 :: List.replicate ((119 - message.length % 64) % 64) 0 ++
    lengthBytes message.length

/-- The registers after some blocks of words. -/
def absorb (blocks : Nat) (words : List UInt32) (r : Registers) : Registers :=
  match blocks with
  | 0 => r
  | n + 1 => absorb n (words.drop 16) (r.add (rounds constants (words.take 16) r))

/-- The digest of a message. -/
def digest (message : List UInt8) : List UInt8 :=
  let words := wordsOf (padded message)
  (absorb (words.length / 16) words .initial).words.flatMap bytesOf

end SourceDocs.Sha256
