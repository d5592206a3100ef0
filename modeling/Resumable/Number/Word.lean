import Resumable.Number.Binary

/-!
Numbers as 32-bit words: conversion by truncation and wrap-around, and the operators on bits.
-/

set_option autoImplicit false

namespace Resumable.Number

/-- The integer part, held inside the signed 64-bit range. -/
def clamp64 (x : Float) : Int :=
  max (-9223372036854775808) (min 9223372036854775807 (truncate x))

def word (x : Float) : BitVec 32 := if x.isInf then 0 else BitVec.ofInt 32 (clamp64 x)

def int32 (x : Float) : Int := (word x).toInt

def uint32 (x : Float) : Nat := (word x).toNat

def ofSigned (w : BitVec 32) : Float := Float.ofInt w.toInt

def ofUnsigned (w : BitVec 32) : Float := Float.ofNat w.toNat

def distance (x : Float) : Nat := uint32 x % 32

def shiftLeft (x y : Float) : Float := ofSigned (word x <<< distance y)

def shiftRight (x y : Float) : Float := ofSigned ((word x).sshiftRight (distance y))

def shiftRightZero (x y : Float) : Float := ofUnsigned (word x >>> distance y)

def bitNot (x : Float) : Float := ofSigned (~~~word x)

def bitAnd (x y : Float) : Float := ofSigned (word x &&& word y)

def bitOr (x y : Float) : Float := ofSigned (word x ||| word y)

def bitXor (x y : Float) : Float := ofSigned (word x ^^^ word y)

end Resumable.Number
