/-! The 32-bit Mersenne Twister with a state of 624 words, seeded by the words of an integer, and bytes
drawn from it by rejection. -/

namespace Chip8

structure MersenneTwister where
  words : Array UInt32
  position : Nat

namespace MersenneTwister

def size : Nat := 624

def shift : Nat := 397

def spread (seed : UInt32) : Array UInt32 :=
  (List.range (size - 1)).foldl (fun words k =>
    let last := words.getD k 0
    words.push ((1812433253 : UInt32) * (last ^^^ (last >>> 30)) + UInt32.ofNat (k + 1))) #[seed]

/-- Where a pass over the state stands: the next position, and the word set last. -/
structure Pass where
  words : Array UInt32
  position : Nat

def Pass.put (p : Pass) (word : UInt32) : Pass :=
  let words := p.words.setIfInBounds p.position word
  if p.position + 1 < size then { words, position := p.position + 1 }
  else { words := words.setIfInBounds 0 word, position := 1 }

def Pass.mix (p : Pass) (factor : UInt32) : UInt32 :=
  let last := p.words.getD (p.position - 1) 0
  p.words.getD p.position 0 ^^^ ((last ^^^ (last >>> 30)) * factor)

def ofKey (key : Array UInt32) : MersenneTwister :=
  let start : Pass := { words := spread 19650218, position := 1 }
  let keyed := (List.range (max size key.size)).foldl (fun p k =>
    let j := k % key.size
    p.put (p.mix 1664525 + key.getD j 0 + UInt32.ofNat j)) start
  let settled := (List.range (size - 1)).foldl (fun p _ =>
    p.put (p.mix 1566083941 - UInt32.ofNat p.position)) keyed
  { words := settled.words.setIfInBounds 0 0x80000000, position := size }

/-- The 32-bit words of a natural number, lowest first; at least one. -/
def wordsOf (n : Nat) : Array UInt32 :=
  let count := n.log2 / 32 + 1
  (Array.range count).map fun k => UInt32.ofNat (n >>> (32 * k) % 0x100000000)

/-- The state seeded by the size of an integer; its sign does not matter. -/
def ofSeed (seed : Int) : MersenneTwister := ofKey (wordsOf seed.natAbs)

/-- Renews all words in place. -/
def renew (words : Array UInt32) : Array UInt32 :=
  (List.range size).foldl (fun words k =>
    let y := (words.getD k 0 &&& 0x80000000) ||| (words.getD ((k + 1) % size) 0 &&& 0x7fffffff)
    let twist : UInt32 := if y &&& 1 = 1 then 0x9908b0df else 0
    words.setIfInBounds k (words.getD ((k + shift) % size) 0 ^^^ (y >>> 1) ^^^ twist)) words

def temper (y : UInt32) : UInt32 :=
  let y := y ^^^ (y >>> 11)
  let y := y ^^^ ((y <<< 7) &&& 0x9d2c5680)
  let y := y ^^^ ((y <<< 15) &&& 0xefc60000)
  y ^^^ (y >>> 18)

def next (g : MersenneTwister) : UInt32 × MersenneTwister :=
  let g := if g.position < size then g else { words := renew g.words, position := 0 }
  (temper (g.words.getD g.position 0), { g with position := g.position + 1 })

/-- A byte: the top nine bits of a word, drawn again while they are no byte. -/
def nextByte (g : MersenneTwister) : UInt8 × MersenneTwister :=
  let rec draw : Nat → MersenneTwister → UInt8 × MersenneTwister
    | 0, g => (0, g)
    | tries + 1, g =>
      let r := g.next
      let value := (r.1 >>> 23).toNat
      if value < 256 then (UInt8.ofNat value, r.2) else draw tries r.2
  draw (64 * size) g

end MersenneTwister

end Chip8
