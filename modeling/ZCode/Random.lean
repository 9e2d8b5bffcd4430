/-
  Random numbers: an additive lagged generator, and the two modes in which a story uses it.

  * `Generator` keeps 607 words; each draw adds two of them, 273 places apart, and replaces one.
  * `Random` is either predictable, started from a seed that the story or its host chose, or not, in
    which case the seed comes from the host's entropy.
-/
import ZCode.Random.Table

namespace ZCode.Random

/-- The state of an additive lagged generator. -/
structure Generator where
  register : Array UInt64
  /-- The place of the word that is added. -/
  tap : Nat
  /-- The place of the word it is added to. -/
  feed : Nat
  deriving DecidableEq, Inhabited

/-! ## Seeding -/

/-- The modulus of the congruential sequence that fills the register. -/
def seedModulus : Int := 2147483647

/-- The next number of the congruential sequence, `48271 x` modulo `2 ^ 31 - 1`. -/
def nextSeed (x : Int) : Int :=
  let y := 48271 * (x.tmod 44488) - 3399 * (x.tdiv 44488)
  if y < 0 then y + seedModulus else y

/-- The start of the congruential sequence for a seed. -/
def startSeed (seed : Int64) : Int :=
  let s := seed.toInt.tmod seedModulus
  let s := if s < 0 then s + seedModulus else s
  if s = 0 then 89482311 else s

/-- The number `n` places further in the congruential sequence. -/
def skipSeeds : Nat → Int → Int
  | 0, x => x
  | n + 1, x => skipSeeds n (nextSeed x)

/-- Fills `n` more places of the register; each takes three numbers of the sequence and the word of
the mixing table. -/
def fillRegister : Nat → Int → Array UInt64 → Array UInt64
  | 0, _, register => register
  | n + 1, x, register =>
    let x₁ := nextSeed x
    let x₂ := nextSeed x₁
    let x₃ := nextSeed x₂
    let w := UInt64.ofInt x₁ <<< 40 ^^^ UInt64.ofInt x₂ <<< 20 ^^^ UInt64.ofInt x₃
    fillRegister n x₃ (register.push (w ^^^ mixingTable.getD register.size 0))

namespace Generator

/-- The number of words in the register. -/
def length : Nat := 607

/-- A generator started from a seed. -/
def ofSeed (seed : Int64) : Generator :=
  { register := fillRegister length (skipSeeds 20 (startSeed seed)) #[], tap := 0, feed := 334 }

/-! ## Drawing -/

/-- The place before `i`, in a circle. -/
def before (i : Nat) : Nat := if i = 0 then length - 1 else i - 1

/-- The next 64 bits. -/
def next (g : Generator) : UInt64 × Generator :=
  let tap := before g.tap
  let feed := before g.feed
  let w := g.register.getD feed 0 + g.register.getD tap 0
  (w, { register := g.register.setIfInBounds feed w, tap, feed })

/-- The next number below `2 ^ bits`, for up to 63 bits: those below the sign bit, from the top. -/
def nextBits (g : Generator) (bits : Nat) : Nat × Generator :=
  let (w, g) := g.next
  (w.toNat % 0x8000000000000000 / Nat.pow 2 (63 - bits), g)

/-- Draws until a number is at most `limit`, or `tries` are used up. -/
def nextUpTo (bits limit : Nat) : Nat → Generator → Nat × Generator
  | 0, g => g.nextBits bits
  | tries + 1, g =>
    let (v, g') := g.nextBits bits
    if v ≤ limit then (v, g') else nextUpTo bits limit tries g'

/-- How often a draw is repeated at most.  Fewer than every second one is, so that the limit is never
met in practice. -/
def maxTries : Nat := 1024

/-- A number below `n`, each with the same chance, from draws of `bits` bits.  Draws behind the last
multiple of `n` are repeated. -/
def belowWith (g : Generator) (bits n : Nat) : Nat × Generator :=
  if Nat.pow 2 n.log2 = n then
    let (v, g) := g.nextBits bits
    (v % n, g)
  else
    let (v, g) := nextUpTo bits (Nat.pow 2 bits - 1 - Nat.pow 2 bits % n) maxTries g
    (v % n, g)

/-- A number below `n`.  Ranges below `2 ^ 31` use 31 bits, others 63. -/
def below (g : Generator) (n : Nat) : Nat × Generator :=
  g.belowWith (if n < 0x80000000 then 31 else 63) n

end Generator

end ZCode.Random

namespace ZCode

/-- A story's source of random numbers. -/
structure Random where
  generator : Random.Generator
  seed : Int64
  predictable : Bool
  /-- Where the next seed of random mode comes from. -/
  entropy : Int64
  deriving Inhabited

namespace Random

/-- Random mode, with a seed taken from the entropy. -/
def enterRandomMode (r : Random) : Random :=
  let seed := if r.entropy = 0 then 1 else r.entropy
  { generator := .ofSeed seed, seed, predictable := false, entropy := r.entropy + 1 }

/-- Predictable mode: the numbers depend on the seed alone. -/
def enterPredictableMode (r : Random) (seed : Int64) : Random :=
  { r with generator := .ofSeed seed, seed, predictable := true }

/-- A source in random mode. -/
def ofEntropy (entropy : Int64) : Random := enterRandomMode { (default : Random) with entropy }

/-- A number from 1 to `n`.  For 0 the source enters random mode and for a negative `n` predictable
mode, with the seed `-n`; both give 0. -/
def draw (r : Random) (n : Int64) : Int64 × Random :=
  if 0 < n then
    let (v, generator) := r.generator.below n.toInt.toNat
    (Int64.ofNat (v + 1), { r with generator })
  else if n < 0 then (0, r.enterPredictableMode (-n))
  else (0, r.enterRandomMode)

end Random

end ZCode
