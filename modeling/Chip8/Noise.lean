/-!
# Noise

The bytes that a machine cannot foresee. Each is computed from a seed and its place, by mixing a
counter that advances by an odd constant, so every place has its byte without those before it.
-/

namespace Chip8

/-- A seed of noise. -/
structure Noise where
  /-- The word that all bytes depend on. -/
  seed : UInt64
  deriving DecidableEq, Repr

namespace Noise

/-- The step of the counter, which is odd, so that all its values are met. -/
def step : UInt64 := 0x9E3779B97F4A7C15

/-- The bits of a word spread over all of it. -/
def mix (word : UInt64) : UInt64 :=
  let first := (word ^^^ (word >>> 30)) * 0xBF58476D1CE4E5B9
  let second := (first ^^^ (first >>> 27)) * 0x94D049BB133111EB
  second ^^^ (second >>> 31)

/-- The byte at a place. -/
def byte (noise : Noise) (place : Nat) : UInt8 :=
  (mix (noise.seed + UInt64.ofNat (place + 1) * step) >>> 56).toUInt8

end Noise

end Chip8
