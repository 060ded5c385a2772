import FrameLog.Trace.Random

/-!
# The seeded supply

Random words from the keystream of the twelve-round ChaCha block function. The key is spun out of a
64-bit seed, the block counter begins at zero, and the words of all blocks form one stream.
-/

namespace FrameLog

/-! ## Blocks -/

/-- The sixteen words of a block. -/
abbrev Block := Vector UInt32 16

/-- Rotates a word to the left. -/
def rotateLeft (x : UInt32) (n : UInt32) : UInt32 := (x <<< n) ||| (x >>> (32 - n))

namespace Block

/-- Adds the second word to the first, mixes the sum into the third and rotates that. -/
def mix (i j k : Fin 16) (n : UInt32) (b : Block) : Block :=
  let sum := b[i] + b[j]
  (b.set i sum).set k (rotateLeft (b[k] ^^^ sum) n)

/-- The quarter round on four words. -/
def quarterRound (i j k l : Fin 16) (b : Block) : Block :=
  (((b.mix i j l 16).mix k l j 12).mix i j l 8).mix k l j 7

/-- A round on the columns and a round on the diagonals. -/
def doubleRound (b : Block) : Block :=
  let b := quarterRound 0 4 8 12 b
  let b := quarterRound 1 5 9 13 b
  let b := quarterRound 2 6 10 14 b
  let b := quarterRound 3 7 11 15 b
  let b := quarterRound 0 5 10 15 b
  let b := quarterRound 1 6 11 12 b
  let b := quarterRound 2 7 8 13 b
  quarterRound 3 4 9 14 b

/-- The block before the rounds: constants, key, counter and two zeros. -/
def initial (key : Vector UInt32 8) (counter : Nat) : Block :=
  let low := UInt32.ofNat (counter % Nat.pow 2 32)
  let high := UInt32.ofNat (counter / Nat.pow 2 32)
  #v[0x61707865, 0x3320646e, 0x79622d32, 0x6b206574,
     key[0], key[1], key[2], key[3], key[4], key[5], key[6], key[7],
     low, high, 0, 0]

/-- The block of the keystream with the given number: six double rounds, and the initial block
added word by word. -/
def keystream (key : Vector UInt32 8) (counter : Nat) : Block :=
  let start := initial key counter
  let mixed := (List.range 6).foldl (fun b _ => doubleRound b) start
  mixed.zipWith (· + ·) start

end Block

/-! ## The stream -/

/-- A place in the keystream of a key. -/
structure Keystream where
  key : Vector UInt32 8
  /-- The number of the next block. -/
  counter : Nat
  /-- The words of the last block that are not used yet. -/
  pending : List UInt32

namespace Keystream

/-- One step of the recurrence that spins out a seed. -/
def stepSeed (state : UInt64) : UInt64 := state * 6364136223846793005 + 11634580027462260723

/-- The word that a state of the recurrence yields. -/
def seedWord (state : UInt64) : UInt32 :=
  rotateRight (((state >>> 18) ^^^ state) >>> 27).toUInt32 (state >>> 59).toUInt32
where
  /-- Rotates a word to the right. -/
  rotateRight (x n : UInt32) : UInt32 := (x >>> n) ||| (x <<< (32 - n))

/-- The state after a number of steps. -/
def seedState (seed : UInt64) (steps : Nat) : UInt64 :=
  (List.range steps).foldl (fun state _ => stepSeed state) seed

/-- The beginning of the stream of a seed. -/
def ofSeed (seed : UInt64) : Keystream :=
  ⟨Vector.ofFn fun i => seedWord (seedState seed (i.val + 1)), 0, []⟩

/-- The next word. -/
def next32 (s : Keystream) : UInt32 × Keystream :=
  match s.pending with
  | word :: rest => (word, { s with pending := rest })
  | [] =>
    let block := Block.keystream s.key s.counter
    (block[0], { s with counter := s.counter + 1, pending := block.toList.tail })

/-- The next two words as one, the lower half first. -/
def next64 (s : Keystream) : UInt64 × Keystream :=
  let (low, s) := s.next32
  let (high, s) := s.next32
  (low.toUInt64 ||| (high.toUInt64 <<< 32), s)

/-- The next word of a size, as a number. -/
def next (s : Keystream) : WordSize → Nat × Keystream
  | .word32 => let (word, s) := s.next32; (word.toNat, s)
  | .word64 => let (word, s) := s.next64; (word.toNat, s)

theorem next_lt (s : Keystream) (size : WordSize) : (s.next size).1 < Nat.pow 2 size.bits := by
  cases size with
  | word32 => exact s.next32.1.toNat_lt
  | word64 => exact s.next64.1.toNat_lt

/-- A number below `n`: a word is scaled down to the range, and drawn anew while it lies where some
numbers would come up more often than others. At least half of all words are kept, and after the
given number of fresh draws every word is. -/
def below (size : WordSize) (n : Nat) : Nat → Keystream → Nat × Keystream
  | 0, s =>
    let (word, s) := s.next size
    (word * n / Nat.pow 2 size.bits, s)
  | retries + 1, s =>
    let (word, s) := s.next size
    if word * n % Nat.pow 2 size.bits < n * Nat.pow 2 (size.bits - 1 - n.log2) then
      (word * n / Nat.pow 2 size.bits, s)
    else below size n retries s

theorem below_lt {size : WordSize} {n : Nat} (h : 0 < n) (retries : Nat) (s : Keystream) :
    (below size n retries s).1 < n := by
  have scaled : ∀ s : Keystream, (s.next size).1 * n / Nat.pow 2 size.bits < n := fun s =>
    Nat.div_lt_of_lt_mul (Nat.mul_lt_mul_of_pos_right (s.next_lt size) h)
  induction retries generalizing s with
  | zero => exact scaled s
  | succ retries ih =>
    simp only [below]
    split
    · exact scaled s
    · exact ih _

/-- The fresh draws after which a word is no longer refused. -/
def retries : Nat := 256

instance : RandomSource Keystream where
  between size low high h s :=
    let drawn := below size (high - low + 1) retries s
    have hlt : drawn.1 < high - low + 1 := below_lt (Nat.succ_pos _) retries s
    (⟨low + drawn.1, by omega⟩, drawn.2)
  coin s :=
    let (word, s) := s.next64
    (word.toNat < Nat.pow 2 63, s)

instance : SeededSource Keystream where
  ofSeed := ofSeed

end Keystream

end FrameLog
