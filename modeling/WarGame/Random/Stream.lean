/-!
# The stream of random words

A seed determines an endless stream of 32-bit words, the keystream of ChaCha with eight rounds, a
zero nonce and a key drawn from the seed by a linear congruential generator. A word is a function
of the seed and its position, so a reader of the stream needs no other state.
-/

namespace WarGame.Random

/-- The step of the generator that draws the key. -/
def nextState (state : UInt64) : UInt64 := state * 6364136223846793005 + 11634580027462260723

/-- The key word shown by a state: its upper bits folded, then rotated right by the top five. -/
def foldState (state : UInt64) : UInt32 :=
  let word := (((state >>> 18) ^^^ state) >>> 27).toUInt32
  let turn := (state >>> 59).toUInt32
  (word >>> turn) ||| (word <<< (32 - turn))

/-- The `i`-th word of the key, from zero. -/
def keyWord (seed : UInt64) (i : Nat) : UInt32 := foldState (Nat.repeat nextState (i + 1) seed)

/-- The sixteen words that a block is computed from and added to. -/
abbrev Block := Vector UInt32 16

/-- The first block of a key and a counter: constants, key, counter low word first, and no nonce. -/
def startBlock (seed : UInt64) (counter : Nat) : Block := #v[
  0x61707865, 0x3320646e, 0x79622d32, 0x6b206574,
  keyWord seed 0, keyWord seed 1, keyWord seed 2, keyWord seed 3,
  keyWord seed 4, keyWord seed 5, keyWord seed 6, keyWord seed 7,
  UInt32.ofNat counter, UInt32.ofNat (counter >>> 32), 0, 0]

def rotateLeft (x turn : UInt32) : UInt32 := (x <<< turn) ||| (x >>> (32 - turn))

/-- Adds word `b` to word `a`, then mixes the sum into word `d` and rotates that. -/
def mixWord (a b d : Fin 16) (turn : UInt32) (block : Block) : Block :=
  let block := block.set a (block[a] + block[b])
  block.set d (rotateLeft (block[d] ^^^ block[a]) turn)

def quarterRound (a b c d : Fin 16) (block : Block) : Block :=
  mixWord c d b 7 (mixWord a b d 8 (mixWord c d b 12 (mixWord a b d 16 block)))

/-- A round over the columns, then one over the diagonals. -/
def doubleRound (block : Block) : Block :=
  let block := quarterRound 0 4 8 12 block
  let block := quarterRound 1 5 9 13 block
  let block := quarterRound 2 6 10 14 block
  let block := quarterRound 3 7 11 15 block
  let block := quarterRound 0 5 10 15 block
  let block := quarterRound 1 6 11 12 block
  let block := quarterRound 2 7 8 13 block
  quarterRound 3 4 9 14 block

def block (seed : UInt64) (counter : Nat) : Block :=
  let start := startBlock seed counter
  (Nat.repeat doubleRound 4 start).zipWith (· + ·) start

/-- The word at a position of the stream, from zero. -/
def wordAt (seed : UInt64) (position : Nat) : UInt32 :=
  (block seed (position / 16)).get ⟨position % 16, Nat.mod_lt _ (by decide)⟩

end WarGame.Random
