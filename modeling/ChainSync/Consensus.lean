import ChainSync.Block.Header
set_option autoImplicit false

namespace ChainSync

/-- The rules by which headers follow each other. Seals are not checked here. -/
inductive Engine where
  | ethash (minimumDifficulty : UInt64)
  | clique (period epoch : UInt64)
  deriving DecidableEq, Repr

inductive ConsensusError where
  | nonSequentialNumber (number parent : UInt64)
  | parentHashMismatch (number : UInt64)
  | timestampOrder (timestamp parent : UInt64)
  | gasUsedOverLimit (gasUsed gasLimit : UInt64)
  | extraDataTooLong (length : Nat)
  | extraDataTooShort (length : Nat)
  | difficultyTooLow (difficulty : U256) (minimum : UInt64)
  | difficultyOutOfBounds (difficulty parent : U256)
  | invalidCliqueDifficulty (difficulty : U256)
  | periodViolation (timestamp earliest : UInt64)
  deriving DecidableEq, Repr

def ConsensusError.message : ConsensusError → String
  | .nonSequentialNumber number parent =>
    s!"Block number {number} does not follow parent number {parent}"
  | .parentHashMismatch number => s!"Parent hash mismatch at block {number}"
  | .timestampOrder timestamp parent =>
    s!"Timestamp {timestamp} is not after parent timestamp {parent}"
  | .gasUsedOverLimit gasUsed gasLimit => s!"Gas used {gasUsed} exceeds gas limit {gasLimit}"
  | .extraDataTooLong length => s!"Extra data too long: {length} bytes"
  | .extraDataTooShort length => s!"Extra data too short: {length} bytes"
  | .difficultyTooLow difficulty minimum =>
    s!"Difficulty {difficulty.text} below minimum {minimum}"
  | .difficultyOutOfBounds difficulty parent =>
    s!"Difficulty {difficulty.text} out of bounds for parent difficulty {parent.text}"
  | .invalidCliqueDifficulty difficulty => s!"Invalid clique difficulty {difficulty.text}"
  | .periodViolation timestamp earliest =>
    s!"Block period violated: {timestamp} is earlier than {earliest}"

namespace Engine

def minimumDifficulty : UInt64 := 131072

def default : Engine := .ethash minimumDifficulty

def defaultClique : Engine := .clique 15 30000

def maxExtraData : Nat := 32

/-- A vanity text before the signer's seal. -/
def minCliqueExtraData : Nat := 32 + 65

def difficultyDivisor : BitVec 256 := 2048#256

/-- The longest step the difficulty may take, in units of the divided parent difficulty. -/
def maxDifficultySteps : BitVec 256 := 99#256

def name : Engine → String
  | .ethash _ => "ethash"
  | .clique _ _ => "clique"

/-- The beneficiary; a clique signer would have to be recovered from the seal. -/
def author (e : Engine) (h : Header) : Option Address :=
  match e with
  | .ethash _ => some h.coinbase
  | .clique _ _ => none

def apis (e : Engine) : List String := [e.name]

/-- No number follows the greatest one. -/
def succ? (n : UInt64) : Option UInt64 := if n + 1 = 0 then none else some (n + 1)

def checkLink (h parent : Header) : Except ConsensusError Unit :=
  if succ? parent.number ≠ some h.number then
    .error (.nonSequentialNumber h.number parent.number)
  else if h.parentHash ≠ parent.hash then .error (.parentHashMismatch h.number)
  else if h.gasUsed > h.gasLimit then .error (.gasUsedOverLimit h.gasUsed h.gasLimit)
  else .ok ()

/-- Dividing first keeps the product within 256 bits. -/
def maxDifficultyChange (parent : Header) : BitVec 256 :=
  parent.difficulty.bits / difficultyDivisor * maxDifficultySteps

def difficultyChange (h parent : Header) : BitVec 256 :=
  if h.difficulty.bits > parent.difficulty.bits then h.difficulty.bits - parent.difficulty.bits
  else parent.difficulty.bits - h.difficulty.bits

def checkEthash (minimum : UInt64) (h parent : Header) : Except ConsensusError Unit :=
  if h.timestamp ≤ parent.timestamp then .error (.timestampOrder h.timestamp parent.timestamp)
  else if h.extraData.length > maxExtraData then .error (.extraDataTooLong h.extraData.length)
  else if h.difficulty.toNat < minimum.toNat then .error (.difficultyTooLow h.difficulty minimum)
  else if difficultyChange h parent > maxDifficultyChange parent then
    .error (.difficultyOutOfBounds h.difficulty parent.difficulty)
  else .ok ()

/-- The sum saturates: a period past the end of time is met only there. -/
def earliestTimestamp (period : UInt64) (parent : Header) : UInt64 :=
  let sum := parent.timestamp + period
  if sum < parent.timestamp then 0xffffffffffffffff else sum

def checkClique (period : UInt64) (h parent : Header) : Except ConsensusError Unit :=
  if h.timestamp < earliestTimestamp period parent then
    .error (.periodViolation h.timestamp (earliestTimestamp period parent))
  else if h.extraData.length < minCliqueExtraData then .error (.extraDataTooShort h.extraData.length)
  else if h.difficulty.toNat ≠ 2 ∧ h.difficulty.toNat ≠ 1 then
    .error (.invalidCliqueDifficulty h.difficulty)
  else .ok ()

def verifyHeader (e : Engine) (h parent : Header) : Except ConsensusError Unit :=
  match checkLink h parent with
  | .error err => .error err
  | .ok () =>
    match e with
    | .ethash minimum => checkEthash minimum h parent
    | .clique period _ => checkClique period h parent

end Engine
end ChainSync
