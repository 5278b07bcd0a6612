import TheClub.Repositories

/-! Provably fair use cases: look up the active seed, rotate it. -/

namespace TheClub

def CLIENT_SEED_BYTES : Nat := 16

/-- `hash_seed(server_seed)`. -/
def hashSeed (platform : Platform) (serverSeed : Bytes) : String := platform.sha256Hex serverSeed

def newServerSeed : Prog Bytes := perform (.tokenBytes SEED_BYTES)

def generateClientSeed : Prog String := perform (.tokenHex CLIENT_SEED_BYTES)

structure CurrentSeedView where
  serverSeedHash : String
  clientSeed : String
  nonce : Nat
  deriving DecidableEq, Repr

structure RotateSeedView where
  revealedServerSeed : String
  revealedServerSeedHash : String
  newServerSeedHash : String
  newClientSeed : String
  deriving DecidableEq, Repr

/-- The user's active seed pair, which registration created. -/
def requireActiveSeedPair (platform : Platform) (userId : Id) : Prog SeedPair := do
  match ← SeedPairRepository.getActiveByUserId userId with
  | some seedPair => return seedPair
  | none => raise (.dataIntegrityError s!"user {platform.uuidText userId} has no active seed pair")

def getCurrentSeed (platform : Platform) (userId : Id) : Prog CurrentSeedView := do
  let seedPair ← requireActiveSeedPair platform userId
  return { serverSeedHash := seedPair.serverSeedHash, clientSeed := seedPair.clientSeed, nonce := seedPair.nonce }

/-- Reveals the active server seed and activates a new one. -/
def rotateSeed (platform : Platform) (userId : Id) : Prog RotateSeedView := do
  let current ← requireActiveSeedPair platform userId
  SeedPairRepository.revealAndDeactivate current.id
  let newSeed ← newServerSeed
  let clientSeed ← generateClientSeed
  let newPair ← SeedPairRepository.createActive userId newSeed (hashSeed platform newSeed) clientSeed
  return {
    revealedServerSeed := hex current.serverSeed
    revealedServerSeedHash := current.serverSeedHash
    newServerSeedHash := newPair.serverSeedHash
    newClientSeed := newPair.clientSeed }

end TheClub
