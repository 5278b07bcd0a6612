import Mathlib

/-!
Commit-reveal and the derivation of an outcome: HMAC digests scanned four bytes at a time
for a value below the largest multiple of the modulus. The loop over digests has no bound,
so it takes the number of digests it may request; an outcome is derived if some number is
enough, and then it does not depend on that number.
-/

namespace TheClub

abbrev Bytes := List UInt8

def SEED_BYTES : Nat := 32
def CHUNK_SPACE : Nat := 2 ^ 32

/-- The minimum needed to reproduce an outcome. -/
structure SeedMaterial where
  serverSeed : Bytes
  clientSeed : String
  nonce : Int
  deriving DecidableEq, Repr

def encode (s : String) : Bytes := s.toUTF8.toList

def message (clientSeed : String) (nonce : Int) (roundIndex : Nat) : Bytes :=
  if roundIndex = 0 then encode s!"{clientSeed}:{nonce}" else encode s!"{clientSeed}:{nonce}:r{roundIndex}"

/-- `int.from_bytes(block, "big")` of one four-byte block. -/
def fromBytes (a b c d : UInt8) : Nat := ((a.toNat * 256 + b.toNat) * 256 + c.toNat) * 256 + d.toNat

/-- The first block of `digest` below the limit, reduced modulo `modulus`. -/
def uniformBelow (digest : Bytes) (modulus : Nat) : Option Nat :=
  let limit := CHUNK_SPACE / modulus * modulus
  match digest with
  | a :: b :: c :: d :: rest =>
    let value := fromBytes a b c d
    if value < limit then some (value % modulus) else uniformBelow rest modulus
  | _ => none

section
variable (hmacSha256 : Bytes → Bytes → Bytes)

/-- The `while True` of `derive_outcome` from `roundIndex` on, for at most `fuel` digests. -/
def deriveOutcomeFrom (seed : SeedMaterial) (modulus : Nat) : Nat → Nat → Option Nat
  | 0, _ => none
  | fuel + 1, roundIndex =>
    let digest := hmacSha256 seed.serverSeed (message seed.clientSeed seed.nonce roundIndex)
    match uniformBelow digest modulus with
    | some result => some result
    | none => deriveOutcomeFrom seed modulus fuel (roundIndex + 1)

def deriveOutcome (fuel : Nat) (seed : SeedMaterial) (modulus : Nat) : Option Nat :=
  deriveOutcomeFrom hmacSha256 seed modulus fuel 0

/-- `derive_outcome(seed, modulus=modulus)` returns `outcome`. -/
def DerivesOutcome (seed : SeedMaterial) (modulus outcome : Nat) : Prop :=
  ∃ fuel, deriveOutcome hmacSha256 fuel seed modulus = some outcome

end

theorem uniformBelow_lt {digest : Bytes} {modulus r : Nat} (positive : 0 < modulus)
    (h : uniformBelow digest modulus = some r) : r < modulus := by
  fun_induction uniformBelow digest modulus with
  | case1 limit a b c d rest value below =>
    cases h
    exact Nat.mod_lt _ positive
  | case2 limit a b c d rest value above ih => exact ih h
  | case3 => cases h

variable {hmacSha256 : Bytes → Bytes → Bytes}

theorem deriveOutcomeFrom_lt {seed : SeedMaterial} {modulus fuel roundIndex r : Nat} (positive : 0 < modulus)
    (h : deriveOutcomeFrom hmacSha256 seed modulus fuel roundIndex = some r) : r < modulus := by
  induction fuel generalizing roundIndex with
  | zero => cases h
  | succ fuel ih =>
    simp only [deriveOutcomeFrom] at h
    split at h
    · rename_i found
      cases h
      exact uniformBelow_lt positive found
    · exact ih h

theorem derivesOutcome_lt {seed : SeedMaterial} {modulus r : Nat} (positive : 0 < modulus)
    (h : DerivesOutcome hmacSha256 seed modulus r) : r < modulus := by
  obtain ⟨fuel, h⟩ := h
  exact deriveOutcomeFrom_lt positive h

end TheClub
