import TheClub.Services.Roulette

/-!
The request models of the two endpoints that take an Idempotency-Key. The JSON parser and the
conversions of single values come from libraries, which are parameters.
-/

namespace TheClub
open Roulette

/-- The library functions behind a request model; `none` is a validation error. -/
structure BodyParser where
  Value : Type
  /-- `json.loads`. -/
  loads : Bytes → Option Value
  /-- The entries of a dict. -/
  dict : Value → Option (List (String × Value))
  list : Value → Option (List Value)
  int : Value → Option Int
  betType : Value → Option BetType
  selection : Value → Option Selection

variable (parser : BodyParser)

def MAX_BETS_PER_ROUND : Nat := 20

/-- The entries of a dict under `extra="forbid"`: none but the fields of the model. -/
def onlyFields (fields : List String) (value : parser.Value) : Option (List (String × parser.Value)) := do
  let entries ← parser.dict value
  guard (entries.all fun entry => entry.1 ∈ fields)
  return entries

/-- `BetInput`. -/
def betInput (value : parser.Value) : Option BetRequest := do
  let entries ← onlyFields parser ["bet_type", "selection", "stake_minor"] value
  let betType ← entries.lookup "bet_type" >>= parser.betType
  let selection ← entries.lookup "selection" >>= parser.selection
  let stakeMinor ← entries.lookup "stake_minor" >>= parser.int
  guard (0 < stakeMinor)
  return { betType, selection, stakeMinor }

/-- The bets of a `PlaceRoundRequest`. -/
def placeRoundRequest (body : Bytes) : Option (List BetRequest) := do
  let entries ← parser.loads body >>= onlyFields parser ["bets"]
  let bets ← entries.lookup "bets" >>= parser.list
  guard (1 ≤ bets.length ∧ bets.length ≤ MAX_BETS_PER_ROUND)
  bets.mapM (betInput parser)

/-- The amount of a `DepositRequest`. -/
def depositRequest (body : Bytes) : Option Int := do
  let entries ← parser.loads body >>= onlyFields parser ["amount_minor"]
  let amountMinor ← entries.lookup "amount_minor" >>= parser.int
  guard (0 < amountMinor ∧ amountMinor ≤ MAX_DEPOSIT_MINOR)
  return amountMinor

variable {parser}

/-- A body that a model accepts is a dict in which every field is one of the model's. -/
theorem onlyFields_lookup {fields : List String} {value : parser.Value} {entries : List (String × parser.Value)}
    (accepted : onlyFields parser fields value = some entries) {field : String} {v : parser.Value}
    (found : entries.lookup field = some v) : parser.dict value = some entries ∧ field ∈ fields := by
  simp only [onlyFields, Option.bind_eq_bind, Option.bind_eq_some_iff] at accepted
  obtain ⟨known, parsed, _, all, same⟩ := accepted
  obtain rfl := Option.some.inj same
  refine ⟨parsed, ?_⟩
  obtain ⟨front, back, rfl, -⟩ := List.lookup_eq_some_iff.mp found
  have checked := List.all_eq_true.mp ((Option.guard_eq_some' _).mp all) (field, v) (by simp)
  simpa using checked

theorem betInput_stake {value : parser.Value} {bet : BetRequest} (accepted : betInput parser value = some bet) :
    0 < bet.stakeMinor := by
  simp only [betInput, Option.bind_eq_bind, Option.bind_eq_some_iff] at accepted
  obtain ⟨entries, -, betType, -, selection, -, stakeMinor, -, _, positive, same⟩ := accepted
  obtain rfl := Option.some.inj same
  exact (Option.guard_eq_some' _).mp positive

theorem betInputs_stakes {values : List parser.Value} {bets : List BetRequest}
    (accepted : values.mapM (betInput parser) = some bets) :
    bets.length = values.length ∧ ∀ bet ∈ bets, 0 < bet.stakeMinor := by
  induction values generalizing bets with
  | nil =>
    cases accepted
    exact ⟨rfl, by simp⟩
  | cons value values ih =>
    simp only [List.mapM_cons, Option.bind_eq_bind, Option.bind_eq_some_iff] at accepted
    obtain ⟨bet, first, rest, others, same⟩ := accepted
    obtain rfl := Option.some.inj same
    obtain ⟨length, stakes⟩ := ih others
    exact ⟨by rw [List.length_cons, List.length_cons, length], by simpa using ⟨betInput_stake first, stakes⟩⟩

/-- An accepted slip has a bet, and every bet has a stake. -/
theorem placeRoundRequest_bets {body : Bytes} {bets : List BetRequest}
    (accepted : placeRoundRequest parser body = some bets) :
    bets ≠ [] ∧ ∀ bet ∈ bets, 0 < bet.stakeMinor := by
  simp only [placeRoundRequest, Option.bind_eq_bind, Option.bind_eq_some_iff] at accepted
  obtain ⟨entries, -, values, -, _, few, parsed⟩ := accepted
  obtain ⟨length, stakes⟩ := betInputs_stakes parsed
  refine ⟨?_, stakes⟩
  rintro rfl
  have many := ((Option.guard_eq_some' _).mp few).1
  rw [← length] at many
  exact absurd many (by decide)

/-- No body is accepted by both models. -/
theorem bodies_disjoint {body : Bytes} {bets : List BetRequest} {amountMinor : Int}
    (round : placeRoundRequest parser body = some bets) : depositRequest parser body ≠ some amountMinor := by
  intro deposit
  simp only [placeRoundRequest, Option.bind_eq_bind, Option.bind_eq_some_iff] at round
  simp only [depositRequest, Option.bind_eq_bind, Option.bind_eq_some_iff] at deposit
  obtain ⟨entries, ⟨value, loaded, accepted⟩, items, ⟨listed, found, -⟩, -⟩ := round
  obtain ⟨entries', ⟨value', loaded', accepted'⟩, amount, ⟨v, found', -⟩, -⟩ := deposit
  cases loaded.symm.trans loaded'
  obtain ⟨parsed, -⟩ := onlyFields_lookup accepted found
  obtain ⟨parsed', -⟩ := onlyFields_lookup accepted' found'
  cases parsed.symm.trans parsed'
  obtain ⟨-, member⟩ := onlyFields_lookup accepted found'
  simp at member

end TheClub
