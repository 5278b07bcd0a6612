import TheClub.Domain.Money
import TheClub.Domain.Roulette.Table

/-! Bet validation and the numbers a selection covers. -/

namespace TheClub.Roulette

inductive SelectionValue where
  | int (n : Int)
  | list (ns : List Int)
  deriving DecidableEq, Repr

/-- `dict[str, int | list[int]]`: every key once. -/
structure Selection where
  entries : List (String × SelectionValue)
  keys_nodup : (entries.map Prod.fst).Nodup := by decide
  deriving DecidableEq, Repr

def Selection.get (s : Selection) (key : String) : Option SelectionValue :=
  (s.entries.find? fun entry => entry.1 = key).map Prod.snd

/-- Why a bet is refused, with the data its message quotes. -/
inductive InvalidBetError where
  | selectionNotAccepted (betType : BetType) (selection : Selection)
  | numbersRequired (betType : BetType) (selection : Selection)
  | notOnTheTable (betType : BetType) (numbers : List Int)
  | indexRequired (betType : BetType) (selection : Selection)
  | wrongCurrency (stake table : String)
  | outOfBounds (stake min max : Int)
  | currencyMismatch (mismatch : CurrencyMismatch)
  deriving DecidableEq, Repr

structure PlacedBet where
  betType : BetType
  selection : Selection
  stake : Money
  deriving DecidableEq, Repr

/-- `_FIXED_SELECTIONS.get(bet_type)`. -/
def FIXED_SELECTIONS : BetType → Option (Finset Int)
  | .red => some RED_NUMBERS
  | .black => some BLACK_NUMBERS
  | .odd => some ((range 1 37).filter fun n => n % 2 = 1).toFinset
  | .even => some ((range 2 37).filter fun n => (n - 2) % 2 = 0).toFinset
  | .high => some (range 19 37).toFinset
  | .low => some (range 1 19).toFinset
  | _ => none

/-- `_NUMBERS_SELECTIONS.get(bet_type)`. -/
def NUMBERS_SELECTIONS : BetType → Option (List (Finset Int))
  | .straight => some ((range 0 37).map fun n => {n})
  | .split => some VALID_SPLITS
  | .street => some VALID_STREETS
  | .corner => some VALID_CORNERS
  | .line => some VALID_LINES
  | _ => none

/-- `_INDEX_SELECTIONS.get(bet_type)`. -/
def INDEX_SELECTIONS : BetType → Option (Int → Option (Finset Int))
  | .dozen => some DOZEN_BY_INDEX
  | .column => some COLUMN_BY_INDEX
  | _ => none

/-- The numbers that make this bet win, or why the selection is not one. -/
def coveredNumbers (betType : BetType) (selection : Selection) : Except InvalidBetError (Finset Int) :=
  match FIXED_SELECTIONS betType with
  | some fixed =>
    if selection.entries ≠ [] then .error (.selectionNotAccepted betType selection) else .ok fixed
  | none =>
    match NUMBERS_SELECTIONS betType with
    | some figures =>
      match selection.get "numbers" with
      | some (.list numbers) =>
        let candidate := numbers.toFinset
        if candidate ∈ figures then .ok candidate else .error (.notOnTheTable betType numbers)
      | _ => .error (.numbersRequired betType selection)
    | none =>
      match INDEX_SELECTIONS betType, selection.get "index" with
      | some byIndex, some (.int index) =>
        match byIndex index with
        | some numbers => .ok numbers
        | none => .error (.indexRequired betType selection)
      | _, _ => .error (.indexRequired betType selection)

/-- Shape and table limits. -/
def validateBet (bet : PlacedBet) (minBet maxBet : Money) : Except InvalidBetError Unit := do
  if bet.stake.currency ≠ minBet.currency then
    throw (.wrongCurrency bet.stake.currency minBet.currency)
  let below ← (bet.stake.lt minBet).mapError .currencyMismatch
  let above ← if below then pure true else (maxBet.lt bet.stake).mapError .currencyMismatch
  if above then
    throw (.outOfBounds bet.stake.minor minBet.minor maxBet.minor)
  let _ ← coveredNumbers bet.betType bet.selection
  return ()

end TheClub.Roulette
