import Mathlib

/-!
Table geometry. Numbers 1-36 sit on a grid of 3 rows and 12 columns; split, street, corner,
line and column are derived from the grid.
-/

namespace TheClub.Roulette

def POCKET_COUNT : Nat := 37

/-- `range(start, stop)`. -/
def range (start stop : Int) : List Int := (List.range (stop - start).toNat).map fun n => start + n

def RED_NUMBERS : Finset Int := {1, 3, 5, 7, 9, 12, 14, 16, 18, 19, 21, 23, 25, 27, 30, 32, 34, 36}
def BLACK_NUMBERS : Finset Int := (range 1 37).toFinset \ RED_NUMBERS

def ROWS : Int := 3
def COLS : Int := 12

/-- (row, column), both 1-indexed. -/
def position (number : Int) : Int × Int := ((number - 1) % ROWS + 1, (number - 1) / ROWS + 1)

def numberAt (row col : Int) : Int := (col - 1) * ROWS + row

inductive BetType where
  | straight | split | street | corner | line | dozen | column | red | black | odd | even | high | low
  deriving DecidableEq, Repr

/-- The string a bet type is stored and published as. -/
def BetType.value : BetType → String
  | .straight => "straight"
  | .split => "split"
  | .street => "street"
  | .corner => "corner"
  | .line => "line"
  | .dozen => "dozen"
  | .column => "column"
  | .red => "red"
  | .black => "black"
  | .odd => "odd"
  | .even => "even"
  | .high => "high"
  | .low => "low"

structure BetSpec where
  coverage : Nat
  payoutRatio : Int
  deriving DecidableEq, Repr

def BET_SPECS : BetType → BetSpec
  | .straight => { coverage := 1, payoutRatio := 35 }
  | .split => { coverage := 2, payoutRatio := 17 }
  | .street => { coverage := 3, payoutRatio := 11 }
  | .corner => { coverage := 4, payoutRatio := 8 }
  | .line => { coverage := 6, payoutRatio := 5 }
  | .dozen => { coverage := 12, payoutRatio := 2 }
  | .column => { coverage := 12, payoutRatio := 2 }
  | .red => { coverage := 18, payoutRatio := 1 }
  | .black => { coverage := 18, payoutRatio := 1 }
  | .odd => { coverage := 18, payoutRatio := 1 }
  | .even => { coverage := 18, payoutRatio := 1 }
  | .high => { coverage := 18, payoutRatio := 1 }
  | .low => { coverage := 18, payoutRatio := 1 }

/-- One grid column = 3 consecutive numbers. -/
def streets : List (Finset Int) :=
  (range 1 (COLS + 1)).map fun c => ((range 1 (ROWS + 1)).map fun r => numberAt r c).toFinset

/-- One grid row = the 12 numbers of a betting "column". -/
def columns : List (Finset Int) :=
  (range 1 (ROWS + 1)).map fun r => ((range 1 (COLS + 1)).map fun c => numberAt r c).toFinset

/-- Every 2x2 block of the grid. -/
def corners : List (Finset Int) :=
  (range 1 COLS).flatMap fun c => (range 1 ROWS).map fun r =>
    [numberAt r c, numberAt (r + 1) c, numberAt r (c + 1), numberAt (r + 1) (c + 1)].toFinset

/-- Two adjacent streets. -/
def lines : List (Finset Int) := List.zipWith (· ∪ ·) streets streets.tail

/-- Every pair of neighboring cells (sharing a side) in the grid. -/
def splits : List (Finset Int) :=
  (range 1 37).flatMap fun n =>
    let (r, c) := position n
    (if c < COLS then [[n, numberAt r (c + 1)].toFinset] else []) ++
      (if r < ROWS then [[n, numberAt (r + 1) c].toFinset] else [])

def VALID_STREETS : List (Finset Int) := streets
def VALID_CORNERS : List (Finset Int) := corners
def VALID_LINES : List (Finset Int) := lines
def VALID_SPLITS : List (Finset Int) := splits

/-- `DOZEN_BY_INDEX.get(index)`. -/
def DOZEN_BY_INDEX (index : Int) : Option (Finset Int) :=
  if index = 1 then some (range 1 13).toFinset
  else if index = 2 then some (range 13 25).toFinset
  else if index = 3 then some (range 25 37).toFinset
  else none

/-- `COLUMN_BY_INDEX.get(index)`: the columns enumerated from 1. -/
def COLUMN_BY_INDEX (index : Int) : Option (Finset Int) :=
  if 1 ≤ index then columns[(index - 1).toNat]? else none

end TheClub.Roulette
