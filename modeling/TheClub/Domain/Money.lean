import Mathlib

/-! Money as integers in minor units, with the currency check of every operation. -/

namespace TheClub

/-- `ValueError("can't operate … with …")`: two amounts in different currencies. -/
structure CurrencyMismatch where
  left : String
  right : String
  deriving DecidableEq, Repr

structure Money where
  minor : Int
  currency : String := "EUR"
  deriving DecidableEq, Repr

namespace Money

def zero (currency : String) : Money := { minor := 0, currency }

def checkSameCurrency (a b : Money) : Except CurrencyMismatch Unit :=
  if a.currency ≠ b.currency then .error ⟨a.currency, b.currency⟩ else .ok ()

def mul (a : Money) (factor : Int) : Money := { minor := a.minor * factor, currency := a.currency }

/-- `a < b`. -/
def lt (a b : Money) : Except CurrencyMismatch Bool := do
  checkSameCurrency a b
  return a.minor < b.minor

theorem lt_of_same {a b : Money} (same : a.currency = b.currency) : a.lt b = .ok (decide (a.minor < b.minor)) := by
  simp [lt, checkSameCurrency, same, bind, Except.bind, pure, Except.pure]

end Money

end TheClub
