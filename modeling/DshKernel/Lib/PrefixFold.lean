/-!
# Folds over prefixes

The state after the first events of a log. A log only grows at its end, so the state of a
prefix stays what it is.
-/

namespace DshKernel.Lib

variable {σ ε : Type} {step : σ → ε → σ} {start : σ} {events : List ε}

/-- The state after the first `count` events. -/
def foldUpTo (step : σ → ε → σ) (start : σ) (events : List ε) (count : Nat) : σ :=
  (events.take count).foldl step start

@[simp] theorem foldUpTo_zero : foldUpTo step start events 0 = start := rfl

end DshKernel.Lib
