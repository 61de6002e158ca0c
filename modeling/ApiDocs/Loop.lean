/-!
# Loops with a bound

A reader that takes something in each round of a loop cannot go round more often than there are
things to take, so the loop is written with that number as a bound.
-/

namespace ApiDocs

/-- What a round of a loop ends with: the state for the next round, or the result. -/
inductive Loop (σ α : Type) where
  | next (state : σ)
  | done (result : α)

namespace Loop

variable {ρ σ α : Type}

/-- Goes round at most `bound` times; `ρ` is what the reader reads from. -/
@[specialize]
def upTo (round : σ → StateT ρ Option (Loop σ α)) : (bound : Nat) → σ → StateT ρ Option α
  | 0, _ => failure
  | bound + 1, state => do
    match ← round state with
    | .next state => upTo round bound state
    | .done result => return result

end Loop

end ApiDocs
