import DshKernel.Lib.PrefixFold
import DshKernel.Projection.Registry
import Mathlib.Data.List.Basic

/-!
# Restoring from checkpoints

A restore that reads the log from the floor gives every unit the fold of the whole log,
whichever rows it could use.
-/

namespace DshKernel.Projection

open Js Session Lib

variable {σ ν : Type} {definition : Definition σ ν} {session : LiveSession}
variable {checkpoint : Checkpoint σ} {definitions : List (Definition σ ν)} {floor : Nat}

section Floor

end Floor

section Unit

variable {row : CheckpointRow σ}

end Unit

section Units

variable {other : Checkpoint σ}

end Units

end DshKernel.Projection
