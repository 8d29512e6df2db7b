import DshKernel.Session.Event

/-!
# The registry of tools

What a scope sees of the registered tools: the layers along its chain, their restrictions, and the
presentation mode, under which a call of the model may name the code transport only.
-/

namespace DshKernel.Tools

open Js Session

/-- A registered definition, as far as its calls depend on it. Its callbacks are other code, known
by the key of the definition. -/
structure ToolDefinition where
  key : Nat
  name : String
  outputSchema : Json
  presentationMeta : Bool := false
  finalizeContent : Bool := false

inductive ToolPresentationMode where
  | native
  | ptc
  | both
  deriving DecidableEq, Repr

/-- `CompiledToolRestriction` -/
structure ToolRestriction where
  allow : Option (List String) := none
  deny : Option (List String) := none

structure ToolLayer where
  tools : List (String × ToolDefinition) := []
  restrictions : List ToolRestriction := []
  mode : Option ToolPresentationMode := none

def ToolLayer.admits (layer : ToolLayer) (name : String) : Bool :=
  layer.restrictions.all fun filter =>
    filter.allow.all (·.contains name) && !filter.deny.any (·.contains name)

structure Registry where
  globalLayer : ToolLayer := {}
  scopedLayers : List (Nat × ToolLayer) := []
  defaultMode : ToolPresentationMode := .native
  transport : ToolDefinition

/-- The parents of a scope, the farthest first, and the scope itself. A call without an agent has
none. -/
abbrev Scope := List Nat

def runCodeName : String := "run_code"

namespace Registry

variable (registry : Registry)

def chainLayers (scope : Scope) : List ToolLayer :=
  scope.filterMap fun key => registry.scopedLayers.lookup key

def peek (scope : Scope) : Option ToolLayer :=
  scope.getLast?.bind fun key => registry.scopedLayers.lookup key

def modeFor (scope : Scope) : ToolPresentationMode :=
  ((registry.chainLayers scope).reverse.findSome? (·.mode)).getD registry.defaultMode

def inherited (scope : Scope) (name : String) : Option ToolDefinition :=
  ((registry.chainLayers scope.dropLast).reverse.findSome? (·.tools.lookup name)).or
    (registry.globalLayer.tools.lookup name)

/-- `view(scope).visible.get(name)` -/
def get (name : String) (scope : Scope) : Option ToolDefinition :=
  if registry.modeFor scope ≠ .native ∧ name = runCodeName then some registry.transport
  else
    ((registry.peek scope).bind (·.tools.lookup name)).or
      (if (registry.chainLayers scope).all (·.admits name) then registry.inherited scope name else none)

def collapses (name : String) (scope : Scope) (nested : Bool) : Bool :=
  !nested && registry.modeFor scope = .ptc && name ≠ runCodeName

def resolveExecution (name : String) (scope : Scope) (nested : Bool) : Option ToolDefinition :=
  match registry.get name scope with
  | none => none
  | some tool => if registry.collapses name scope nested then none else some tool

end Registry

end DshKernel.Tools
