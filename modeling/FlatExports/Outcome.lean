import FlatExports.Failure

/-!
Outcomes where failing is expected, such as probing one of several files.

An unsuccessful outcome holds either a failure, which `value` reports again, or
a plain value, which it is a misuse to ask past.
-/

namespace FlatExports

inductive Reason (ε : Type) where
  | failure (failure : Failure)
  | value (value : ε)
  deriving DecidableEq, Repr

abbrev Outcome (ε α : Type) := Except (Reason ε) α

namespace Outcome

variable {ε α β : Type}

/-- The first success, or the given outcome when there is none. -/
def first (outcomes : List (Except ε α)) (otherwise : Except ε α) : Except ε α :=
  match outcomes with
  | [] => otherwise
  | .ok value :: _ => .ok value
  | .error _ :: rest => first rest otherwise

/-- The value of a success; `showReason` writes a plain reason for the message. -/
def value (showReason : ε → String) : Outcome ε α → Except Failure α
  | .ok value => .ok value
  | .error (.failure failure) => .error failure
  | .error (.value reason) =>
      .error (.misused ("Called unwrap on Err: " ++ showReason reason))

/-- The reason of a failed outcome. -/
def reason (showValue : α → String) : Outcome ε α → Except Failure (Reason ε)
  | .ok value => .error (.misused ("Called unwrap_err on Ok: " ++ showValue value))
  | .error reason => .ok reason

end Outcome

end FlatExports
