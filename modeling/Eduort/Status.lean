import Eduort.Base.Block
import Eduort.Base.Fold

/-!
# Status values and the ways a call ends

Models `include/eduort/status.h`, `src/status.cpp` and the early-return macros of
`include/eduort/macros.h`. A function whose only failures are error statuses returns
`StatusOr`; one that also reaches `std::abort`, raw memory or an unbounded loop returns
`Outcome`. Both are `Except`, so `EDUORT_ASSIGN_OR_RETURN` is the monadic bind.
-/

namespace Eduort

/-- Failure categories; `include/eduort/status.h:26`. -/
inductive ErrorCode where
  | kOk
  | kInvalidArgument
  | kModelLoad
  | kUnsupportedOperator
  | kShapeMismatch
  | kRuntime
  | kCudaUnavailable
  deriving DecidableEq, Repr

/-- Name for logging; `src/status.cpp:8`. -/
def errorCodeName : ErrorCode → String
  | .kOk => "OK"
  | .kInvalidArgument => "InvalidArgument"
  | .kModelLoad => "ModelLoad"
  | .kUnsupportedOperator => "UnsupportedOperator"
  | .kShapeMismatch => "ShapeMismatch"
  | .kRuntime => "Runtime"
  | .kCudaUnavailable => "CudaUnavailable"

/-- An error `Status`. `Status::Error` never stores `kOk`, so neither does this type. -/
structure Status where
  code : ErrorCode
  message : String
  code_ne_kOk : code ≠ .kOk
  deriving DecidableEq, Repr

/-- `Status::Error`: a contradictory `kOk` becomes `kRuntime`; `src/status.cpp:35`. -/
def Status.error (code : ErrorCode) (message : String) : Status :=
  if h : code = .kOk then
    { code := .kRuntime
      message := if message = "" then "Status::Error called with ErrorCode::kOk" else message
      code_ne_kOk := by decide }
  else
    { code := code, message := message, code_ne_kOk := h }

/-- `Status::ToString` on an error; `src/status.cpp:47`. -/
def Status.toString (s : Status) : String :=
  if s.message = "" then errorCodeName s.code else errorCodeName s.code ++ ": " ++ s.message

/-- A value or an error status; `include/eduort/status.h:77`. -/
abbrev StatusOr (α : Type) := Except Status α

/-- How a call can end without returning a value. -/
inductive Stop where
  /-- An error status is returned to the caller. -/
  | status (s : Status)
  /-- The process prints the message and calls `std::abort`. -/
  | abort (message : String)
  /-- `std::bad_alloc` leaves the call. -/
  | badAlloc
  /-- A memory access has no defined meaning. -/
  | fault (f : Base.Fault)
  /-- A loop has not exited within the iterations the model allows it. -/
  | stillRunning
  deriving DecidableEq, Repr

/-- The result of a call that may also stop the process. -/
abbrev Outcome (α : Type) := Except Stop α

/-- A `StatusOr` callee inside an `Outcome` caller: its error status is returned. -/
instance : MonadLift StatusOr Outcome where
  monadLift x := x.mapError Stop.status

/-- A memory access inside an `Outcome` caller: a fault ends the call. -/
instance : MonadLift (Except Base.Fault) Outcome where
  monadLift x := x.mapError Stop.fault

/-- The call returns an error status with this code. -/
def FailsWith {α : Type} (code : ErrorCode) (x : Outcome α) : Prop :=
  ∃ s : Status, x = .error (.status s) ∧ s.code = code

/-- A lifted callee succeeds exactly when the callee does. -/
@[simp] theorem monadLift_eq_ok {α : Type} {x : StatusOr α} {a : α} :
    (liftM x : Outcome α) = .ok a ↔ x = .ok a :=
  Base.mapError_eq_ok

/-- A lifted callee fails only with the callee's own error status. -/
@[simp] theorem monadLift_eq_error {α : Type} {x : StatusOr α} {stop : Stop} :
    (liftM x : Outcome α) = .error stop ↔ ∃ s, x = .error s ∧ .status s = stop :=
  Base.mapError_eq_error

end Eduort
