import PwshPy.Text.PyStr

/-! # Raised errors

A Python exception as its class and its message. A message is an f-string: the
literal text, the values written out with `!r`, and the texts of errors that
come from outside the program.
-/

namespace PwshPy

inductive ErrorClass where
  | configurationError
  | platformUnsupportedError
  | nativeCallError
  | nativeAccessDeniedError
  | osError
  | unicodeEncodeError
  | packError
  | valueError
  | runtimeError
  | overflowError
  deriving DecidableEq

/-- One part of an f-string. -/
inductive Piece where
  | text (s : PyStr)
  /-- `{s!r}` -/
  | repr (s : PyStr)
  /-- `{exc}`: the text of the outside error with this number -/
  | exc (cause : Nat)
  deriving DecidableEq

structure PyError where
  cls : ErrorClass
  message : List Piece
  dbus_error_name : Option PyStr := none
  deriving DecidableEq

def configurationError (message : List Piece) : PyError := { cls := .configurationError, message }

def platformUnsupportedError (message : List Piece) : PyError :=
  { cls := .platformUnsupportedError, message }

def nativeCallError (message : List Piece) : PyError := { cls := .nativeCallError, message }

def packError (message : List Piece) : PyError := { cls := .packError, message }

def valueError (message : List Piece) : PyError := { cls := .valueError, message }

/-! ## Taking a computation that returned apart -/

namespace Raises

variable {ε α β : Type}

theorem bind_eq_ok {x : Except ε α} {f : α → Except ε β} {b : β} :
    (x >>= f) = .ok b ↔ ∃ a, x = .ok a ∧ f a = .ok b := by
  cases x <;> simp [bind, Except.bind]

theorem bind_eq_error {x : Except ε α} {f : α → Except ε β} {e : ε} :
    (x >>= f) = .error e ↔ x = .error e ∨ ∃ a, x = .ok a ∧ f a = .error e := by
  cases x <;> simp [bind, Except.bind]

theorem map_eq_ok {x : Except ε α} {f : α → β} {b : β} :
    (f <$> x) = .ok b ↔ ∃ a, x = .ok a ∧ f a = b := by
  cases x <;> simp [Functor.map, Except.map]

theorem ite_error_eq_ok {c : Prop} [Decidable c] {e : ε} {x : Except ε α} {a : α} :
    (if c then .error e else x) = .ok a ↔ ¬ c ∧ x = .ok a := by
  by_cases h : c <;> simp [h]

end Raises

end PwshPy
