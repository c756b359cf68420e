/-! # Exceptions

The exceptions that the modeled Python code raises or lets through, without the texts that the
interpreter and its libraries attach to them. `diverges` is not one of them: it marks a `while`
loop that has not ended within the fuel its model gives it.
-/

namespace Python

inductive PyError where
  | keyError
  | valueError
  | typeError
  | overflowError
  | recursionError
  | validationError
  | operationalError
  | diverges
deriving DecidableEq, Repr

end Python
