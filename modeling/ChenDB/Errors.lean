/-
  The exceptions the engine raises, one constructor for each
  exception class, carrying the text of its message. Of those
  that Python itself raises, the ones that get out of it.
-/

--
-- Engine Errors
--

namespace ChenDB

inductive EngineError where
  | valueError (message : String)
  | fileNotFound (message : String)
  | corruptDatabase (message : String)
  | corruptPage (message : String)
  | checksumMismatch (message : String)
  | pageNotFound (message : String)
  | recordTooLarge (message : String)
  | recordNotFound (message : String)
  | indexError (message : String)
  | keyError (message : String)
  | catalogError (message : String)
  | schemaError (message : String)
  | transactionError (message : String)
  | lockTimeout (message : String)
  | deadlock (message : String)
  | evaluationError (message : String)
  | overflowError (message : String)
  | structError (message : String)
  | indexingError (message : String)
  | serializationError (message : String)
  | uniqueViolation (message : String)
  | chenDBError (message : String)
deriving DecidableEq, Repr

end ChenDB
