import AgenticRag.Retrieval.Domain
import AgenticRag.Security.Authentication
import AgenticRag.Services.UploadMachine

/-! What a request raises, and the public error that the exception handlers make of it. -/
namespace AgenticRag.Api
open Lib Python Db Security Retrieval Services

/-- An application error of the services, an error that nothing maps, or the cancellation of the
request's task. -/
inductive ApiRaised where
  | app (error : AppException)
  | authentication (error : AuthenticationException)
  | retrievalInvalidRequest
  | retrievalUnavailable
  | retrieval (error : RetrievalException)
  | databaseUnavailable
  | database
  | unexpected
  | cancelled
  deriving DecidableEq

/-- `NotFoundError` without a message of its own. -/
def notFoundError : ApiRaised := .app (.notFound "The requested resource was not found.")

def ofUpload : UploadRaised → ApiRaised
  | .app e => .app e
  | .database => .database
  | .unexpected => .unexpected

/-- The status of a response with its `ErrorInfo`, the request id left out. -/
structure ErrorInfo where
  statusCode : Nat
  code : String
  message : String
  details : List (String × String) := []
  deriving DecidableEq

/-- `app_exception_handler`, for the errors of the knowledge services. -/
def appExceptionInfo : AppException → ErrorInfo
  | .forbidden => ⟨403, "FORBIDDEN", "The requested operation is not permitted.", []⟩
  | .notFound message => ⟨404, "NOT_FOUND", message, []⟩
  | .conflict message => ⟨409, "CONFLICT", message, []⟩
  | .invalidUpload message => ⟨400, "INVALID_UPLOAD", message, []⟩
  | .unsupportedMediaType =>
    ⟨415, "UNSUPPORTED_MEDIA_TYPE", "The uploaded file type is not supported.", []⟩
  | .uploadTooLarge =>
    ⟨413, "UPLOAD_TOO_LARGE", "The uploaded file exceeds the maximum allowed size.", []⟩
  | .serviceUnavailable message => ⟨503, "SERVICE_UNAVAILABLE", message, []⟩

/-- `unhandled_exception_handler`. -/
def unhandledExceptionInfo : ErrorInfo :=
  ⟨500, "INTERNAL_SERVER_ERROR", "An unexpected internal error occurred.", []⟩

/-- The response of the registered handlers; a cancelled request gets none. -/
def exceptionHandler : ApiRaised → Option ErrorInfo
  | .app e => some (appExceptionInfo e)
  | .authentication .authentication =>
    some ⟨401, "AUTHENTICATION_REQUIRED", "Authentication is required.", []⟩
  | .authentication .csrf => some ⟨403, "CSRF_VALIDATION_FAILED", "CSRF validation failed.", []⟩
  | .retrievalInvalidRequest =>
    some ⟨400, "RETRIEVAL_INVALID_REQUEST", "The retrieval request is invalid.", []⟩
  | .retrievalUnavailable =>
    some ⟨503, "RETRIEVAL_UNAVAILABLE", "Retrieval is temporarily unavailable.", []⟩
  | .databaseUnavailable =>
    some ⟨503, "DATABASE_UNAVAILABLE", "Database is unavailable.", [("database", "unhealthy")]⟩
  | .authentication _ | .retrieval _ | .database | .unexpected => some unhandledExceptionInfo
  | .cancelled => none

end AgenticRag.Api
