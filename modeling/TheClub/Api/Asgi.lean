import TheClub.ReadCommitted.Served
import TheClub.Infra.Platform

/-!
The ASGI interface: scopes, messages and what an application does between a request and its
response. What the routes do apart from that are the commands of `W`.
-/

namespace TheClub.Api
open ReadCommitted

abbrev Header := Bytes × Bytes

inductive ScopeType where
  | http | websocket | lifespan
  deriving DecidableEq, Repr

def ScopeType.text : ScopeType → String
  | http => "http"
  | websocket => "websocket"
  | lifespan => "lifespan"

structure Scope where
  type : ScopeType
  method : String
  path : String
  headers : List Header

inductive AsgiMessage where
  | httpResponseStart (status : Nat) (headers : List Header)
  | httpResponseBody (body : Bytes) (moreBody : Bool)
  | other (type : String)

/-- What is raised: an `Exception` of the routes, a `ValueError`, or what is no `Exception`, as `CancelledError`. -/
inductive Raised (E : Type) where
  | exception (e : E)
  | valueError
  | cancelledError

/-- `isinstance(exc, Exception)` -/
def Raised.isException {E : Type} : Raised E → Bool
  | exception _ | valueError => true
  | cancelledError => false

inductive AsgiCmd (W : Signature) where
  | receive
  | send (message : AsgiMessage)
  /-- `user_id_var.set` -/
  | setUserId (userId : String)
  | bindCanonical (fields : Dict)
  /-- `uuid.uuid4`, `time.monotonic`, the canonical logger and the HTTP metrics. -/
  | uuid4
  | monotonic
  | canonicalInfo (line : Dict)
  | incRequestsTotal (method path statusCode : String)
  | observeDuration (method path : String) (durationMs : Json)
  /-- `logger.error("Unhandled exception at %s", ...)` -/
  | logUnhandled (path : String)
  | work (c : W.Cmd)

abbrev AsgiCmd.Ret {W : Signature} : AsgiCmd W → Type
  | receive => Dict
  | uuid4 => Id
  | monotonic => Time
  | work c => W.Ret c
  | _ => Unit

def asgi (W : Signature) : Signature where
  Cmd := AsgiCmd W
  Ret := AsgiCmd.Ret
  Err := Raised W.Err

abbrev App (W : Signature) := Scope → Program (asgi W) Unit

variable {W : Signature}

def send (message : AsgiMessage) : Program (asgi W) Unit := Program.perform (S := asgi W) (.send message)

/-- `await JSONResponse(status_code, content)(scope, receive, send)`, `body` being the rendered content. -/
def jsonResponse (statusCode : Nat) (body : Bytes) : Program (asgi W) Unit := do
  send (.httpResponseStart statusCode
    [(encode "content-length", encode (toString body.length)), (encode "content-type", encode "application/json")])
  send (.httpResponseBody body false)

end TheClub.Api
