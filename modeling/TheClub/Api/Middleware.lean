import TheClub.Api.Asgi

/-!
The middlewares of `create_app`: the limit on the declared body size, the answer to an exception
that no handler is registered for, the request id with the canonical line, and around them all the
one that starlette adds.
-/

namespace TheClub.Api
open ReadCommitted Program

variable {W : Signature}

/-! ### MaxBodySizeMiddleware -/

/-- `dict(headers).get(name)`: the last of several headers of one name counts. -/
def getHeader (headers : List Header) (name : Bytes) : Option Bytes :=
  (headers.reverse.find? fun header => header.1 = name).map Prod.snd

/-- The whitespace that `int` strips. -/
def isSpace (b : UInt8) : Bool := b = 32 || (9 ≤ b && b ≤ 13)

/-- Decimal digits with single underscores between them; `after` tells whether a digit stands before. -/
def digitsFrom (after : Bool) : Bytes → Option (List Nat)
  | [] => if after then some [] else none
  | b :: rest =>
    if 48 ≤ b && b ≤ 57 then (fun digits => (b.toNat - 48) :: digits) <$> digitsFrom true rest
    else if b = 95 && after then digitsFrom false rest
    else none

/-- `sys.get_int_max_str_digits()` -/
def INT_MAX_STR_DIGITS : Nat := 4300

/-- `int(value)` of bytes; `none` where it raises `ValueError`. -/
def parseInt (value : Bytes) : Option Int := do
  let stripped := ((value.dropWhile isSpace).reverse.dropWhile isSpace).reverse
  let (negative, unsigned) := match stripped with
    | 43 :: rest => (false, rest)
    | 45 :: rest => (true, rest)
    | rest => (false, rest)
  let digits ← digitsFrom false unsigned
  if digits.length > INT_MAX_STR_DIGITS then none
  else
    let n : Nat := digits.foldl (fun n d => 10 * n + d) 0
    some (if negative then -n else n)

def maxBodySizeMiddleware (maxBodyBytes : Int) (app : App W) : App W := fun scope =>
  if scope.type ≠ .http then app scope
  else match getHeader scope.headers (encode "content-length") with
    | none => app scope
    | some contentLength => match parseInt contentLength with
      | none => Program.raise .valueError
      | some n =>
        if n > maxBodyBytes then do
          send (.httpResponseStart 413 [(encode "content-type", encode "application/json")])
          send (.httpResponseBody (encode "\x7b\"detail\":\"request body too large\"\x7d") false)
        else app scope

/-! ### UnhandledExceptionMiddleware -/

/-- The `send_wrapper` that notes whether a response has been started. -/
def watchingStart : Layer (asgi W) (asgi W) where
  State := Bool
  serve responseStarted c := match c with
    | .send (.httpResponseStart status headers) =>
      (fun r => (r, true)) <$> (send (.httpResponseStart status headers)).attempt
    | c => (fun r => (r, responseStarted)) <$> (Program.perform (S := asgi W) c).attempt

def handleUnexpectedError (scope : Scope) : Program (asgi W) Unit := do
  Program.perform (S := asgi W) (.logUnhandled scope.path)
  jsonResponse 500 (encode "\x7b\"detail\":\"internal error\"\x7d")

def unhandledExceptionMiddleware (app : App W) : App W := fun scope =>
  if scope.type ≠ .http then app scope
  else do
    let (result, responseStarted) ← (app scope).under watchingStart false
    match result with
    | .ok () => return ()
    | .error e =>
      if Raised.isException e && !responseStarted then handleUnexpectedError scope
      else Program.raise e

/-! ### RequestContextMiddleware -/

/-- `line[key] = value` -/
def setItem (line : Dict) (key : String) (value : Json) : Dict :=
  if line.any (fun item => item.1 = key) then line.map fun item => if item.1 = key then (key, value) else item
  else line ++ [(key, value)]

/-- `line.update(fields)` -/
def update (line fields : Dict) : Dict := fields.foldl (fun line item => setItem line item.1 item.2) line

/-- The context variables and the status of a request. -/
structure RequestContext where
  userId : Option String
  fields : Dict
  statusCode : Option Nat

def statusText : Option Nat → String
  | none => "None"
  | some status => toString status

def statusJson : Option Nat → Json
  | none => .null
  | some status => .int status

/-- How ids and durations are rendered; `durationMs` is `round((ended - started) * 1000, 2)`. -/
structure Rendering where
  uuidText : Id → String
  durationMs : (started ended : Time) → Json

/-- The `send_wrapper` of an HTTP request, and the context variables in either scope. -/
def inContext (requestId : String) (scope : Scope) : Layer (asgi W) (asgi W) where
  State := RequestContext
  serve context c := match c with
    | .send (.httpResponseStart status headers) =>
      if scope.type = .http then
        (fun r => (r, { context with statusCode := some status })) <$>
          (send (.httpResponseStart status (headers ++ [(encode "x-request-id", encode requestId)]))).attempt
      else (fun r => (r, context)) <$> (send (.httpResponseStart status headers)).attempt
    | .setUserId userId => return (.ok (), { context with userId := some userId })
    | .bindCanonical fields => return (.ok (), { context with fields := update context.fields fields })
    | c => (fun r => (r, context)) <$> (Program.perform (S := asgi W) c).attempt

def canonicalLine (requestId : String) (scope : Scope) (durationMs : Json) (context : RequestContext) : Dict :=
  let line := update
    [("request_id", .str requestId), ("user_id", (context.userId.map Json.str).getD .null),
      ("type", .str scope.type.text), ("duration_ms", durationMs)] context.fields
  if scope.type = .http then
    setItem (setItem (setItem line "method" (.str scope.method)) "path" (.str scope.path))
      "status_code" (statusJson context.statusCode)
  else line

/-- `inherited` is what `user_id_var` holds where the server calls the application. -/
def requestContextMiddleware (rendering : Rendering) (inherited : Option String) (app : App W) : App W := fun scope =>
  if scope.type = .lifespan then app scope
  else do
    let id ← Program.perform (S := asgi W) .uuid4
    let requestId := rendering.uuidText id
    let startedAt ← Program.perform (S := asgi W) .monotonic
    let (result, context) ← (app scope).under (inContext requestId scope) ⟨inherited, [], none⟩
    let endedAt ← Program.perform (S := asgi W) .monotonic
    let durationMs := rendering.durationMs startedAt endedAt
    if scope.type = .http then do
      Program.perform (S := asgi W) (.incRequestsTotal scope.method scope.path (statusText context.statusCode))
      Program.perform (S := asgi W) (.observeDuration scope.method scope.path durationMs)
    Program.perform (S := asgi W) (.canonicalInfo (canonicalLine requestId scope durationMs context))
    match result with
    | .ok () => return ()
    | .error e => Program.raise e

/-! ### ServerErrorMiddleware -/

/-- What starlette documents of its `ServerErrorMiddleware`: an HTTP request is passed on; an `Exception` that leaves
the application before a response has been started is answered with a plain 500, and is raised again in any case. -/
structure ServesErrors (serverError : App W → App W) : Prop where
  http : ∀ app scope, scope.type = .http → ∃ headers body, (∀ header ∈ headers, header.1 ≠ encode "x-request-id") ∧
    serverError app scope = (do
      let (result, responseStarted) ← (app scope).under watchingStart false
      match result with
      | .ok () => return ()
      | .error e => do
        if Raised.isException e && !responseStarted then do
          send (.httpResponseStart 500 headers)
          send (.httpResponseBody body false)
        Program.raise e)

/-! ### create_app -/

/-- `add_middleware`: the one added last is called first. -/
def addMiddleware (userMiddleware : List (App W → App W)) (middleware : App W → App W) : List (App W → App W) :=
  middleware :: userMiddleware

/-- The application as the server calls it. `serverError`, `slowApi` and `cors` are the middlewares of starlette and
slowapi; `router` is what they wrap, the routes with the exception handlers. -/
def createApp (rendering : Rendering) (inherited : Option String) (maxRequestBodyBytes : Int)
    (serverError slowApi cors : App W → App W) (router : App W) : App W :=
  let userMiddleware := addMiddleware [] unhandledExceptionMiddleware
  let userMiddleware := addMiddleware userMiddleware slowApi
  let userMiddleware := addMiddleware userMiddleware cors
  let userMiddleware := addMiddleware userMiddleware (maxBodySizeMiddleware maxRequestBodyBytes)
  let userMiddleware := addMiddleware userMiddleware (requestContextMiddleware rendering inherited)
  -- `build_middleware_stack` puts `ServerErrorMiddleware` around them all
  serverError (userMiddleware.foldr (fun middleware app => middleware app) router)

end TheClub.Api
