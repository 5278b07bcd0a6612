import TheClub.Api.Middleware

/-!
One request, one response: what the stack of `create_app` sends for an HTTP request, whatever the
routes do, answer or raise. The request id is on the response, and one canonical line tells its status,
unless `Content-Length` is no number: such a request is logged without one and answered after that.
-/

namespace TheClub.Api
open ReadCommitted Program

variable {W : Signature}

/-- How far the response to a request has come. A failed `send` counts as sent. -/
inductive ResponseState where
  | unstarted
  | started (status : Nat)
  | complete (status : Nat)
  deriving DecidableEq, Repr

namespace ResponseState

def status : ResponseState → Option Nat
  | unstarted => none
  | started status | complete status => some status

def next (response : ResponseState) : AsgiMessage → ResponseState
  | .httpResponseStart status _ => .started status
  | .httpResponseBody _ moreBody => match response with
    | .started status => if moreBody then response else .complete status
    | _ => response
  | .other _ => response

/-- A response is started once, and its body follows the start. -/
def Sends (response : ResponseState) : AsgiMessage → Prop
  | .httpResponseStart _ _ => response = .unstarted
  | .httpResponseBody _ _ => ∃ status, response = .started status
  | .other _ => True

end ResponseState

/-- Reading, sending and the work of the routes may raise; logging, the clock and the metrics do not. -/
def answers (c : AsgiCmd W) (r : Except (Raised W.Err) c.Ret) : Prop :=
  match c with
  | .receive | .send _ | .work _ => True
  | _ => ∃ a, r = .ok a

/-- What an application does about its response; `reads` tells whether it may read the request and do its work.
The request id, the canonical line and the HTTP metrics are not its business. -/
def responding (reads : Prop) : Protocol (asgi W) where
  Ghost := ResponseState
  start := .unstarted
  allowed := fun response c => match c with
    | .send message => response.Sends message
    | .receive | .work _ => reads
    | .uuid4 | .canonicalInfo _ | .incRequestsTotal .. | .observeDuration .. => False
    | _ => True
  possible := answers
  next := fun response c _ => match c with
    | .send message => response.next message
    | _ => response
  died := id

/-- An application that has completed a response when it returns. -/
def Responds (app : App W) : Prop :=
  ∀ scope, scope.type = .http → (app scope).Follows (responding True) (fun response r =>
    r = .ok () → ∃ status, response = .complete status) .unstarted

/-- An application that has, moreover, started a response when an exception leaves it. -/
def Answers (app : App W) : Prop :=
  ∀ scope, scope.type = .http → (app scope).Follows (responding True) (fun response r =>
    (r = .ok () → ∃ status, response = .complete status) ∧
    ∀ e, r = .error e → e.isException → response ≠ .unstarted) .unstarted

/-! ### UnhandledExceptionMiddleware -/

theorem jsonResponse_follows {reads : Prop} (status : Nat) (body : Bytes) :
    (jsonResponse status body : Program (asgi W) Unit).Follows (responding reads) (fun response r =>
      (r = .ok () → response = .complete status) ∧ response ≠ .unstarted) .unstarted := by
  refine ⟨rfl, fun r _ => ?_⟩
  cases r with
  | error e => exact ⟨nofun, nofun⟩
  | ok u => exact ⟨⟨status, rfl⟩, fun r _ => ⟨fun _ => rfl, nofun⟩⟩

theorem body_unstarted (response : ResponseState) (body : Bytes) (moreBody : Bool) :
    response.next (.httpResponseBody body moreBody) = .unstarted ↔ response = .unstarted := by
  cases response <;> cases moreBody <;> simp [ResponseState.next]

/-- Under a wrapped `send` that notes starts an application follows the protocol it follows without, and a start has
been noted exactly when there is one. -/
theorem watchingStart_carries {P : Protocol (asgi W)} (response : P.Ghost → ResponseState)
    (next : ∀ g (c : AsgiCmd W) r, response (P.next g c r) = match c with
      | .send message => (response g).next message
      | _ => response g) :
    Carries watchingStart P P fun (responseStarted : Bool) g g' =>
      g' = g ∧ (responseStarted = true ↔ response g ≠ .unstarted) := by
  rintro responseStarted g _ c ⟨rfl, noted⟩ allowed
  cases c with
  | send message =>
    cases message with
    | httpResponseStart status headers =>
      refine ⟨allowed, fun r answer => ⟨r, true, rfl, answer, rfl, ?_⟩⟩
      rw [next]
      exact ⟨fun _ => nofun, fun _ => rfl⟩
    | httpResponseBody body moreBody =>
      refine ⟨allowed, fun r answer => ⟨r, responseStarted, rfl, answer, rfl, ?_⟩⟩
      rw [next, noted]
      exact not_congr (body_unstarted _ body moreBody).symm
    | other type =>
      refine ⟨allowed, fun r answer => ⟨r, responseStarted, rfl, answer, rfl, ?_⟩⟩
      rw [next]
      exact noted
  | _ =>
    refine ⟨allowed, fun r answer => ⟨r, responseStarted, rfl, answer, rfl, ?_⟩⟩
    rw [next]
    exact noted

/-- What a middleware asks in its `except` branch is whether an `Exception` left a response unstarted. -/
theorem unanswered_iff {response : ResponseState} {responseStarted : Bool}
    (noted : responseStarted = true ↔ response ≠ .unstarted) (e : Raised W.Err) :
    (e.isException && !responseStarted) = true ↔ e.isException = true ∧ response = .unstarted := by
  rw [Bool.and_eq_true, Bool.not_eq_true', Bool.eq_false_iff, ne_eq, noted, not_ne_iff]

theorem unhandled_answers {router : App W} (responds : Responds router) :
    Answers (unhandledExceptionMiddleware router) := by
  intro scope http
  unfold unhandledExceptionMiddleware
  rw [if_neg (not_not_intro http)]
  have start : false = true ↔ ResponseState.unstarted ≠ .unstarted := by decide
  have watched := (watchingStart_carries id fun g c r => by cases c <;> rfl).follows (responds scope http)
    ⟨rfl, start⟩
  refine follows_bind.mpr (watched.mono fun response r ended => ?_)
  obtain ⟨result, (responseStarted : Bool), _, rfl, ⟨rfl, noted⟩, completes⟩ := ended
  cases result with
  | ok u => exact ⟨fun _ => completes rfl, nofun⟩
  | error e =>
    change (if Raised.isException e && !responseStarted then handleUnexpectedError scope
      else Program.raise e).Follows _ _ _
    split
    · rename_i unanswered
      obtain ⟨_, rfl⟩ := (unanswered_iff noted e).mp unanswered
      refine ⟨trivial, ?_⟩
      rintro _ ⟨u, rfl⟩
      exact (jsonResponse_follows 500 _).mono fun response r ended =>
        ⟨fun done => ⟨500, ended.1 done⟩, fun _ _ _ => ended.2⟩
    · rename_i answered
      refine ⟨nofun, fun e' same exception unstarted => answered ?_⟩
      cases same
      exact (unanswered_iff noted e).mpr ⟨exception, unstarted⟩

/-! ### MaxBodySizeMiddleware -/

/-- What the header declares the length of the body to be, `some none` if it is no number. -/
def declaredLength (scope : Scope) : Option (Option Int) :=
  (getHeader scope.headers (encode "content-length")).map parseInt

def Oversized (maxBodyBytes : Int) (scope : Scope) : Prop :=
  ∃ n, declaredLength scope = some (some n) ∧ maxBodyBytes < n

def Malformed (scope : Scope) : Prop := declaredLength scope = some none

/-- How a request ends below the canonical line. -/
structure Ended (maxBodyBytes : Int) (scope : Scope) (response : ResponseState) (r : Except (Raised W.Err) Unit) :
    Prop where
  returned : r = .ok () → ∃ status, response = .complete status
  raised : ∀ e, r = .error e → e.isException → response ≠ .unstarted ∨ Malformed scope
  oversized : Oversized maxBodyBytes scope → response.status = some 413
  malformed : Malformed scope → response = .unstarted ∧ r = .error .valueError

theorem not_malformed {scope : Scope} {n : Int} (declared : declaredLength scope = some (some n)) :
    ¬Malformed scope := by
  intro malformed
  cases declared.symm.trans malformed

variable {app : App W} {maxBodyBytes : Int} {scope : Scope}

theorem maxBodySize_ends (answers : Answers app) (http : scope.type = .http) :
    (maxBodySizeMiddleware maxBodyBytes app scope).Follows (responding (¬Oversized maxBodyBytes scope))
      (Ended maxBodyBytes scope) .unstarted := by
  have passes : ¬Oversized maxBodyBytes scope → ¬Malformed scope →
      (app scope).Follows (responding (¬Oversized maxBodyBytes scope)) (Ended maxBodyBytes scope) .unstarted := by
    intro fits sound
    rw [eq_true fits]
    exact (answers scope http).mono fun response r ended =>
      ⟨ended.1, fun e same exception => Or.inl (ended.2 e same exception), fun oversized => absurd oversized fits,
        fun malformed => absurd malformed sound⟩
  unfold maxBodySizeMiddleware
  rw [if_neg (not_not_intro http)]
  cases header : getHeader scope.headers (encode "content-length") with
  | none =>
    have undeclared : declaredLength scope = none := by rw [declaredLength, header, Option.map_none]
    refine passes (fun ⟨n, same, _⟩ => ?_) fun malformed => ?_
    · cases undeclared.symm.trans same
    · cases undeclared.symm.trans malformed
  | some contentLength =>
    have declared : declaredLength scope = some (parseInt contentLength) := by
      rw [declaredLength, header, Option.map_some]
    dsimp only
    cases parsed : parseInt contentLength with
    | none =>
      rw [parsed] at declared
      refine ⟨nofun, fun _ _ _ => Or.inr declared, fun ⟨n, same, _⟩ => ?_, fun _ => ⟨rfl, rfl⟩⟩
      cases declared.symm.trans same
    | some n =>
      rw [parsed] at declared
      have sound := not_malformed declared
      dsimp only
      split
      · refine ⟨rfl, fun r _ => ?_⟩
        cases r with
        | error e => exact ⟨nofun, fun _ _ _ => Or.inl nofun, fun _ => rfl, fun malformed => absurd malformed sound⟩
        | ok u =>
          exact ⟨⟨413, rfl⟩, fun r _ => ⟨fun _ => ⟨413, rfl⟩, fun _ _ _ => Or.inl nofun, fun _ => rfl,
            fun malformed => absurd malformed sound⟩⟩
      · rename_i fits
        refine passes (fun ⟨m, same, above⟩ => fits ?_) sound
        cases declared.symm.trans same
        exact above

/-! ### RequestContextMiddleware -/

theorem lookup_setItem_self (line : Dict) (key : String) (value : Json) :
    (setItem line key value).lookup key = some value := by
  unfold setItem
  split
  · rename_i present
    induction line with
    | nil => cases present
    | cons item line ih =>
      rw [List.map_cons]
      by_cases same : item.1 = key
      · rw [if_pos same, List.lookup_cons_self]
      · rw [if_neg same, List.lookup_cons, beq_false_of_ne (Ne.symm same)]
        refine ih ?_
        simpa [same] using present
  · rename_i absent
    rw [List.lookup_append, List.lookup_eq_none_iff.mpr]
    · simp
    · intro item member
      simp only [List.any_eq_true, decide_eq_true_eq, not_exists, not_and] at absent
      exact bne_iff_ne.mpr fun same => absent item member same.symm

theorem lookup_setItem_other {key key' : String} (other : key' ≠ key) (line : Dict) (value : Json) :
    (setItem line key value).lookup key' = line.lookup key' := by
  unfold setItem
  split
  · clear * - other
    induction line with
    | nil => rfl
    | cons item line ih =>
      rw [List.map_cons]
      by_cases same : item.1 = key
      · rw [if_pos same, List.lookup_cons, List.lookup_cons, ih, same]
        rw [beq_false_of_ne other]
      · rw [if_neg same, List.lookup_cons, List.lookup_cons, ih]
  · rw [List.lookup_append, List.lookup_cons, beq_false_of_ne other]
    simp

/-- What the server sees of a request. -/
structure Exchange where
  requestId : Option Id
  response : ResponseState
  counted : Bool
  logged : Bool

/-- The line names the request and the status of its response. -/
structure Tells (scope : Scope) (response : ResponseState) (line : Dict) : Prop where
  method : line.lookup "method" = some (.str scope.method)
  path : line.lookup "path" = some (.str scope.path)
  statusCode : line.lookup "status_code" = some (statusJson response.status)

/-- What may be sent: the start of a response carries the request's id, unless the request has been logged already. Then
it is a malformed one, answered a 500 without. -/
structure Exchange.Sends (rendering : Rendering) (scope : Scope) (g : Exchange) (message : AsgiMessage) : Prop where
  response : g.response.Sends message
  afterLog : g.counted = true → g.logged = true ∧ Malformed scope
  start : ∀ status headers, message = .httpResponseStart status headers →
    if g.logged then status = 500 ∧ ∀ header ∈ headers, header.1 ≠ encode "x-request-id"
    else ∃ id, g.requestId = some id ∧ headers.getLast? = some (encode "x-request-id", encode (rendering.uuidText id))

/-- What is sent is legal; nothing is read of a body declared too large; the request is counted once and then logged
once, with the status sent so far. -/
def exchangeProtocol (rendering : Rendering) (maxBodyBytes : Int) (scope : Scope) : Protocol (asgi W) where
  Ghost := Exchange
  start := ⟨none, .unstarted, false, false⟩
  allowed := fun g c => match c with
    | .send message => g.Sends rendering scope message
    | .receive | .work _ => g.counted = false ∧ ¬Oversized maxBodyBytes scope
    | .uuid4 => g.requestId = none
    | .setUserId _ | .bindCanonical _ => False
    | .incRequestsTotal method path statusCode => g.counted = false ∧ method = scope.method ∧ path = scope.path ∧
        statusCode = statusText g.response.status
    | .canonicalInfo line => g.counted = true ∧ g.logged = false ∧ Tells scope g.response line
    | _ => g.logged = false
  possible := answers
  next := fun g c r => match c with
    | .send message => { g with
        response := g.response.next message }
    | .uuid4 => match r with
      | .ok id => { g with
          requestId := some id }
      | .error _ => g
    | .incRequestsTotal .. => { g with
        counted := true }
    | .canonicalInfo _ => { g with
        logged := true }
    | _ => g
  died := id

/-- Below the canonical line a request has its id, and the context knows the status of its response. -/
def InExchange (id : Id) (context : RequestContext) (response : ResponseState) (g : Exchange) : Prop :=
  g = ⟨some id, response, false, false⟩ ∧ context.statusCode = response.status

theorem body_status (response : ResponseState) (body : Bytes) (moreBody : Bool) :
    (response.next (.httpResponseBody body moreBody)).status = response.status := by
  cases response <;> cases moreBody <;> rfl

theorem inContext_carries (rendering : Rendering) (id : Id) (http : scope.type = .http) :
    Carries (inContext (rendering.uuidText id) scope) (responding (¬Oversized maxBodyBytes scope) : Protocol (asgi W))
      (exchangeProtocol rendering maxBodyBytes scope : Protocol (asgi W)) (InExchange id) := by
  rintro (context : RequestContext) response _ c ⟨rfl, known⟩ allowed
  cases c with
  | send message =>
    cases message with
    | httpResponseStart status headers =>
      simp only [inContext, if_pos http]
      refine ⟨⟨allowed, nofun, ?_⟩, fun r answer => ⟨r, _, rfl, answer, rfl, rfl⟩⟩
      rintro _ _ ⟨⟩
      exact ⟨id, rfl, List.getLast?_concat⟩
    | httpResponseBody body moreBody =>
      refine ⟨⟨allowed, nofun, nofun⟩, fun r answer => ⟨r, _, rfl, answer, rfl, ?_⟩⟩
      rw [known]
      exact (body_status _ body moreBody).symm
    | other type => exact ⟨⟨allowed, nofun, nofun⟩, fun r answer => ⟨r, _, rfl, answer, rfl, known⟩⟩
  | receive => exact ⟨⟨rfl, allowed⟩, fun r answer => ⟨r, _, rfl, answer, rfl, known⟩⟩
  | work c => exact ⟨⟨rfl, allowed⟩, fun r answer => ⟨r, _, rfl, answer, rfl, known⟩⟩
  | setUserId userId => exact ⟨_, _, rfl, ⟨(), rfl⟩, rfl, known⟩
  | bindCanonical fields => exact ⟨_, _, rfl, ⟨(), rfl⟩, rfl, known⟩
  | monotonic => exact ⟨rfl, fun r answer => ⟨r, _, rfl, answer, rfl, known⟩⟩
  | logUnhandled path => exact ⟨rfl, fun r answer => ⟨r, _, rfl, answer, rfl, known⟩⟩
  | uuid4 | canonicalInfo _ | incRequestsTotal _ _ _ | observeDuration _ _ _ => exact allowed.elim

theorem canonicalLine_tells {requestId : String} {durationMs : Json} {context : RequestContext}
    {response : ResponseState}
    (http : scope.type = .http) (known : context.statusCode = response.status) :
    Tells scope response (canonicalLine requestId scope durationMs context) := by
  simp only [canonicalLine, if_pos http, known]
  constructor
  · rw [lookup_setItem_other (by decide), lookup_setItem_other (by decide), lookup_setItem_self]
  · rw [lookup_setItem_other (by decide), lookup_setItem_self]
  · exact lookup_setItem_self _ _ _

/-- Where the canonical line stands a request has been counted and logged, and has ended as below the line. -/
def Logged (maxBodyBytes : Int) (scope : Scope) (g : Exchange) (r : Except (Raised W.Err) Unit) : Prop :=
  g.counted = true ∧ g.logged = true ∧ Ended maxBodyBytes scope g.response r

theorem requestContext_logs {rendering : Rendering} {inherited : Option String} (http : scope.type = .http)
    (ends : (app scope).Follows (responding (¬Oversized maxBodyBytes scope)) (Ended maxBodyBytes scope) .unstarted) :
    (requestContextMiddleware rendering inherited app scope).Follows (exchangeProtocol rendering maxBodyBytes scope)
      (Logged maxBodyBytes scope) ⟨none, .unstarted, false, false⟩ := by
  unfold requestContextMiddleware
  rw [if_neg (by rw [http]; decide)]
  refine ⟨rfl, ?_⟩
  rintro _ ⟨id, rfl⟩
  refine ⟨rfl, ?_⟩
  rintro _ ⟨startedAt, rfl⟩
  have served := (inContext_carries rendering id http).follows (s := ⟨inherited, [], none⟩) ends ⟨rfl, rfl⟩
  change (((app scope).under (inContext (rendering.uuidText id) scope) ⟨inherited, [], none⟩).bind _).Follows
    (exchangeProtocol rendering maxBodyBytes scope) _ ⟨some id, .unstarted, false, false⟩
  refine follows_bind.mpr (served.mono fun g r served => ?_)
  obtain ⟨result, (context : RequestContext), response, rfl, ⟨rfl, known⟩, ended⟩ := served
  refine ⟨rfl, ?_⟩
  rintro _ ⟨endedAt, rfl⟩
  simp only [if_pos http]
  refine ⟨⟨rfl, rfl, rfl, congrArg statusText known⟩, ?_⟩
  rintro _ ⟨_, rfl⟩
  refine ⟨rfl, ?_⟩
  rintro _ ⟨_, rfl⟩
  refine ⟨⟨rfl, rfl, canonicalLine_tells http known⟩, ?_⟩
  rintro _ ⟨_, rfl⟩
  cases result with
  | ok u => exact ⟨rfl, rfl, ended⟩
  | error e => exact ⟨rfl, rfl, ended⟩

/-! ### ServerErrorMiddleware -/

/-- How a request has ended for the server. -/
structure Concluded (maxBodyBytes : Int) (scope : Scope) (g : Exchange) (r : Except (Raised W.Err) Unit) : Prop where
  counted : g.counted = true
  logged : g.logged = true
  returned : r = .ok () → ∃ status, g.response = .complete status
  raised : ∀ e, r = .error e → e.isException → g.response ≠ .unstarted
  oversized : Oversized maxBodyBytes scope → g.response.status = some 413
  malformed : Malformed scope → g.response.status = some 500 ∧ ∃ e, r = .error e

theorem malformed_concludes {g : Exchange} {r : Except (Raised W.Err) Unit} (counted : g.counted = true)
    (logged : g.logged = true) (malformed : Malformed scope) (answered : g.response.status = some 500)
    (failed : ∃ e, r = .error e) : Concluded maxBodyBytes scope g r where
  counted := counted
  logged := logged
  returned := fun done => by
    obtain ⟨e, failed⟩ := failed
    cases failed.symm.trans done
  raised := fun _ _ _ unstarted => by
    rw [unstarted] at answered
    cases answered
  oversized := fun ⟨n, declared, _⟩ => absurd malformed (not_malformed declared)
  malformed := fun _ => ⟨answered, failed⟩

theorem serverError_concludes {serverError : App W → App W} (serves : ServesErrors serverError)
    {rendering : Rendering} (http : scope.type = .http)
    (logs : (app scope).Follows (exchangeProtocol rendering maxBodyBytes scope) (Logged maxBodyBytes scope)
      ⟨none, .unstarted, false, false⟩) :
    (serverError app scope).Follows (exchangeProtocol rendering maxBodyBytes scope)
      (Concluded maxBodyBytes scope) ⟨none, .unstarted, false, false⟩ := by
  obtain ⟨headers, body, anonymous, runs⟩ := serves.http app scope http
  rw [runs]
  have start : false = true ↔ ResponseState.unstarted ≠ .unstarted := by decide
  have watched := (watchingStart_carries Exchange.response
    fun g c r => by cases c <;> cases r <;> rfl).follows logs ⟨rfl, start⟩
  refine follows_bind.mpr (watched.mono fun g r ended => ?_)
  obtain ⟨result, (responseStarted : Bool), _, rfl, ⟨rfl, noted⟩, counted, logged, ended⟩ := ended
  cases result with
  | ok u =>
    exact ⟨counted, logged, fun _ => ended.returned rfl, nofun, ended.oversized,
      fun malformed => by cases (ended.malformed malformed).2⟩
  | error e =>
    change (if Raised.isException e && !responseStarted then
        (send (.httpResponseStart 500 headers)).bind fun _ => (send (.httpResponseBody body false)).bind fun _ =>
          Program.raise e
      else Program.raise e).Follows (exchangeProtocol rendering maxBodyBytes scope) _ g
    split
    · rename_i unanswered
      obtain ⟨exception, unstarted⟩ := (unanswered_iff noted e).mp unanswered
      have malformed : Malformed scope := (ended.raised e rfl exception).resolve_left (not_not_intro unstarted)
      refine ⟨⟨unstarted, fun _ => ⟨logged, malformed⟩, ?_⟩, fun r _ => ?_⟩
      · rintro _ _ ⟨⟩
        rw [if_pos logged]
        exact ⟨rfl, anonymous⟩
      · cases r with
        | error e' => exact malformed_concludes counted logged malformed rfl ⟨e', rfl⟩
        | ok u =>
          refine ⟨⟨⟨500, rfl⟩, fun _ => ⟨logged, malformed⟩, nofun⟩, fun r _ => ?_⟩
          cases r with
          | error e' => exact malformed_concludes counted logged malformed rfl ⟨e', rfl⟩
          | ok u => exact malformed_concludes counted logged malformed rfl ⟨e, rfl⟩
    · rename_i answered
      refine ⟨counted, logged, nofun, ?_, ended.oversized, fun malformed => ?_⟩
      · intro e' same exception unstarted
        cases same
        exact answered ((unanswered_iff noted e).mpr ⟨exception, unstarted⟩)
      · obtain ⟨unstarted, same⟩ := ended.malformed malformed
        cases same
        exact absurd ((unanswered_iff noted _).mpr ⟨rfl, unstarted⟩) answered

/-- Routes that use no database. -/
def noWork : Signature := ⟨Empty, Empty.elim, Error⟩

/-- A route that answers, and one that raises what no handler is registered for. -/
def sampleRouter : App noWork := fun scope =>
  if scope.path = "/health" then jsonResponse 200 (encode "\x7b\"status\":\"ok\"\x7d") else Program.raise
    (.exception .dataError)

/-- `ServerErrorMiddleware` with its `PlainTextResponse("Internal Server Error", status_code=500)`. -/
def serverErrorMiddleware (app : App W) : App W := fun scope =>
  if scope.type ≠ .http then app scope
  else do
    let (result, responseStarted) ← (app scope).under watchingStart false
    match result with
    | .ok () => return ()
    | .error e => do
      if Raised.isException e && !responseStarted then do
        send (.httpResponseStart 500
          [(encode "content-length", encode "21"), (encode "content-type", encode "text/plain; charset=utf-8")])
        send (.httpResponseBody (encode "Internal Server Error") false)
      Program.raise e

theorem serverErrorMiddleware_serves : ServesErrors (serverErrorMiddleware : App W → App W) where
  http app scope http :=
    ⟨[(encode "content-length", encode "21"), (encode "content-type", encode "text/plain; charset=utf-8")],
      encode "Internal Server Error", by decide +kernel, if_neg (not_not_intro http)⟩

def sampleScope (contentLength : String) : Scope where
  type := .http
  method := "POST"
  path := "/broken"
  headers := [(encode "content-length", encode contentLength)]

def sampleRendering : Rendering where
  uuidText := toString
  durationMs := fun started ended => .int (ended - started)

theorem sampleRouter_responds : Responds sampleRouter := by
  intro scope _
  unfold sampleRouter
  split
  · exact (jsonResponse_follows 200 _).mono fun response r ended done => ⟨200, ended.1 done⟩
  · intro done
    cases done

end TheClub.Api
