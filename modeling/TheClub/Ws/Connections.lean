import TheClub.Ws.Broadcaster

/-!
The connections of `/ws`. Every handler goes through `ws_endpoint` once and stops at each await, where
it goes on, fails or is cancelled; the code between two awaits is one step. Any number of `close_all`
calls, publications and reads come in between. A slot is taken by `try_register` and given back by
whichever of the handler's `finally` and `close_all` comes first.
-/

namespace TheClub.Ws

/-- The identity of one `WebSocket`; its queue has the same number. -/
abbrev WebSocketId := QueueId

/-! ### The registry -/

/-- The registry with the two process-wide metrics it keeps. -/
structure ConnectionRegistry where
  maxConnections : Nat
  connections : List WebSocketId
  wsConnectionsActive : Int
  wsConnectionsTotal : Nat

namespace ConnectionRegistry

def init (maxConnections : Nat) : ConnectionRegistry := ⟨maxConnections, [], 0, 0⟩

/-- `none` where the source returns `False`. -/
def tryRegister (registry : ConnectionRegistry) (websocket : WebSocketId) : Option ConnectionRegistry :=
  if registry.maxConnections ≤ registry.connections.length then none
  else some { registry with
    connections := List.insert websocket registry.connections,
    wsConnectionsActive := registry.wsConnectionsActive + 1,
    wsConnectionsTotal := registry.wsConnectionsTotal + 1 }

def unregister (registry : ConnectionRegistry) (websocket : WebSocketId) : ConnectionRegistry :=
  if websocket ∈ registry.connections then { registry with
    connections := registry.connections.erase websocket,
    wsConnectionsActive := registry.wsConnectionsActive - 1 }
  else registry

/-- `close_all` up to its first await; the connections are sent the close frame one by one after it. -/
def closeAll (registry : ConnectionRegistry) : ConnectionRegistry := { registry with
  connections := [],
  wsConnectionsActive := registry.wsConnectionsActive - registry.connections.length }

end ConnectionRegistry

/-! ### The handlers -/

/-- The await `ws_endpoint` is at. -/
inductive Phase where
  | idle
  | limiting
  | authenticating
  | rejecting
  | accepting (userId : Id)
  | serving (userId : Id)
  | gathering (userId : Id)
  | closing
  | finished
  deriving DecidableEq, Repr

/-- `shutdowns` holds, for each `close_all`, the connections still to be sent the close frame;
`acquired` and `released` record whose slot was taken and given back. -/
structure Server where
  registry : ConnectionRegistry
  traffic : Traffic
  handler : WebSocketId → Phase
  shutdowns : List (List WebSocketId)
  acquired : List WebSocketId
  released : List WebSocketId

def Server.initial (maxConnections : Nat) : Server where
  registry := .init maxConnections
  traffic := .initial
  handler := fun _ => .idle
  shutdowns := []
  acquired := []
  released := []

inductive Happening where
  | started (c : WebSocketId)
  | limited (c : WebSocketId) (allowed : Bool)
  | authenticated (c : WebSocketId) (userId : Option Id)
  | accepted (c : WebSocketId)
  | woken (c : WebSocketId)
  | gathered (c : WebSocketId)
  | closed (c : WebSocketId)
  | raised (c : WebSocketId)
  | closeAll
  | closeFrame (shutdown : Nat)
  | published (userId : Id) (message : Message)
  | taken (c : WebSocketId)

namespace Server

def goTo (server : Server) (c : WebSocketId) (phase : Phase) : Server :=
  { server with handler := Function.update server.handler c phase }

/-- From the answer of `_authenticate` to `accept` or to the close after a refusal. -/
def register (server : Server) (c : WebSocketId) (userId : Id) : Server :=
  match server.registry.tryRegister c with
  | none => server.goTo c .rejecting
  | some registry => { server.goTo c (.accepting userId) with
    registry := registry,
    acquired := server.acquired ++ [c] }

/-- From `accept` to the wait for the two tasks. -/
def subscribe (server : Server) (c : WebSocketId) (userId : Id) : Server :=
  { server.goTo c (.serving userId) with traffic := server.traffic.subscribed userId c }

/-- The outer `finally` up to `websocket.close()`. -/
def unregister (server : Server) (c : WebSocketId) : Server := { server.goTo c .closing with
  registry := server.registry.unregister c,
  released := if c ∈ server.registry.connections then server.released ++ [c] else server.released }

/-- From the end of the tasks: the `finally` of `subscribe`, then the outer one. -/
def leave (server : Server) (c : WebSocketId) : Server :=
  match server.traffic.subscription c with
  | none => server.unregister c
  | some subscription => { server.unregister c with traffic := server.traffic.unsubscribed c subscription }

def shutDown (server : Server) : Server := { server with
  registry := server.registry.closeAll,
  shutdowns := server.shutdowns ++ [server.registry.connections],
  released := server.released ++ server.registry.connections }

def step (server : Server) : Happening → Option Server
  | .started c =>
    match server.handler c with
    | .idle => some (server.goTo c .limiting)
    | _ => none
  | .limited c allowed =>
    match server.handler c with
    | .limiting => some (server.goTo c (if allowed then .authenticating else .rejecting))
    | _ => none
  | .authenticated c userId =>
    match server.handler c with
    | .authenticating => some (match userId with
      | none => server.goTo c .rejecting
      | some userId => server.register c userId)
    | _ => none
  | .accepted c =>
    match server.handler c with
    | .accepting userId => some (server.subscribe c userId)
    | _ => none
  | .woken c =>
    match server.handler c with
    | .serving userId => some (server.goTo c (.gathering userId))
    | _ => none
  | .gathered c =>
    match server.handler c with
    | .gathering _ => some (server.leave c)
    | _ => none
  | .closed c =>
    match server.handler c with
    | .rejecting | .closing => some (server.goTo c .finished)
    | _ => none
  | .raised c =>
    -- an exception or a cancellation out of the await the handler is at
    match server.handler c with
    | .limiting | .authenticating | .rejecting | .closing => some (server.goTo c .finished)
    | .accepting _ => some (server.unregister c)
    | .serving userId => some (server.goTo c (.gathering userId))
    | .gathering _ => some (server.leave c)
    | .idle | .finished => none
  | .closeAll => some server.shutDown
  | .closeFrame shutdown => some { server with shutdowns := server.shutdowns.modify shutdown List.tail }
  | .published userId message =>
    (server.traffic.step (.publish userId message)).map fun traffic => { server with traffic := traffic }
  | .taken c => (server.traffic.step (.get c)).map fun traffic => { server with traffic := traffic }

/-- The states of any interleaving. -/
inductive Run (maxConnections : Nat) : Server → Prop
  | start : Run maxConnections (Server.initial maxConnections)
  | step {server server' : Server} (run : Run maxConnections server) (happening : Happening)
      (moved : server.step happening = some server') : Run maxConnections server'

end Server

/-! ### Phases -/

/-- Between `try_register` and the outer `finally`. -/
def Phase.registered : Phase → Bool
  | .accepting _ | .serving _ | .gathering _ => true
  | .idle | .limiting | .authenticating | .rejecting | .closing | .finished => false

/-- Before `try_register`. -/
def Phase.early : Phase → Bool
  | .idle | .limiting | .authenticating => true
  | .rejecting | .accepting _ | .serving _ | .gathering _ | .closing | .finished => false

/-- Inside `subscribe`. -/
def Phase.subscribed : Phase → Option Id
  | .serving userId | .gathering userId => some userId
  | .idle | .limiting | .authenticating | .rejecting | .accepting _ | .closing | .finished => none

/-- Not yet inside `subscribe`. -/
def Phase.outside : Phase → Bool
  | .idle | .limiting | .authenticating | .rejecting | .accepting _ => true
  | .serving _ | .gathering _ | .closing | .finished => false

/-! ### The invariant -/

structure Server.Sound (maxConnections : Nat) (server : Server) : Prop where
  limit : server.registry.maxConnections = maxConnections
  bounded : server.registry.connections.length ≤ maxConnections
  nodup : server.registry.connections.Nodup
  gauge : server.registry.wsConnectionsActive = server.registry.connections.length
  acquiredOnce : server.acquired.Nodup
  releasedOnce : server.released.Nodup
  owned : ∀ c ∈ server.released, c ∈ server.acquired
  slots : ∀ c, c ∈ server.registry.connections ↔ c ∈ server.acquired ∧ c ∉ server.released
  holding : ∀ c ∈ server.registry.connections, (server.handler c).registered = true
  late : ∀ c ∈ server.acquired, (server.handler c).early = false
  tidy : server.traffic.Tidy
  opened : ∀ c userId, server.traffic.status c = some (userId, true) ↔ (server.handler c).subscribed = some userId
  inside : ∀ c, (server.handler c).outside = true → server.traffic.subscription c = none

variable {maxConnections : Nat} {server server' : Server} {c : WebSocketId} {userId : Id}

theorem Server.Sound.initial : (Server.initial maxConnections).Sound maxConnections where
  limit := rfl
  bounded := Nat.zero_le _
  nodup := List.nodup_nil
  gauge := rfl
  acquiredOnce := List.nodup_nil
  releasedOnce := List.nodup_nil
  owned := fun _ member => by cases member
  slots := fun _ => iff_of_false List.not_mem_nil fun member => List.not_mem_nil member.1
  holding := fun _ member => by cases member
  late := fun _ member => by cases member
  tidy := .initial
  opened := fun _ _ => iff_of_false (fun same => by cases same) fun same => by cases same
  inside := fun _ _ => rfl

/-- A handler moves on without touching registry or table. -/
theorem Server.Sound.goTo (sound : server.Sound maxConnections) {phase : Phase}
    (registered : (server.handler c).registered = true → phase.registered = true)
    (early : phase.early = true → (server.handler c).early = true)
    (subscribed : phase.subscribed = (server.handler c).subscribed)
    (outside : phase.outside = true → (server.handler c).outside = true) :
    (server.goTo c phase).Sound maxConnections where
  limit := sound.limit
  bounded := sound.bounded
  nodup := sound.nodup
  gauge := sound.gauge
  acquiredOnce := sound.acquiredOnce
  releasedOnce := sound.releasedOnce
  owned := sound.owned
  slots := sound.slots
  holding := by
    intro other member
    have held := sound.holding other member
    show (Function.update server.handler c phase other).registered = true
    by_cases own : other = c
    · subst own
      rw [Function.update_self]
      exact registered held
    · rwa [Function.update_of_ne own]
  late := by
    intro other member
    have late := sound.late other member
    show (Function.update server.handler c phase other).early = false
    by_cases own : other = c
    · subst own
      rw [Function.update_self]
      by_contra notLate
      rw [early (Bool.of_not_eq_false notLate)] at late
      cases late
    · rwa [Function.update_of_ne own]
  tidy := sound.tidy
  opened := by
    intro other userId
    show _ ↔ (Function.update server.handler c phase other).subscribed = _
    by_cases own : other = c
    · subst own
      rw [Function.update_self, subscribed]
      exact sound.opened other userId
    · rw [Function.update_of_ne own]
      exact sound.opened other userId
  inside := by
    intro other out
    by_cases own : other = c
    · subst own
      have still : (Function.update server.handler other phase other).outside = true := out
      rw [Function.update_self] at still
      exact sound.inside other (outside still)
    · have still : (Function.update server.handler c phase other).outside = true := out
      rw [Function.update_of_ne own] at still
      exact sound.inside other still

theorem Server.Sound.register (sound : server.Sound maxConnections) (waiting : server.handler c = .authenticating)
    (userId : Id) : (server.register c userId).Sound maxConnections := by
  have new : c ∉ server.acquired := by
    intro member
    have late := sound.late c member
    rw [waiting] at late
    cases late
  have unlisted : c ∉ server.registry.connections := fun member => new ((sound.slots c).mp member).1
  unfold Server.register ConnectionRegistry.tryRegister
  by_cases full : server.registry.maxConnections ≤ server.registry.connections.length
  · rw [if_pos full]
    refine sound.goTo ?_ ?_ ?_ ?_ <;> rw [waiting] <;> decide
  · rw [if_neg full]
    have moved : (server.goTo c (.accepting userId)).Sound maxConnections := by
      refine sound.goTo ?_ ?_ ?_ ?_ <;> rw [waiting]
      · exact fun held => by cases held
      · exact fun early => by cases early
      · rfl
      · exact fun _ => rfl
    have inserted : List.insert c server.registry.connections = c :: server.registry.connections :=
      List.insert_of_not_mem unlisted
    refine { moved with
      bounded := ?_, nodup := ?_, gauge := ?_, acquiredOnce := ?_, owned := ?_, slots := ?_, holding := ?_, late := ?_ }
    · show (List.insert c server.registry.connections).length ≤ _
      rw [inserted, List.length_cons, ← sound.limit]
      omega
    · exact sound.nodup.insert
    · show server.registry.wsConnectionsActive + 1 = ((List.insert c server.registry.connections).length : Int)
      rw [inserted, List.length_cons, sound.gauge]
      push_cast
      rfl
    · exact List.nodup_append.mpr ⟨sound.acquiredOnce, List.nodup_singleton c, by
        intro a member b last same
        rw [List.mem_singleton.mp last] at same
        exact new (same ▸ member)⟩
    · intro other member
      exact List.mem_append_left _ (sound.owned other member)
    · intro other
      show other ∈ List.insert c server.registry.connections ↔ other ∈ server.acquired ++ [c] ∧ other ∉ server.released
      rw [List.mem_insert_iff, List.mem_append, List.mem_singleton, sound.slots]
      constructor
      · rintro (rfl | ⟨taken, kept⟩)
        · exact ⟨Or.inr rfl, fun released => new (sound.owned other released)⟩
        · exact ⟨Or.inl taken, kept⟩
      · rintro ⟨taken | rfl, kept⟩
        · exact Or.inr ⟨taken, kept⟩
        · exact Or.inl rfl
    · intro other member
      rcases List.mem_insert_iff.mp member with rfl | old
      · show (Function.update server.handler other _ other).registered = true
        rw [Function.update_self]
        rfl
      · exact moved.holding other old
    · intro other member
      rcases List.mem_append.mp member with old | last
      · exact moved.late other old
      · rw [List.mem_singleton.mp last]
        show (Function.update server.handler c _ c).early = false
        rw [Function.update_self]
        rfl

theorem status_subscribed (traffic : Traffic) (userId : Id) (queue other : QueueId) :
    (traffic.subscribed userId queue).status other = if other = queue then some
    (userId, true) else traffic.status other := by
  dsimp only [Traffic.status, Traffic.subscribed]
  split
  · rename_i own
    rw [own, Function.update_self]
    rfl
  · rename_i own
    rw [Function.update_of_ne own]

theorem Server.Sound.subscribe (sound : server.Sound maxConnections) (waiting : server.handler c = .accepting userId) :
    (server.subscribe c userId).Sound maxConnections := by
  have fresh : server.traffic.subscription c = none := sound.inside c (by rw [waiting]; rfl)
  have other_handler : ∀ {other}, other ≠ c → (server.subscribe c userId).handler other = server.handler other :=
    fun apart => Function.update_of_ne apart ..
  have own_handler : (server.subscribe c userId).handler c = .serving userId := Function.update_self ..
  refine { sound with holding := ?_, late := ?_, tidy := sound.tidy.subscribe userId fresh, opened := ?_, inside := ?_ }
  · intro other member
    by_cases own : other = c
    · rw [own, own_handler]
      rfl
    · rw [other_handler own]
      exact sound.holding other member
  · intro other member
    by_cases own : other = c
    · rw [own, own_handler]
      rfl
    · rw [other_handler own]
      exact sound.late other member
  · intro other userId'
    show (server.traffic.subscribed userId c).status other = _ ↔ _
    rw [status_subscribed]
    by_cases own : other = c
    · rw [if_pos own, own, own_handler]
      constructor
      · intro same
        exact congrArg some (Prod.mk.inj (Option.some.inj same)).1
      · intro same
        rw [Option.some.inj same]
    · rw [if_neg own, other_handler own]
      exact sound.opened other userId'
  · intro other outside
    by_cases own : other = c
    · rw [own, own_handler] at outside
      cases outside
    · rw [other_handler own] at outside
      show Function.update server.traffic.subscription c _ other = none
      rw [Function.update_of_ne own]
      exact sound.inside other outside

theorem mem_unregister {registry : ConnectionRegistry} (nodup : registry.connections.Nodup) {other : WebSocketId} :
    other ∈ (registry.unregister c).connections ↔ other ≠ c ∧ other ∈ registry.connections := by
  unfold ConnectionRegistry.unregister
  split
  · exact nodup.mem_erase_iff
  · rename_i missing
    refine (and_iff_right_of_imp fun member => ?_).symm
    rintro rfl
    exact missing member

theorem gauge_unregister {registry : ConnectionRegistry}
    (gauge : registry.wsConnectionsActive = registry.connections.length) :
    (registry.unregister c).wsConnectionsActive = (registry.unregister c).connections.length := by
  unfold ConnectionRegistry.unregister
  split
  · rename_i member
    have some_left := List.length_pos_of_mem member
    show registry.wsConnectionsActive - 1 = ((registry.connections.erase c).length : Int)
    rw [List.length_erase_of_mem member, gauge]
    omega
  · exact gauge

/-- The outer `finally`, with the table as the `finally` of `subscribe` has left it. -/
theorem Server.Sound.unregister (sound : server.Sound maxConnections)
    {traffic : Traffic} (tidy : traffic.Tidy)
    (same : ∀ other, other ≠ c → traffic.subscription other = server.traffic.subscription other)
    (left : ∀ userId, traffic.status c ≠ some (userId, true)) :
    { server.unregister c with traffic := traffic }.Sound maxConnections := by
  have other_handler : ∀ {other}, other ≠ c → (server.unregister c).handler other = server.handler other :=
    fun apart => Function.update_of_ne apart ..
  have own_handler : (server.unregister c).handler c = .closing := Function.update_self ..
  have mem_released : ∀ other, other ∈ (server.unregister c).released ↔
      other ∈ server.released ∨ other = c ∧ c ∈ server.registry.connections := by
    intro other
    show other ∈ (if _ then _ else _ : List WebSocketId) ↔ _
    split
    · rename_i member
      rw [List.mem_append, List.mem_singleton, and_iff_left member]
    · rename_i missing
      rw [or_iff_left fun both => missing both.2]
  constructor
  · show (server.registry.unregister c).maxConnections = maxConnections
    unfold ConnectionRegistry.unregister
    split <;> exact sound.limit
  · show (server.registry.unregister c).connections.length ≤ maxConnections
    unfold ConnectionRegistry.unregister
    split
    · exact le_trans (List.length_erase_le ..) sound.bounded
    · exact sound.bounded
  · show (server.registry.unregister c).connections.Nodup
    unfold ConnectionRegistry.unregister
    split
    · exact sound.nodup.erase c
    · exact sound.nodup
  · exact gauge_unregister sound.gauge
  · exact sound.acquiredOnce
  · show (if _ then _ else _ : List WebSocketId).Nodup
    split
    · rename_i member
      refine List.nodup_append.mpr ⟨sound.releasedOnce, List.nodup_singleton c, ?_⟩
      rintro a released b last rfl
      rw [List.mem_singleton.mp last] at released
      exact ((sound.slots c).mp member).2 released
    · exact sound.releasedOnce
  · intro other released
    rcases (mem_released other).mp released with old | ⟨rfl, member⟩
    · exact sound.owned other old
    · exact ((sound.slots other).mp member).1
  · intro other
    show other ∈ (server.registry.unregister c).connections ↔ other ∈ server.acquired ∧
      other ∉ (server.unregister c).released
    rw [mem_unregister sound.nodup, mem_released, sound.slots]
    constructor
    · rintro ⟨apart, taken, kept⟩
      exact ⟨taken, fun released => released.elim kept fun own => apart own.1⟩
    · rintro ⟨taken, kept⟩
      have unreleased : other ∉ server.released := fun old => kept (Or.inl old)
      refine ⟨?_, taken, unreleased⟩
      rintro rfl
      exact kept (Or.inr ⟨rfl, (sound.slots other).mpr ⟨taken, unreleased⟩⟩)
  · intro other member
    obtain ⟨apart, old⟩ := (mem_unregister sound.nodup).mp member
    show ((server.unregister c).handler other).registered = true
    rw [other_handler apart]
    exact sound.holding other old
  · intro other taken
    show ((server.unregister c).handler other).early = false
    by_cases own : other = c
    · rw [own, own_handler]
      rfl
    · rw [other_handler own]
      exact sound.late other taken
  · exact tidy
  · intro other userId
    show traffic.status other = _ ↔ ((server.unregister c).handler other).subscribed = _
    by_cases own : other = c
    · rw [own, own_handler]
      exact iff_of_false (left userId) fun same => by cases same
    · rw [other_handler own, ← sound.opened, Traffic.status, Traffic.status, same other own]
  · intro other outside
    by_cases own : other = c
    · have still : ((server.unregister c).handler other).outside = true := outside
      rw [own, own_handler] at still
      cases still
    · have still : ((server.unregister c).handler other).outside = true := outside
      rw [other_handler own] at still
      exact (same other own).trans (sound.inside other still)

theorem Server.Sound.shutDown (sound : server.Sound maxConnections) : server.shutDown.Sound maxConnections := by
  refine { sound with
    bounded := Nat.zero_le _, nodup := List.nodup_nil, gauge := ?_, releasedOnce := ?_, owned := ?_, slots := ?_,
    holding := ?_ }
  · show server.registry.wsConnectionsActive - server.registry.connections.length = 0
    rw [sound.gauge, Int.sub_self]
  · refine List.nodup_append.mpr ⟨sound.releasedOnce, sound.nodup, ?_⟩
    rintro a released b member rfl
    exact ((sound.slots a).mp member).2 released
  · intro other member
    rcases List.mem_append.mp member with old | now
    · exact sound.owned other old
    · exact ((sound.slots other).mp now).1
  · intro other
    refine iff_of_false List.not_mem_nil ?_
    rintro ⟨taken, kept⟩
    refine kept (List.mem_append.mpr ?_)
    by_cases old : other ∈ server.released
    · exact Or.inl old
    · exact Or.inr ((sound.slots other).mpr ⟨taken, old⟩)
  · intro other member
    cases member

theorem Server.Sound.message (sound : server.Sound maxConnections) {traffic : Traffic} (tidy : traffic.Tidy)
    (status : traffic.status = server.traffic.status) : { server with traffic := traffic }.Sound maxConnections := by
  refine { sound with tidy := tidy, opened := ?_, inside := ?_ }
  · intro other userId
    show traffic.status other = _ ↔ _
    rw [status]
    exact sound.opened other userId
  · intro other outside
    have none : traffic.status other = none := by
      rw [status, Traffic.status, sound.inside other outside]
      rfl
    exact Option.map_eq_none_iff.mp none

theorem Server.Sound.leave (sound : server.Sound maxConnections) (waiting : server.handler c = .gathering userId) :
    (server.leave c).Sound maxConnections := by
  have status : server.traffic.status c = some (userId, true) := (sound.opened c userId).mpr (by rw [waiting]; rfl)
  obtain ⟨subscription, found, same⟩ := Option.map_eq_some_iff.mp status
  have isOpen : subscription.isOpen = true := (Prod.mk.inj same).2
  unfold Server.leave
  rw [found]
  refine sound.unregister (sound.tidy.unsubscribe found isOpen) ?_ ?_
  · intro other apart
    exact Function.update_of_ne apart ..
  · intro userId same
    dsimp only [Traffic.status, Traffic.unsubscribed] at same
    rw [Function.update_self] at same
    cases same

/-- A handler that stops holding nothing, or only turns to its `finally`. -/
theorem Server.Sound.finish (sound : server.Sound maxConnections) (free : (server.handler c).registered = false) :
    (server.goTo c .finished).Sound maxConnections := by
  refine sound.goTo ?_ ?_ ?_ ?_
  · rw [free]
    exact fun held => by cases held
  · exact fun early => by cases early
  · revert free
    cases server.handler c <;> intro free <;> first | rfl | cases free
  · exact fun outside => by cases outside

theorem Server.Sound.unwind (sound : server.Sound maxConnections) (waiting : server.handler c = .serving userId) :
    (server.goTo c (.gathering userId)).Sound maxConnections := by
  refine sound.goTo ?_ ?_ ?_ ?_ <;> rw [waiting]
  · exact id
  · exact fun early => by cases early
  · rfl
  · exact fun outside => by cases outside

theorem Server.Sound.abandon (sound : server.Sound maxConnections) (waiting : server.handler c = .accepting userId) :
    (server.unregister c).Sound maxConnections := by
  refine sound.unregister sound.tidy (fun _ _ => rfl) ?_
  intro userId' same
  have subscribed := (sound.opened c userId').mp same
  rw [waiting] at subscribed
  cases subscribed

theorem Server.Sound.step (sound : server.Sound maxConnections) {happening : Happening}
    (moved : server.step happening = some server') : server'.Sound maxConnections := by
  cases happening with
  | started c =>
    simp only [Server.step] at moved
    split at moved
    · rename_i waiting
      cases moved
      refine sound.goTo ?_ ?_ ?_ ?_ <;> rw [waiting] <;> decide
    · cases moved
  | limited c allowed =>
    simp only [Server.step] at moved
    split at moved
    · rename_i waiting
      cases moved
      cases allowed <;> refine sound.goTo ?_ ?_ ?_ ?_ <;> rw [waiting] <;> decide
    · cases moved
  | authenticated c userId =>
    simp only [Server.step] at moved
    split at moved
    · rename_i waiting
      cases userId with
      | none =>
        cases moved
        refine sound.goTo ?_ ?_ ?_ ?_ <;> rw [waiting] <;> decide
      | some userId =>
        cases moved
        exact sound.register waiting userId
    · cases moved
  | accepted c =>
    simp only [Server.step] at moved
    split at moved
    · rename_i userId waiting
      cases moved
      exact sound.subscribe waiting
    · cases moved
  | woken c =>
    simp only [Server.step] at moved
    split at moved
    · rename_i userId waiting
      cases moved
      exact sound.unwind waiting
    · cases moved
  | gathered c =>
    simp only [Server.step] at moved
    split at moved
    · rename_i userId waiting
      cases moved
      exact sound.leave waiting
    · cases moved
  | closed c =>
    simp only [Server.step] at moved
    split at moved
    · rename_i waiting
      cases moved
      exact sound.finish (by rw [waiting]; rfl)
    · rename_i waiting
      cases moved
      exact sound.finish (by rw [waiting]; rfl)
    · cases moved
  | raised c =>
    simp only [Server.step] at moved
    cases waiting : server.handler c with
    | limiting | authenticating | rejecting | closing =>
      rw [waiting] at moved
      cases moved
      exact sound.finish (by rw [waiting]; rfl)
    | accepting userId =>
      rw [waiting] at moved
      cases moved
      exact sound.abandon waiting
    | serving userId =>
      rw [waiting] at moved
      cases moved
      exact sound.unwind waiting
    | gathering userId =>
      rw [waiting] at moved
      cases moved
      exact sound.leave waiting
    | idle | finished =>
      rw [waiting] at moved
      cases moved
  | closeAll =>
    cases moved
    exact sound.shutDown
  | closeFrame shutdown =>
    cases moved
    exact { sound with }
  | published userId message =>
    obtain ⟨traffic, told, rfl⟩ := Option.map_eq_some_iff.mp moved
    exact sound.message (sound.tidy.step told) (sound.tidy.status_publish told)
  | taken c =>
    obtain ⟨traffic, read, rfl⟩ := Option.map_eq_some_iff.mp moved
    exact sound.message (sound.tidy.step read) (status_get read)

theorem Server.Run.sound (run : Server.Run maxConnections server) : server.Sound maxConnections := by
  induction run with
  | start => exact .initial
  | step _ happening moved ih => exact ih.step moved

/-! ### Conservation -/

/-- What holds in every state of every interleaving. -/
structure Server.Conserves (maxConnections : Nat) (server : Server) : Prop where
  distinct : server.registry.connections.Nodup
  gauge : server.registry.wsConnectionsActive = server.registry.connections.length
  between : 0 ≤ server.registry.wsConnectionsActive ∧ server.registry.wsConnectionsActive ≤ maxConnections
  once : ∀ c, server.acquired.count c ≤ 1 ∧ server.released.count c ≤ server.acquired.count c
  held : ∀ c, c ∈ server.registry.connections ↔ server.released.count c < server.acquired.count c
  returned : ∀ c, server.handler c = .closing ∨ server.handler c = .finished →
    server.released.count c = server.acquired.count c
  empty : (∀ c, server.handler c = .idle ∨ server.handler c = .finished) → server.registry.connections = [] ∧
    (∀ userId, server.traffic.broadcaster.subscribers userId = none) ∧ server.registry.wsConnectionsActive = 0

theorem Server.Sound.count_lt (sound : server.Sound maxConnections) (c : WebSocketId) :
    c ∈ server.registry.connections ↔ server.released.count c < server.acquired.count c := by
  rw [sound.slots]
  by_cases taken : c ∈ server.acquired
  · rw [List.count_eq_one_of_mem sound.acquiredOnce taken, Nat.lt_one_iff, List.count_eq_zero, and_iff_right taken]
  · rw [List.count_eq_zero_of_not_mem taken]
    exact iff_of_false (fun both => taken both.1) (Nat.not_lt_zero _)

theorem Server.Sound.count_le (sound : server.Sound maxConnections) (c : WebSocketId) :
    server.released.count c ≤ server.acquired.count c := by
  by_cases released : c ∈ server.released
  · rw [List.count_eq_one_of_mem sound.releasedOnce released,
      List.count_eq_one_of_mem sound.acquiredOnce (sound.owned c released)]
  · rw [List.count_eq_zero_of_not_mem released]
    exact Nat.zero_le _

/-- Nothing is registered for a handler that does not hold a slot. -/
theorem Server.Sound.unheld (sound : server.Sound maxConnections) (free : (server.handler c).registered = false) :
    c ∉ server.registry.connections := by
  intro member
  rw [sound.holding c member] at free
  cases free

theorem slots_conserved (run : Server.Run maxConnections server) : server.Conserves maxConnections where
  distinct := run.sound.nodup
  gauge := run.sound.gauge
  between := by
    rw [run.sound.gauge]
    exact ⟨Int.natCast_nonneg _, Int.ofNat_le.mpr run.sound.bounded⟩
  once := fun c => ⟨List.nodup_iff_count_le_one.mp run.sound.acquiredOnce c, run.sound.count_le c⟩
  held := run.sound.count_lt
  returned := by
    intro c ended
    have free : (server.handler c).registered = false := by
      rcases ended with closing | finished
      · rw [closing]
        rfl
      · rw [finished]
        rfl
    have unheld := run.sound.unheld free
    rw [run.sound.count_lt] at unheld
    exact Nat.le_antisymm (run.sound.count_le c) (Nat.le_of_not_lt unheld)
  empty := by
    intro ended
    have registered : server.registry.connections = [] := by
      refine List.eq_nil_iff_forall_not_mem.mpr fun c => run.sound.unheld ?_
      rcases ended c with idle | finished
      · rw [idle]
        rfl
      · rw [finished]
        rfl
    refine ⟨registered, ?_, ?_⟩
    · intro userId
      by_contra entry
      obtain ⟨c, subscription, found, own, isOpen⟩ := (run.sound.tidy.entry_iff userId).mp entry
      have status : server.traffic.status c = some (userId, true) := by
        rw [Traffic.status, found, Option.map_some, Subscription.status, own, isOpen]
      have subscribed := (run.sound.opened c userId).mp status
      rcases ended c with idle | finished
      · rw [idle] at subscribed
        cases subscribed
      · rw [finished] at subscribed
        cases subscribed
    · rw [run.sound.gauge, registered]
      rfl

/-- User 12 is about to be registered; the only slot is free. -/
def sampleServer : Server := ((Server.initial 1).goTo 0 .limiting).goTo 0 .authenticating

/-- The slot is given back by a shutdown while the handshake is under way. -/
theorem slots_conserved_sampleServer : (sampleServer.register 0 12).shutDown.Conserves 1 := by
  have waiting : Server.Run 1 sampleServer := .step (.step .start (.started 0) rfl) (.limited 0 true) rfl
  exact slots_conserved (.step (.step waiting (.authenticated 0 (some 12)) rfl) .closeAll rfl)

end TheClub.Ws
