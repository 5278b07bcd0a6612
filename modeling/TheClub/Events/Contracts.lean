import TheClub.Events.Outbox

/-!
The published contract: `contracts/events/*.schema.json`, written with the keywords of JSON Schema.
What the event models build from values in range conforms to the schema of its event type.
-/

namespace TheClub
open Roulette

/-- A schema, as the values it accepts. -/
abbrev JsonSchema : Type := Json → Prop

namespace JsonSchema

inductive JsonType where
  | null | boolean | integer | string | array | object

def JsonType.has : JsonType → Json → Prop
  | .null, json => json = .null
  | .boolean, json => ∃ b, json = .bool b
  | .integer, json => ∃ n, json = .int n
  | .string, json => ∃ s, json = .str s
  | .array, json => ∃ xs, json = .arr xs
  | .object, json => ∃ fields, json = .obj fields

/-! ### Keywords -/

def allOf (schemas : List JsonSchema) : JsonSchema := fun json => ∀ schema ∈ schemas, schema json

def type (types : List JsonType) : JsonSchema := fun json => ∃ t ∈ types, t.has json

def enum (values : List Json) : JsonSchema := fun json => json ∈ values

def const (value : Json) : JsonSchema := fun json => json = value

def minimum (bound : Int) : JsonSchema := fun json => ∀ n, json = .int n → bound ≤ n

def maximum (bound : Int) : JsonSchema := fun json => ∀ n, json = .int n → n ≤ bound

def format (accepts : String → Bool) : JsonSchema := fun json => ∀ s, json = .str s → accepts s = true

def minItems (bound : Nat) : JsonSchema := fun json => ∀ xs, json = .arr xs → bound ≤ xs.length

def items (schema : JsonSchema) : JsonSchema := fun json => ∀ xs, json = .arr xs → ∀ x ∈ xs, schema x

def required (names : List String) : JsonSchema := fun json =>
  ∀ fields, json = .obj fields → ∀ name ∈ names, name ∈ fields.map Prod.fst

def properties (schemas : List (String × JsonSchema)) : JsonSchema := fun json =>
  ∀ fields, json = .obj fields → ∀ property ∈ schemas, ∀ value, fields.lookup property.1 = some value → property.2 value

/-- `additionalProperties: false` next to these properties. -/
def onlyProperties (names : List String) : JsonSchema := fun json =>
  ∀ fields, json = .obj fields → ∀ name ∈ fields.map Prod.fst, name ∈ names

/-- An object all of whose properties are required, and that has no others. -/
def closedObject (schemas : List (String × JsonSchema)) : JsonSchema :=
  allOf [type [.object], required (schemas.map Prod.fst), properties schemas, onlyProperties (schemas.map Prod.fst)]

theorem allOf_nil {json : Json} : allOf [] json := fun _ member => by cases member

theorem allOf_cons {schema : JsonSchema} {schemas : List JsonSchema} {json : Json} (first : schema json)
    (rest : allOf schemas json) : allOf (schema :: schemas) json := by
  intro other member
  rcases List.mem_cons.mp member with rfl | later
  · exact first
  · exact rest other later

theorem properties_of {schemas : List (String × JsonSchema)} {fields : List (String × Json)}
    (matching : ∀ property ∈ schemas, ∀ value, fields.lookup property.1 = some value → property.2 value) :
    properties schemas (.obj fields) := by
  rintro _ ⟨⟩ property member value found
  exact matching property member value found

/-- A dict with the properties of a schema in its order, each of them accepted. -/
theorem closedObject_of {schemas : List (String × JsonSchema)} {fields : List (String × Json)}
    (distinct : (schemas.map Prod.fst).Nodup)
    (each : List.Forall₂ (fun (schema : String × JsonSchema) (field : String × Json) =>
      schema.1 = field.1 ∧ schema.2 field.2) schemas fields) : closedObject schemas (.obj fields) := by
  have names : fields.map Prod.fst = schemas.map Prod.fst := by
    induction each with
    | nil => rfl
    | cons first rest ih => rw [List.map_cons, List.map_cons, first.1, ih (List.nodup_cons.mp distinct).2]
  refine allOf_cons ⟨.object, by simp, fields, rfl⟩ (allOf_cons ?_ (allOf_cons ?_ (allOf_cons ?_ allOf_nil)))
  · rintro _ ⟨⟩ name member
    rwa [names]
  · refine properties_of fun property member value found => ?_
    clear names
    induction each with
    | nil => cases member
    | @cons schema field schemas fields first rest ih =>
      obtain ⟨fresh, distinct⟩ := List.nodup_cons.mp distinct
      rcases List.mem_cons.mp member with rfl | later
      · rw [first.1, List.lookup_cons_self] at found
        cases found
        exact first.2
      · have other : property.1 ≠ schema.1 := fun same => fresh (same ▸ List.mem_map_of_mem later)
        have apart : (property.1 == field.1) = false := by
          rw [← first.1]
          simpa using other
        rw [List.lookup_cons, apart] at found
        exact ih distinct later found
  · rintro _ ⟨⟩ name member
    rwa [names] at member

end JsonSchema

/-- The formats a validator checks: they accept what the platform writes. -/
structure FormatChecker (platform : Platform) where
  uuid : String → Bool
  dateTime : String → Bool
  uuid_uuidText : ∀ id, uuid (platform.uuidText id) = true
  dateTime_isoformat : ∀ time, dateTime (platform.isoformat time) = true

/-! ### The schemas -/

section
variable {platform : Platform} (formats : FormatChecker platform)
open JsonSchema

def uuidSchema : JsonSchema := allOf [type [.string], format formats.uuid]

def dateTimeSchema : JsonSchema := allOf [type [.string], format formats.dateTime]

def textSchema (values : List String) : JsonSchema := allOf [type [.string], enum (values.map .str)]

def textConstSchema (value : String) : JsonSchema := allOf [type [.string], const (.str value)]

def integerSchema : JsonSchema := type [.integer]

def atLeastSchema (bound : Int) : JsonSchema := allOf [type [.integer], minimum bound]

/-- `properties` and `required` of envelope.v1.schema.json. -/
def envelopeSchema : JsonSchema := closedObject
  [("event_id", uuidSchema formats),
   ("event_type", textSchema ["bet.placed", "round.settled", "wallet.transaction"]),
   ("event_version", allOf [type [.integer], const (.int 1)]),
   ("occurred_at", dateTimeSchema formats),
   ("producer", textConstSchema "theclub-api"),
   ("idempotency_key", type [.string, .null]),
   ("data", type [.object])]

def betTypeSchema : JsonSchema := textSchema
  ["straight", "split", "street", "corner", "line", "dozen", "column", "red", "black", "odd", "even", "high", "low"]

def betPlacedDataSchema : JsonSchema := closedObject
  [("round_id", uuidSchema formats),
   ("bet_id", uuidSchema formats),
   ("user_id", uuidSchema formats),
   ("bet_type", betTypeSchema),
   ("selection", type [.object]),
   ("stake_minor", atLeastSchema 1),
   ("currency", textConstSchema "EUR")]

def settledBetSchema : JsonSchema := closedObject
  [("bet_id", uuidSchema formats),
   ("bet_type", betTypeSchema),
   ("selection", type [.object]),
   ("stake_minor", atLeastSchema 1),
   ("payout_minor", atLeastSchema 0),
   ("won", type [.boolean])]

def roundSettledDataSchema : JsonSchema := closedObject
  [("round_id", uuidSchema formats),
   ("user_id", uuidSchema formats),
   ("seed_pair_id", uuidSchema formats),
   ("nonce", atLeastSchema 0),
   ("outcome", allOf [type [.integer], minimum 0, maximum 36]),
   ("bets", allOf [type [.array], minItems 1, items (settledBetSchema formats)]),
   ("total_stake_minor", atLeastSchema 1),
   ("total_payout_minor", atLeastSchema 0),
   ("net_minor", integerSchema),
   ("currency", textConstSchema "EUR")]

def walletTransactionDataSchema : JsonSchema := closedObject
  [("transaction_id", uuidSchema formats),
   ("user_id", uuidSchema formats),
   ("wallet_id", uuidSchema formats),
   ("kind", textSchema ["deposit", "bet_stake", "bet_payout", "adjustment"]),
   ("amount_minor", integerSchema),
   ("balance_after_minor", atLeastSchema 0),
   ("currency", textConstSchema "EUR"),
   ("ref_type", allOf [type [.string, .null], enum [.str "round", .str "bet", .str "manual", .null]]),
   ("ref_id", allOf [type [.string, .null], format formats.uuid])]

def EventType.dataSchema : EventType → JsonSchema
  | .betPlaced => betPlacedDataSchema formats
  | .roundSettled => roundSettledDataSchema formats
  | .walletTransaction => walletTransactionDataSchema formats

/-- The schema file of an event type: the envelope, with its own `event_type` and `data`. -/
def EventType.schema (eventType : EventType) : JsonSchema :=
  allOf [envelopeSchema formats,
    properties [("event_type", const (.str eventType.value)), ("data", eventType.dataSchema formats)]]

end

/-! ### What the models build conforms -/

section
variable {platform : Platform} {formats : FormatChecker platform}
open JsonSchema

theorem uuidSchema_text (id : Id) : uuidSchema formats (.str (platform.uuidText id)) := by
  refine allOf_cons ⟨.string, by simp, _, rfl⟩ (allOf_cons ?_ allOf_nil)
  rintro _ ⟨⟩
  exact formats.uuid_uuidText id

theorem textSchema_of {values : List String} {s : String} (member : s ∈ values) : textSchema values (.str s) :=
  allOf_cons ⟨.string, by simp, s, rfl⟩ (allOf_cons (List.mem_map_of_mem member) allOf_nil)

theorem textConstSchema_self (s : String) : textConstSchema s (.str s) :=
  allOf_cons ⟨.string, by simp, s, rfl⟩ (allOf_cons rfl allOf_nil)

theorem atLeastSchema_of {bound n : Int} (low : bound ≤ n) : atLeastSchema bound (.int n) := by
  refine allOf_cons ⟨.integer, by simp, n, rfl⟩ (allOf_cons ?_ allOf_nil)
  rintro _ ⟨⟩
  exact low

theorem betTypeSchema_value (betType : BetType) : betTypeSchema (.str betType.value) :=
  textSchema_of (by cases betType <;> simp [BetType.value])

theorem selection_object (selection : Selection) : JsonSchema.type [.object] selection.toJson :=
  ⟨.object, by simp, _, rfl⟩

theorem validate_of {fields : List (String × Bool)} (h : ∀ field ∈ fields, field.2 = true) :
    validate fields = .ok () := by
  have none : (fields.filter fun field => !field.2) = [] := List.filter_eq_nil_iff.mpr (by simpa using h)
  unfold validate
  rw [none]

/-- A model is built from these values, and what it dumps conforms and is about this user. -/
def Builds (platform : Platform) (schema : JsonSchema) (userId : Id) (data : Except Error Dict) : Prop :=
  ∃ dict, data = .ok dict ∧ schema (.obj dict) ∧ dict.lookup "user_id" = some (.str (platform.uuidText userId))

theorem BetPlacedData.builds {d : BetPlacedData} (stake : 1 ≤ d.stakeMinor) (currency : d.currency = "EUR") :
    Builds platform (betPlacedDataSchema formats) d.userId (d.build platform) := by
  have valid : validate [("stake_minor", decide (1 ≤ d.stakeMinor)),
      ("currency", decide (d.currency = "EUR"))] = .ok () :=
    validate_of (by simp [stake, currency])
  unfold BetPlacedData.build
  rw [valid]
  refine ⟨_, rfl, closedObject_of (by simp) ?_, rfl⟩
  rw [currency]
  exact .cons ⟨rfl, uuidSchema_text _⟩ (.cons ⟨rfl, uuidSchema_text _⟩ (.cons ⟨rfl, uuidSchema_text _⟩
    (.cons ⟨rfl, betTypeSchema_value _⟩ (.cons ⟨rfl, selection_object _⟩ (.cons ⟨rfl, atLeastSchema_of stake⟩
    (.cons ⟨rfl, textConstSchema_self _⟩ .nil))))))

theorem SettledBet.builds {d : SettledBet} (stake : 1 ≤ d.stakeMinor) (payout : 0 ≤ d.payoutMinor) :
    ∃ json, d.build platform = .ok json ∧ settledBetSchema formats json := by
  have valid : validate [("stake_minor", decide (1 ≤ d.stakeMinor)),
      ("payout_minor", decide (0 ≤ d.payoutMinor))] = .ok () :=
    validate_of (by simp [stake, payout])
  unfold SettledBet.build
  rw [valid]
  refine ⟨_, rfl, closedObject_of (by simp) ?_⟩
  exact .cons ⟨rfl, uuidSchema_text _⟩ (.cons ⟨rfl, betTypeSchema_value _⟩ (.cons ⟨rfl, selection_object _⟩
    (.cons ⟨rfl, atLeastSchema_of stake⟩ (.cons ⟨rfl, atLeastSchema_of payout⟩
    (.cons ⟨rfl, .boolean, by simp, _, rfl⟩ .nil)))))

theorem settledBets_build {bets : List SettledBet} (stakes : ∀ bet ∈ bets, 1 ≤ bet.stakeMinor)
    (payouts : ∀ bet ∈ bets, 0 ≤ bet.payoutMinor) : ∃ jsons, bets.mapM (SettledBet.build platform) = .ok jsons ∧
      jsons.length = bets.length ∧ ∀ json ∈ jsons, settledBetSchema formats json := by
  induction bets with
  | nil => exact ⟨[], rfl, rfl, by simp⟩
  | cons bet bets ih =>
    obtain ⟨json, built, (conforms : settledBetSchema formats json)⟩ :=
      SettledBet.builds (stakes bet List.mem_cons_self) (payouts bet List.mem_cons_self)
    obtain ⟨jsons, rest, length, conform⟩ := ih (fun other member => stakes other (List.mem_cons_of_mem _ member))
      fun other member => payouts other (List.mem_cons_of_mem _ member)
    refine ⟨json :: jsons, ?_, by simp [length], ?_⟩
    · rw [List.mapM_cons, built, rest]
      rfl
    · intro other member
      rcases List.mem_cons.mp member with rfl | later
      · exact conforms
      · exact conform other later

theorem RoundSettledData.builds {d : RoundSettledData} (outcome : 0 ≤ d.outcome ∧ d.outcome ≤ 36)
    (some_bet : d.bets ≠ [])
    (stakes : ∀ bet ∈ d.bets, 1 ≤ bet.stakeMinor) (payouts : ∀ bet ∈ d.bets, 0 ≤ bet.payoutMinor)
    (totalStake : 1 ≤ d.totalStakeMinor) (totalPayout : 0 ≤ d.totalPayoutMinor) (currency : d.currency = "EUR") :
    Builds platform (roundSettledDataSchema formats) d.userId (d.build platform) := by
  obtain ⟨jsons, built, length, (conform : ∀ json ∈ jsons, settledBetSchema formats json)⟩ :=
    settledBets_build stakes payouts
  have many : 1 ≤ d.bets.length := List.length_pos_iff.mpr some_bet
  have valid : validate [("outcome", decide (0 ≤ d.outcome ∧ d.outcome ≤ 36)), ("bets", decide (d.bets.length ≠ 0)),
      ("total_stake_minor", decide (1 ≤ d.totalStakeMinor)), ("total_payout_minor", decide (0 ≤ d.totalPayoutMinor)),
      ("currency", decide (d.currency = "EUR"))] = .ok () :=
    validate_of (by simp [outcome, some_bet, totalStake, totalPayout, currency])
  unfold RoundSettledData.build
  rw [built]
  simp only [bind, Except.bind, valid]
  refine ⟨_, rfl, closedObject_of (by simp) ?_, rfl⟩
  rw [currency]
  refine .cons ⟨rfl, uuidSchema_text _⟩ (.cons ⟨rfl, uuidSchema_text _⟩ (.cons ⟨rfl, uuidSchema_text _⟩
    (.cons ⟨rfl, atLeastSchema_of (Int.natCast_nonneg _)⟩ (.cons ⟨rfl, ?_⟩ (.cons ⟨rfl, ?_⟩
    (.cons ⟨rfl, atLeastSchema_of totalStake⟩ (.cons ⟨rfl, atLeastSchema_of totalPayout⟩
    (.cons ⟨rfl, .integer, by simp, _, rfl⟩ (.cons ⟨rfl, textConstSchema_self _⟩ .nil)))))))))
  · refine allOf_cons ⟨.integer, by simp, _, rfl⟩ (allOf_cons ?_ (allOf_cons ?_ allOf_nil))
    · rintro _ ⟨⟩
      exact outcome.1
    · rintro _ ⟨⟩
      exact outcome.2
  · refine allOf_cons ⟨.array, by simp, _, rfl⟩ (allOf_cons ?_ (allOf_cons ?_ allOf_nil))
    · rintro _ ⟨⟩
      omega
    · rintro _ ⟨⟩
      exact conform

theorem refSchema_of {refId : Option Id} : allOf [JsonSchema.type [.string, .null], format formats.uuid]
    (optional (fun refId => .str (platform.uuidText refId)) refId) := by
  cases refId with
  | none =>
    refine allOf_cons ⟨.null, by simp, rfl⟩ (allOf_cons ?_ allOf_nil)
    rintro _ ⟨⟩
  | some refId =>
    refine allOf_cons ⟨.string, by simp, _, rfl⟩ (allOf_cons ?_ allOf_nil)
    rintro _ ⟨⟩
    exact formats.uuid_uuidText refId

theorem WalletTransactionData.builds {d : WalletTransactionData} (balance : 0 ≤ d.balanceAfterMinor)
    (currency : d.currency = "EUR") (refType : ∀ t ∈ d.refType, t ∈ ["round", "bet", "manual"]) :
    Builds platform (walletTransactionDataSchema formats) d.userId (d.build platform) := by
  have valid : validate [("balance_after_minor", decide (0 ≤ d.balanceAfterMinor)),
    ("currency", decide (d.currency = "EUR")),
      ("ref_type", d.refType.all fun t => t ∈ ["round", "bet", "manual"])] = .ok () := by
    refine validate_of ?_
    cases known : d.refType with
    | none => simp [balance, currency]
    | some t =>
      have member := refType t known
      simpa [balance, currency] using member
  unfold WalletTransactionData.build
  rw [valid]
  refine ⟨_, rfl, closedObject_of (by simp) ?_, rfl⟩
  rw [currency]
  refine .cons ⟨rfl, uuidSchema_text _⟩ (.cons ⟨rfl, uuidSchema_text _⟩ (.cons ⟨rfl, uuidSchema_text _⟩
    (.cons ⟨rfl, textSchema_of ?_⟩ (.cons ⟨rfl, .integer, by simp, _, rfl⟩ (.cons ⟨rfl, atLeastSchema_of balance⟩
    (.cons ⟨rfl, textConstSchema_self _⟩ (.cons ⟨rfl, ?_⟩ (.cons ⟨rfl, refSchema_of⟩ .nil))))))))
  · cases d.kind <;> simp [LedgerKind.value]
  · cases known : d.refType with
    | none => exact allOf_cons ⟨.null, by simp, rfl⟩ (allOf_cons (by simp [enum, optional]) allOf_nil)
    | some t =>
      have member := refType t known
      refine allOf_cons ⟨.string, by simp, _, rfl⟩ (allOf_cons ?_ allOf_nil)
      simpa [enum, optional] using member

/-- An envelope around data that conforms conforms to the schema of its event type. -/
theorem EventEnvelope.conforms {envelope : EventEnvelope}
    (data : envelope.eventType.dataSchema formats (.obj envelope.data)) :
    envelope.eventType.schema formats (.obj (envelope.modelDump platform)) := by
  refine allOf_cons (closedObject_of (by simp) ?_) (allOf_cons (properties_of ?_) allOf_nil)
  · refine .cons ⟨rfl, uuidSchema_text _⟩ (.cons ⟨rfl, textSchema_of ?_⟩ (.cons ⟨rfl, ?_⟩ (.cons ⟨rfl, ?_⟩
      (.cons ⟨rfl, textConstSchema_self _⟩ (.cons ⟨rfl, ?_⟩ (.cons ⟨rfl, .object, by simp, _, rfl⟩ .nil))))))
    · cases envelope.eventType <;> simp [EventType.value]
    · exact allOf_cons ⟨.integer, by simp, _, rfl⟩ (allOf_cons rfl allOf_nil)
    · refine allOf_cons ⟨.string, by simp, _, rfl⟩ (allOf_cons ?_ allOf_nil)
      rintro _ ⟨⟩
      exact formats.dateTime_isoformat _
    · cases envelope.idempotencyKey with
      | none => exact ⟨.null, by simp, rfl⟩
      | some key => exact ⟨.string, by simp, key, rfl⟩
  · intro property member value found
    rcases List.mem_cons.mp member with rfl | member
    · cases found
      rfl
    · obtain rfl := List.mem_singleton.mp member
      cases found
      exact data

end

end TheClub
