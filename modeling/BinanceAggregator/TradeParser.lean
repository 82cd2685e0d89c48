import BinanceAggregator.Json
import BinanceAggregator.Stats

/-!
The parser of trade messages.

The text of a message is turned into a JSON value by a library; what the parser makes of the
value is here. A message that is not a well-formed trade gives no result. Every access to the
value is guarded, so no access fails and the parser always returns.
-/

namespace BinanceAggregator.TradeParser

open Json Fallible

def unwrapPayload (root : Json) : Except AccessError Json :=
  if root.contains (ascii "data") then root.index (ascii "data") else return root

def hasRequiredFields (payload : Json) : Except AccessError Bool :=
  payload.fieldIs (ascii "s") isString <&&> payload.fieldIs (ascii "t") isNumberUnsigned
    <&&> payload.fieldIs (ascii "p") isString <&&> payload.fieldIs (ascii "q") isString
    <&&> payload.fieldIs (ascii "T") isNumberUnsigned <&&> payload.fieldIs (ascii "m") isBoolean

def isUnsupportedEventType (payload : Json) : Except AccessError Bool := do
  if ← payload.fieldIs (ascii "e") isString then
    return decide ((← (← payload.index (ascii "e")).getString) ≠ ascii "trade")
  else return false

/-- The event made from a payload that has the required fields; a price or a quantity that is
not a decimal gives no event. -/
def readEvent (payload : Json) : Except AccessError (Option TradeEvent) := do
  let symbol ← (← payload.index (ascii "s")).getString
  let tradeId ← (← payload.index (ascii "t")).getUnsigned
  let tradeTimeMs ← (← payload.index (ascii "T")).getUnsigned
  let buyerIsMaker ← (← payload.index (ascii "m")).getBoolean
  let p ← (← payload.index (ascii "p")).getString
  let q ← (← payload.index (ascii "q")).getString
  match Decimal.parse p, Decimal.parse q with
  | .ok price, .ok quantity =>
    return some { symbol, tradeId, price, quantity, tradeTimeMs, buyerIsMaker }
  | _, _ => return none

/-- What the parser makes of a JSON value. -/
def parseJson (root : Json) : Except AccessError (Option TradeEvent) := do
  if root.isObject then
    let payload ← unwrapPayload root
    if !payload.isObject then return none
    else if ← isUnsupportedEventType payload then return none
    else if ← hasRequiredFields payload then readEvent payload
    else return none
  else return none

/-- What the parser makes of the payload of an object. -/
def parsePayload (payload : Json) : Except AccessError (Option TradeEvent) := do
  if !payload.isObject then return none
  else if ← isUnsupportedEventType payload then return none
  else if ← hasRequiredFields payload then readEvent payload
  else return none

lemma parseJson_of_payload {root payload : Json} (h : root.isObject = true)
    (hp : unwrapPayload root = .ok payload) : parseJson root = parsePayload payload := by
  rw [parseJson, if_pos h, hp, ok_bind, parsePayload]

/-! ### Every access is guarded -/

lemma andM_ok (x y : Bool) :
    ((Except.ok x : Except AccessError Bool) <&&> (.ok y)) = .ok (x && y) := by
  cases x <;> rfl

lemma hasRequiredFields_eq (j : Json) : hasRequiredFields j =
    .ok ((j.find? (ascii "s")).any isString && ((j.find? (ascii "t")).any isNumberUnsigned &&
      ((j.find? (ascii "p")).any isString && ((j.find? (ascii "q")).any isString &&
      ((j.find? (ascii "T")).any isNumberUnsigned && (j.find? (ascii "m")).any isBoolean))))) := by
  simp only [hasRequiredFields, fieldIs_eq, andM_ok]

lemma unwrapPayload_ok (root : Json) : ∃ payload, unwrapPayload root = .ok payload := by
  unfold unwrapPayload contains
  cases h : root.find? (ascii "data") with
  | none => exact ⟨root, rfl⟩
  | some v => exact ⟨v, by simp [index_of_find? h]⟩

lemma isUnsupportedEventType_ok (j : Json) : ∃ b, isUnsupportedEventType j = .ok b := by
  unfold isUnsupportedEventType
  rw [fieldIs_eq]
  by_cases h : (j.find? (ascii "e")).any isString = true
  · obtain ⟨v, hv, hs⟩ := exists_of_any h
    obtain ⟨s, hs⟩ := getString_of_isString hs
    refine ⟨decide (s ≠ ascii "trade"), ?_⟩
    rw [ok_bind, h, index_of_find? hv, ok_bind, hs]
    rfl
  · refine ⟨false, ?_⟩
    rw [Bool.not_eq_true] at h
    rw [h]
    rfl

lemma readEvent_ok {j : Json} (h : hasRequiredFields j = .ok true) : ∃ o, readEvent j = .ok o := by
  rw [hasRequiredFields_eq] at h
  simp only [Except.ok.injEq, Bool.and_eq_true] at h
  obtain ⟨hs, ht, hp, hq, hT, hm⟩ := h
  obtain ⟨vs, hs, ks⟩ := exists_of_any hs
  obtain ⟨vt, ht, kt⟩ := exists_of_any ht
  obtain ⟨vp, hp, kp⟩ := exists_of_any hp
  obtain ⟨vq, hq, kq⟩ := exists_of_any hq
  obtain ⟨vT, hT, kT⟩ := exists_of_any hT
  obtain ⟨vm, hm, km⟩ := exists_of_any hm
  obtain ⟨s, es⟩ := getString_of_isString ks
  obtain ⟨t, et⟩ := getUnsigned_of_isNumberUnsigned kt
  obtain ⟨p, ep⟩ := getString_of_isString kp
  obtain ⟨q, eq⟩ := getString_of_isString kq
  obtain ⟨T, eT⟩ := getUnsigned_of_isNumberUnsigned kT
  obtain ⟨m, em⟩ := getBoolean_of_isBoolean km
  simp only [readEvent, index_of_find? hs, index_of_find? ht, index_of_find? hp,
    index_of_find? hq, index_of_find? hT, index_of_find? hm, es, et, ep, eq, eT, em, ok_bind]
  split
  · exact ⟨_, rfl⟩
  · exact ⟨_, rfl⟩

/-- **The parser always returns**: no access to the value fails. -/
theorem parseJson_ok (root : Json) : ∃ o, parseJson root = .ok o := by
  obtain ⟨payload, hpayload⟩ := unwrapPayload_ok root
  obtain ⟨unsupported, hunsupported⟩ := isUnsupportedEventType_ok payload
  unfold parseJson
  rw [hpayload, ok_bind, hunsupported, ok_bind]
  split_ifs with hroot hobject hsupported
  · exact ⟨none, rfl⟩
  · exact ⟨none, rfl⟩
  · -- The fields are read only when the test for them has succeeded.
    rcases hr : hasRequiredFields payload with e | b
    · rw [hasRequiredFields_eq] at hr
      cases hr
    · rw [ok_bind]
      cases b with
      | true => exact readEvent_ok hr
      | false => exact ⟨none, rfl⟩
  · exact ⟨none, rfl⟩

/-- `BinanceTradeParser::parse`, over a JSON library that gives no value for a malformed text. -/
def parse (jsonParse : Str → Option Json) (rawMessage : Str) : Option TradeEvent :=
  match jsonParse rawMessage with
  | none => none
  | some root =>
    match parseJson root with
    | .ok event => event
    | .error _ => none

/-! ### Where the texts of a trade come from -/

/-- A string member of the payload. -/
def payloadString (root : Json) (field : Str) : Except AccessError Str := do
  let payload ← unwrapPayload root
  (← payload.index field).getString

lemma readEvent_eq_some {payload : Json} {t : TradeEvent} (h : readEvent payload = .ok (some t)) :
    (payload.index (ascii "s") >>= getString) = .ok t.symbol ∧
    ∃ p q, (payload.index (ascii "p") >>= getString) = .ok p ∧
      (payload.index (ascii "q") >>= getString) = .ok q ∧
      Decimal.parse p = .ok t.price ∧ Decimal.parse q = .ok t.quantity := by
  simp only [readEvent, bind_eq_ok] at h
  obtain ⟨vs, hs, s, hs', vt, -, tid, -, vT, -, T, -, vm, -, m, -, vp, hp, p, hp', vq, hq, q,
    hq', h⟩ := h
  split at h
  · next price quantity hprice hquantity =>
      cases h
      rw [hs, hp, hq]
      exact ⟨hs', p, q, hp', hq', hprice, hquantity⟩
  · cases h

/-- An event was read off a payload that passed all the tests. -/
lemma readEvent_of_parsed {payload : Json} {t : TradeEvent}
    (h : parsePayload payload = .ok (some t)) : readEvent payload = .ok (some t) := by
  unfold parsePayload at h
  split_ifs at h
  · cases h
  · obtain ⟨unsupported, -, h⟩ := bind_eq_ok.mp h
    cases unsupported with
    | true => cases h
    | false =>
        obtain ⟨complete, -, h⟩ := bind_eq_ok.mp h
        cases complete with
        | true => exact h
        | false => cases h

/-- A trade has the symbol of its message, and its price and quantity are what is made of the
texts of the message. -/
lemma parse_eq_some {jsonParse : Str → Option Json} {rawMessage : Str} {t : TradeEvent}
    (h : parse jsonParse rawMessage = some t) :
    ∃ root, jsonParse rawMessage = some root ∧ payloadString root (ascii "s") = .ok t.symbol ∧
      ∃ p q, payloadString root (ascii "p") = .ok p ∧ payloadString root (ascii "q") = .ok q ∧
        Decimal.parse p = .ok t.price ∧ Decimal.parse q = .ok t.quantity := by
  unfold parse at h
  split at h
  · cases h
  · next root hroot =>
      refine ⟨root, hroot, ?_⟩
      split at h
      · next event hevent =>
          subst h
          unfold parseJson at hevent
          split_ifs at hevent
          · obtain ⟨payload, hpayload, hevent⟩ := bind_eq_ok.mp hevent
            have hread := readEvent_of_parsed hevent
            simpa only [payloadString, hpayload, ok_bind] using readEvent_eq_some hread
          · cases hevent
      · cases h

/-! ### What the parser reads of a message -/

/-- The members of a payload that the parser reads. -/
def payloadFields : List Str :=
  [ascii "e", ascii "s", ascii "t", ascii "p", ascii "q", ascii "T", ascii "m"]

/-- Two objects that differ at most in members that the parser does not read. -/
structure SamePayload (p q : Json) : Prop where
  left : p.isObject = true
  right : q.isObject = true
  agree : ∀ field ∈ payloadFields, p.find? field = q.find? field

lemma unwrapPayload_of_none {root : Json} (h : root.find? (ascii "data") = none) :
    unwrapPayload root = .ok root := by
  rw [unwrapPayload, contains, h]
  rfl

lemma unwrapPayload_of_some {root payload : Json} (h : root.find? (ascii "data") = some payload) :
    unwrapPayload root = .ok payload := by
  simp [unwrapPayload, contains, h, index_of_find? h]

/-- What is not read does not matter. -/
lemma parsePayload_congr {p q : Json} (h : SamePayload p q) : parsePayload p = parsePayload q := by
  obtain ⟨hp, hq, hagree⟩ := h
  have hindex : ∀ field ∈ payloadFields, p.index field = q.index field :=
    fun field hf => index_congr (hagree field hf)
  have htest : ∀ field ∈ payloadFields, ∀ test, p.fieldIs field test = q.fieldIs field test :=
    fun field hf test => fieldIs_congr (hagree field hf) test
  simp only [payloadFields, List.mem_cons, List.not_mem_nil, or_false, forall_eq_or_imp,
    forall_eq] at hindex htest
  obtain ⟨he, hs, ht, hpr, hqu, hT, hm⟩ := hindex
  obtain ⟨ke, ks, kt, kp, kq, kT, km⟩ := htest
  have hevent : isUnsupportedEventType p = isUnsupportedEventType q := by
    rw [isUnsupportedEventType, isUnsupportedEventType, ke, he]
  have hrequired : hasRequiredFields p = hasRequiredFields q := by
    rw [hasRequiredFields, hasRequiredFields, ks, kt, kp, kq, kT, km]
  have hread : readEvent p = readEvent q := by
    rw [readEvent, readEvent, hs, ht, hpr, hqu, hT, hm]
  rw [parsePayload, parsePayload, hp, hq, hevent, hrequired, hread]

/-- **The parser is guarded, and reads what it should.** No access to any JSON value fails. A trade
message gives the same result by itself and in an envelope, whatever else the envelope holds. A
member of the payload that is not read does not change the result, nor does a member of the root
beside `data`. -/
theorem parse_reads :
    (∀ root, ∃ o, parseJson root = .ok o) ∧
    (∀ r envelope : Json, r.isObject = true → r.find? (ascii "data") = none →
      envelope.find? (ascii "data") = some r → parseJson r = parseJson envelope) ∧
    (∀ p q : Json, SamePayload p q → p.find? (ascii "data") = none →
      q.find? (ascii "data") = none → parseJson p = parseJson q) ∧
    ∀ root root' p q : Json, root.find? (ascii "data") = some p →
      root'.find? (ascii "data") = some q → SamePayload p q → parseJson root = parseJson root' := by
  refine ⟨parseJson_ok, fun r envelope hr hnone hsome => ?_, fun p q h hp hq => ?_,
    fun root root' p q hp hq h => ?_⟩
  · rw [parseJson_of_payload hr (unwrapPayload_of_none hnone),
      parseJson_of_payload (isObject_of_find? hsome) (unwrapPayload_of_some hsome)]
  · rw [parseJson_of_payload h.left (unwrapPayload_of_none hp),
      parseJson_of_payload h.right (unwrapPayload_of_none hq), parsePayload_congr h]
  · rw [parseJson_of_payload (isObject_of_find? hp) (unwrapPayload_of_some hp),
      parseJson_of_payload (isObject_of_find? hq) (unwrapPayload_of_some hq), parsePayload_congr h]

/-- A trade message. -/
def btcTrade : Json := .object
  [(ascii "e", .string (ascii "trade")), (ascii "s", .string (ascii "BTCUSDT")),
    (ascii "t", .numberUnsigned 7), (ascii "p", .string (ascii "2.5")),
    (ascii "q", .string (ascii "4")), (ascii "T", .numberUnsigned 500),
    (ascii "m", .boolean false)]

/-- The same in another order, with members that are not read. -/
def btcTradeWithMore : Json := .object
  [(ascii "E", .numberUnsigned 501), (ascii "m", .boolean false), (ascii "M", .boolean true),
    (ascii "T", .numberUnsigned 500), (ascii "q", .string (ascii "4")),
    (ascii "p", .string (ascii "2.5")), (ascii "t", .numberUnsigned 7),
    (ascii "s", .string (ascii "BTCUSDT")), (ascii "e", .string (ascii "trade"))]

/-- An envelope, with a member of its own. -/
def btcEnvelope (payload : Json) : Json :=
  .object [(ascii "stream", .string (ascii "btcusdt@trade")), (ascii "data", payload)]

theorem parse_reads_btcTrade :
    (∃ t, parseJson btcTrade = .ok (some t) ∧ t.symbol = ascii "BTCUSDT") ∧
    parseJson btcTrade = parseJson (btcEnvelope btcTrade) ∧
    parseJson btcTrade = parseJson btcTradeWithMore ∧
    parseJson (.object [(ascii "data", btcTrade)]) = parseJson (btcEnvelope btcTradeWithMore) := by
  have hsame : SamePayload btcTrade btcTradeWithMore := by
    refine ⟨rfl, rfl, fun field hfield => ?_⟩
    simp only [payloadFields, List.mem_cons, List.not_mem_nil, or_false] at hfield
    rcases hfield with rfl | rfl | rfl | rfl | rfl | rfl | rfl <;> rfl
  obtain ⟨-, henvelope, hmore, hdata⟩ := parse_reads
  exact ⟨⟨_, rfl, rfl⟩, henvelope _ _ rfl rfl rfl, hmore _ _ hsame rfl rfl,
    hdata _ _ _ _ rfl rfl hsame⟩

end BinanceAggregator.TradeParser
