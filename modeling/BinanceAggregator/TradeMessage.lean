import BinanceAggregator.ConfigLoader
import BinanceAggregator.DecimalText
import BinanceAggregator.TradeParser

/-!
Which messages are trades.

A message is a trade just when its payload has the six members that the parser wants, each of its
type, the two numbers written as decimal literals, and is not marked as an event of another kind.
The payload is the member `data`, where there is one, and otherwise the message itself. So every
trade whose numbers can be written has a message, by itself and in the envelope of a combined
stream.
-/

namespace BinanceAggregator.TradeParser

open Json Fallible

variable {root payload : Json} {field : Str} {t : TradeEvent}

/-! ### What a message has to hold -/

/-- The payload of a message. -/
def PayloadOf (root payload : Json) : Prop :=
  root.find? (ascii "data") = some payload ∨
    root.find? (ascii "data") = none ∧ payload = root

/-- The member is a string with a decimal literal. -/
def Numeral (payload : Json) (field : Str) (d : Decimal) : Prop :=
  ∃ l : Literal, payload.find? field = some (.string l.text) ∧
    d = ⟨Int64.ofInt l.scaled⟩

/-- The payload stands for a trade. -/
structure DescribesTrade (payload : Json) (t : TradeEvent) : Prop where
  event : ∀ kind, payload.find? (ascii "e") = some (.string kind) → kind = ascii "trade"
  symbol : payload.find? (ascii "s") = some (.string t.symbol)
  tradeId : payload.find? (ascii "t") = some (.numberUnsigned t.tradeId)
  price : Numeral payload (ascii "p") t.price
  quantity : Numeral payload (ascii "q") t.quantity
  tradeTimeMs : payload.find? (ascii "T") = some (.numberUnsigned t.tradeTimeMs)
  buyerIsMaker : payload.find? (ascii "m") = some (.boolean t.buyerIsMaker)

lemma DescribesTrade.isObject (h : DescribesTrade payload t) : payload.isObject = true :=
  isObject_of_find? h.symbol

/-! ### What the parser makes of it -/

lemma unwrapPayload_iff : unwrapPayload root = .ok payload ↔ PayloadOf root payload := by
  cases hfind : root.find? (ascii "data") with
  | none =>
      rw [unwrapPayload_of_none hfind, PayloadOf, hfind]
      simp [eq_comm]
  | some value =>
      rw [unwrapPayload_of_some hfind, PayloadOf, hfind]
      simp

lemma isUnsupportedEventType_iff : isUnsupportedEventType payload = .ok false ↔
    ∀ kind, payload.find? (ascii "e") = some (.string kind) → kind = ascii "trade" := by
  rw [isUnsupportedEventType, fieldIs_eq, ok_bind]
  cases hfind : payload.find? (ascii "e") with
  | none => simp [return_eq_ok]
  | some value =>
      cases value with
      | string kind => simp [isString, index_of_find? hfind, getString, ok_bind]
      | _ => simp [isString, return_eq_ok]

lemma parseDecimal_iff {text : Str} {d : Decimal} : Decimal.parse text = .ok d ↔
    ∃ l : Literal, l.text = text ∧ d = ⟨Int64.ofInt l.scaled⟩ := by
  constructor
  · intro h
    obtain ⟨l, rfl⟩ := Decimal.exists_literal h
    rw [Decimal.parse_text] at h
    exact ⟨l, rfl, (Except.ok.inj h).symm⟩
  · rintro ⟨l, rfl, rfl⟩
    exact Decimal.parse_text l

lemma getString_iff {j : Json} {text : Str} : j.getString = .ok text ↔ j = .string text := by
  cases j <;> simp [getString]

lemma getUnsigned_iff {j : Json} {n : UInt64} :
    j.getUnsigned = .ok n ↔ j = .numberUnsigned n := by
  cases j <;> simp [getUnsigned]

lemma getBoolean_iff {j : Json} {b : Bool} : j.getBoolean = .ok b ↔ j = .boolean b := by
  cases j <;> simp [getBoolean]

/-- The accesses of `readEvent`, one after the other. -/
lemma readEvent_iff : readEvent payload = .ok (some t) ↔
    payload.find? (ascii "s") = some (.string t.symbol) ∧
    payload.find? (ascii "t") = some (.numberUnsigned t.tradeId) ∧
    Numeral payload (ascii "p") t.price ∧ Numeral payload (ascii "q") t.quantity ∧
    payload.find? (ascii "T") = some (.numberUnsigned t.tradeTimeMs) ∧
    payload.find? (ascii "m") = some (.boolean t.buyerIsMaker) := by
  simp only [readEvent, bind_eq_ok, ConfigLoader.index_eq_ok, getString_iff, getUnsigned_iff,
    getBoolean_iff]
  constructor
  · rintro ⟨_, hs, _, rfl, _, ht, _, rfl, _, hT, _, rfl, _, hm, _, rfl, _, hp, p, rfl, _, hq, q,
      rfl, h⟩
    split at h
    · next price quantity hprice hquantity =>
        cases h
        obtain ⟨lp, rfl, hlp⟩ := parseDecimal_iff.mp hprice
        obtain ⟨lq, rfl, hlq⟩ := parseDecimal_iff.mp hquantity
        exact ⟨hs, ht, ⟨lp, hp, hlp⟩, ⟨lq, hq, hlq⟩, hT, hm⟩
    · cases h
  · rintro ⟨hs, ht, ⟨lp, hp, hlp⟩, ⟨lq, hq, hlq⟩, hT, hm⟩
    refine ⟨_, hs, _, rfl, _, ht, _, rfl, _, hT, _, rfl, _, hm, _, rfl, _, hp, _, rfl, _, hq, _,
      rfl, ?_⟩
    rw [Decimal.parse_text, Decimal.parse_text, ← hlp, ← hlq]
    rfl

lemma parsePayload_iff : parsePayload payload = .ok (some t) ↔ DescribesTrade payload t := by
  constructor
  · intro h
    obtain ⟨hs, ht, hp, hq, hT, hm⟩ := readEvent_iff.mp (readEvent_of_parsed h)
    refine ⟨isUnsupportedEventType_iff.mp ?_, hs, ht, hp, hq, hT, hm⟩
    unfold parsePayload at h
    split_ifs at h
    · cases h
    · obtain ⟨unsupported, hunsupported, h⟩ := bind_eq_ok.mp h
      cases unsupported with
      | true => cases h
      | false => exact hunsupported
  · intro h
    have hread := readEvent_iff.mpr
      ⟨h.symbol, h.tradeId, h.price, h.quantity, h.tradeTimeMs, h.buyerIsMaker⟩
    -- the literals are strings, so the test for the members succeeds
    obtain ⟨lp, hp, -⟩ := h.price
    obtain ⟨lq, hq, -⟩ := h.quantity
    have hrequired : hasRequiredFields payload = .ok true := by
      rw [hasRequiredFields_eq, h.symbol, h.tradeId, hp, hq, h.tradeTimeMs, h.buyerIsMaker]
      rfl
    rw [parsePayload, h.isObject, isUnsupportedEventType_iff.mpr h.event, ok_bind, hrequired,
      ok_bind]
    exact hread

lemma parseJson_iff : parseJson root = .ok (some t) ↔
    ∃ payload, PayloadOf root payload ∧ DescribesTrade payload t := by
  obtain ⟨payload, hpayload⟩ := unwrapPayload_ok root
  have hof := unwrapPayload_iff.mp hpayload
  constructor
  · intro h
    refine ⟨payload, hof, parsePayload_iff.mp ?_⟩
    cases hroot : root.isObject with
    | true => rwa [← parseJson_of_payload hroot hpayload]
    | false =>
        rw [parseJson, hroot] at h
        cases h
  · rintro ⟨payload', hof', hdescribes⟩
    obtain rfl : payload = payload' :=
      Except.ok.inj (hpayload.symm.trans (unwrapPayload_iff.mpr hof'))
    have hroot : root.isObject = true := by
      rcases hof with hfind | ⟨-, rfl⟩
      · exact isObject_of_find? hfind
      · exact hdescribes.isObject
    rw [parseJson_of_payload hroot hpayload]
    exact parsePayload_iff.mpr hdescribes

/-! ### A message for every trade -/

/-- The message of a trade. -/
def messageOf (t : TradeEvent) : Json := .object
  [(ascii "e", .string (ascii "trade")), (ascii "s", .string t.symbol),
    (ascii "t", .numberUnsigned t.tradeId), (ascii "p", .string (Decimal.toText t.price)),
    (ascii "q", .string (Decimal.toText t.quantity)), (ascii "T", .numberUnsigned t.tradeTimeMs),
    (ascii "m", .boolean t.buyerIsMaker)]

/-- The envelope of a combined stream. -/
def envelope (stream : Str) (payload : Json) : Json :=
  .object [(ascii "stream", .string stream), (ascii "data", payload)]

/-- A number that has a text is read off it. -/
lemma numeral_toText {d : Decimal} (h : -2 ^ 63 < d.raw.toInt)
    (hfind : payload.find? field = some (.string (Decimal.toText d))) :
    Numeral payload field d := by
  obtain ⟨l, hl, hd⟩ := parseDecimal_iff.mp (Decimal.parse_toText h)
  exact ⟨l, hl ▸ hfind, hd⟩

lemma describesTrade_messageOf (hp : -2 ^ 63 < t.price.raw.toInt)
    (hq : -2 ^ 63 < t.quantity.raw.toInt) : DescribesTrade (messageOf t) t := by
  refine ⟨fun kind hkind => ?_, rfl, rfl, numeral_toText hp rfl, numeral_toText hq rfl, rfl, rfl⟩
  exact (Json.string.inj (Option.some.inj hkind)).symm

/-- **The parser accepts the trades and nothing else.** It returns a trade just when the library
makes a value of the text whose payload stands for that trade; and it reads back every trade whose
numbers are above `-2 ^ 63`, from its message alone and from the message in an envelope. -/
theorem parse_exact (jsonParse : Str → Option Json) :
    (∀ rawMessage t, parse jsonParse rawMessage = some t ↔
      ∃ root payload, jsonParse rawMessage = some root ∧ PayloadOf root payload ∧
        DescribesTrade payload t) ∧
    ∀ t : TradeEvent, -2 ^ 63 < t.price.raw.toInt → -2 ^ 63 < t.quantity.raw.toInt →
      ∀ rawMessage stream, jsonParse rawMessage = some (messageOf t) ∨
        jsonParse rawMessage = some (envelope stream (messageOf t)) →
        parse jsonParse rawMessage = some t := by
  have hiff : ∀ rawMessage t, parse jsonParse rawMessage = some t ↔
      ∃ root payload, jsonParse rawMessage = some root ∧ PayloadOf root payload ∧
        DescribesTrade payload t := by
    intro rawMessage t
    unfold parse
    cases hjson : jsonParse rawMessage with
    | none => simp
    | some root =>
        obtain ⟨event, hevent⟩ := parseJson_ok root
        have hroot : event = some t ↔
            ∃ payload, PayloadOf root payload ∧ DescribesTrade payload t := by
          rw [← parseJson_iff, hevent, Except.ok.injEq]
        simpa [hevent] using hroot
  refine ⟨hiff, fun t hp hq rawMessage stream hjson => (hiff _ _).mpr ?_⟩
  have hdescribes := describesTrade_messageOf hp hq
  rcases hjson with hjson | hjson
  · exact ⟨_, _, hjson, .inr ⟨rfl, rfl⟩, hdescribes⟩
  · exact ⟨_, _, hjson, .inl rfl, hdescribes⟩

/-- A sale of four units at `2.5`, and its message. -/
def smallSale : TradeEvent := ⟨ascii "BTCUSDT", 7, ⟨250000000⟩, ⟨400000000⟩, 500, true⟩

def smallSaleText : Str :=
  ascii "\x7b\"e\":\"trade\",\"s\":\"BTCUSDT\",\"t\":7,\"p\":\"2.5\",\"q\":\"4\","
    ++ ascii "\"T\":500,\"m\":true\x7d"

/-- The message in the envelope of a combined stream. -/
def smallSaleInEnvelope : Str :=
  ascii "\x7b\"stream\":\"btcusdt@trade\",\"data\":" ++ smallSaleText ++ ascii "\x7d"

/-- The library on the two texts. -/
def parseSale (raw : Str) : Option Json :=
  if raw = smallSaleText then some (messageOf smallSale)
  else if raw = smallSaleInEnvelope then
    some (envelope (ascii "btcusdt@trade") (messageOf smallSale))
  else none

theorem parse_exact_smallSale :
    messageOf smallSale = .object [(ascii "e", .string (ascii "trade")),
      (ascii "s", .string (ascii "BTCUSDT")), (ascii "t", .numberUnsigned 7),
      (ascii "p", .string (ascii "2.5")), (ascii "q", .string (ascii "4")),
      (ascii "T", .numberUnsigned 500), (ascii "m", .boolean true)] ∧
    parse parseSale smallSaleText = some smallSale ∧
    parse parseSale smallSaleInEnvelope = some smallSale := by
  have hprice : Decimal.toText smallSale.price = ascii "2.5" := by decide +kernel
  have hquantity : Decimal.toText smallSale.quantity = ascii "4" := by decide +kernel
  have hne : smallSaleInEnvelope ≠ smallSaleText := by decide +kernel
  have hreads := (parse_exact parseSale).2 smallSale (by decide) (by decide)
  refine ⟨?_, hreads _ (ascii "btcusdt@trade") (.inl (by simp [parseSale])),
    hreads _ (ascii "btcusdt@trade") (.inr (by simp [parseSale, hne]))⟩
  rw [messageOf, hprice, hquantity]
  rfl

end BinanceAggregator.TradeParser
