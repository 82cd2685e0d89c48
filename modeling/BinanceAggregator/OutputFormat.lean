import BinanceAggregator.DecimalText
import BinanceAggregator.Separated
import BinanceAggregator.Snapshot

/-!
The text of the output, and how it is read.

The output consists of blocks with an empty line after each, a block consists of lines, and the
line of a window of fields with a space between them. A decoder splits the output into lines,
the lines into blocks and the lines of a block into fields, and reads the value of each field.
It gives back what was written, as long as no symbol has a space or a newline in it.
-/

namespace BinanceAggregator.OutputFormat

open Separated StatsSerializer

def space : UInt8 := byte ' '

def newline : UInt8 := byte '\n'

/-- A text that neither ends a field nor a line. -/
def Plain (w : Str) : Prop := space ∉ w ∧ newline ∉ w

/-- `std::isalnum` in the C locale. -/
def isAlnum (c : UInt8) : Bool :=
  isDigit c || (byte 'A' ≤ c && c ≤ byte 'Z') || (byte 'a' ≤ c && c ≤ byte 'z')

/-! ### Blocks, lines and fields -/

/-- The fields of the line of a window. -/
def fields (x : WindowStats) : List Str :=
  [ascii "symbol=" ++ x.symbol, ascii "trades=" ++ natText x.tradeCount.toNat,
    ascii "volume=" ++ x.totalVolume.toText, ascii "min=" ++ x.minPrice.toText,
    ascii "max=" ++ x.maxPrice.toText, ascii "buy=" ++ natText x.buyerInitiatedCount.toNat,
    ascii "sell=" ++ natText x.sellerInitiatedCount.toNat]

/-- The line of a window, without its newline. -/
def line (x : WindowStats) : Str := [space].intercalate (fields x)

/-- The header of a block, without its newline. -/
def headerLine (formatSeconds : UInt64 → Str) (windowStartMs : UInt64) : Str :=
  ascii "timestamp=" ++ formatSeconds (windowStartMs / 1000)

/-- The lines of a block, without the empty one after it. -/
def blockLines (formatSeconds : UInt64 → Str) (y : StatsSnapshot) : List Str :=
  headerLine formatSeconds y.windowStartMs :: y.windows.map line

variable {formatSeconds : UInt64 → Str}

lemma windowLine_eq (x : WindowStats) : windowLine x = line x ++ [newline] := by
  have htrades : ascii " trades=" = [space] ++ ascii "trades=" := rfl
  have hvolume : ascii " volume=" = [space] ++ ascii "volume=" := rfl
  have hmin : ascii " min=" = [space] ++ ascii "min=" := rfl
  have hmax : ascii " max=" = [space] ++ ascii "max=" := rfl
  have hbuy : ascii " buy=" = [space] ++ ascii "buy=" := rfl
  have hsell : ascii " sell=" = [space] ++ ascii "sell=" := rfl
  have hend : ascii "\n" = [newline] := rfl
  simp only [windowLine, line, fields, htrades, hvolume, hmin, hmax, hbuy, hsell, hend,
    List.intercalate_cons_cons, List.intercalate_singleton, List.append_assoc]

lemma serialize_eq {y : StatsSnapshot} (h : y.windows ≠ []) :
    serialize formatSeconds y = terminate newline (blockLines formatSeconds y ++ [[]]) := by
  have hwindows : y.windows.flatMap windowLine = terminate newline (y.windows.map line) := by
    rw [terminate, List.flatMap_map]
    exact List.flatMap_congr fun x _ => windowLine_eq x
  have hend : ascii "\n" = [newline] := rfl
  obtain ⟨k, _ | ⟨x, xs⟩⟩ := y
  · exact absurd rfl h
  · show timestampLine formatSeconds k ++ (x :: xs).flatMap windowLine ++ ascii "\n" = _
    rw [show (x :: xs).flatMap windowLine = _ from hwindows]
    simp [blockLines, headerLine, timestampLine, terminate, hend]

/-- The output: the blocks, with an empty line after each, and the lines, with a newline after
each. -/
lemma flatMap_serialize {ys : List StatsSnapshot} (h : ∀ y ∈ ys, y.windows ≠ []) :
    ys.flatMap (serialize formatSeconds) =
      terminate newline (terminate [] (ys.map (blockLines formatSeconds))) := by
  induction ys with
  | nil => rfl
  | cons y ys ih =>
      rw [List.flatMap_cons, serialize_eq (h y List.mem_cons_self),
        ih fun z hz => h z (List.mem_cons_of_mem y hz), ← terminate_append]
      rfl

/-! ### What the separators do not occur in -/

lemma plain_append {u v : Str} : Plain (u ++ v) ↔ Plain u ∧ Plain v := by
  simp only [Plain, List.mem_append, not_or]
  tauto

lemma plain_of_allDigits {w : Str} (h : AllDigits w) : Plain w :=
  ⟨fun hmem => absurd (h _ hmem) (by decide), fun hmem => absurd (h _ hmem) (by decide)⟩

lemma plain_natText (n : ℕ) : Plain (natText n) := plain_of_allDigits (allDigits_natText n)

lemma plain_of_alnum {w : Str} (h : ∀ c ∈ w, isAlnum c = true) : Plain w :=
  ⟨fun hmem => absurd (h _ hmem) (by decide), fun hmem => absurd (h _ hmem) (by decide)⟩

lemma plain_signText (sign : Option Sign) : Plain (Literal.signText sign) := by
  unfold Plain
  rcases sign with _ | _ | _ <;> decide

lemma plain_pointText {f : Str} (h : AllDigits f) : Plain (Literal.pointText f) := by
  unfold Literal.pointText
  split_ifs
  · exact ⟨List.not_mem_nil, List.not_mem_nil⟩
  · have hpoint : Plain [byte '.'] := by
      unfold Plain
      decide
    exact plain_append.mpr ⟨hpoint, plain_of_allDigits h⟩

lemma plain_toText (d : Decimal) : Plain d.toText := by
  rw [← Decimal.text_literal, Literal.text, plain_append, plain_append]
  exact ⟨plain_signText _, plain_of_allDigits d.literal.integer_digits,
    plain_pointText d.literal.fraction_digits⟩

/-- A separator that does not occur in the symbol does not occur in any field. -/
lemma not_mem_fields {c : UInt8} (hc : c = space ∨ c = newline) {x : WindowStats}
    (h : c ∉ x.symbol) : ∀ f ∈ fields x, c ∉ f := by
  have hplain {w : Str} (hw : Plain w) : c ∉ w := by
    rcases hc with rfl | rfl
    · exact hw.1
    · exact hw.2
  have htag (tag : String) {w : Str} (ht : space ∉ ascii tag ∧ newline ∉ ascii tag) (hw : c ∉ w) :
      c ∉ ascii tag ++ w := fun hmem => (List.mem_append.mp hmem).elim (hplain ht) hw
  simp only [fields, List.forall_mem_cons, List.not_mem_nil, false_implies, implies_true, and_true]
  exact ⟨htag _ (by decide) h, htag _ (by decide) (hplain (plain_natText _)),
    htag _ (by decide) (hplain (plain_toText _)), htag _ (by decide) (hplain (plain_toText _)),
    htag _ (by decide) (hplain (plain_toText _)), htag _ (by decide) (hplain (plain_natText _)),
    htag _ (by decide) (hplain (plain_natText _))⟩

lemma splitOn_line {x : WindowStats} (h : space ∉ x.symbol) : (line x).splitOn space = fields x :=
  List.splitOn_intercalate space (not_mem_fields (.inl rfl) h) (by simp [fields])

lemma newline_not_mem_line {x : WindowStats} (h : newline ∉ x.symbol) : newline ∉ line x := by
  intro hmem
  rcases mem_of_mem_intercalate hmem with hsep | ⟨f, hf, hc⟩
  · exact absurd hsep (by decide)
  · exact not_mem_fields (.inr rfl) h f hf hc

lemma line_ne_nil (x : WindowStats) : line x ≠ [] := by
  simp [line, fields, ascii]

lemma headerLine_ne_nil (k : UInt64) : headerLine formatSeconds k ≠ [] := by
  simp [headerLine, ascii]

/-- No newline occurs in a line of a block. -/
lemma newline_not_mem_blockLines (hsec : ∀ m : UInt64, newline ∉ formatSeconds (m / 1000))
    {y : StatsSnapshot}
    (h : ∀ x ∈ y.windows, newline ∉ x.symbol) : ∀ l ∈ blockLines formatSeconds y, newline ∉ l := by
  intro l hl
  rcases List.mem_cons.mp hl with rfl | hl
  · have htag : newline ∉ ascii "timestamp=" := by decide
    exact fun hmem => (List.mem_append.mp hmem).elim htag (hsec _)
  · obtain ⟨x, hx, rfl⟩ := List.mem_map.mp hl
    exact newline_not_mem_line (h x hx)

/-- No line of a block is empty. -/
lemma nil_not_mem_blockLines (y : StatsSnapshot) : [] ∉ blockLines formatSeconds y := by
  intro hmem
  rcases List.mem_cons.mp hmem with heq | hmem
  · exact headerLine_ne_nil _ heq.symm
  · obtain ⟨x, -, hx⟩ := List.mem_map.mp hmem
    exact line_ne_nil x hx

/-- The lines of the output. -/
lemma terminated_flatMap_serialize (hsec : ∀ m : UInt64, newline ∉ formatSeconds (m / 1000))
    {ys : List StatsSnapshot} (hne : ∀ y ∈ ys, y.windows ≠ [])
    (h : ∀ y ∈ ys, ∀ x ∈ y.windows, newline ∉ x.symbol) :
    terminated newline (ys.flatMap (serialize formatSeconds)) =
      terminate [] (ys.map (blockLines formatSeconds)) := by
  rw [flatMap_serialize hne]
  refine terminated_terminate fun l hl => ?_
  obtain ⟨b, hb, hl⟩ := List.mem_flatMap.mp hl
  obtain ⟨y, hy, rfl⟩ := List.mem_map.mp hb
  rcases List.mem_append.mp hl with hl | hl
  · exact newline_not_mem_blockLines hsec (h y hy) l hl
  · rw [List.mem_singleton.mp hl]
    exact List.not_mem_nil

/-! ### The decoder -/

def readNumber (w : Str) : UInt64 := UInt64.ofNat (numeral w)

def readDecimal (w : Str) : Option Decimal := (Decimal.parse w).toOption

/-- The symbol and the statistics in the line of a window. -/
def readWindow (l : Str) : Option (Str × Summary) :=
  match l.splitOn space with
  | [symbol, trades, volume, min, max, buy, sell] => do
    let symbol ← symbol.dropPrefix? (ascii "symbol=")
    let trades ← trades.dropPrefix? (ascii "trades=")
    let volume ← volume.dropPrefix? (ascii "volume=") >>= readDecimal
    let low ← min.dropPrefix? (ascii "min=") >>= readDecimal
    let high ← max.dropPrefix? (ascii "max=") >>= readDecimal
    let buy ← buy.dropPrefix? (ascii "buy=")
    let sell ← sell.dropPrefix? (ascii "sell=")
    return (symbol, ⟨readNumber trades, volume, low, high, readNumber buy, readNumber sell⟩)
  | _ => none

/-- The text of the second and the windows in the lines of a block. -/
def readBlock : List Str → Option (Str × List (Str × Summary))
  | [] => none
  | header :: lines => do
    return (← header.dropPrefix? (ascii "timestamp="), ← lines.mapM readWindow)

def decode (text : Str) : Option (List (Str × List (Str × Summary))) :=
  (terminated [] (terminated newline text)).mapM readBlock

/-- A window whose line can be read: the symbol is one that can be subscribed to, and no decimal
has the smallest raw value. -/
structure Readable (x : WindowStats) : Prop where
  symbol_ne_nil : x.symbol ≠ []
  symbol_alnum : ∀ c ∈ x.symbol, isAlnum c = true
  volume : -2 ^ 63 < x.totalVolume.raw.toInt
  low : -2 ^ 63 < x.minPrice.raw.toInt
  high : -2 ^ 63 < x.maxPrice.raw.toInt

lemma dropPrefix?_append (p w : Str) : (p ++ w).dropPrefix? p = some w :=
  List.dropPrefix?_eq_some_iff.mpr ⟨p, rfl, beq_self_eq_true p⟩

lemma readNumber_natText (n : UInt64) : readNumber (natText n.toNat) = n := by
  rw [readNumber, numeral_natText, UInt64.ofNat_toNat]

lemma readDecimal_toText {d : Decimal} (h : -2 ^ 63 < d.raw.toInt) :
    readDecimal d.toText = some d := by
  rw [readDecimal, Decimal.parse_toText h]
  rfl

lemma readWindow_line {x : WindowStats} (h : Readable x) :
    readWindow (line x) = some (x.symbol, x.summary) := by
  rw [readWindow, splitOn_line (plain_of_alnum h.symbol_alnum).1]
  simp only [fields, dropPrefix?_append, Option.bind_eq_bind, Option.bind_some,
    readDecimal_toText h.volume, readDecimal_toText h.low, readDecimal_toText h.high,
    readNumber_natText]
  rfl

/-- Reading a list of texts, each of which can be read. -/
lemma mapM_map_eq {α β γ : Type} {f : γ → Option β} {g : α → γ} {r : α → β} {l : List α}
    (h : ∀ a ∈ l, f (g a) = some (r a)) : (l.map g).mapM f = some (l.map r) := by
  induction l with
  | nil => rfl
  | cons a l ih =>
      rw [List.map_cons, List.mapM_cons, h a List.mem_cons_self,
        ih fun b hb => h b (List.mem_cons_of_mem a hb)]
      rfl

lemma readBlock_blockLines {y : StatsSnapshot} (h : ∀ x ∈ y.windows, Readable x) :
    readBlock (blockLines formatSeconds y) = some (formatSeconds (y.windowStartMs / 1000),
      y.windows.map fun x => (x.symbol, x.summary)) := by
  rw [blockLines, readBlock, headerLine, dropPrefix?_append,
    mapM_map_eq fun x hx => readWindow_line (h x hx)]
  rfl

/-- The decoder reads the texts of the seconds and the windows back. -/
lemma decode_flatMap_serialize (hsec : ∀ m : UInt64, newline ∉ formatSeconds (m / 1000))
    {ys : List StatsSnapshot}
    (hne : ∀ y ∈ ys, y.windows ≠ []) (h : ∀ y ∈ ys, ∀ x ∈ y.windows, Readable x) :
    decode (ys.flatMap (serialize formatSeconds)) =
      some (ys.map fun y => (formatSeconds (y.windowStartMs / 1000),
        y.windows.map fun x => (x.symbol, x.summary))) := by
  have hlines := terminated_flatMap_serialize hsec hne
    fun y hy x hx => (plain_of_alnum (h y hy x hx).symbol_alnum).2
  have hblocks : terminated [] (terminate [] (ys.map (blockLines formatSeconds))) =
      ys.map (blockLines formatSeconds) := by
    refine terminated_terminate fun b hb => ?_
    obtain ⟨y, -, rfl⟩ := List.mem_map.mp hb
    exact nil_not_mem_blockLines y
  rw [decode, hlines, hblocks]
  exact mapM_map_eq fun y hy => readBlock_blockLines (h y hy)

end BinanceAggregator.OutputFormat
