import BinanceAggregator.Calendar
import BinanceAggregator.OutputFormat

/-!
The timestamps of the output.

`format_iso8601_utc` breaks the second down with `gmtime` and writes it with `strftime` into a
buffer of 32 bytes. For every start of a window that 64 bits can hold the year fits its field and
the text fits the buffer, so that neither call fails, and the text gives the second back. Until the
year 10000 the texts are ordered as the seconds are. Seconds that are told apart are what the output
as a whole needs to be decoded uniquely.
-/

namespace BinanceAggregator.StatsSerializer

open Calendar OutputFormat

/-! ### The text of a broken-down time -/

/-- Two digits. -/
def two (n : ℕ) : Str := [byte '0' + (n / 10).toUInt8, byte '0' + (n % 10).toUInt8]

/-- The text of the format `%Y-%m-%dT%H:%M:%SZ`. -/
def stamp (t : Tm) : Str :=
  natText t.year ++ ascii "-" ++ two (t.tmMon + 1) ++ ascii "-" ++ two t.tmMday
    ++ ascii "T" ++ two t.tmHour ++ ascii ":" ++ two t.tmMin ++ ascii ":" ++ two t.tmSec
    ++ ascii "Z"

/-- `std::strftime`, with room for `size` bytes; there has to be room for the null byte. -/
def strftime (size : ℕ) (t : Tm) : Option Str :=
  if (stamp t).length < size then some (stamp t) else none

/-- `std::gmtime` returns a null pointer where the year does not fit an `int`. -/
def gmtime? (seconds : ℕ) : Option Tm :=
  if (gmtime seconds).tmYear < 2 ^ 31 then some (gmtime seconds) else none

/-- A number of seconds as a `std::time_t`: 64 bits, signed. -/
def timeT (seconds : UInt64) : ℤ := seconds.toInt64.toInt

/-- The text in the buffer, where every call succeeds. -/
def formatIso8601Utc (epochMs : UInt64) : Option Str :=
  (gmtime? (timeT (epochMs / 1000)).toNat).bind (strftime 32)

/-- The text of a whole number of seconds. -/
def isoText (seconds : UInt64) : Str := stamp (gmtime seconds.toNat)

/-- The second of a text. -/
def readStamp (w : Str) : UInt64 :=
  match w.drop (w.length - 16) with
  | [_, m, m', _, d, d', _, h, h', _, i, i', _, s, s', _] =>
    UInt64.ofNat (timegm
      { tmSec := numeral [s, s'], tmMin := numeral [i, i'], tmHour := numeral [h, h']
        tmMday := numeral [d, d'], tmMon := numeral [m, m'] - 1
        tmYear := numeral (w.take (w.length - 16)) - 1900 })
  | _ => 0

/-- What stands after the year. -/
def stampTail (t : Tm) : Str :=
  ascii "-" ++ (two (t.tmMon + 1) ++ (ascii "-" ++ (two t.tmMday ++ (ascii "T" ++ (two t.tmHour
    ++ (ascii ":" ++ (two t.tmMin ++ (ascii ":" ++ (two t.tmSec ++ ascii "Z")))))))))

lemma stamp_eq (t : Tm) : stamp t = natText t.year ++ stampTail t := by
  simp only [stamp, stampTail, List.append_assoc]

lemma length_stampTail (t : Tm) : (stampTail t).length = 16 := rfl

lemma numeral_two {n : ℕ} (h : n < 100) : numeral (two n) = n := by
  have h1 := (digit_spec (n / 10) (by omega)).2
  have h2 := (digit_spec (n % 10) (by omega)).2
  rw [two, numeral_cons, numeral_cons, h1, h2, numeral_nil, List.length_singleton, List.length_nil]
  omega

lemma allDigits_two {n : ℕ} (h : n < 100) : AllDigits (two n) := by
  intro c hc
  rcases List.mem_pair.mp hc with rfl | rfl
  · exact (digit_spec (n / 10) (by omega)).1
  · exact (digit_spec (n % 10) (by omega)).1

/-- The fields below the year have two digits. -/
lemma fields_lt {t : Tm} (h : t.Valid) :
    t.tmMon + 1 < 100 ∧ t.tmMday < 100 ∧ t.tmHour < 100 ∧ t.tmMin < 100 ∧ t.tmSec < 100 := by
  have hmonth := h.month
  have hhour := h.hour
  have hminute := h.minute
  have hsecond := h.second
  have hday : t.tmMday ≤ 31 := by
    refine h.day.2.trans ?_
    unfold daysInMonth
    split <;> first | omega | (split_ifs <;> omega)
  omega

/-! ### Reading a text back -/

/-- The last sixteen bytes are told apart from the year by their number. -/
lemma readStamp_append (y : Str) (m m' d d' h h' i i' s s' c₁ c₂ c₃ c₄ c₅ c₆ : UInt8) :
    readStamp (y ++ [c₁, m, m', c₂, d, d', c₃, h, h', c₄, i, i', c₅, s, s', c₆]) =
      UInt64.ofNat (timegm
        { tmSec := numeral [s, s'], tmMin := numeral [i, i'], tmHour := numeral [h, h']
          tmMday := numeral [d, d'], tmMon := numeral [m, m'] - 1,
          tmYear := numeral y - 1900 }) := by
  have hlen : (y ++ [c₁, m, m', c₂, d, d', c₃, h, h', c₄, i, i', c₅, s, s', c₆]).length - 16 =
      y.length := by
    simp
  unfold readStamp
  rw [hlen, List.drop_left, List.take_left]

lemma readStamp_stamp {t : Tm} (h : t.Valid) : readStamp (stamp t) = UInt64.ofNat (timegm t) := by
  obtain ⟨hmon, hday, hhour, hmin, hsec⟩ := fields_lt h
  have hread := readStamp_append (natText t.year)
  rw [stamp_eq, stampTail]
  change readStamp (natText t.year ++ [byte '-', _, _, byte '-', _, _, byte 'T', _, _, byte ':', _,
    _, byte ':', _, _, byte 'Z']) = _
  rw [hread]
  change UInt64.ofNat (timegm
    { tmSec := numeral (two t.tmSec), tmMin := numeral (two t.tmMin)
      tmHour := numeral (two t.tmHour), tmMday := numeral (two t.tmMday)
      tmMon := numeral (two (t.tmMon + 1)) - 1, tmYear := numeral (natText t.year) - 1900 }) = _
  rw [numeral_natText, numeral_two hmon, numeral_two hday, numeral_two hhour, numeral_two hmin,
    numeral_two hsec, Nat.add_sub_cancel, Tm.year, Nat.add_sub_cancel]

lemma readStamp_isoText (seconds : UInt64) : readStamp (isoText seconds) = seconds := by
  rw [isoText, readStamp_stamp (valid_gmtime _), timegm_gmtime, UInt64.ofNat_toNat]

lemma isoText_injective : Function.Injective isoText :=
  Function.LeftInverse.injective readStamp_isoText

lemma plain_stamp {t : Tm} (h : t.Valid) : Plain (stamp t) := by
  obtain ⟨hmon, hday, hhour, hmin, hsec⟩ := fields_lt h
  have hmark : ∀ mark ∈ ["-", "T", ":", "Z"], Plain (ascii mark) := by
    unfold Plain
    decide
  have hdigits {n : ℕ} (hn : n < 100) : Plain (two n) := plain_of_allDigits (allDigits_two hn)
  simp only [stamp, plain_append]
  simp only [plain_natText, hdigits hmon, hdigits hday, hdigits hhour, hdigits hmin, hdigits hsec,
    hmark "-" (by simp), hmark "T" (by simp), hmark ":" (by simp), hmark "Z" (by simp), and_self]

lemma newline_not_mem_isoText (seconds : UInt64) : newline ∉ isoText seconds :=
  (plain_stamp (valid_gmtime _)).2

/-! ### Neither call fails -/

lemma seconds_le (epochMs : UInt64) : (epochMs / 1000).toNat ≤ 18446744073709551 := by
  have hlt := epochMs.toNat_lt
  rw [UInt64.toNat_div]
  change epochMs.toNat / 1000 ≤ _
  omega

/-- The seconds of a time in milliseconds are not negative as a `std::time_t`. -/
lemma timeT_eq (epochMs : UInt64) : timeT (epochMs / 1000) = (epochMs / 1000).toNat := by
  have hle := seconds_le epochMs
  change (epochMs / 1000).toInt64.toBitVec.toInt = _
  rw [UInt64.toBitVec_toInt64, BitVec.toInt_eq_toNat_of_lt]
  · rfl
  · change 2 * (epochMs / 1000).toNat < _
    omega

/-- The year has at most nine digits. -/
lemma year_lt {seconds : ℕ} (h : seconds ≤ 18446744073709551) : (gmtime seconds).year < 10 ^ 9 := by
  have hle := tmYear_gmtime_le seconds
  unfold Tm.year
  omega

lemma length_stamp_le {t : Tm} (h : t.year < 10 ^ 9) : (stamp t).length ≤ 25 := by
  have hyear := length_natText_le (by omega) h
  rw [stamp_eq, List.length_append, length_stampTail]
  omega

lemma formatIso8601Utc_eq (epochMs : UInt64) :
    formatIso8601Utc epochMs = some (isoText (epochMs / 1000)) := by
  have hyear := year_lt (seconds_le epochMs)
  have hroom : (stamp (gmtime (epochMs / 1000).toNat)).length < 32 :=
    (length_stamp_le hyear).trans_lt (by omega)
  have hfits : (gmtime (epochMs / 1000).toNat).tmYear < 2 ^ 31 := by
    unfold Tm.year at hyear
    omega
  rw [formatIso8601Utc, timeT_eq, Int.toNat_natCast, gmtime?, if_pos hfits, Option.bind_some,
    strftime, if_pos hroom, isoText]

/-- **Every timestamp is written, and read back.** For every start of a window that 64 bits can
hold, `gmtime` returns a broken-down time and the text fits the buffer; the text has neither a space
nor a newline, and it tells the second. It is the text of the date and time at that second. -/
theorem formatIso8601Utc_exact (epochMs : UInt64) : ∃ text,
    formatIso8601Utc epochMs = some text ∧ text.length ≤ 25 ∧ Plain text ∧
      readStamp text = epochMs / 1000 ∧
      ∀ t : Tm, t.Valid → timegm t = (epochMs / 1000).toNat → text = stamp t := by
  refine ⟨_, formatIso8601Utc_eq epochMs, length_stamp_le (year_lt (seconds_le epochMs)),
    plain_stamp (valid_gmtime _), readStamp_isoText _, fun t ht hsecond => ?_⟩
  rw [isoText, ← hsecond, gmtime_timegm ht]

/-! ### The order of the texts -/

/-- Texts of one length in front decide, unless they are equal. -/
lemma append_lt_append_iff {u v w z : Str} (h : u.length = v.length) :
    u ++ w < v ++ z ↔ u < v ∨ u = v ∧ w < z := by
  induction u generalizing v with
  | nil =>
      rw [List.length_nil, eq_comm, List.length_eq_zero_iff] at h
      simp [h]
  | cons a u ih =>
      obtain _ | ⟨b, v⟩ := v
      · cases h
      · rw [List.cons_append, List.cons_append, List.cons_lt_cons_iff, List.cons_lt_cons_iff,
          ih (Nat.succ.inj h), List.cons.injEq]
        tauto

lemma digitOf_add {c : UInt8} (h : isDigit c = true) : digitOf c + 48 = c.toNat :=
  forall_byte (p := fun c => isDigit c = true → digitOf c + 48 = c.toNat)
    (by decide +kernel) c h

lemma numeral_lt_pow {w : Str} (h : AllDigits w) : numeral w < 10 ^ w.length := by
  induction w with
  | nil => simp
  | cons c w ih =>
      have hw := ih fun d hd => h d (List.mem_cons_of_mem c hd)
      have hc : digitOf c ≤ 9 := by
        have hrange := isDigit_iff.mp (h c List.mem_cons_self)
        have hadd := digitOf_add (h c List.mem_cons_self)
        omega
      rw [numeral_cons, List.length_cons, Nat.pow_succ]
      have hmul := Nat.mul_le_mul_right (10 ^ w.length) hc
      omega

/-- Numerals of one length are ordered as their numbers are. -/
lemma numeral_lt_numeral_iff {u v : Str} (hu : AllDigits u) (hv : AllDigits v)
    (h : u.length = v.length) : u < v ↔ numeral u < numeral v := by
  induction u generalizing v with
  | nil =>
      rw [List.length_nil, eq_comm, List.length_eq_zero_iff] at h
      simp [h]
  | cons a u ih =>
      obtain _ | ⟨b, v⟩ := v
      · cases h
      · have hlen : u.length = v.length := Nat.succ.inj h
        have hu' : AllDigits u := fun c hc => hu c (List.mem_cons_of_mem a hc)
        have hv' : AllDigits v := fun c hc => hv c (List.mem_cons_of_mem b hc)
        have hua := numeral_lt_pow hu'
        have hvb := numeral_lt_pow hv'
        have ha := digitOf_add (hu a List.mem_cons_self)
        have hb := digitOf_add (hv b List.mem_cons_self)
        rw [hlen] at hua
        rw [List.cons_lt_cons_iff, ih hu' hv' hlen, numeral_cons, numeral_cons, hlen,
          UInt8.lt_iff_toNat_lt, ← UInt8.toNat_inj, ← ha, ← hb]
        -- the first digits decide, unless they are equal
        rcases lt_trichotomy (digitOf a) (digitOf b) with hab | hab | hab
        · have hmul := Nat.mul_le_mul_right (10 ^ v.length)
            (show digitOf a + 1 ≤ digitOf b from hab)
          rw [Nat.add_mul] at hmul
          omega
        · rw [hab]
          omega
        · have hmul := Nat.mul_le_mul_right (10 ^ v.length)
            (show digitOf b + 1 ≤ digitOf a from hab)
          rw [Nat.add_mul] at hmul
          omega

lemma two_lt_two_iff {m n : ℕ} (hm : m < 100) (hn : n < 100) : two m < two n ↔ m < n := by
  rw [numeral_lt_numeral_iff (allDigits_two hm) (allDigits_two hn) rfl, numeral_two hm,
    numeral_two hn]

lemma two_inj {m n : ℕ} (hm : m < 100) (hn : n < 100) : two m = two n ↔ m = n := by
  refine ⟨fun h => ?_, congrArg two⟩
  rw [← numeral_two hm, h, numeral_two hn]

lemma length_natText_year {y : ℕ} (h : 1000 ≤ y) (h' : y < 10000) : (natText y).length = 4 := by
  have hle := length_natText_le (k := 4) (by omega) h'
  have hlt := numeral_lt_pow (allDigits_natText y)
  rw [numeral_natText] at hlt
  have hpow : (natText y).length ≤ 3 → 10 ^ (natText y).length ≤ 10 ^ 3 :=
    Nat.pow_le_pow_right (by omega)
  omega

/-- With years of four digits the texts are ordered as the dates and times are. -/
lemma stamp_lt_stamp_iff {t t' : Tm} (h : t.Valid) (h' : t'.Valid) (hy : t.year < 10000)
    (hy' : t'.year < 10000) : stamp t < stamp t' ↔ t.key < t'.key := by
  obtain ⟨hmon, hday, hhour, hmin, hsec⟩ := fields_lt h
  obtain ⟨hmon', hday', hhour', hmin', hsec'⟩ := fields_lt h'
  have hlen := length_natText_year (y := t.year) (Nat.le_trans (by omega) (Nat.le_add_left _ _)) hy
  have hlen' := length_natText_year (y := t'.year)
    (Nat.le_trans (by omega) (Nat.le_add_left _ _)) hy'
  have hyears : natText t.year < natText t'.year ↔ t.tmYear < t'.tmYear := by
    rw [numeral_lt_numeral_iff (allDigits_natText _) (allDigits_natText _) (hlen.trans hlen'.symm),
      numeral_natText, numeral_natText, Tm.year, Tm.year]
    omega
  have hsame : natText t.year = natText t'.year ↔ t.tmYear = t'.tmYear := by
    rw [natText_injective.eq_iff, Tm.year, Tm.year]
    omega
  have hmark (c : String) (w z : Str) : ascii c ++ w < ascii c ++ z ↔ w < z := by
    rw [append_lt_append_iff rfl]
    simp
  have htwo {m n : ℕ} (hm : m < 100) (hn : n < 100) (w z : Str) :
      two m ++ w < two n ++ z ↔ m < n ∨ m = n ∧ w < z := by
    have hlength : (two m).length = (two n).length := rfl
    rw [append_lt_append_iff hlength, two_lt_two_iff hm hn, two_inj hm hn]
  rw [stamp_eq, stamp_eq, append_lt_append_iff (hlen.trans hlen'.symm), hyears, hsame, stampTail,
    stampTail, hmark, htwo hmon hmon', hmark, htwo hday hday', hmark, htwo hhour hhour', hmark,
    htwo hmin hmin', hmark, htwo hsec hsec']
  simp only [Tm.key, List.cons_lt_cons_iff, List.lt_irrefl, Nat.add_lt_add_iff_right,
    Nat.add_right_cancel_iff]

/-- The year 10000 begins 253402300800 seconds after 1970. -/
lemma year_lt_of_lt {seconds : ℕ} (h : seconds < 253402300800) : (gmtime seconds).year < 10000 := by
  rw [year_gmtime]
  by_contra hge
  have hstart : yearStart 8030 = 2932897 := by decide
  have hmono := yearStart_mono (show 8030 ≤ yearIndex (seconds / 86400) by omega)
  have hspec := (yearIndex_spec (seconds / 86400)).1
  omega

/-- The second of a time before the year 10000. -/
lemma seconds_lt {epochMs : UInt64} (h : epochMs < 253402300800000) :
    (epochMs / 1000).toNat < 253402300800 := by
  rw [UInt64.lt_iff_toNat_lt] at h
  change epochMs.toNat < 253402300800000 at h
  rw [UInt64.toNat_div]
  change epochMs.toNat / 1000 < _
  omega

lemma isoText_lt_isoText_iff {m n : UInt64} (hm : m < 253402300800000) (hn : n < 253402300800000) :
    isoText (m / 1000) < isoText (n / 1000) ↔ m / 1000 < n / 1000 := by
  rw [isoText, isoText, stamp_lt_stamp_iff (valid_gmtime _) (valid_gmtime _)
    (year_lt_of_lt (seconds_lt hm)) (year_lt_of_lt (seconds_lt hn)), key_gmtime_lt_iff,
    UInt64.lt_iff_toNat_lt]

lemma length_isoText {m : UInt64} (hm : m < 253402300800000) :
    (isoText (m / 1000)).length = 20 := by
  have hyear := length_natText_year (y := (gmtime (m / 1000).toNat).year)
    (Nat.le_trans (by omega) (Nat.le_add_left _ _)) (year_lt_of_lt (seconds_lt hm))
  rw [isoText, stamp_eq, List.length_append, hyear, length_stampTail]

/-- **The timestamps sort as text.** Before the year 10000, the timestamp of one window comes before
that of another in the order of their bytes just when its second does. -/
theorem formatIso8601Utc_lt_iff {m n : UInt64} (hm : m < 253402300800000)
    (hn : n < 253402300800000) : ∃ u v, formatIso8601Utc m = some u ∧
      formatIso8601Utc n = some v ∧ (u < v ↔ m / 1000 < n / 1000) :=
  ⟨_, _, formatIso8601Utc_eq m, formatIso8601Utc_eq n, isoText_lt_isoText_iff hm hn⟩

/-- The last second of 1999 and the first of 2000. -/
theorem formatIso8601Utc_lt_iff_millennium :
    formatIso8601Utc 946684799999 = some (ascii "1999-12-31T23:59:59Z") ∧
    formatIso8601Utc 946684800000 = some (ascii "2000-01-01T00:00:00Z") ∧
    ascii "1999-12-31T23:59:59Z" < ascii "2000-01-01T00:00:00Z" := by
  have h1 : formatIso8601Utc 946684799999 = some (ascii "1999-12-31T23:59:59Z") := by decide +kernel
  have h2 : formatIso8601Utc 946684800000 = some (ascii "2000-01-01T00:00:00Z") := by decide +kernel
  obtain ⟨u, v, hu, hv, hiff⟩ :=
    formatIso8601Utc_lt_iff (m := 946684799999) (n := 946684800000) (by decide) (by decide)
  rw [h1, Option.some.injEq] at hu
  rw [h2, Option.some.injEq] at hv
  subst hu hv
  exact ⟨h1, h2, hiff.mpr (by decide)⟩

end BinanceAggregator.StatsSerializer

/-! ### The output tells what was written -/

namespace BinanceAggregator.OutputFormat

open StatsSerializer

variable {formatSeconds : UInt64 → Str}

/-- **The output decodes uniquely.** If whole seconds are written as different texts without
newlines, a decoder gives back, for every sequence of blocks, their number and order, the second
of each, and the symbol and statistics of each window. -/
theorem exists_decoder
    (hinj : ∀ m n : UInt64,
      formatSeconds (m / 1000) = formatSeconds (n / 1000) → m / 1000 = n / 1000)
    (hsec : ∀ m : UInt64, newline ∉ formatSeconds (m / 1000)) :
    ∃ decoder : Str → Option (List (UInt64 × List (Str × Summary))),
      ∀ ys : List StatsSnapshot, (∀ y ∈ ys, y.windows ≠ [] ∧ ∀ x ∈ y.windows, Readable x) →
        decoder (ys.flatMap (serialize formatSeconds)) =
          some (ys.map fun y => (y.windowStartMs / 1000,
            y.windows.map fun x => (x.symbol, x.summary))) := by
  -- the second of a text, for the texts of seconds
  have hseconds : ∃ second : Str → UInt64,
      ∀ m : UInt64, second (formatSeconds (m / 1000)) = m / 1000 := by
    classical
    refine ⟨fun w => if h : ∃ m : UInt64, formatSeconds (m / 1000) = w then h.choose / 1000
      else 0, fun m => ?_⟩
    have hex : ∃ n : UInt64, formatSeconds (n / 1000) = formatSeconds (m / 1000) := ⟨m, rfl⟩
    exact (dif_pos hex).trans (hinj _ _ hex.choose_spec)
  obtain ⟨second, hsecond⟩ := hseconds
  refine ⟨fun w => (decode w).map fun bs => bs.map fun b => (second b.1, b.2), fun ys h => ?_⟩
  have hdecode := decode_flatMap_serialize hsec (fun y hy => (h y hy).1) fun y hy => (h y hy).2
  simp only [hdecode, Option.map_some, List.map_map, Function.comp_def, hsecond]

/-- Two windows that begin in one second, and one that begins in the next. -/
def twoBlocks : List StatsSnapshot :=
  [⟨1700000000000,
      [⟨ascii "BNBUSDT", 1700000000000, 2, ⟨50005000000⟩, ⟨25001000000⟩, ⟨25004000000⟩, 1, 1⟩,
        ⟨ascii "BTCUSDT", 1700000000000, 3, ⟨11100000000123⟩, ⟨3700000000000⟩, ⟨3700000000041⟩,
          3, 0⟩]⟩,
    ⟨1700000001000,
      [⟨ascii "BTCUSDT", 1700000001000, 1, ⟨5⟩, ⟨50000000⟩, ⟨50000000⟩, 0, 1⟩]⟩]

theorem exists_decoder_twoBlocks :
    twoBlocks.map (fun y => isoText (y.windowStartMs / 1000)) =
      [ascii "2023-11-14T22:13:20Z", ascii "2023-11-14T22:13:21Z"] ∧
    ∃ decoder : Str → Option (List (UInt64 × List (Str × Summary))),
      decoder (twoBlocks.flatMap (serialize isoText)) = some
        [(1700000000,
            [(ascii "BNBUSDT", ⟨2, ⟨50005000000⟩, ⟨25001000000⟩, ⟨25004000000⟩, 1, 1⟩),
              (ascii "BTCUSDT", ⟨3, ⟨11100000000123⟩, ⟨3700000000000⟩, ⟨3700000000041⟩, 3, 0⟩)]),
          (1700000001, [(ascii "BTCUSDT", ⟨1, ⟨5⟩, ⟨50000000⟩, ⟨50000000⟩, 0, 1⟩)])] := by
  obtain ⟨decoder, hdecoder⟩ := exists_decoder (fun m n h => isoText_injective h)
    fun m => newline_not_mem_isoText (m / 1000)
  refine ⟨by decide +kernel, decoder, hdecoder twoBlocks ?_⟩
  have hcheck : ∀ x ∈ twoBlocks.flatMap (·.windows), x.symbol ≠ [] ∧
      x.symbol.all isAlnum = true ∧ -2 ^ 63 < x.totalVolume.raw.toInt ∧
      -2 ^ 63 < x.minPrice.raw.toInt ∧ -2 ^ 63 < x.maxPrice.raw.toInt := by decide +kernel
  refine fun y hy => ⟨?_, fun x hx => ?_⟩
  · rintro hnil
    revert y
    decide +kernel
  · obtain ⟨hne, halnum, hvolume, hmin, hmax⟩ := hcheck x (List.mem_flatMap.mpr ⟨y, hy, hx⟩)
    exact ⟨hne, List.all_eq_true.mp halnum, hvolume, hmin, hmax⟩

end BinanceAggregator.OutputFormat
