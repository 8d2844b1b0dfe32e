import InteractionNets.Word

/-!
# Durations

Spans of time in whole nanoseconds, and the way they are written: in the largest unit of seconds,
milliseconds, microseconds and nanoseconds that they reach, with the exact fraction and without
trailing zeros.
-/

namespace InteractionNets

/-- A span of time, in nanoseconds. -/
@[ext]
structure Duration where
  nanos : Nat
deriving DecidableEq, Inhabited

namespace Duration

/-- The number of nanoseconds in a second. -/
def nanosPerSecond : Nat :=
  1000000000

/-- No time at all. -/
def zero : Duration :=
  ⟨0⟩

/-- The duration of some seconds and some nanoseconds. -/
def ofParts (seconds nanos : Nat) : Duration :=
  ⟨seconds * nanosPerSecond + nanos⟩

/-- The whole seconds of a duration. -/
def seconds (d : Duration) : Nat :=
  d.nanos / nanosPerSecond

/-- What is left of a duration beside its whole seconds, in nanoseconds. -/
def subsecondNanos (d : Duration) : Nat :=
  d.nanos % nanosPerSecond

/-- The whole milliseconds of a duration. -/
def millis (d : Duration) : Nat :=
  d.nanos / 1000000

instance : Add Duration where
  add a b := ⟨a.nanos + b.nanos⟩

instance : LT Duration where
  lt a b := a.nanos < b.nanos

instance : LE Duration where
  le a b := a.nanos ≤ b.nanos

instance (a b : Duration) : Decidable (a < b) :=
  inferInstanceAs (Decidable (a.nanos < b.nanos))

instance (a b : Duration) : Decidable (a ≤ b) :=
  inferInstanceAs (Decidable (a.nanos ≤ b.nanos))

instance : Min Duration where
  min a b := ⟨min a.nanos b.nanos⟩

instance : Max Duration where
  max a b := ⟨max a.nanos b.nanos⟩

/-- A duration can be **kept** when its seconds fit into 64 bits. -/
def fits (d : Duration) : Bool :=
  d.seconds < Word.count64

@[simp] theorem nanos_add (a b : Duration) : (a + b).nanos = a.nanos + b.nanos := rfl

/-! ### Averages -/

/-- A duration in seconds, as a double: the seconds and the nanoseconds over 10⁹, both rounded. -/
def toSeconds (d : Duration) : Float :=
  d.seconds.toUInt64.toFloat + d.subsecondNanos.toUInt64.toFloat / 1e9

/-- The quotient of two numbers rounded to the nearest whole number, a tie to the even one. -/
def roundHalfEven (num den : Nat) : Nat :=
  let q := num / den
  let twice := 2 * (num % den)
  if den < twice ∨ (den = twice ∧ q % 2 = 1) then q + 1 else q

/-- The duration nearest to a number of seconds; what is not a positive number counts as none. The
seconds are a double, that is a whole number times a power of two; both are read off its bits. -/
def ofSeconds (seconds : Float) : Duration :=
  let bits := seconds.toBits.toNat
  let exponent := (bits >>> 52) % 2048
  let fraction := bits % (1 <<< 52)
  if bits >>> 63 = 1 ∨ exponent = 2047 then zero
  else
    let mantissa := if exponent = 0 then fraction else (1 <<< 52) + fraction
    let shift := if exponent = 0 then 1 else exponent
    ⟨roundHalfEven ((mantissa <<< shift) * nanosPerSecond) (1 <<< 1075)⟩

/-- The equal share of a duration over a number of parts, rounded down to a nanosecond; from 2³²
parts on it is computed in doubles and rounded to the nearest nanosecond. -/
def share (d : Duration) (parts : Nat) : Duration :=
  if parts = 0 then zero
  else if parts < Word.count32 then ⟨d.nanos / parts⟩
  else ofSeconds (d.toSeconds / parts.toUInt64.toFloat)

/-! ### Writing -/

/-- A fraction of the given number of digits, with its point and without trailing zeros. -/
def fractionText (value digits : Nat) : String :=
  let padded := (List.replicate digits '0' ++ (toString value).toList).reverse.take digits
  match padded.dropWhile (· == '0') with
  | [] => ""
  | kept => "." ++ String.ofList kept.reverse

/-- A duration in the largest unit that it reaches. -/
def text (d : Duration) : String :=
  if 0 < d.seconds then
    toString d.seconds ++ fractionText d.subsecondNanos 9 ++ "s"
  else if 1000000 ≤ d.nanos then
    toString (d.nanos / 1000000) ++ fractionText (d.nanos % 1000000) 6 ++ "ms"
  else if 1000 ≤ d.nanos then
    toString (d.nanos / 1000) ++ fractionText (d.nanos % 1000) 3 ++ "µs"
  else
    toString d.nanos ++ "ns"

end Duration

end InteractionNets
