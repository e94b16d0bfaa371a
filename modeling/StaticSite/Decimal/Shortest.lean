/-!
# Shortest decimals

The decimal with the fewest digits that reads back as a given binary number; of several such
decimals the one nearest to the number, and the even one if two are equally near.

A finite number is `m * 2 ^ q`. A decimal reads back as the number if it lies between the points
halfway to the neighbours of the number, ends included if `m` is even. The decimal is found on the
coarsest grid of multiples of a power of ten that has a point there.
-/

namespace StaticSite.Decimal

/-- A positive finite binary number, in quarters of the distance to the next number. -/
structure Binary where
  /-- The number as a multiple of its unit. -/
  mantissa : Nat
  /-- The exponent of two of the unit. -/
  exponent : Int
  /-- Whether the number below is only half as far away as the one above. -/
  narrow : Bool

/-- The size of a finite number. -/
def Binary.ofFloat (x : Float) : Binary :=
  let bits := x.toBits.toNat % Nat.pow 2 63
  let fraction := bits % Nat.pow 2 52
  let scale : Nat := bits / Nat.pow 2 52
  if scale = 0 then { mantissa := fraction, exponent := -1074, narrow := false }
  else
    { mantissa := fraction + Nat.pow 2 52, exponent := Int.ofNat scale - 1075
      narrow := fraction = 0 && scale != 1 }

/-- The multiplier of `10 ^ grid` that reads back as the number, if there is one. -/
def Binary.onGrid? (b : Binary) (grid : Int) : Option Nat :=
  let unit := b.exponent - 2
  let scale := Nat.pow 2 unit.toNat * Nat.pow 10 (-grid).toNat
  let step := Nat.pow 2 (-unit).toNat * Nat.pow 10 grid.toNat
  let value := 4 * b.mantissa * scale
  let low := (4 * b.mantissa - if b.narrow then 1 else 2) * scale
  let high := (4 * b.mantissa + 2) * scale
  let readsBack (n : Nat) : Bool :=
    if b.mantissa % 2 = 0 then low ≤ n * step && n * step ≤ high
    else low < n * step && n * step < high
  let n := value / step
  let below := value - n * step
  let above := (n + 1) * step - value
  let upper := below > above || (below == above && n % 2 == 1)
  if readsBack n && readsBack (n + 1) then some (if upper then n + 1 else n)
  else if readsBack n then some n
  else if readsBack (n + 1) then some (n + 1)
  else none

/-- The digits of the shortest decimal and the exponent of ten of the last digit. -/
def Binary.shortest (b : Binary) : Nat × Int :=
  let grids := (List.range 634).map fun (i : Nat) => (309 : Int) - i
  (grids.findSome? fun g => (b.onGrid? g).map (·, g)).getD (0, 0)

/-- The number nearest to `digits * 10 ^ exponent`, infinite if it is too large. -/
def toFloat (digits : Nat) (exponent : Int) : Float :=
  let size := (Nat.toDigits 10 digits).length + exponent
  if digits = 0 ∨ size < -330 then 0.0
  else if 330 < size then 1.0 / 0.0
  else Float.ofScientific digits (exponent < 0) exponent.natAbs

end StaticSite.Decimal
