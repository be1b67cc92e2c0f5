import LocalHttp.Binary64

namespace LocalHttp.Binary64

/-- A positive value and the ends of the interval that rounds to it, in quarters of its last
binary place. The lower half is narrower at a power of two. -/
structure Neighbourhood where
  low : Nat
  value : Nat
  high : Nat
  closed : Bool

def neighbourhood (m : Nat) (e : Int) : Neighbourhood where
  low := if m = Nat.pow 2 52 ∧ e ≠ lowestExponent then 4 * m - 1 else 4 * m - 2
  value := 4 * m
  high := 4 * m + 2
  closed := m % 2 = 0

structure Digits where
  digits : Nat
  exponent : Int
  deriving DecidableEq

/-- The best point of the grid `10^k` in the neighbourhood, if one lies there: `num / den` is a
quarter of the last binary place in units of the grid. -/
def pointOnGrid (h : Neighbourhood) (num den : Nat) : Option Nat :=
  let below := h.value * num / den
  let inside (d : Nat) : Bool :=
    if h.closed then h.low * num ≤ d * den && d * den ≤ h.high * num
    else h.low * num < d * den && d * den < h.high * num
  match inside below, inside (below + 1) with
  | true, true =>
    let rest := 2 * (h.value * num - below * den)
    if rest < den ∨ (rest = den ∧ below % 2 = 0) then some below else some (below + 1)
  | true, false => some below
  | false, true => some (below + 1)
  | false, false => none

def searchGrids (h : Neighbourhood) (e : Int) : Nat → Int → Digits
  | 0, _ => ⟨h.value, e⟩
  | fuel + 1, k =>
    let num := Nat.pow 2 (e - 2).toNat * Nat.pow 10 (-k).toNat
    let den := Nat.pow 2 (2 - e).toNat * Nat.pow 10 k.toNat
    match pointOnGrid h num den with
    | some d => ⟨d, k⟩
    | none => searchGrids h e fuel (k - 1)

def trimZeros : Nat → Digits → Digits
  | 0, d => d
  | fuel + 1, d => if d.digits % 10 = 0 then trimZeros fuel ⟨d.digits / 10, d.exponent + 1⟩ else d

def shortest (m : Nat) (e : Int) : Digits :=
  let top : Int := e + m.log2
  trimZeros 20 (searchGrids (neighbourhood m e) e 25 (Int.fdiv ((top + 1) * 30103) 100000 + 1))

def digitChars (n : Nat) : List Char := Nat.toDigits 10 n

def zeros (n : Nat) : List Char := List.replicate n '0'

def layout (d : Digits) : List Char :=
  let ds := digitChars d.digits
  let point : Int := ds.length + d.exponent
  if -5 < point ∧ point ≤ 16 then
    if point ≤ 0 then '0' :: '.' :: zeros (-point).toNat ++ ds
    else if 0 ≤ d.exponent then ds ++ zeros d.exponent.toNat ++ ['.', '0']
    else ds.take point.toNat ++ '.' :: ds.drop point.toNat
  else
    let mantissa :=
      match ds with
      | [d] => [d]
      | d :: rest => d :: '.' :: rest
      | [] => []
    let power := point - 1
    mantissa ++ 'e' :: (if power < 0 then '-' else '+') :: digitChars power.natAbs

def text? : Binary64 → Option String
  | .finite negative m e =>
    let body := if m = 0 then "0.0".toList else layout (shortest m e)
    some (String.ofList (if negative then '-' :: body else body))
  | _ => none

end LocalHttp.Binary64
