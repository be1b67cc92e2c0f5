import LocalHttp.Binary64

namespace LocalHttp.Binary64

def digitsValue (cs : List Char) : Nat :=
  cs.foldl (fun n c ↦ n * 10 + (c.toNat - '0'.toNat)) 0

def exponent? (cs : List Char) : Option Int :=
  let digits (negative : Bool) (ds : List Char) : Option Int :=
    if ds.isEmpty || !ds.all Char.isDigit then none
    else some (if negative then -(digitsValue ds : Int) else digitsValue ds)
  match cs with
  | [] => some 0
  | c :: rest =>
    if c.toLower ≠ 'e' then none
    else
      match rest with
      | '+' :: ds => digits false ds
      | '-' :: ds => digits true ds
      | ds => digits false ds

def ofUnsigned? (negative : Bool) (cs : List Char) : Option Binary64 :=
  match String.ofList (cs.map Char.toLower) with
  | "inf" | "infinity" => some (.infinite negative)
  | "nan" => some .nan
  | _ =>
    let whole := cs.takeWhile Char.isDigit
    let behind := cs.dropWhile Char.isDigit
    let (fraction, behind) :=
      match behind with
      | '.' :: rest => (rest.takeWhile Char.isDigit, rest.dropWhile Char.isDigit)
      | _ => ([], behind)
    if whole.isEmpty && fraction.isEmpty then none
    else
      (exponent? behind).map fun e ↦
        ofDecimal negative (digitsValue (whole ++ fraction)) (e - fraction.length)

def ofText? (text : String) : Option Binary64 :=
  match text.toList with
  | '+' :: cs => ofUnsigned? false cs
  | '-' :: cs => ofUnsigned? true cs
  | cs => ofUnsigned? false cs

end LocalHttp.Binary64
