import Mixfix.Binary64.Arithmetic
import Mixfix.Binary64.Shortest

/-!
# Texts of numbers

The digits of a number are always the shortest ones; what differs between outputs is their layout. A
`Layout` says how a tie between two shortest decimals is broken, for which exponents of the leading
digit the number is written positionally, what marks a whole number, and how a positive exponent is
marked. Listings of trees, messages and JSON each have their own.
-/

set_option autoImplicit false

namespace Mixfix

/-- How the digits of a number are laid out. -/
structure Layout where
  /-- Which of two equally near decimals is taken. -/
  tie : Tie
  /-- Whether numbers whose leading digit has this exponent are written positionally. -/
  positional : Int → Bool
  /-- What follows a whole number that is written positionally. -/
  whole : String
  /-- What precedes a positive exponent. -/
  plus : String

namespace Layout

/-- Numbers in the text of a tree: positional from `1e-4` to below `1e16`, and always with a mark
that tells them from integers. -/
def tree : Layout := ⟨.up, fun leading => -4 ≤ leading && leading ≤ 15, ".0", ""⟩

/-- Numbers in messages: always positional and without marks. -/
def plain : Layout := ⟨.up, fun _ => true, "", ""⟩

/-- Numbers in JSON: positional from `1e-5` to below `1e16`. -/
def json : Layout := ⟨.even, fun leading => -5 ≤ leading && leading ≤ 15, ".0", "+"⟩

/-- The text of a positive decimal. -/
def decimals (layout : Layout) (decimals : Decimals) : String :=
  let digits := (Nat.toDigits 10 decimals.count)
  let leading := decimals.exponent + digits.length - 1
  if layout.positional leading then
    if 0 ≤ decimals.exponent then
      String.ofList (digits ++ List.replicate decimals.exponent.toNat '0') ++ layout.whole
    else if 0 ≤ leading then
      let point := (leading + 1).toNat
      String.ofList (digits.take point ++ '.' :: digits.drop point)
    else
      String.ofList ('0' :: '.' :: List.replicate (-leading - 1).toNat '0' ++ digits)
  else
    let fraction := if digits.length ≤ 1 then [] else '.' :: digits.drop 1
    let sign := if 0 ≤ leading then layout.plus else ""
    String.ofList (digits.take 1 ++ fraction) ++ "e" ++ sign ++ toString leading

end Layout

namespace Binary64

/-- The text of a number in a layout. -/
def text (layout : Layout) : Binary64 → String
  | .nan => "NaN"
  | .signed negative rank _ =>
    let size :=
      if rank = infinityRank then "inf"
      else if rank = 0 then "0" ++ layout.whole
      else layout.decimals (shortest layout.tie rank)
    if negative then "-" ++ size else size

/-- The text of a limit or of a number in a descriptor: whole numbers below `10 ^ 15` are written as
integers, also a negative zero, and all others as in messages. -/
def limitText (x : Binary64) : String :=
  match x.toInt? with
  | some n => if x.magnitudeBelow (Nat.pow 10 15) then toString n else x.text .plain
  | none => x.text .plain

end Binary64

end Mixfix
