import FormulaSearch.Number.Nearest

/-!
# Six decimal places

Scores are reported with six digits after the point. The exact value is rounded, a tie to the even
digit, and the sign of a value that rounds to zero is kept.
-/

namespace FormulaSearch.Binary64

/-- The magnitude of a finite value in millionths, rounded. -/
def millionths (x : Binary64) : Nat :=
  roundHalfEven (x.fraction.1 * 1000000) x.fraction.2

def padLeft (width : Nat) (cs : List Char) : List Char :=
  List.replicate (width - cs.length) '0' ++ cs

theorem length_padLeft (width : Nat) (cs : List Char) :
    (padLeft width cs).length = max width cs.length := by
  simp [padLeft]; omega

def sixPlaces (x : Binary64) : String :=
  if x.isNaN then "NaN"
  else
    let sign := if x.isNegative then "-" else ""
    if x.isInfinite then sign ++ "inf"
    else
      let n := x.millionths
      sign ++ toString (n / 1000000) ++ "." ++
        String.ofList (padLeft 6 (Nat.toDigits 10 (n % 1000000)))

end FormulaSearch.Binary64
