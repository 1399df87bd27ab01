/-!
# Hexadecimal text
-/
namespace PlainSketch.Text

/-- At least `width` hexadecimal digits, lower case, with leading zeros. -/
def hex (width n : Nat) : String :=
  let ds := Nat.toDigits 16 n
  String.ofList (List.replicate (width - ds.length) '0' ++ ds)

end PlainSketch.Text
