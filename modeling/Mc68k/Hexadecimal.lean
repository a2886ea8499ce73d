namespace Mc68k

def hexDigits (width n : Nat) : String :=
  let digits := (Nat.toDigits 16 n).map Char.toUpper
  String.ofList (List.replicate (width - digits.length) '0' ++ digits)

def hexText (width n : Nat) : String := "0x" ++ hexDigits width n

end Mc68k
