/-! Numbers written with a fixed least number of digits. -/

namespace Seedbed

/-- Text with fill characters in front until it has the given width. -/
def padLeft (width : Nat) (fill : Char) (cs : List Char) : List Char :=
  List.replicate (width - cs.length) fill ++ cs

/-- A number in decimal, with zeros in front up to the given width. -/
def padded (width n : Nat) : List Char := padLeft width '0' (Nat.toDigits 10 n)

end Seedbed
