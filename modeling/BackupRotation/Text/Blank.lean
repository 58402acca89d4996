/-! Blank characters as the Unicode property White_Space lists them, and trimming by them.
Case folding here touches the letters A to Z only. -/
namespace BackupRotation.Text

def isBlank (c : Char) : Bool :=
  let n := c.toNat
  (9 ≤ n && n ≤ 13) || n == 0x20 || n == 0x85 || n == 0xA0 || n == 0x1680 ||
    (0x2000 ≤ n && n ≤ 0x200A) || n == 0x2028 || n == 0x2029 || n == 0x202F ||
    n == 0x205F || n == 0x3000

def skipBlanks (cs : List Char) : List Char := cs.dropWhile isBlank

def trimEnd (cs : List Char) : List Char := (skipBlanks cs.reverse).reverse

def trim (cs : List Char) : List Char := trimEnd (skipBlanks cs)

def lower (cs : List Char) : List Char := cs.map Char.toLower

def sameIgnoringCase (a b : List Char) : Bool := lower a == lower b

@[simp] theorem skipBlanksNil : skipBlanks [] = [] := rfl

theorem skipBlanksOfNot {c : Char} (cs : List Char) (h : isBlank c = false) :
    skipBlanks (c :: cs) = c :: cs := by
  simp [skipBlanks, h]

end BackupRotation.Text
