/-!
# White space

Two classes of white space: `isBlank` is the Unicode property `White_Space`, which separates words and is
trimmed from names; `isAsciiBlank` is the smaller class of bytes that may fill an otherwise empty request body.
-/

namespace SchemaRpc.Text

def isBlank (c : Char) : Bool :=
  let n := c.toNat
  (0x9 ≤ n && n ≤ 0xd) || n == 0x20 || n == 0x85 || n == 0xa0 || n == 0x1680 ||
    (0x2000 ≤ n && n ≤ 0x200a) || n == 0x2028 || n == 0x2029 || n == 0x202f || n == 0x205f || n == 0x3000

/-- Space, tab, line feed, form feed and carriage return; the vertical tab is not one of them. -/
def isAsciiBlank (b : UInt8) : Bool :=
  b == 0x20 || b == 0x9 || b == 0xa || b == 0xc || b == 0xd

def allBlank (s : String) : Bool :=
  s.toList.all isBlank

theorem isBlank_of_isWhitespace {c : Char} (h : c.isWhitespace = true) : isBlank c = true := by
  simp only [Char.isWhitespace, Bool.or_eq_true, decide_eq_true_eq] at h
  rcases h with ((h | h) | h) | h <;> subst h <;> decide

end SchemaRpc.Text
