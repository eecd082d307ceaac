/-!
# Text — the string functions the broker calls

`strconv.ParseUint(s, 10, 64)`, `strings.TrimSpace`, `strings.Fields`, `strings.Join` and `strings.Trim(s, "<>")`, on
the characters of a string.
-/
namespace Ccb

/-- `unicode.IsSpace`. -/
def isSpace (c : Char) : Bool :=
  let n := c.toNat
  (9 ≤ n && n ≤ 13) || n == 0x20 || n == 0x85 || n == 0xA0 || n == 0x1680 || (0x2000 ≤ n && n ≤ 0x200A) ||
    n == 0x2028 || n == 0x2029 || n == 0x202F || n == 0x205F || n == 0x3000

/-- The characters of `cs` with those satisfying `p` removed at both ends. -/
def trimEnds (p : Char → Bool) (cs : List Char) : List Char :=
  ((cs.dropWhile p).reverse.dropWhile p).reverse

def trimSpace (s : String) : String := String.ofList (trimEnds isSpace s.toList)

/-- `strings.Trim(s, "<>")`. -/
def trimAngles (s : String) : String := String.ofList (trimEnds (fun c => c == '<' || c == '>') s.toList)

def fields (s : String) : List String :=
  ((s.toList.splitOnP isSpace).filter (fun w => !w.isEmpty)).map String.ofList

def joinSpace (ws : List String) : String := String.intercalate " " ws

def isDigit (c : Char) : Bool := '0' ≤ c && c ≤ '9'

def digitsToNat (cs : List Char) : Nat := cs.foldl (fun n c => n * 10 + (c.toNat - '0'.toNat)) 0

/-- `strconv.ParseUint(s, 10, 64)`: digits only, at least one, and in range. -/
def parseUint (s : String) : Option UInt64 :=
  let cs := s.toList
  if cs.isEmpty || !cs.all isDigit || UInt64.size ≤ digitsToNat cs then none
  else some (UInt64.ofNat (digitsToNat cs))

/-- `fmt.Sprintf("%d", n)`. -/
def formatUint (n : UInt64) : String := toString n.toNat

end Ccb
