import InfoObject.Text.Letter

/-! Names in generated Go: exported identifiers for entities and fields, and package names. -/
namespace InfoObject.GoSource

/-- Letters and digits stay, the first one behind a hyphen or at the start in upper case; hyphens go, and
anything else becomes an underscore. -/
def nameChars (startsWord : Bool) : List Char → List Char
  | [] => []
  | c::cs =>
    if Text.isLetter c || Text.isDecimalDigit c then
      (if startsWord then Text.toUpper c else c)::nameChars false cs
    else if c = '-' then nameChars true cs
    else '_'::nameChars startsWord cs

def trimUnderscores (cs : List Char) : List Char := (cs.reverse.dropWhile (· == '_')).reverse

/-- A name may start with a letter. It is judged by the first byte of its encoding, taken as a character. -/
def startsLikeName : List Char → Bool
  | [] => false
  | c::_ => (String.utf8EncodeChar c).head?.any fun b => Text.isLetter (Char.ofNat b.toNat)

def exportedName (name : String) : String :=
  let cs := trimUnderscores (nameChars true name.toList)
  String.ofList (if startsLikeName cs then cs else 'X'::cs)

def fieldName (field : String) : String :=
  match field.toList with
  | '&'::cs => exportedName (String.ofList cs)
  | cs => exportedName (String.ofList cs)

def packageChar? (c : Char) : Option Char :=
  if c.toNat = 0x130 then some 'i'
  else if c.toNat = 0x212A then some 'k'
  else
    let l := c.toLower
    if l.isLower || l.isDigit then some l else none

def packageName (module : String) : String :=
  let cs := module.toList.filterMap packageChar?
  String.ofList (if cs.head?.any Char.isLower then cs else ['a','s','n']++cs)

def keywords : List String :=
  ["break","case","chan","const","continue","default","defer","else","fallthrough","for","func","go",
    "goto","if","import","interface","map","package","range","return","select","struct","switch","type",
    "var"]

end InfoObject.GoSource
