/-! The names that groups of characters have in patterns: general categories, short and long, and
scripts, as of Unicode 17.0. -/
namespace InfoObject.Pattern

def categories : List String :=
  ["any","ascii","assigned","c","cc","cf","cn","co","cs","l","lc","ll","lm","lo","lt","lu","m","mc",
    "me","mn","n","nd","nl","no","p","pc","pd","pe","pf","pi","po","ps","s","sc","sk","sm","so","z",
    "zl","zp","zs"]

def longCategories : List String :=
  ["casedletter","closepunctuation","cntrl","combiningmark","connectorpunctuation","control","currencysymbol",
    "dashpunctuation","decimalnumber","digit","enclosingmark","finalpunctuation","format","initialpunctuation",
    "letter","letternumber","lineseparator","lowercaseletter","mark","mathsymbol","modifierletter",
    "modifiersymbol","nonspacingmark","number","openpunctuation","other","otherletter","othernumber",
    "otherpunctuation","othersymbol","paragraphseparator","privateuse","punct","punctuation","separator",
    "spaceseparator","spacingmark","surrogate","symbol","titlecaseletter","unassigned","uppercaseletter"]

def scripts : List String :=
  ["adlam","ahom","anatolianhieroglyphs","arabic","armenian","avestan","balinese","bamum","bassavah","batak",
    "bengali","beriaerfe","bhaiksuki","bopomofo","brahmi","braille","buginese","buhid","canadianaboriginal",
    "carian","caucasianalbanian","chakma","cham","cherokee","chorasmian","common","coptic","cuneiform",
    "cypriot","cyprominoan","cyrillic","deseret","devanagari","divesakuru","dogra","duployan",
    "egyptianhieroglyphs","elbasan","elymaic","ethiopic","garay","georgian","glagolitic","gothic","grantha",
    "greek","gujarati","gunjalagondi","gurmukhi","gurungkhema","han","hangul","hanifirohingya","hanunoo",
    "hatran","hebrew","hiragana","imperialaramaic","inherited","inscriptionalpahlavi","inscriptionalparthian",
    "javanese","kaithi","kannada","katakana","kawi","kayahli","kharoshthi","khitansmallscript","khmer",
    "khojki","khudawadi","kiratrai","lao","latin","lepcha","limbu","lineara","linearb","lisu","lycian",
    "lydian","mahajani","makasar","malayalam","mandaic","manichaean","marchen","masaramgondi","medefaidrin",
    "meeteimayek","mendekikakui","meroiticcursive","meroitichieroglyphs","miao","modi","mongolian","mro",
    "multani","myanmar","nabataean","nagmundari","nandinagari","newa","newtailue","nko","nushu",
    "nyiakengpuachuehmong","ogham","olchiki","oldhungarian","olditalic","oldnortharabian","oldpermic",
    "oldpersian","oldsogdian","oldsoutharabian","oldturkic","olduyghur","olonal","oriya","osage","osmanya",
    "pahawhhmong","palmyrene","paucinhau","phagspa","phoenician","psalterpahlavi","rejang","runic",
    "samaritan","saurashtra","sharada","shavian","siddham","sidetic","signwriting","sinhala","sogdian",
    "sorasompeng","soyombo","sundanese","sunuwar","sylotinagri","syriac","tagalog","tagbanwa","taile",
    "taitham","taiviet","taiyo","takri","tamil","tangsa","tangut","telugu","thaana","thai","tibetan",
    "tifinagh","tirhuta","todhri","tolongsiki","toto","tulutigalari","ugaritic","vai","vithkuqi","wancho",
    "warangciti","yezidi","yi","zanabazarsquare"]

/-- Case, blanks, hyphens and low lines in a name do not count. -/
def foldName (name : List Char) : String :=
  String.ofList ((name.filter fun c => c != ' ' && c != '-' && c != '_').map Char.toLower)

def isGroupName (name : List Char) : Bool :=
  let name := foldName (if name.head? = some '^' then name.tail else name)
  categories.contains name || longCategories.contains name || scripts.contains name

def characterGroup? : List Char → Option (String × List Char)
  | '\x7b'::r =>
    let name := r.takeWhile (· != '\x7d')
    match r.drop name.length with
    | _::rest => if isGroupName name then some (String.ofList name,rest) else none
    | [] => none
  | c::r => if isGroupName [c] then some (String.singleton c,r) else none
  | [] => none

def namedRanges? (name : List Char) : Option (List (Nat × Nat)) :=
  match String.ofList name with
  | "alnum" => some [(0x30,0x39),(0x41,0x5A),(0x61,0x7A)]
  | "alpha" => some [(0x41,0x5A),(0x61,0x7A)]
  | "ascii" => some [(0x00,0x7F)]
  | "blank" => some [(0x09,0x09),(0x20,0x20)]
  | "cntrl" => some [(0x00,0x1F),(0x7F,0x7F)]
  | "digit" => some [(0x30,0x39)]
  | "graph" => some [(0x21,0x7E)]
  | "lower" => some [(0x61,0x7A)]
  | "print" => some [(0x20,0x7E)]
  | "punct" => some [(0x21,0x2F),(0x3A,0x40),(0x5B,0x60),(0x7B,0x7E)]
  | "space" => some [(0x09,0x0D),(0x20,0x20)]
  | "upper" => some [(0x41,0x5A)]
  | "word" => some [(0x30,0x39),(0x41,0x5A),(0x5F,0x5F),(0x61,0x7A)]
  | "xdigit" => some [(0x30,0x39),(0x41,0x46),(0x61,0x66)]
  | _ => none

def namedClass? : List Char → Option (List Char × List Char)
  | ':':: ']'::r => some ([],r)
  | c::r => (namedClass? r).map fun (name,r) => (c::name,r)
  | [] => none

end InfoObject.Pattern
