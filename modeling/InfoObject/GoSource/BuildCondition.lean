import InfoObject.Text.Letter
import InfoObject.Text.Space

/-! Comments that say when a file is built: which ones are, what they say, and how they are written. -/
namespace InfoObject.GoSource

inductive BuildCondition where
  | tag (name : String)
  | not (x : BuildCondition)
  | and (x y : BuildCondition)
  | or (x y : BuildCondition)
deriving DecidableEq, Repr

namespace BuildCondition

/-- What stands behind a mark, if white space or nothing follows it. -/
def behindMark? (mark : String) (cs : List Char) : Option (List Char) :=
  if mark.toList.isPrefixOf cs then
    let rest := cs.drop mark.length
    if rest.head?.all Text.isSpace then some (Text.trim rest) else none
  else none

def newText? (comment : List Char) : Option (List Char) :=
  if "//go:build".toList.isPrefixOf comment then behindMark? "//go:build" (Text.trim comment) else none

def oldText? : List Char → Option (List Char)
  | '/':: '/'::cs => behindMark? "+build" (Text.trim cs)
  | _ => none

def isTagChar (c : Char) : Bool := Text.isLetter c || Text.isDecimalDigit c || c == '_' || c == '.'

inductive Sign where
  | tag (name : String)
  | sign (text : String)
  | finish
deriving DecidableEq, Repr

def sign? (cs : List Char) : Option (Sign × List Char) :=
  match cs.dropWhile fun c => c == ' ' || c == '\t' with
  | [] => some (.finish,[])
  | c::r =>
    if c = '(' ∨ c = ')' ∨ c = '!' then some (.sign (String.ofList [c]),r)
    else if c = '&' ∨ c = '|' then
      if r.head? = some c then some (.sign (String.ofList [c,c]),r.tail) else none
    else
      match (c::r).span isTagChar with
      | ([],_) => none
      | (name,rest) => some (.tag (String.ofList name),rest)

def signs? : Nat → List Char → Option (List Sign)
  | 0, _ => none
  | fuel+1, cs => do
    let (s,r) ← sign? cs
    if s = .finish then return [s] else return s::(← signs? fuel r)

def maxOperands : Nat := 1000

/-- A reader of signs, with how many operands there were. -/
abbrev Reading := StateT (List Sign × Nat) Option

def look : Reading Sign := fun s => s.1.head?.map (·,s)

def next : Reading Sign := fun s =>
  match s with
  | ([],_) => none
  | (x::xs,n) => some (x,xs,n)

def count : Reading Unit := do
  let (_,n) ← get
  if n+1 > maxOperands then failure
  modify fun (xs,n) => (xs,n+1)

def joined (operand : Reading BuildCondition) (operator : String)
    (join : BuildCondition → BuildCondition → BuildCondition) : Nat → BuildCondition → Reading BuildCondition
  | 0, _ => failure
  | fuel+1, x => do
    if (← look) = .sign operator then
      let _ ← next
      joined operand operator join fuel (join x (← operand))
    else return x

def atom (inner : Reading BuildCondition) : Reading BuildCondition := do
  match ← next with
  | .tag name => return .tag name
  | .sign "(" =>
    let x ← inner
    if (← next) = .sign ")" then return x else failure
  | _ => failure

def negation (inner : Reading BuildCondition) : Reading BuildCondition := do
  count
  if (← look) = .sign "!" then
    let _ ← next
    return .not (← atom inner)
  else atom inner

def alternatives (fuel : Nat) : Nat → Reading BuildCondition
  | 0 => failure
  | depth+1 =>
    let operand := negation (alternatives fuel depth)
    let both : Reading BuildCondition := do joined operand "&&" .and fuel (← operand)
    do joined both "||" .or fuel (← both)

def ofNew? (cs : List Char) : Option BuildCondition := do
  let signs ← signs? (cs.length+1) cs
  let (x,rest,_) ← (alternatives (signs.length+1) (signs.length+1)).run (signs,0)
  if rest = [.finish] then return x else none

/-- A tag, or that it is not met; what is no tag stands for one that never is. -/
def ofWord (cs : List Char) : BuildCondition :=
  let tag (cs : List Char) := BuildCondition.tag (if !cs.isEmpty && cs.all isTagChar then String.ofList cs else "ignore")
  match cs with
  | ['!'] => .tag "ignore"
  | '!':: '!'::_ => .tag "ignore"
  | '!'::cs => .not (tag cs)
  | cs => tag cs

def maxOldOperators : Nat := 100

def ofOld? (cs : List Char) : Option BuildCondition :=
  let clauses := (Text.words cs).map fun w => (Path.split ',' w).map ofWord
  if clauses.flatten.length > maxOldOperators+1 then none
  else
    let all : List BuildCondition → BuildCondition
      | [] => .tag "ignore"
      | x::xs => xs.foldl .and x
    match clauses.map all with
    | [] => some (.tag "ignore")
    | x::xs => some (xs.foldl .or x)

def ofComment? (comment : List Char) : Option BuildCondition :=
  match newText? comment with
  | some cs => ofNew? cs
  | none => (oldText? comment).bind ofOld?

def isAnd : BuildCondition → Bool
  | and _ _ => true
  | _ => false

def isOr : BuildCondition → Bool
  | or _ _ => true
  | _ => false

def inParens (p : Bool) (s : String) : String := if p then "("++s++")" else s

def render : BuildCondition → String
  | tag name => name
  | not x => "!"++inParens (x.isAnd || x.isOr) x.render
  | and x y => inParens x.isOr x.render++" && "++inParens y.isOr y.render
  | or x y => inParens x.isAnd x.render++" || "++inParens y.isAnd y.render

/-- The same condition, or what it excludes, with negations of tags only. -/
def pushNot (negated : Bool) : BuildCondition → BuildCondition
  | tag name => if negated then .not (.tag name) else .tag name
  | not x => x.pushNot (!negated)
  | and x y => if negated then .or (x.pushNot negated) (y.pushNot negated) else .and (x.pushNot negated) (y.pushNot negated)
  | or x y => if negated then .and (x.pushNot negated) (y.pushNot negated) else .or (x.pushNot negated) (y.pushNot negated)

def conjuncts : BuildCondition → List BuildCondition
  | and x y => x.conjuncts++y.conjuncts
  | x => [x]

def disjuncts : BuildCondition → List BuildCondition
  | or x y => x.disjuncts++y.disjuncts
  | x => [x]

def isLiteral : BuildCondition → Bool
  | tag _ => true
  | not _ => true
  | _ => false

def oldLines? (x : BuildCondition) : Option (List String) := do
  let split ← (x.pushNot false).conjuncts.mapM fun d =>
    d.disjuncts.mapM fun c => if c.conjuncts.all isLiteral then some c.conjuncts else none
  let split := if split.all (·.length ≤ 1) then [[split.flatten.flatten]] else split
  return split.map fun clauses =>
    "// +build"++String.join (clauses.map fun literals => " "++",".intercalate (literals.map render))

end BuildCondition

end InfoObject.GoSource
