import InfoObject.Yaml.Encoding
import InfoObject.Yaml.Scan

/-! YAML values, read from tokens. Only the first document of a file counts. -/
namespace InfoObject.Yaml

inductive Node where
  | scalar (text : String) (quoted : Bool)
  | list (items : List Node)
  | map (entries : List (Node × Node))
deriving Repr, Inhabited

def Node.absent : Node := .scalar "" false

def Node.isNull : Node → Bool
  | .scalar text false => ["","~","null","Null","NULL"].contains text
  | _ => false

def Node.isMap : Node → Bool
  | .map _ => true
  | _ => false

mutual

/-- A node. In brackets there are no blocks, and only a value may be a list without a block of its own. Each step takes a
token or is one of at most two in a row that do not, so three times the number of tokens is fuel enough. -/
def node? (fuel : Nat) (inBlock asValue : Bool) (ts : List Token) : Option (Node × List Token) :=
  match fuel with
  | 0 => none
  | fuel+1 =>
    match ts with
    | .scalar text quoted::ts => some (.scalar text quoted,ts)
    | .openList::ts => (flowItems? fuel true ts).map fun (items,ts) => (.list items,ts)
    | .openMap::ts => (flowEntries? fuel true ts).map fun (entries,ts) => (.map entries,ts)
    | .blockList::ts => if inBlock then (blockItems? fuel ts).map fun (items,ts) => (.list items,ts) else none
    | .blockMap::ts => if inBlock then (blockEntries? fuel ts).map fun (entries,ts) => (.map entries,ts) else none
    | .dash::_ => if asValue then (bareItems? fuel ts).map fun (items,ts) => (.list items,ts) else none
    | _ => none

def nodeUnless? (fuel : Nat) (inBlock asValue : Bool) (ends : List Token) (ts : List Token) : Option (Node × List Token) :=
  match fuel with
  | 0 => none
  | fuel+1 =>
    match ts with
    | [] => none
    | t::_ => if t ∈ ends then some (.absent,ts) else node? fuel inBlock asValue ts

def blockItems? (fuel : Nat) (ts : List Token) : Option (List Node × List Token) :=
  match fuel with
  | 0 => none
  | fuel+1 =>
    match ts with
    | .dash::ts => do
      let (item,ts) ← nodeUnless? fuel true false [.dash,.blockEnd] ts
      let (items,ts) ← blockItems? fuel ts
      return (item::items,ts)
    | .blockEnd::ts => some ([],ts)
    | _ => none

def bareItems? (fuel : Nat) (ts : List Token) : Option (List Node × List Token) :=
  match fuel with
  | 0 => none
  | fuel+1 =>
    match ts with
    | .dash::ts => do
      let (item,ts) ← nodeUnless? fuel true false [.dash,.key,.value,.blockEnd] ts
      let (items,ts) ← bareItems? fuel ts
      return (item::items,ts)
    | [] => none
    | ts => some ([],ts)

def blockEntries? (fuel : Nat) (ts : List Token) : Option (List (Node × Node) × List Token) :=
  match fuel with
  | 0 => none
  | fuel+1 =>
    match ts with
    | .key::ts => do
      let (key,ts) ← nodeUnless? fuel true true [.key,.value,.blockEnd] ts
      let (value,ts) ← value? fuel true [.key,.value,.blockEnd] ts
      let (entries,ts) ← blockEntries? fuel ts
      return ((key,value)::entries,ts)
    | .blockEnd::ts => some ([],ts)
    | _ => none

def value? (fuel : Nat) (inBlock : Bool) (ends : List Token) (ts : List Token) : Option (Node × List Token) :=
  match fuel with
  | 0 => none
  | fuel+1 =>
    match ts with
    | .value::ts => nodeUnless? fuel inBlock inBlock ends ts
    | [] => none
    | ts => some (.absent,ts)

def flowItems? (fuel : Nat) (first : Bool) (ts : List Token) : Option (List Node × List Token) :=
  match fuel with
  | 0 => none
  | fuel+1 => do
    if ts.head? = some .closeList then return ([],ts.tail)
    if !first && ts.head? != some .comma then none
    match if first then ts else ts.tail with
    | .closeList::ts => return ([],ts)
    | .key::ts =>
      let absent := ts.head?.any [Token.value,.comma,.closeList].contains
      let (key,ts) ← if absent then some (Node.absent,ts.tail) else node? fuel false false ts
      let (value,ts) ← value? fuel false [.comma,.closeList] ts
      let (items,ts) ← flowItems? fuel false ts
      return (.map [(key,value)]::items,ts)
    | ts =>
      let (item,ts) ← node? fuel false false ts
      let (items,ts) ← flowItems? fuel false ts
      return (item::items,ts)

def flowEntries? (fuel : Nat) (first : Bool) (ts : List Token) : Option (List (Node × Node) × List Token) :=
  match fuel with
  | 0 => none
  | fuel+1 => do
    if ts.head? = some .closeMap then return ([],ts.tail)
    if !first && ts.head? != some .comma then none
    match if first then ts else ts.tail with
    | .closeMap::ts => return ([],ts)
    | .key::ts =>
      let (key,ts) ← nodeUnless? fuel false false [.value,.comma,.closeMap] ts
      let (value,ts) ← value? fuel false [.comma,.closeMap] ts
      let (entries,ts) ← flowEntries? fuel false ts
      return ((key,value)::entries,ts)
    | ts =>
      let (key,ts) ← node? fuel false false ts
      if ts.isEmpty then none
      let (entries,ts) ← flowEntries? fuel false ts
      return ((key,.absent)::entries,ts)

end

/-- What a file says: nothing at all, or the node of its first document. -/
inductive Content where
  | empty
  | node (n : Node)

/-- The first document. It has ended when a token follows that is no part of it, whatever that is. -/
def document? (ts : List Token) : Option Content := do
  let fuel := 3*ts.length+3
  let (n,rest) ← match ts with
    | .streamEnd::_ => return .empty
    | .documentStart::ts => nodeUnless? fuel true false [.documentStart,.documentEnd,.streamEnd] ts
    | ts => node? fuel true false ts
  if rest.isEmpty then none else return .node n

def parse? (bytes : List UInt8) : Option Content := document? (scan (start bytes))

end InfoObject.Yaml
