import InfoObject.Json.Value

/-! Reading typed data out of JSON values. A reader puts what a value says in the place of what is there; `null`
says nothing, keys are matched whatever their case, and keys that mean nothing are passed over. -/
namespace InfoObject.Json

abbrev Reader (α : Type) := α → Value → Option α

def readText : Reader String
  | old, .null => some old
  | _, .text s => some s
  | _, _ => none

def readBool : Reader Bool
  | old, .null => some old
  | _, .bool b => some b
  | _, _ => none

/-- A list, each item of which is read into a blank; `null` is no list. -/
def readList? {α : Type} (read : Reader α) (blank : α) : Reader (Option (List α))
  | _, .null => some none
  | _, .list vs => (vs.mapM (read blank)).map some
  | _, _ => none

def readList {α : Type} (read : Reader α) (blank : α) : Reader (List α) := fun _ v =>
  (readList? read blank none v).map (·.getD [])

/-- The letter that all letters of one case orbit are matched by, for letters an ASCII key can have. -/
def foldLetter (c : Char) : Char :=
  if c.toNat = 0x17F then 's' else if c.toNat = 0x212A then 'k' else c.toLower

def foldKey (k : String) : String := String.ofList (k.toList.map foldLetter)

/-- What an item says that is read over another one: a record adds to a record, and `null` changes nothing. -/
def overItem : Value → Value → Value
  | .record a, .record b => .record (a++b)
  | old, .null => old
  | _, v => v

/-- Items read over those that are there; those that are not reached stay. -/
def overItems : List Value → List Value → List Value
  | old, [] => old
  | [], vs => vs
  | u::old, v::vs => overItem u v::overItems old vs

/-- What is remembered of a member that is given again: a list covers the start of the one before, a record adds to it,
and an empty list or `null` starts anew. -/
def overMember : Option Value → Value → Value
  | some (.list old), .list (v::vs) => .list (overItems old (v::vs))
  | some (.record old), .record ms => .record (old++ms)
  | _, v => v

/-- As much of what is remembered as the member itself says. -/
def shown : Value → Value → Value
  | .list items, .list vs => .list (items.take vs.length)
  | remembered, _ => remembered

/-- The members with their keys folded, each read over what was there under its key. -/
def overlaid (before : List (String × Value)) : List (String × Value) → List (String × Value)
  | [] => []
  | (k,v)::ms =>
    let key := foldKey k
    let remembered := overMember (before.lookup key) v
    (key,shown remembered v)::overlaid ((key,remembered)::before) ms

def readRecord {α : Type} (readMember : α → String → Value → Option α) : Reader α
  | old, .null => some old
  | old, .record ms => (overlaid [] ms).foldlM (fun a (k,v) => readMember a k v) old
  | _, _ => none

/-- A record that may have any keys, each of them once: of values under one key the last counts, but all are read. -/
def readEntries {α : Type} (read : Value → Option α) : Value → Option (List (String × α))
  | .null => some []
  | .record ms => do
    let entries ← ms.mapM fun (k,v) => do pure (k,← read v)
    return entries.foldl (fun done e => done.filter (·.1 != e.1)++[e]) []
  | _ => none

end InfoObject.Json
