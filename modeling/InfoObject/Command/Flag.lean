import InfoObject.Text.Quoted

/-! Flags on the command line: `--name=value`, `--name value`, `-n value` and the like, mixed with other arguments. -/
namespace InfoObject.Command

inductive FlagKind where
  | switch
  | text (default : String)
  | texts
deriving DecidableEq, Repr

structure Flag where
  name : String
  short : Option Char
  kind : FlagKind
  usage : String
deriving DecidableEq, Repr

def Flag.isSwitch (f : Flag) : Bool := f.kind == .switch

def Flag.display (f : Flag) : String :=
  (f.short.elim "" fun c => "-"++c.toString++", ")++"--"++f.name

inductive FlagFault where
  | badSyntax (arg : String)
  | unknown (name : String)
  | unknownShort (c : Char) (letters : String)
  | noValue (arg : String)
  | noValueShort (c : Char) (letters : String)
  | invalid (value flag : String)
  /-- Help was asked for where there is no help flag. -/
  | help
deriving DecidableEq, Repr

def FlagFault.message : FlagFault → String
  | badSyntax arg => "bad flag syntax: "++arg
  | unknown name => "unknown flag: --"++name
  | unknownShort c letters => "unknown shorthand flag: "++Text.quotedChar c++" in -"++letters
  | noValue arg => "flag needs an argument: "++arg
  | noValueShort c letters => "flag needs an argument: "++Text.quotedChar c++" in -"++letters
  | invalid value flag =>
    "invalid argument "++Text.quoted value++" for "++Text.quoted flag++" flag: strconv.ParseBool: parsing " ++
      Text.quoted value++": invalid syntax"
  | help => "pflag: help requested"

def truth? (s : String) : Option Bool :=
  if ["1","t","T","TRUE","true","True"].contains s then some true
  else if ["0","f","F","FALSE","false","False"].contains s then some false
  else none

abbrev FlagValues := List (String × String)

namespace FlagValues

def text (vs : FlagValues) (name default : String) : String :=
  ((vs.filter (·.1 == name)).getLast?.map (·.2)).getD default

def switch (vs : FlagValues) (name : String) : Bool := (truth? (vs.text name "false")).getD false

def texts (vs : FlagValues) (name : String) : List String := (vs.filter (·.1 == name)).map (·.2)

end FlagValues

def checked (f : Flag) (value : String) : Except FlagFault (String × String) :=
  if f.isSwitch && (truth? value).isNone then .error (.invalid value f.display) else .ok (f.name,value)

/-- What one argument says: values for flags, and a flag that takes the next argument for its value, with the fault if
there is none. -/
structure Reading where
  given : FlagValues
  open? : Option (Flag × FlagFault)

def readLong (flags : List Flag) (arg : String) (body : List Char) : Except FlagFault Reading := do
  if body.head?.all fun c => c == '-' || c == '=' then throw (.badSyntax arg)
  let name := String.ofList (body.takeWhile (· != '='))
  match flags.find? (·.name == name) with
  | none => throw (if name = "help" then .help else .unknown name)
  | some f =>
    match body.dropWhile (· != '=') with
    | _::value => return ⟨[← checked f (String.ofList value)],none⟩
    | [] => if f.isSwitch then return ⟨[← checked f "true"],none⟩ else return ⟨[],some (f,.noValue arg)⟩

/-- A letter is told by its first byte. -/
def firstByte (c : Char) : Char :=
  match String.utf8EncodeChar c with
  | b::_ => Char.ofNat b.toNat
  | [] => c

def readShort (flags : List Flag) (given : FlagValues) : List Char → Except FlagFault Reading
  | [] => .ok ⟨given,none⟩
  | c::r =>
    let letters := String.ofList (c::r)
    if "test.".toList.isPrefixOf (c::r) then .ok ⟨given,none⟩
    else
      match flags.find? (·.short == some c) with
      | none => .error (if c = 'h' then .help else .unknownShort (firstByte c) letters)
      | some f =>
        match r with
        | '='::v::vs => do return ⟨given++[← checked f (String.ofList (v::vs))],none⟩
        | _ =>
          if f.isSwitch then readShort flags (given++[(f.name,"true")]) r
          else if r.isEmpty then .ok ⟨given,some (f,.noValueShort c letters)⟩
          else do return ⟨given++[← checked f (String.ofList r)],none⟩

def readArgument (flags : List Flag) (arg : String) : Except FlagFault (Option Reading) :=
  match arg.toList with
  | '-':: '-'::body => (readLong flags arg body).map some
  | '-'::c::r => (readShort flags [] (c::r)).map some
  | _ => .ok none

structure Arguments where
  flags : FlagValues
  rest : List String
deriving DecidableEq, Repr

/-- Sorts arguments into flags and others; behind two dashes all are others. -/
def parseArguments (flags : List Flag) (values : FlagValues) (rest : List String) : List String → Except FlagFault Arguments
  | [] => .ok ⟨values,rest⟩
  | a::as =>
    if a = "--" then .ok ⟨values,rest++as⟩
    else
      match readArgument flags a with
      | .error e => .error e
      | .ok none => parseArguments flags values (rest++[a]) as
      | .ok (some ⟨given,none⟩) => parseArguments flags (values++given) rest as
      | .ok (some ⟨given,some (f,fault)⟩) =>
        match as with
        | [] => .error fault
        | v::as =>
          match checked f v with
          | .error e => .error e
          | .ok value => parseArguments flags (values++given++[value]) rest as

def Arguments.parse (flags : List Flag) (args : List String) : Except FlagFault Arguments :=
  parseArguments flags [] [] args

end InfoObject.Command
