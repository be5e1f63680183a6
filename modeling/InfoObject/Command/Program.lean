import InfoObject.Command.Run

/-! The program as a whole: which command its arguments name, help, and what is wrong with them. -/
namespace InfoObject.Command

/-- Whether an argument is a flag that takes the next argument, as far as the given flags tell. A flag that is not
known counts as one. -/
def takesNext (flags : List Flag) (arg : String) : Bool :=
  match arg.toList with
  | '-':: '-'::name =>
    !name.contains '=' && !flags.any fun f => f.isSwitch && f.name == String.ofList name
  | ['-',c] => c != '=' && c.utf8Size = 1 && !flags.any fun f => f.isSwitch && f.short == some c
  | _ => false

def withoutFlags (flags : List Flag) : List String → List String
  | [] => []
  | a::as =>
    if a = "--" then []
    else if takesNext flags a then
      match as with
      | _::b::bs => withoutFlags flags (b::bs)
      | _ => []
    else if a.isEmpty || a.toList.head? == some '-' then withoutFlags flags as
    else a::withoutFlags flags as

/-- The arguments without the first that is the word, flags and their values being passed over. -/
def withoutWord (flags : List Flag) (word : String) : List String → List String
  | [] => []
  | a::as =>
    if a = "--" then a::as
    else if takesNext flags a then
      match as with
      | v::bs => a::v::withoutWord flags word bs
      | [] => [a]
    else if a.toList.head? != some '-' && a == word then as
    else a::withoutWord flags word as

inductive Target where
  | program (args : List String)
  | command (n : Name) (args : List String)
  | unknown (word : String)
deriving DecidableEq, Repr

def Target.ofArguments (args : List String) : Target :=
  match withoutFlags [] args with
  | [] => .program args
  | word::_ =>
    match Name.ofWord? word with
    | some n => .command n (withoutWord [] word args)
    | none => .unknown word

/-- A word between backquotes if it can stand there, and in double quotes if not. -/
def backquoted (s : String) : String :=
  if s.toList.all fun c => c != '`' && c != '\x7f' && c.toNat != 0xFEFF && (c == '\t' || c.toNat ≥ 0x20) then
    "`"++s++"`"
  else Text.quoted s

def helpOutcome (text : String) : Outcome := ⟨0,{stdout := text}⟩

def failure (text : String) : Outcome := ⟨1,{stderr := "Error: "++text++"\n" }⟩

def giveHelp (args : List String) : Outcome :=
  match Target.ofArguments args with
  | .program _ => helpOutcome (programUsage true)
  | .command n _ => helpOutcome n.helpText
  | .unknown _ =>
    ⟨0,{stderr := "Unknown help topic ["++" ".intercalate (args.map backquoted)++"]\n"++programUsage false}⟩

section
variable {m : Type → Type} [Monad m] [Files.Access m]

/-- Runs a command on its arguments; help is given whatever else is there. -/
def Name.execute (n : Name) (env : Environment) (args : List String) : m Outcome :=
  match Arguments.parse (helpFlag n.word::n.flags) args with
  | .error e => pure (failure e.message)
  | .ok a =>
    if a.flags.switch "help" then pure (helpOutcome n.helpText)
    else if n = .help then pure (giveHelp a.rest)
    else n.run env a.flags a.rest

def program (env : Environment) (args : List String) : m Outcome :=
  match Target.ofArguments args with
  | .command n args => n.execute env args
  | .unknown word =>
    pure ⟨1,{ stderr := "Error: unknown command "++Text.quoted word++" for \x22infosem\x22\n" ++
      "Run 'infosem --help' for usage.\n" }⟩
  | .program args =>
    match Arguments.parse [helpFlag "infosem"] args with
    | .error e => pure (failure e.message)
    | .ok a =>
      if a.flags.switch "help" then pure (helpOutcome (programUsage true))
      else pure ⟨1,{stderr := programUsage true}⟩

end

end InfoObject.Command
