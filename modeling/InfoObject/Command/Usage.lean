import InfoObject.Command.Flag

/-! The commands of the program, and the texts that explain them. -/
namespace InfoObject.Command

inductive Name where
  | check
  | dump
  | emit
  | help
deriving DecidableEq, Repr

namespace Name

def all : List Name := [check,dump,emit,help]

def word : Name → String
  | check => "check"
  | dump => "dump"
  | emit => "emit"
  | help => "help"

def ofWord? (w : String) : Option Name := all.find? (·.word == w)

def usage : Name → String
  | check => "check [FILE...]"
  | dump => "dump [FILE...]"
  | emit => "emit [FILE...]"
  | help => "help [command]"

def summary : Name → String
  | check => "Check modules and print diagnostics"
  | dump => "Check modules and print the resolved classes, objects and sets"
  | emit => "Check modules and write JSON documents, or run an emit plugin"
  | help => "Help about any command"

def description : Name → String
  | help =>
    "Help provides help for any command in the application.\nSimply type infosem help [path to command] for full details."
  | n => n.summary

end Name

def projectFlags : List Flag :=
  [⟨"color",none,.text "auto","colorize diagnostics: auto, always or never"⟩,
    ⟨"project",none,.text "","project manifest (default ./infosem.yaml when no files are given)"⟩,
    ⟨"werror",none,.switch,"treat warnings as errors"⟩]

def Name.flags : Name → List Flag
  | .check => ⟨"format",some 'f',.text "text","diagnostic format: text or json"⟩::projectFlags
  | .dump => ⟨"output",some 'o',.text "","write the dump to a file instead of stdout"⟩::projectFlags
  | .emit =>
    [⟨"lang",none,.text "","run the plugin for LANG instead of writing JSON"⟩,
      ⟨"output",some 'o',.text "","output directory"⟩,
      ⟨"plugin-opt",none,.texts,"KEY=VALUE option passed to the plugin (repeatable)"⟩,
      ⟨"plugin-path",none,.text "",
        "directories searched for infosem-emit-LANG.wasm (default $INFOSEM_PLUGIN_PATH)"⟩]++projectFlags
  | .help => []

def helpFlag (of : String) : Flag := ⟨"help",some 'h',.switch,"help for "++of⟩

def Flag.heading (f : Flag) : String :=
  (f.short.elim "      --" fun c => "  -"++c.toString++", --")++f.name ++
    match f.kind with
    | .switch => ""
    | .text _ => " string"
    | .texts => " stringArray"

def Flag.explanation (f : Flag) : String :=
  f.usage ++
    match f.kind with
    | .text default => if default.isEmpty then "" else " (default "++Text.quoted default++")"
    | _ => ""

def padTo (width : Nat) (s : String) : String := s++String.ofList (List.replicate (width-s.length) ' ')

/-- A line for each flag, in the order of their names; explanations stand three blanks behind the longest heading. -/
def flagLines (flags : List Flag) : String :=
  let flags := flags.mergeSort fun a b => decide (a.name ≤ b.name)
  let width := (flags.map (·.heading.length)).foldl max 0+3
  String.join (flags.map fun f => padTo width f.heading++f.explanation++"\n")

def Name.usageText (n : Name) : String :=
  "Usage:\n  infosem "++n.usage++" [flags]\n\nFlags:\n"++flagLines (helpFlag n.word::n.flags)

def Name.helpText (n : Name) : String := n.description++"\n\n"++n.usageText

def programUsage (withFlags : Bool) : String :=
  "Usage:\n  infosem [options] COMMAND"++(if withFlags then " [flags]" else "")++"\n  infosem [command]\n\n" ++
    "Available Commands:\n" ++
    String.join (Name.all.map fun n => "  "++padTo 11 n.word++" "++n.summary++"\n") ++
    (if withFlags then "\nFlags:\n"++flagLines [helpFlag "infosem"] else "") ++
    "\nUse \x22infosem [command] --help\x22 for more information about a command.\n"

end InfoObject.Command
