import InfoObject.Json.Value
import InfoObject.Project
import InfoObject.Source.Position

/-! Diagnostics as lines of text, with line and column where the source is known, and as JSON. -/
namespace InfoObject.Command

inductive Severity where
  | error
  | warning
  | note
deriving DecidableEq, Repr

def Severity.name : Severity → String
  | error => "error"
  | warning => "warning"
  | note => "note"

def Severity.color : Severity → String
  | error => "\x1b[1;31m"
  | warning => "\x1b[1;33m"
  | note => "\x1b[1;36m"

def resetColor : String := "\x1b[0m"

structure Notice where
  severity : Severity
  location : Location
  code : String
  message : String

structure Style where
  colored : Bool
  sources : List (String × List UInt8)

def Style.position? (s : Style) (l : Location) : Option Position :=
  (s.sources.lookup l.file).map fun src => Position.ofOffsetInCharacters src l.span.start.toNat

def Style.line (s : Style) (n : Notice) : String :=
  let code := if s.colored then n.severity.color++n.code++resetColor else n.code
  let place := match s.position? n.location with
    | some p => n.location.file++":"++toString p.line++":"++toString p.column
    | none => n.location.file
  place++": "++code++": "++n.message++"\n"

def syntaxNotice (file : String) (e : Notation.SyntaxError) : Notice :=
  ⟨.error,⟨file,e.span⟩,"E"++toString e.code,e.message⟩

def errorNotice (e : CheckError) : Notice := ⟨.error,e.location,"E"++toString e.fault.code,e.fault.message⟩

def warningNotice (w : Warning) : Notice := ⟨.warning,w.location,"W"++toString w.concern.code,w.concern.message⟩

/-- An error and, behind it, the place it is related to. -/
def errorNotices (e : CheckError) : List Notice :=
  errorNotice e::e.related.toList.map fun l => ⟨.note,l,"note","previously declared here"⟩

/-- All notices of a result by place, errors before warnings at the same place. -/
def resultNotices (r : CheckResult) : List Notice :=
  let groups := r.errors.map (fun e => (e.location,errorNotices e)) ++
    r.warnings.map fun w => (w.location,[warningNotice w])
  (groups.mergeSort fun a b => Project.notAfter a.1 b.1).flatMap (·.2)

def Style.result (s : Style) (r : CheckResult) : String := String.join ((resultNotices r).map s.line)

def Style.noticeJson (s : Style) (n : Notice) : Json.Value :=
  let position := match s.position? n.location with
    | some p => [("line",Json.Value.nat p.line),("column",Json.Value.nat p.column)]
    | none => []
  .record ([("file",.text n.location.file)]++position ++
    [("start",.nat n.location.span.start.toNat),("end",.nat n.location.span.stop.toNat),
      ("severity",.text n.severity.name),("code",.text n.code),("message",.text n.message)])

def Style.resultJson (s : Style) (r : CheckResult) : String :=
  (Json.Value.list ((r.errors.map errorNotice++r.warnings.map warningNotice).map s.noticeJson)).renderIndented++"\n"

end InfoObject.Command
