import InfoObject.Notation.Parser
import InfoObject.Proofs.Scanning

/-! The grammar of the notation, as relations between tokens and trees. Each relation is a rule: `[x]` is a choice between
nothing and `x`, `{x}` is any number of `x` one after another. Blanks, line ends and comments belong to no rule. -/
namespace InfoObject.Notation

/-! Significant tokens -/

/-- A token that means something, with its place and with the blanks, line ends and comments behind it. -/
structure Lexeme where
  token : Token
  start : UInt32
  trail : List Char
deriving DecidableEq, Repr

namespace Lexeme

def kind (l : Lexeme) : TokenKind := l.token.kind

def span (l : Lexeme) : Span := ⟨l.start,l.token.size.toUInt32⟩

def ident (l : Lexeme) : Ident := ⟨String.ofList l.token.text,l.span⟩

def IsWord (word : String) (l : Lexeme) : Prop := l.token.isWord word = true

end Lexeme

/-- What tokens begin with that means nothing. -/
def trivia (ts : List Token) : List Char := spelling (ts.takeWhile (·.kind.isTrivia))

/-- The significant ones of tokens that begin at an offset. -/
def significant (offset : UInt32) : List Token → List Lexeme
  | [] => []
  | t::ts =>
    if t.kind.isTrivia then significant (offset+t.size.toUInt32) ts
    else ⟨t,offset,trivia ts⟩::significant (offset+t.size.toUInt32) ts

/-- What stands in a source from the first to the last of some tokens. -/
def extent : List Lexeme → List Char
  | [] => []
  | [l] => l.token.text
  | l::m::ls => l.token.text++l.trail++extent (m::ls)

section Significant
variable {offset : UInt32} {ts : List Token} {t : Token} {l : Lexeme} {ls : List Lexeme}

theorem trivia_cons (h : t.kind.isTrivia = true) : trivia (t::ts) = t.text++trivia ts := by simp [trivia,h]

theorem trivia_cons_other (h : ¬ t.kind.isTrivia = true) : trivia (t::ts) = [] := by simp [trivia,h]

theorem significant_cons (h : t.kind.isTrivia = true) :
    significant offset (t::ts) = significant (offset+t.size.toUInt32) ts := by rw [significant,if_pos h]

theorem significant_cons_other (h : ¬ t.kind.isTrivia = true) :
    significant offset (t::ts) = ⟨t,offset,trivia ts⟩::significant (offset+t.size.toUInt32) ts := by
  rw [significant,if_neg h]

theorem extent_cons (h : ls ≠ []) : extent (l::ls) = l.token.text++(l.trail++extent ls) := by
  cases ls with
  | nil => contradiction
  | cons m ms => rw [extent,List.append_assoc]

end Significant

/-! References and payloads -/

/-- `Ref = ident ['.' ident]` -/
inductive RefOf : List Lexeme → Reference → Prop
  | plain {a : Lexeme} (ha : a.kind = .ident) : RefOf [a] ⟨none,a.ident⟩
  | qualified {a d b : Lexeme} (ha : a.kind = .ident) (hd : d.kind = .dot) (hb : b.kind = .ident) :
      RefOf [a,d,b] ⟨some a.ident,b.ident⟩

/-- Each opening brace has its closing one. -/
inductive Balanced : List Lexeme → Prop
  | nil : Balanced []
  | other {l : Lexeme} {ls : List Lexeme} (ho : l.kind ≠ .openCurl) (hc : l.kind ≠ .closeCurl) (hs : Balanced ls) :
      Balanced (l::ls)
  | braces {o c : Lexeme} {ls ms : List Lexeme} (ho : o.kind = .openCurl) (hs : Balanced ls) (hc : c.kind = .closeCurl)
      (hm : Balanced ms) : Balanced (o::(ls++c::ms))

/-- A block begins with a brace and ends with the one that closes it. -/
inductive BlockOf : List Lexeme → RawBlock → Prop
  | mk {o c : Lexeme} {ls : List Lexeme} (ho : o.kind = .openCurl) (hs : Balanced ls) (hc : c.kind = .closeCurl) :
      BlockOf (o::(ls++[c])) ⟨extent (o::(ls++[c])),o.start⟩

/-- `Payload = Ref | int | text | block`, where integers have 64 bits. -/
inductive PayloadOf : List Lexeme → Payload → Prop
  | reference {ls : List Lexeme} {r : Reference} (h : RefOf ls r) : PayloadOf ls (.reference r)
  | int {l : Lexeme} (h : l.kind = .intLit) (hlow : -2^63 ≤ intValue l.token.text) (hhigh : intValue l.token.text ≤ 2^63-1) :
      PayloadOf [l] (.int ⟨String.ofList l.token.text,intValue l.token.text,l.span⟩)
  | text {l : Lexeme} (h : l.kind = .textLit) : PayloadOf [l] (.text ⟨l.token.text,l.span⟩)
  | block {ls : List Lexeme} {b : RawBlock} (h : BlockOf ls b) : PayloadOf ls (.block b)

/-! Lists -/

section Lists
variable {α : Type}

/-- `{Item}` -/
inductive RunOf (Item : List Lexeme → α → Prop) : List Lexeme → List α → Prop
  | nil : RunOf Item [] []
  | cons {ls ms : List Lexeme} {a : α} {as : List α} (h : Item ls a) (hs : RunOf Item ms as) : RunOf Item (ls++ms) (a::as)

/-- `Sep Item` -/
inductive AfterOf (Sep : Lexeme → Prop) (Item : List Lexeme → α → Prop) : List Lexeme → α → Prop
  | mk {s : Lexeme} {ls : List Lexeme} {a : α} (hs : Sep s) (h : Item ls a) : AfterOf Sep Item (s::ls) a

/-- `[Sep]` -/
inductive LastOf (Sep : Lexeme → Prop) : List Lexeme → Prop
  | none : LastOf Sep []
  | some {s : Lexeme} (hs : Sep s) : LastOf Sep [s]

/-- `Item {Sep Item} [Sep]` -/
inductive SeparatedOf (Item : List Lexeme → α → Prop) (Sep : Lexeme → Prop) : List Lexeme → List α → Prop
  | mk {ls ms es : List Lexeme} {a : α} {as : List α} (h : Item ls a) (hm : RunOf (AfterOf Sep Item) ms as)
      (he : LastOf Sep es) : SeparatedOf Item Sep (ls++(ms++es)) (a::as)

/-- `[Item {Sep Item} [Sep]]` -/
inductive ListOf (Item : List Lexeme → α → Prop) (Sep : Lexeme → Prop) : List Lexeme → List α → Prop
  | empty : ListOf Item Sep [] []
  | items {ls : List Lexeme} {as : List α} (h : SeparatedOf Item Sep ls as) : ListOf Item Sep ls as

/-- `'{' [Item {Sep Item} [Sep]] '}'`, with the span from brace to brace. -/
inductive BracedOf (Item : List Lexeme → α → Prop) (Sep : Lexeme → Prop) : List Lexeme → List α × Span → Prop
  | mk {o c : Lexeme} {ls : List Lexeme} {as : List α} (ho : o.kind = .openCurl) (hs : ListOf Item Sep ls as)
      (hc : c.kind = .closeCurl) : BracedOf Item Sep (o::(ls++[c])) (as,o.span.through c.span)

end Lists

def IsComma (l : Lexeme) : Prop := l.kind = .comma

/-! Classes -/

/-- `[Ref]`, where the name of the governor is none of the words that may follow it. -/
inductive FieldGovernorOf : List Lexeme → Option Reference → Prop
  | none : FieldGovernorOf [] none
  | some {l : Lexeme} {ls : List Lexeme} {r : Reference} (h : RefOf (l::ls) r) (hw : isFieldWord l.token = false) :
      FieldGovernorOf (l::ls) (some r)

/-- `[word]`, with the place of the word. -/
inductive FlagOf (word : String) : List Lexeme → Option Span → Prop
  | none : FlagOf word [] none
  | some {l : Lexeme} (h : l.IsWord word) : FlagOf word [l] (some l.span)

/-- `[OPTIONAL | DEFAULT Payload]` -/
inductive FieldEndOf : List Lexeme → Option Span → Option Payload → Prop
  | none : FieldEndOf [] none none
  | optional {l : Lexeme} (h : l.IsWord "OPTIONAL") : FieldEndOf [l] (some l.span) none
  | default {l : Lexeme} {ls : List Lexeme} {p : Payload} (h : l.IsWord "DEFAULT") (hp : PayloadOf ls p) :
      FieldEndOf (l::ls) none (some p)

/-- `Field = '&' ident [Ref] [UNIQUE] [OPTIONAL | DEFAULT Payload]` -/
inductive FieldOf : List Lexeme → FieldDecl → Prop
  | mk {a n : Lexeme} {gs us es : List Lexeme} {governor : Option Reference} {unique optional : Option Span}
      {default : Option Payload} (ha : a.kind = .amp) (hn : n.kind = .ident) (hg : FieldGovernorOf gs governor)
      (hu : FlagOf "UNIQUE" us unique) (he : FieldEndOf es optional default) :
      FieldOf (a::n::(gs++(us++es))) ⟨n.ident,governor,unique.isSome,optional.isSome,default,
        a.span.through (fieldEnd n.ident governor unique optional default)⟩

/-! Assignments and modules -/

/-- `CLASS '{' [Field {',' Field} [',']] '}' | CLASS-OF '(' Ref ')' | Payload`, where what begins with the word of one of the
first two is that. -/
inductive AssignedOf : List Lexeme → Assigned → Prop
  | classBody {w o c : Lexeme} {ls : List Lexeme} {fields : List FieldDecl} (hw : w.IsWord "CLASS") (ho : o.kind = .openCurl)
      (hs : ListOf FieldOf IsComma ls fields) (hc : c.kind = .closeCurl) :
      AssignedOf (w::o::(ls++[c])) (.classBody fields (w.span.through c.span))
  | classOf {w o c : Lexeme} {ls : List Lexeme} {r : Reference} (hw : w.IsWord "CLASS-OF") (ho : o.kind = .openParen)
      (hr : RefOf ls r) (hc : c.kind = .closeParen) : AssignedOf (w::o::(ls++[c])) (.classOf r (w.span.through c.span))
  | payload {l : Lexeme} {ls : List Lexeme} {p : Payload} (h : PayloadOf (l::ls) p) (hclass : ¬ l.IsWord "CLASS")
      (hof : ¬ l.IsWord "CLASS-OF") : AssignedOf (l::ls) (.payload p)

/-- `[Ref]` -/
inductive GovernorOf : List Lexeme → Option Reference → Prop
  | none : GovernorOf [] none
  | some {ls : List Lexeme} {r : Reference} (h : RefOf ls r) : GovernorOf ls (some r)

/-- `Assignment = ident [Ref] '::=' Assigned`, where the name is not `END`. -/
inductive AssignmentOf : List Lexeme → Assignment → Prop
  | mk {n a : Lexeme} {gs vs : List Lexeme} {governor : Option Reference} {value : Assigned} (hn : n.kind = .ident)
      (hend : ¬ n.IsWord "END") (hg : GovernorOf gs governor) (ha : a.kind = .assign) (hv : AssignedOf vs value) :
      AssignmentOf (n::(gs++a::vs)) ⟨n.ident,governor,value⟩

inductive IdentOf : List Lexeme → Ident → Prop
  | mk {n : Lexeme} (hn : n.kind = .ident) : IdentOf [n] n.ident

/-- `Import = ident {',' ident} FROM ident` -/
inductive ImportOf : List Lexeme → Import → Prop
  | mk {n f s : Lexeme} {ls : List Lexeme} {names : List Ident} (hn : n.kind = .ident)
      (hs : RunOf (AfterOf IsComma IdentOf) ls names) (hf : f.IsWord "FROM") (hm : s.kind = .ident) :
      ImportOf (n::(ls++[f,s])) ⟨n.ident::names,s.ident,n.span.through s.span⟩

/-- `[IMPORTS {Import} ';']` -/
inductive ImportsOf : List Lexeme → List Import → Prop
  | none : ImportsOf [] []
  | some {w s : Lexeme} {ls : List Lexeme} {imports : List Import} (hw : w.IsWord "IMPORTS") (hs : RunOf ImportOf ls imports)
      (hm : s.kind = .semicolon) : ImportsOf (w::(ls++[s])) imports

/-- `Module = ident DEFINITIONS '::=' BEGIN [IMPORTS {Import} ';'] {Assignment} END`, where no assignment that follows `BEGIN`
at once has the name `IMPORTS`. -/
inductive ModuleOf (file : String) (source : List Char) : List Lexeme → Module → Prop
  | mk {n d a b e : Lexeme} {is as : List Lexeme} {imports : List Import} {assignments : List Assignment}
      (hn : n.kind = .ident) (hd : d.IsWord "DEFINITIONS") (ha : a.kind = .assign) (hb : b.IsWord "BEGIN")
      (hi : ImportsOf is imports) (has : RunOf AssignmentOf as assignments)
      (hfirst : is = [] → ∀ l ls, as = l::ls → ¬ l.IsWord "IMPORTS") (he : e.IsWord "END") :
      ModuleOf file source (n::d::a::b::(is++(as++[e])))
        ⟨file,n.ident,imports,assignments,source,n.span.through e.span⟩

/-! Bodies -/

/-- `Setting = '&' ident Payload` -/
inductive SettingOf : List Lexeme → SettingDecl → Prop
  | mk {a n : Lexeme} {ls : List Lexeme} {p : Payload} (ha : a.kind = .amp) (hn : n.kind = .ident) (hp : PayloadOf ls p) :
      SettingOf (a::n::ls) ⟨n.ident,p,a.span.through p.span⟩

/-- `'{' [Setting {',' Setting} [',']] '}'` -/
inductive ObjectBodyOf : List Lexeme → ObjectBody → Prop
  | mk {ls : List Lexeme} {settings : List SettingDecl} {span : Span} (h : BracedOf SettingOf IsComma ls (settings,span)) :
      ObjectBodyOf ls ⟨settings,span⟩

/-- `Element = Ref | block | '...'` -/
inductive ElementOf : List Lexeme → Option ElementDecl → Prop
  | reference {ls : List Lexeme} {r : Reference} (h : RefOf ls r) : ElementOf ls (some (.reference r))
  | block {ls : List Lexeme} {b : RawBlock} (h : BlockOf ls b) : ElementOf ls (some (.block b))
  | ellipsis {l : Lexeme} (h : l.kind = .ellipsis) : ElementOf [l] none

def IsElementSeparator (l : Lexeme) : Prop := l.kind = .pipe ∨ l.kind = .comma

/-- `'{' [Element {('|' | ',') Element} ['|' | ',']] '}'`; a set with a `'...'` may be extended. -/
inductive SetBodyOf : List Lexeme → SetBody → Prop
  | mk {ls : List Lexeme} {elements : List (Option ElementDecl)} {span : Span}
      (h : BracedOf ElementOf IsElementSeparator ls (elements,span)) :
      SetBodyOf ls ⟨elements.filterMap id,elements.any Option.isNone,span⟩

end InfoObject.Notation
