import InfoObject.GoSource.CommentGroup

/-! Go files as trees: expressions and types, statements and declarations, with the places of their parts. -/
namespace InfoObject.GoSource

structure Ident where
  place : Place
  name : String
deriving DecidableEq, Repr, Inhabited

inductive Direction where
  | both
  | send
  | receive
deriving DecidableEq, Repr

mutual

inductive Expr where
  | ident (x : Ident)
  | literal (place : Place) (kind : LexemeKind) (text : String)
  | dots (place : Place) (item : Option Expr)
  | function (type : Signature) (body : Block)
  | composite (type : Option Expr) (left : Place) (elements : List Expr) (right : Place)
  | parens (left : Place) (x : Expr) (right : Place)
  | selector (x : Expr) (part : Ident)
  | index (x : Expr) (left : Place) (indices : List Expr) (right : Place)
  | slice (x : Expr) (left : Place) (low high max : Option Expr) (right : Place)
  | assertion (x : Expr) (left : Place) (type : Option Expr) (right : Place)
  | call (f : Expr) (left : Place) (arguments : List Expr) (dots right : Place)
  | star (place : Place) (x : Expr)
  | unary (place : Place) (operator : String) (x : Expr)
  | binary (x : Expr) (place : Place) (operator : String) (y : Expr)
  | keyed (key : Expr) (colon : Place) (value : Expr)
  | array (left : Place) (length : Option Expr) (item : Expr)
  | struct (place : Place) (fields : FieldList)
  | funcType (type : Signature)
  | interface (place : Place) (members : FieldList)
  | map (place : Place) (key value : Expr)
  | chan (place arrow : Place) (direction : Direction) (value : Expr)

inductive Signature where
  | mk (place : Place) (typeParameters : Option FieldList) (parameters : FieldList) (results : Option FieldList)

inductive FieldList where
  | mk (left : Place) (fields : List Field) (right : Place)

inductive Field where
  | mk (doc : CommentGroup) (names : List Ident) (type : Expr) (tag : Option (Place × String)) (comment : CommentGroup)

inductive Block where
  | mk (left : Place) (statements : List Stmt) (right : Place)

inductive Stmt where
  | declaration (d : Decl)
  | empty (place : Place) (isImplied : Bool)
  | labeled (label : Ident) (colon : Place) (s : Stmt)
  | expression (x : Expr)
  | send (channel : Expr) (arrow : Place) (value : Expr)
  | increment (x : Expr) (place : Place) (operator : String)
  | assign (left : List Expr) (place : Place) (operator : String) (right : List Expr)
  | go (place : Place) (call : Expr)
  | defer (place : Place) (call : Expr)
  | returns (place : Place) (results : List Expr)
  | branch (place : Place) (keyword : String) (label : Option Ident)
  | block (b : Block)
  | conditional (place : Place) (start : Option Stmt) (condition : Expr) (body : Block) (otherwise : Option Stmt)
  | clause (place : Place) (expressions : Option (List Expr)) (colon : Place) (body : List Stmt)
  | switch (place : Place) (start : Option Stmt) (tag : Option Expr) (body : Block)
  | typeSwitch (place : Place) (start : Option Stmt) (question : Stmt) (body : Block)
  | communication (place : Place) (c : Option Stmt) (colon : Place) (body : List Stmt)
  | select (place : Place) (body : Block)
  | loop (place : Place) (start : Option Stmt) (condition : Option Expr) (post : Option Stmt) (body : Block)
  | range (place : Place) (key value : Option Expr) (operatorPlace : Place) (operator : String) (x : Expr) (body : Block)

inductive Decl where
  | group (doc : CommentGroup) (place : Place) (keyword : String) (left : Place) (specs : List Spec) (right : Place)
  | function (doc : CommentGroup) (receiver : Option FieldList) (name : Ident) (type : Signature) (body : Option Block)

inductive Spec where
  | imported (doc : CommentGroup) (name : Option Ident) (path : Place × String) (comment : CommentGroup)
  | value (doc : CommentGroup) (names : List Ident) (type : Option Expr) (values : List Expr) (comment : CommentGroup)
  | type (doc : CommentGroup) (name : Ident) (parameters : Option FieldList) (equals : Place) (type : Expr)
    (comment : CommentGroup)

end

instance : Inhabited Expr := ⟨.ident default⟩
instance : Inhabited Stmt := ⟨.empty default false⟩

structure FileTree where
  place : Place
  package : Ident
  declarations : List Decl

def Ident.finish (x : Ident) : Place := x.place.plus x.name.utf8ByteSize

namespace FieldList

def left : FieldList → Place
  | mk l _ _ => l

def fields : FieldList → List Field
  | mk _ fs _ => fs

def right : FieldList → Place
  | mk _ _ r => r

end FieldList

namespace Field

def doc : Field → CommentGroup
  | mk d _ _ _ _ => d

def names : Field → List Ident
  | mk _ ns _ _ _ => ns

def type : Field → Expr
  | mk _ _ t _ _ => t

def tag : Field → Option (Place × String)
  | mk _ _ _ t _ => t

def comment : Field → CommentGroup
  | mk _ _ _ _ c => c

end Field

namespace Block

def left : Block → Place
  | mk l _ _ => l

def statements : Block → List Stmt
  | mk _ ss _ => ss

def right : Block → Place
  | mk _ _ r => r

end Block

namespace Signature

def place : Signature → Place
  | mk p _ _ _ => p

def parameters : Signature → FieldList
  | mk _ _ ps _ => ps

def results : Signature → Option FieldList
  | mk _ _ _ rs => rs

end Signature

namespace Expr

def start : Expr → Place
  | ident x => x.place
  | literal p _ _ => p
  | dots p _ => p
  | function t _ => t.place
  | composite type l _ _ => match type with
    | some t => t.start
    | none => l
  | parens l _ _ => l
  | selector x _ => x.start
  | index x _ _ _ => x.start
  | slice x _ _ _ _ _ => x.start
  | assertion x _ _ _ => x.start
  | call f _ _ _ _ => f.start
  | star p _ => p
  | unary p _ _ => p
  | binary x _ _ _ => x.start
  | keyed k _ _ => k.start
  | array l _ _ => l
  | struct p _ => p
  | funcType t => if t.place.isSome then t.place else t.parameters.left
  | interface p _ => p
  | map p _ _ => p
  | chan p _ _ _ => p

end Expr

mutual

def Expr.finish : Expr → Place
  | .ident x => x.finish
  | .literal p _ text => p.past text.toList
  | .dots p item => match item with
    | some x => x.finish
    | none => p.plus 3
  | .function _ (.mk _ _ r) => r.plus 1
  | .composite _ _ _ r => r.plus 1
  | .parens _ _ r => r.plus 1
  | .selector _ part => part.finish
  | .index _ _ _ r => r.plus 1
  | .slice _ _ _ _ _ r => r.plus 1
  | .assertion _ _ _ r => r.plus 1
  | .call _ _ _ _ r => r.plus 1
  | .star _ x => x.finish
  | .unary _ _ x => x.finish
  | .binary _ _ _ y => y.finish
  | .keyed _ _ v => v.finish
  | .array _ _ x => x.finish
  | .struct _ (.mk _ _ r) => r.plus 1
  | .funcType t => t.finish
  | .interface _ (.mk _ _ r) => r.plus 1
  | .map _ _ v => v.finish
  | .chan _ _ _ v => v.finish

def Signature.finish : Signature → Place
  | .mk _ _ ps results => match results with
    | some rs => rs.finish
    | none => ps.right.plus 1

def FieldList.finish : FieldList → Place
  | .mk _ fs r => if r.isSome then r.plus 1 else lastFinish fs

def lastFinish : List Field → Place
  | [] => .none
  | .mk _ _ t _ _::fs => if fs.isEmpty then t.finish else lastFinish fs

end

namespace Field

def start (f : Field) : Place :=
  match f.names with
  | x::_ => x.place
  | [] => f.type.start

def finish (f : Field) : Place :=
  match f.tag with
  | some (p,text) => p.past text.toList
  | none => f.type.finish

end Field

/-- How many things the fields are, each with a name of its own or none. -/
def FieldList.count (fs : FieldList) : Nat :=
  fs.fields.foldl (fun n f => n+if f.names.isEmpty then 1 else f.names.length) 0

def Decl.place : Decl → Place
  | group _ p _ _ _ _ => p
  | function _ _ _ t _ => t.place

def Stmt.start : Stmt → Place
  | declaration d => d.place
  | empty p _ => p
  | labeled l _ _ => l.place
  | expression x => x.start
  | send c _ _ => c.start
  | increment x _ _ => x.start
  | assign ls p _ _ => (ls.head?.map Expr.start).getD p
  | go p _ => p
  | defer p _ => p
  | returns p _ => p
  | branch p _ _ => p
  | block b => b.left
  | conditional p _ _ _ _ => p
  | clause p _ _ _ => p
  | switch p _ _ _ => p
  | typeSwitch p _ _ _ => p
  | communication p _ _ _ => p
  | select p _ => p
  | loop p _ _ _ _ => p
  | range p _ _ _ _ _ _ => p

def Spec.start : Spec → Place
  | imported _ n p _ => (n.map Ident.place).getD p.1
  | value _ ns _ _ _ => (ns.head?.map Ident.place).getD .none
  | type _ n _ _ _ _ => n.place

end InfoObject.GoSource
