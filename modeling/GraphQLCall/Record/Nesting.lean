import GraphQLCall.Record.Token

/-!
# Records: lists between brackets

Commas divide a list between angle brackets, but not those inside other brackets.  An angle bracket
is one only where types stand: in a value it is a sign of comparison.

* `Level`, `Levels`   what is open at a point of a text
* `Levels.step`   one more token
* `lifetimesFirst`   a list with its lifetimes in front
* `partsOfList`   the parts of a list between angle brackets
* `packedType`   a type written without blanks
-/

namespace GraphQLCall

/-- **A list with its lifetimes in front,** each of its parts given with whether a comma stands
behind it.  A part keeps its comma; a lifetime in front of others has one in any case. -/
def lifetimesFirst {α : Type} (isLifetime : α → Bool) (parts : List (α × Bool)) :
    List (α × Bool) :=
  let lifetimes := parts.filter fun p => isLifetime p.1
  let others := parts.filter fun p => !isLifetime p.1
  if others.isEmpty then lifetimes else lifetimes.map (fun p => (p.1, true)) ++ others

def isLoneLifetime : List Token → Bool
  | [.lifetime _] => true
  | _ => false

def listTokens (parts : List (List Token × Bool)) : List Token :=
  parts.flatMap fun p => p.1 ++ if p.2 then [.mark ","] else []

/-- **A level of brackets:** the mark that opened it, whether types stand in it, the parts in front
of its last comma, if commas divide it, and the tokens behind them. -/
structure Level where
  opener : String
  types : Bool
  parts : List (List Token × Bool)
  part : List Token

namespace Level

/-- a level in which nothing stands yet -/
def start (opener : String) (types : Bool) : Level := ⟨opener, types, [], []⟩

def add (l : Level) (tokens : List Token) : Level := { l with part := l.part ++ tokens }

def all (l : Level) : List (List Token × Bool) := l.parts ++ [(l.part, false)]

/-- the tokens of a level that is not closed, with the mark that opened it -/
def asWritten (l : Level) : List Token := .mark l.opener :: listTokens l.all

end Level

/-- **The levels that are open at a point of a text,** the innermost apart. -/
structure Levels where
  top : Level
  below : List Level

namespace Levels

def opened (s : Levels) (l : Level) : Levels := ⟨l, s.top :: s.below⟩

/-- one more token where no bracket is opened or closed -/
def add (s : Levels) (t : Token) : Levels := { s with top := s.top.add [t] }

/-- a list closed, its lifetimes in front -/
def closeList (s : Levels) : Levels :=
  match s.below with
  | [] => s.add (.mark ">")
  | outer :: below =>
    ⟨outer.add (.mark "<" :: listTokens (lifetimesFirst isLoneLifetime s.top.all) ++ [.mark ">"]),
      below⟩

/-- a level of other brackets closed; what seemed to be lists in it are none -/
def closeOther (closer : String) : Level → List Level → Levels
  | top, [] => ⟨top.add [.mark closer], []⟩
  | top, outer :: below =>
    if top.opener = "<" then closeOther closer (outer.add top.asWritten) below
    else ⟨outer.add (top.asWritten ++ [.mark closer]), below⟩

/-- **One more token.**  Values stand between braces, and behind a semicolon between brackets. -/
def step (s : Levels) (t : Token) : Levels :=
  match t with
  | .mark m =>
    if m = "<" ∧ s.top.types then s.opened (.start m true)
    else if m = "(" ∨ m = "[" then s.opened (.start m s.top.types)
    else if m = "\x7b" then s.opened (.start m false)
    else if m = ">" ∧ s.top.opener = "<" then s.closeList
    else if m = ")" ∨ m = "]" ∨ m = "\x7d" then closeOther m s.top s.below
    else if m = "," ∧ s.top.opener = "<" then
      { s with top := { s.top with parts := s.top.parts ++ [(s.top.part, true)], part := [] } }
    else if m = ";" ∧ s.top.opener = "[" then
      { s with top := { s.top.add [t] with types := false } }
    else s.add t
  | t => s.add t

/-- the outermost level, with those that are not closed in it -/
def outermost : Level → List Level → Level
  | top, [] => top
  | top, outer :: below => outermost (outer.add top.asWritten) below

/-- the outermost level behind the tokens of a text -/
def ofText (l : Level) (s : String) : Level :=
  let read := (Token.ofText s).foldl step ⟨l, []⟩
  outermost read.top read.below

end Levels

/-- **The parts of a list between angle brackets,** each with whether a comma stands behind it. -/
def partsOfList (s : String) : List (List Token × Bool) := (Levels.ofText (.start "<" true) s).all

/-- **A type written without blanks,** with the lifetimes of each list of arguments in front. -/
def packedType (s : String) : String := Token.packed (Levels.ofText (.start "" true) s).part

end GraphQLCall
