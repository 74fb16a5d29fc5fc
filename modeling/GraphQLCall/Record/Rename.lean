/-!
# Records: the names of fields

* `RenameRule`   how a field's identifier becomes its name
* `plainIdent`   an identifier without the mark that allows it to be a keyword
* `RenameRule.name`   the name that a field is asked for and sent under
* `RenameRule.key`   the key that a field is read under
-/

namespace GraphQLCall

/-- **How a field's identifier becomes its name.** -/
inductive RenameRule where
  | camelCase
  | lowercase
  | pascalCase
  | snakeCase
  deriving DecidableEq

/-- an identifier without the mark `r#`, which allows it to be a keyword -/
def plainIdent (ident : String) : String :=
  match ident.toList with
  | 'r' :: '#' :: rest => String.ofList rest
  | _ => ident

namespace RenameRule

def all : List RenameRule := [.camelCase, .pascalCase, .snakeCase, .lowercase]

def text : RenameRule → String
  | .camelCase => "camelCase"
  | .lowercase => "lowercase"
  | .pascalCase => "PascalCase"
  | .snakeCase => "snake_case"

def ofText? (s : String) : Option RenameRule := all.find? fun r => r.text = s

/-- the characters of an identifier without its low lines, each one behind a low line in upper case,
and the first one too if `raise` says so -/
def joinWords (raise : Bool) : List Char → List Char
  | [] => []
  | c :: rest =>
    if c = '_' then joinWords true rest
    else (if raise then c.toUpper else c) :: joinWords false rest

/-- **The name that a field is asked for and sent under.** -/
def name (r : RenameRule) (ident : String) : String :=
  match r with
  | .lowercase => String.ofList (ident.toList.map Char.toLower)
  | .snakeCase => ident
  | .camelCase => String.ofList (joinWords false ident.toList)
  | .pascalCase => String.ofList (joinWords true ident.toList)

/-- **The key that a field is read under.**  An identifier counts as being in lower case already,
and only the first character of the upper form is lowered. -/
def key (r : RenameRule) (ident : String) : String :=
  match r with
  | .lowercase => ident
  | .snakeCase => ident
  | .pascalCase => String.ofList (joinWords true ident.toList)
  | .camelCase =>
    match joinWords true ident.toList with
    | [] => ""
    | c :: rest => String.ofList (c.toLower :: rest)

end RenameRule

end GraphQLCall
