import GraphQLCall.Proofs.Syntax.Scanner

/-!
# Syntax: documents that hold one call

The part of the query language's grammar that calls are written in: an operation with one field, its
arguments in parentheses if it has some, and its selection set.  The productions are given as the
lexemes of a syntax tree; a selection set is not empty.

* `Document`   the syntax tree of a call
* `Value.lexemes`, `Selected.lexemes`, `Document.lexemes`   the productions
* `Selected.EachSet`   what holds of the names in each selection set
* `Document.Derives`   a text is derived from the grammar as a document
* `readValue`, `readSet`, `readDocument`   the reader, by recursive descent
* `Document.read`   the document that a text is read as
* `Document.read_of_derives`   what is derived is read
-/

namespace GraphQLCall

/-- **The syntax tree of a call.** -/
structure Document where
  kind : OperationKind
  name : String
  arguments : List (String × Value)
  selection : List Selected

/-! ### productions -/

namespace Value

mutual

/-- **The lexemes of a value.** -/
def lexemes : Value → List Lexeme
  | .null => [.name "null"]
  | .bool true => [.name "true"]
  | .bool false => [.name "false"]
  | .int n => [.int n]
  | .float x => [.float x]
  | .str s => [.text s]
  | .list items => .mark '[' :: (itemLexemes items ++ [.mark ']'])
  | .object entries => .mark '{' :: (entryLexemes entries ++ [.mark '}'])

def itemLexemes : List Value → List Lexeme
  | [] => []
  | v :: rest => lexemes v ++ itemLexemes rest

/-- the lexemes of entries, be they fields of an object or arguments -/
def entryLexemes : List (String × Value) → List Lexeme
  | [] => []
  | (name, v) :: rest => .name name :: .mark ':' :: (lexemes v ++ entryLexemes rest)

end

end Value

namespace Selected

mutual

/-- **The lexemes of a field** with its selection set. -/
def lexemes : Selected → List Lexeme
  | .leaf name => [.name name]
  | .nested name below => .name name :: .mark '{' :: (allLexemes below ++ [.mark '}'])

def allLexemes : List Selected → List Lexeme
  | [] => []
  | s :: rest => lexemes s ++ allLexemes rest

end

def name : Selected → String
  | .leaf name => name
  | .nested name _ => name

mutual

def EachBelow (P : List String → Prop) : Selected → Prop
  | .leaf _ => True
  | .nested _ below => P (below.map name) ∧ AllEachBelow P below

def AllEachBelow (P : List String → Prop) : List Selected → Prop
  | [] => True
  | s :: rest => s.EachBelow P ∧ AllEachBelow P rest

end

/-- **What holds of the names in a selection set** and in each one below it. -/
def EachSet (P : List String → Prop) (set : List Selected) : Prop :=
  P (set.map name) ∧ AllEachBelow P set

end Selected

namespace Document

def argumentLexemes : List (String × Value) → List Lexeme
  | [] => []
  | es => .mark '(' :: (Value.entryLexemes es ++ [.mark ')'])

/-- **The lexemes of a document.** -/
def lexemes (d : Document) : List Lexeme :=
  .name d.kind.keyword :: .mark '{' :: .name d.name :: (argumentLexemes d.arguments ++
    .mark '{' :: (Selected.allLexemes d.selection ++ [.mark '}', .mark '}']))

/-- **A text is derived from the grammar as a document.** -/
structure Derives (d : Document) (text : String) : Prop where
  nonempty : Selected.EachSet (· ≠ []) d.selection
  lexes : Lexes text.toList d.lexemes

end Document

/-! ### the reader -/

/-- the lexemes behind a mark -/
def after? (c : Char) : List Lexeme → Option (List Lexeme)
  | .mark d :: rest => if d = c then some rest else none
  | _ => none

mutual

/-- **The value in front of lexemes,** and the lexemes behind it; `n` bounds the steps. -/
def readValue : (n : Nat) → List Lexeme → Option (Value × List Lexeme)
  | 0, _ => none
  | _ + 1, [] => none
  | n + 1, l :: ls =>
    match l with
    | .name s =>
      if s = "null" then some (.null, ls)
      else if s = "true" then some (.bool true, ls)
      else if s = "false" then some (.bool false, ls)
      else none
    | .int i => some (.int i, ls)
    | .float x => some (.float x, ls)
    | .text s => some (.str s, ls)
    | .mark c =>
      if c = '[' then (readItems n ls).map fun p => (.list p.1, p.2)
      else if c = '{' then (readEntries '}' n ls).map fun p => (.object p.1, p.2)
      else none

def readItems : (n : Nat) → List Lexeme → Option (List Value × List Lexeme)
  | 0, _ => none
  | n + 1, ls =>
    match after? ']' ls with
    | some rest => some ([], rest)
    | none =>
      match readValue n ls with
      | none => none
      | some (v, ls) => (readItems n ls).map fun p => (v :: p.1, p.2)

def readEntries (close : Char) : (n : Nat) → List Lexeme →
    Option (List (String × Value) × List Lexeme)
  | 0, _ => none
  | n + 1, ls =>
    match after? close ls with
    | some rest => some ([], rest)
    | none =>
      match ls with
      | .name k :: .mark ':' :: ls =>
        match readValue n ls with
        | none => none
        | some (v, ls) => (readEntries close n ls).map fun p => ((k, v) :: p.1, p.2)
      | _ => none

end

mutual

/-- **The selection set in front of lexemes,** and the lexemes behind it. -/
def readSet : (n : Nat) → List Lexeme → Option (List Selected × List Lexeme)
  | 0, _ => none
  | n + 1, ls =>
    match after? '{' ls with
    | none => none
    | some ls =>
      match readSelection n ls with
      | some (f :: fs, ls) => some (f :: fs, ls)
      | _ => none

def readSelection : (n : Nat) → List Lexeme → Option (List Selected × List Lexeme)
  | 0, _ => none
  | n + 1, ls =>
    match after? '}' ls with
    | some rest => some ([], rest)
    | none =>
      match ls with
      | .name k :: ls =>
        match after? '{' ls with
        | none => (readSelection n ls).map fun p => (.leaf k :: p.1, p.2)
        | some _ =>
          match readSet n ls with
          | none => none
          | some (below, ls) => (readSelection n ls).map fun p => (.nested k below :: p.1, p.2)
      | _ => none

end

def readArguments (ls : List Lexeme) : Option (List (String × Value) × List Lexeme) :=
  match after? '(' ls with
  | none => some ([], ls)
  | some ls =>
    match readEntries ')' ls.length ls with
    | some (e :: es, ls) => some (e :: es, ls)
    | _ => none

/-- **The document that lexemes are read as.** -/
def readDocument : List Lexeme → Option Document
  | .name keyword :: .mark '{' :: .name name :: ls =>
    match OperationKind.all.find? (·.keyword = keyword) with
    | none => none
    | some kind =>
      match readArguments ls with
      | none => none
      | some (arguments, ls) =>
        match readSet ls.length ls with
        | some (selection, [.mark '}']) => some ⟨kind, name, arguments, selection⟩
        | _ => none
  | _ => none

/-- **The document that a text is read as,** from its first character to its last. -/
def Document.read (text : String) : Option Document := (lexemes? text.toList).bind readDocument

/-! ### what is derived is read -/

theorem after?_mark (c : Char) (rest : List Lexeme) : after? c (.mark c :: rest) = some rest :=
  if_pos rfl

theorem after?_name (c : Char) (s : String) (rest : List Lexeme) :
    after? c (.name s :: rest) = none := rfl

theorem after?_value (v : Value) {c : Char} (hc : c ≠ '[' ∧ c ≠ '{') (rest : List Lexeme) :
    after? c (v.lexemes ++ rest) = none := by
  cases v with
  | bool b => cases b <;> rfl
  | list items => exact if_neg hc.1.symm
  | object entries => exact if_neg hc.2.symm
  | _ => rfl

theorem Value.length_lexemes_pos (v : Value) : 0 < v.lexemes.length := by
  cases v with
  | bool b => cases b <;> exact Nat.one_pos
  | list items => exact Nat.succ_pos _
  | object entries => exact Nat.succ_pos _
  | _ => exact Nat.one_pos

mutual

/-- **A value is read off its lexemes.** -/
theorem readValue_lexemes (v : Value) {n : Nat} (rest : List Lexeme) (hn : v.lexemes.length ≤ n) :
    readValue n (v.lexemes ++ rest) = some (v, rest) := by
  have hpos := v.length_lexemes_pos
  obtain ⟨n, rfl⟩ := Nat.exists_eq_succ_of_ne_zero (show n ≠ 0 by omega)
  match v with
  | .null => rfl
  | .bool true => rfl
  | .bool false => rfl
  | .int _ => rfl
  | .float _ => rfl
  | .str _ => rfl
  | .list items =>
    simp only [Value.lexemes, List.length_cons, List.length_append, List.length_nil] at hn
    have hitems := readItems_lexemes items rest (show _ ≤ n by omega)
    rw [Value.lexemes, List.cons_append, List.append_assoc, List.singleton_append, readValue]
    simp only [if_true, hitems, Option.map_some]
  | .object entries =>
    simp only [Value.lexemes, List.length_cons, List.length_append, List.length_nil] at hn
    have hentries := readEntries_lexemes '}' entries rest (show _ ≤ n by omega)
    have hbracket : '{' ≠ '[' := by decide
    rw [Value.lexemes, List.cons_append, List.append_assoc, List.singleton_append, readValue]
    simp only [hbracket, if_true, if_false, hentries, Option.map_some]

theorem readItems_lexemes (items : List Value) {n : Nat} (rest : List Lexeme)
    (hn : (Value.itemLexemes items).length + 1 ≤ n) :
    readItems n (Value.itemLexemes items ++ .mark ']' :: rest) = some (items, rest) := by
  obtain ⟨n, rfl⟩ := Nat.exists_eq_succ_of_ne_zero (show n ≠ 0 by omega)
  match items with
  | [] =>
    rw [Value.itemLexemes, List.nil_append, readItems, after?_mark]
  | v :: items =>
    have hpos := v.length_lexemes_pos
    simp only [Value.itemLexemes, List.length_append] at hn
    have hv := readValue_lexemes v (Value.itemLexemes items ++ .mark ']' :: rest)
      (show _ ≤ n by omega)
    have hitems := readItems_lexemes items rest (show _ ≤ n by omega)
    rw [Value.itemLexemes, List.append_assoc, readItems, after?_value v (by decide), hv]
    simp only [hitems, Option.map_some]

theorem readEntries_lexemes (close : Char) (entries : List (String × Value)) {n : Nat}
    (rest : List Lexeme) (hn : (Value.entryLexemes entries).length + 1 ≤ n) :
    readEntries close n (Value.entryLexemes entries ++ .mark close :: rest)
      = some (entries, rest) := by
  obtain ⟨n, rfl⟩ := Nat.exists_eq_succ_of_ne_zero (show n ≠ 0 by omega)
  match entries with
  | [] =>
    rw [Value.entryLexemes, List.nil_append, readEntries, after?_mark]
    exact fun _ _ h => by cases h
  | (name, v) :: entries =>
    simp only [Value.entryLexemes, List.length_cons, List.length_append] at hn
    have hv := readValue_lexemes v (Value.entryLexemes entries ++ .mark close :: rest)
      (show _ ≤ n by omega)
    have hentries := readEntries_lexemes close entries rest (show _ ≤ n by omega)
    rw [Value.entryLexemes, List.cons_append, List.cons_append, List.append_assoc, readEntries,
      after?_name]
    simp only [hv, hentries, Option.map_some]

end

theorem after?_fields (fields : List Selected) (rest : List Lexeme) :
    after? '{' (Selected.allLexemes fields ++ .mark '}' :: rest) = none := by
  match fields with
  | [] => rfl
  | .leaf _ :: _ => rfl
  | .nested _ _ :: _ => rfl

theorem readSet_of_readSelection {fields : List Selected} {n : Nat} {ls rest : List Lexeme}
    (hne : fields ≠ []) (h : readSelection n ls = some (fields, rest)) :
    readSet (n + 1) (.mark '{' :: ls) = some (fields, rest) := by
  obtain ⟨f, fs, rfl⟩ := List.exists_cons_of_ne_nil hne
  rw [readSet, after?_mark]
  simp only [h]

/-- **The fields of a selection set are read off their lexemes.** -/
theorem readSelection_lexemes : ∀ (fields : List Selected) {n : Nat} (rest : List Lexeme),
    Selected.AllEachBelow (· ≠ []) fields → (Selected.allLexemes fields).length + 1 ≤ n →
    readSelection n (Selected.allLexemes fields ++ .mark '}' :: rest) = some (fields, rest)
  | _, 0, _, _, hn => absurd hn (Nat.not_succ_le_zero _)
  | [], n + 1, rest, _, _ => by
    rw [Selected.allLexemes, List.nil_append, readSelection, after?_mark]
    exact fun _ _ h => by cases h
  | .leaf name :: fields, n + 1, rest, hne, hn => by
    simp only [Selected.allLexemes, Selected.lexemes, List.length_append, List.length_singleton]
      at hn
    have hfields := readSelection_lexemes fields rest hne.2 (show _ ≤ n by omega)
    rw [Selected.allLexemes, Selected.lexemes, List.append_assoc, List.singleton_append, readSelection,
      after?_name]
    simp only [after?_fields, hfields, Option.map_some]
  | .nested name below :: fields, n + 1, rest, hne, hn => by
    simp only [Selected.allLexemes, Selected.lexemes, List.length_append, List.length_cons,
      List.length_nil] at hn
    obtain ⟨n, rfl⟩ := Nat.exists_eq_succ_of_ne_zero (show n ≠ 0 by omega)
    have hbelow := readSet_of_readSelection (mt List.map_eq_nil_iff.mpr hne.1.1) (readSelection_lexemes
      below (Selected.allLexemes fields ++ .mark '}' :: rest) hne.1.2 (show _ ≤ n by omega))
    have hfields := readSelection_lexemes fields rest hne.2 (show _ ≤ n + 1 by omega)
    rw [Selected.allLexemes, Selected.lexemes, List.append_assoc, List.cons_append,
      List.cons_append, List.append_assoc, List.singleton_append, readSelection, after?_name]
    simp only [after?_mark, hbelow, hfields, Option.map_some]

/-- **A selection set is read off its lexemes.** -/
theorem readSet_lexemes (fields : List Selected) {n : Nat} (rest : List Lexeme)
    (hne : Selected.EachSet (· ≠ []) fields)
    (hn : (Selected.allLexemes fields).length + 2 ≤ n) :
    readSet n (.mark '{' :: (Selected.allLexemes fields ++ .mark '}' :: rest))
      = some (fields, rest) := by
  obtain ⟨n, rfl⟩ := Nat.exists_eq_succ_of_ne_zero (show n ≠ 0 by omega)
  exact readSet_of_readSelection (mt List.map_eq_nil_iff.mpr hne.1)
    (readSelection_lexemes fields rest hne.2 (by omega))

theorem readArguments_lexemes (arguments : List (String × Value)) (rest : List Lexeme) :
    readArguments (Document.argumentLexemes arguments ++ .mark '{' :: rest)
      = some (arguments, .mark '{' :: rest) := by
  match arguments with
  | [] => rfl
  | e :: es =>
    have hentries := readEntries_lexemes ')' (e :: es) (.mark '{' :: rest) (n :=
      (Value.entryLexemes (e :: es) ++ .mark ')' :: .mark '{' :: rest).length) (by simp)
    rw [Document.argumentLexemes, List.cons_append, List.append_assoc, List.singleton_append,
      readArguments, after?_mark]
    · simp only [hentries]
    · exact fun h => by cases h

theorem keyword_find? (kind : OperationKind) :
    OperationKind.all.find? (·.keyword = kind.keyword) = some kind := by
  cases kind <;> decide

/-- **A document is read off its lexemes.** -/
theorem readDocument_lexemes {d : Document} (hne : Selected.EachSet (· ≠ []) d.selection) :
    readDocument d.lexemes = some d := by
  have hset := readSet_lexemes d.selection [.mark '}'] hne (n := (Lexeme.mark '{' ::
    (Selected.allLexemes d.selection ++ [.mark '}', .mark '}'])).length) (by simp)
  rw [Document.lexemes, readDocument, keyword_find?]
  simp only [readArguments_lexemes, hset]

/-- **What is derived is read.** -/
theorem Document.read_of_derives {d : Document} {text : String} (h : d.Derives text) :
    read text = some d := by
  rw [read, lexemes?_of_lexes h.lexes]
  exact readDocument_lexemes h.nonempty

end GraphQLCall
