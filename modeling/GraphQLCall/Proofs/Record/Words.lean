import GraphQLCall.Record.Rename
import Mathlib

/-!
# Records: the words of an identifier

Low lines part an identifier into words.  A decoder's forms of an identifier are made of its words;
the name that a field is asked for under is made in one pass over the characters.  They are the same
but for some identifiers in two of the forms.

* `capitalised`, `upperForm`   words with their first characters in upper case
* `RenameRule.form`   the form of an identifier under a rule of the decoder
* `joinWords_eq`   one pass over an identifier makes its words
* `RenameRule.key_eq`   the key that a field is read under is that form
* `RenameRule.Keeps`   the identifiers whose name is their key
* `RenameRule.name_eq_key_iff`   just those
-/

namespace GraphQLCall

def capitalised : List Char → List Char
  | [] => []
  | c :: rest => c.toUpper :: rest

def uncapitalised : List Char → List Char
  | [] => []
  | c :: rest => c.toLower :: rest

/-- **The words of an identifier,** each with its first character in upper case. -/
def upperForm (ident : List Char) : List Char := (ident.splitOn '_').flatMap capitalised

namespace RenameRule

/-- **The form of an identifier under a rule of the decoder,** which takes it to be in lower case,
with low lines between its words. -/
def form : RenameRule → List Char → List Char
  | .lowercase, ident => ident
  | .snakeCase, ident => ident
  | .pascalCase, ident => upperForm ident
  | .camelCase, ident => uncapitalised (upperForm ident)

/-! ### one pass over an identifier -/

/-- **One pass over an identifier makes its words,** the first one as it is unless `raise` says
otherwise. -/
theorem joinWords_eq {ident w : List Char} {ws : List (List Char)} (raise : Bool)
    (h : ident.splitOn '_' = w :: ws) :
    joinWords raise ident = (if raise then capitalised w else w) ++ ws.flatMap capitalised := by
  induction ident generalizing raise w ws with
  | nil =>
    rw [List.splitOn_nil] at h
    cases h
    cases raise <;> rfl
  | cons c rest ih =>
    obtain ⟨v, vs, hrest⟩ := List.exists_cons_of_ne_nil (List.splitOn_ne_nil '_' rest)
    rw [List.splitOn_cons_eq_if_modifyHead, hrest] at h
    rw [joinWords]
    by_cases hc : c = '_'
    · rw [if_pos (beq_iff_eq.mpr hc)] at h
      cases h
      rw [if_pos hc, ih true hrest]
      cases raise <;> rfl
    · rw [if_neg (mt beq_iff_eq.mp hc)] at h
      cases h
      rw [if_neg hc, ih false hrest]
      cases raise <;> rfl

theorem joinWords_true (ident : List Char) : joinWords true ident = upperForm ident := by
  obtain ⟨w, ws, h⟩ := List.exists_cons_of_ne_nil (List.splitOn_ne_nil '_' ident)
  rw [joinWords_eq true h, upperForm, h]
  rfl

/-- **The key that a field is read under** is the form of its identifier. -/
theorem key_eq (r : RenameRule) (ident : String) :
    r.key ident = String.ofList (r.form ident.toList) := by
  cases r with
  | lowercase => exact String.ofList_toList.symm
  | snakeCase => exact String.ofList_toList.symm
  | pascalCase =>
    show String.ofList (joinWords true ident.toList) = _
    rw [joinWords_true]
    rfl
  | camelCase =>
    show (match joinWords true ident.toList with
      | [] => ""
      | c :: rest => String.ofList (c.toLower :: rest))
      = String.ofList (uncapitalised (upperForm ident.toList))
    rw [joinWords_true]
    cases upperForm ident.toList <;> rfl

/-! ### where the two agree -/

/-- **The identifiers whose name is their key.**  In lower case an identifier keeps its characters
just if none is in upper case.  In camel case the first character stays as it is, and behind low
lines it comes in upper case, where the decoder has it in lower case. -/
def Keeps : RenameRule → List Char → Prop
  | .lowercase, ident => ∀ c ∈ ident, ¬ c.isUpper
  | .camelCase, ident => ∀ c ∈ (ident.dropWhile (· = '_')).head?,
      if ident.head? = some '_' then ¬ c.isAlpha else ¬ c.isUpper
  | _, _ => True

theorem toLower_eq_iff (c : Char) : c.toLower = c ↔ ¬ c.isUpper := by
  refine ⟨fun h hu => ?_, Char.toLower_eq_of_not_isUpper⟩
  rw [← h, Char.isUpper_toLower_eq_false] at hu
  cases hu

theorem toUpper_eq_toLower_iff (c : Char) : c.toUpper = c.toLower ↔ ¬ c.isAlpha := by
  rw [← Char.toLower_toUpper_eq_toLower, eq_comm, toLower_eq_iff, Char.isUpper_toUpper_eq_isAlpha]

theorem map_toLower_eq_iff (ident : List Char) :
    ident.map Char.toLower = ident ↔ ∀ c ∈ ident, ¬ c.isUpper := by
  have h : ident.map Char.toLower = ident.map id ↔ ∀ c ∈ ident, c.toLower = id c :=
    List.map_inj_left
  rw [List.map_id] at h
  exact h.trans (forall₂_congr fun c _ => toLower_eq_iff c)

theorem joinWords_dropWhile (ident : List Char) :
    joinWords true (ident.dropWhile (· = '_')) = joinWords true ident := by
  induction ident with
  | nil => rfl
  | cons c rest ih =>
    by_cases hc : c = '_'
    · rw [List.dropWhile_cons_of_pos (by simpa using hc), ih, joinWords, if_pos hc]
    · rw [List.dropWhile_cons_of_neg (by simpa using hc)]

theorem joinWords_eq_uncapitalised_iff (ident : List Char) :
    joinWords true ident = uncapitalised (joinWords true ident) ↔
      ∀ c ∈ (ident.dropWhile (· = '_')).head?, ¬ c.isAlpha := by
  rw [← joinWords_dropWhile]
  cases h : ident.dropWhile (· = '_') with
  | nil => simp [joinWords, uncapitalised]
  | cons c rest =>
    have hc : c ≠ '_' := by
      have := List.head?_dropWhile_not (· = '_') ident
      rw [h] at this
      simpa using this
    rw [joinWords, if_neg hc, if_pos rfl]
    simp only [uncapitalised, List.cons.injEq, and_true, List.head?_cons, Option.mem_def,
      Option.some.injEq, forall_eq']
    rw [Char.toLower_toUpper_eq_toLower, toUpper_eq_toLower_iff]

theorem camelCase_eq_iff (ident : List Char) :
    joinWords false ident = uncapitalised (upperForm ident) ↔ Keeps .camelCase ident := by
  rw [← joinWords_true]
  cases ident with
  | nil => simp [Keeps, joinWords, uncapitalised]
  | cons c rest =>
    show _ ↔ ∀ d ∈ ((c :: rest).dropWhile (· = '_')).head?,
      if some c = some '_' then ¬ d.isAlpha else ¬ d.isUpper
    by_cases hc : c = '_'
    · rw [List.dropWhile_cons_of_pos (by simpa using hc), hc]
      simp only [if_true]
      exact joinWords_eq_uncapitalised_iff rest
    · rw [List.dropWhile_cons_of_neg (by simpa using hc), joinWords, joinWords, if_neg hc,
        if_neg hc]
      simp only [hc, uncapitalised, Bool.false_eq_true, if_false, if_true, List.cons.injEq,
        and_true, List.head?_cons, Option.mem_def, Option.some.injEq, forall_eq']
      rw [Char.toLower_toUpper_eq_toLower, eq_comm, toLower_eq_iff]

/-- **The name of a field is its key** just if the rule keeps its identifier. -/
theorem name_eq_key_iff (r : RenameRule) (ident : String) :
    r.name ident = String.ofList (r.form ident.toList) ↔ r.Keeps ident.toList := by
  cases r with
  | lowercase =>
    show String.ofList _ = String.ofList _ ↔ _
    rw [String.ofList_inj]
    exact map_toLower_eq_iff ident.toList
  | snakeCase => simp [name, form, Keeps]
  | pascalCase => simp [name, form, Keeps, joinWords_true]
  | camelCase =>
    show String.ofList _ = String.ofList _ ↔ _
    rw [String.ofList_inj]
    exact camelCase_eq_iff ident.toList

end RenameRule

end GraphQLCall
