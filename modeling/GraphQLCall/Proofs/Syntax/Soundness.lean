import GraphQLCall.Proofs.Syntax.Document

/-!
# Syntax: nothing else is read

What the scanner takes off a text is the text of the lexeme that it finds, and what the reader takes
off lexemes are the lexemes of what it reads.  So a text is read as a document just if it is derived
from the grammar as that document, and it is not read at all if no document derives it.

* `scanQuoted_sound`, `scanPower_sound`, `scanNumber_sound`, `scan_sound`   what the scanners find
* `lexes_iff`   the lexemes that are found are the lexemes of the text
* `readValue_sound`, `readSet_sound`, `readDocument_sound`   what the reader finds
* `Document.read_iff`   a text is read as the document that it is derived as
-/

namespace GraphQLCall

open Number

theorem exists_of_map_fst {α β γ : Type} {f : α → β} {o : Option (α × γ)} {b : β} {c : γ}
    (h : o.map (fun p => (f p.1, p.2)) = some (b, c)) : ∃ a, o = some (a, c) ∧ f a = b := by
  obtain ⟨⟨a, c'⟩, ho, heq⟩ := Option.map_eq_some_iff.mp h
  obtain ⟨rfl, rfl⟩ := Prod.mk.inj heq
  exact ⟨a, ho, rfl⟩

/-! ### strings -/

theorem scanQuoted_sound {cs s rest : List Char} (h : scanQuoted cs = some (s, rest)) :
    ∃ w, Quoted w s ∧ cs = w ++ '"' :: rest := by
  fun_induction scanQuoted cs generalizing s rest with
  | case1 => cases h
  | case2 =>
    cases h
    exact ⟨[], .nil, rfl⟩
  | case3 a b c d tail x hx ih =>
    obtain ⟨s, hs, rfl⟩ := exists_of_map_fst h
    obtain ⟨w, hw, rfl⟩ := ih hs
    exact ⟨_, .unit hx hw, rfl⟩
  | case4 => cases h
  | case5 c tail _ x hx ih =>
    obtain ⟨s, hs, rfl⟩ := exists_of_map_fst h
    obtain ⟨w, hw, rfl⟩ := ih hs
    exact ⟨_, .escape hx hw, rfl⟩
  | case6 => cases h
  | case7 c tail _ _ _ hc ih =>
    obtain ⟨s, hs, rfl⟩ := exists_of_map_fst h
    obtain ⟨w, hw, rfl⟩ := ih hs
    exact ⟨_, .plain hc hw, rfl⟩
  | case8 => cases h

/-! ### numbers -/

theorem scanSign_sound {cs rest : List Char} {negative : Bool}
    (h : scanSign cs = (negative, rest)) : cs = signText negative ++ rest := by
  unfold scanSign at h
  split at h
  · rename_i hminus
    obtain ⟨rfl, rfl⟩ := Prod.mk.inj h
    obtain ⟨tail, rfl⟩ := List.head?_eq_some_iff.mp hminus
    rfl
  · obtain ⟨rfl, rfl⟩ := Prod.mk.inj h
    rfl

theorem isDigits_takeWhile {cs : List Char} (h : (cs.takeWhile Char.isDigit).isEmpty = false) :
    IsDigits (cs.takeWhile Char.isDigit) := by
  refine ⟨fun hnil => ?_, fun d hd => ?_⟩
  · rw [hnil] at h
    cases h
  · exact List.mem_takeWhile_imp hd

theorem powerText_sign {e : Char} {tail ds : List Char} {negative : Bool} {after : List Char}
    (he : e = 'e' ∨ e = 'E') (hsign : scanPowerSign tail = (negative, ds ++ after))
    (hds : IsDigits ds) :
    ∃ w, PowerText w (some (signed negative ds)) ∧ e :: tail = w ++ after := by
  unfold scanPowerSign at hsign
  split at hsign
  · rename_i hplus
    obtain ⟨rfl, htail⟩ := Prod.mk.inj hsign
    obtain ⟨rest, rfl⟩ := List.head?_eq_some_iff.mp hplus
    rw [List.tail_cons] at htail
    subst htail
    exact ⟨_, .plus he hds, rfl⟩
  · have htail := scanSign_sound hsign
    subst htail
    cases negative with
    | true => exact ⟨_, .minus he hds, rfl⟩
    | false => exact ⟨_, .unsigned he hds, rfl⟩

theorem scanPower_sound {cs rest : List Char} {power : Option Int}
    (h : scanPower cs = some (power, rest)) : ∃ w, PowerText w power ∧ cs = w ++ rest := by
  unfold scanPower at h
  split at h
  · rename_i hhead
    obtain ⟨e, tail, rfl, he⟩ : ∃ e tail, cs = e :: tail ∧ (e = 'e' ∨ e = 'E') := by
      rcases hhead with hhead | hhead
      · obtain ⟨tail, rfl⟩ := List.head?_eq_some_iff.mp hhead
        exact ⟨'e', tail, rfl, .inl rfl⟩
      · obtain ⟨tail, rfl⟩ := List.head?_eq_some_iff.mp hhead
        exact ⟨'E', tail, rfl, .inr rfl⟩
    dsimp only [List.tail_cons] at h
    split at h
    · cases h
    · rename_i hempty
      obtain ⟨hpower, hrest⟩ := Prod.mk.inj (Option.some.inj h)
      have hds := isDigits_takeWhile (Bool.not_eq_true _ ▸ hempty)
      subst hpower hrest
      refine powerText_sign he ?_ hds
      rw [List.takeWhile_append_dropWhile]
  · obtain ⟨rfl, rfl⟩ := Prod.mk.inj (Option.some.inj h)
    exact ⟨[], .none, rfl⟩

theorem endNumber_sound {l l' : Lexeme} {cs rest : List Char}
    (h : endNumber l cs = some (l', rest)) :
    l' = l ∧ rest = cs ∧ ∀ c ∈ cs.head?, ¬ isNameRest c ∧ c ≠ '.' := by
  unfold endNumber at h
  split at h
  · cases h
  · rename_i hany
    obtain ⟨rfl, rfl⟩ := Prod.mk.inj (Option.some.inj h)
    refine ⟨rfl, rfl, fun c hc => ?_⟩
    rw [hc] at hany
    simpa using hany

theorem isWhole_of_wholeDigits {ds : List Char} (hds : ∀ d ∈ ds, d.isDigit)
    (h : wholeDigits ds = true) : IsWhole ds := by
  simp only [wholeDigits, ne_eq, Bool.and_eq_true, Bool.not_eq_true', List.isEmpty_eq_false_iff,
    Bool.or_eq_true, decide_eq_true_eq] at h
  exact ⟨⟨h.1, hds⟩, fun hzero => h.2.resolve_left (not_not_intro hzero)⟩

/-- **What a number is found in** is its text, and its text ends there. -/
theorem scanNumber_sound {cs rest : List Char} {l : Lexeme} (h : scanNumber cs = some (l, rest)) :
    ∃ w, LexemeText w l ∧ l.Ends rest ∧ cs = w ++ rest := by
  unfold scanNumber at h
  rcases hsign : scanSign cs with ⟨negative, tail⟩
  have hcs := scanSign_sound hsign
  simp only [hsign] at h
  split at h
  · cases h
  rename_i hdigits
  have hwhole : IsWhole (tail.takeWhile Char.isDigit) :=
    isWhole_of_wholeDigits (fun d hd => List.mem_takeWhile_imp hd) (by simpa using hdigits)
  clear hdigits hsign
  have htail : tail.takeWhile Char.isDigit ++ tail.dropWhile Char.isDigit = tail :=
    List.takeWhile_append_dropWhile
  generalize tail.takeWhile Char.isDigit = whole at h hwhole htail
  generalize tail.dropWhile Char.isDigit = more at h htail
  subst htail hcs
  split at h
  · rename_i hpoint
    obtain ⟨more, rfl⟩ := List.head?_eq_some_iff.mp hpoint
    rw [List.tail_cons] at h
    split at h
    · cases h
    rename_i hempty
    have hfraction := isDigits_takeWhile (Bool.not_eq_true _ ▸ hempty)
    have hmore : more.takeWhile Char.isDigit ++ more.dropWhile Char.isDigit = more :=
      List.takeWhile_append_dropWhile
    clear hempty hpoint
    generalize more.takeWhile Char.isDigit = fraction at h hfraction hmore
    generalize more.dropWhile Char.isDigit = behind at h hmore
    subst hmore
    split at h
    · rename_i power rest' hpower
      obtain ⟨rfl, rfl, hends⟩ := endNumber_sound h
      obtain ⟨w, hw, rfl⟩ := scanPower_sound hpower
      refine ⟨_, .float hwhole hfraction hw, hends, ?_⟩
      simp only [List.append_assoc, List.cons_append]
    · cases h
  · split at h
    · rename_i power rest' hpower
      obtain ⟨rfl, rfl, hends⟩ := endNumber_sound h
      obtain ⟨w, hw, rfl⟩ := scanPower_sound hpower
      exact ⟨_, .scaled hwhole hw, hends, by rw [List.append_assoc, List.append_assoc]⟩
    · rename_i rest' hpower
      obtain ⟨rfl, rfl, hends⟩ := endNumber_sound h
      obtain ⟨w, hw, rfl⟩ := scanPower_sound hpower
      cases hw
      exact ⟨_, .int hwhole, hends, by rw [List.append_assoc, List.nil_append]⟩
    · cases h

/-! ### lexemes -/

theorem isName_of_parts {c : Char} {cs : List Char} (hc : isNameStart c) (hcs : ∀ d ∈ cs, isNameRest d) :
    isName (String.ofList (c :: cs)) := by
  unfold isName
  rw [String.toList_ofList]
  simpa [hc] using hcs

theorem head?_dropWhile_not {p : Char → Bool} {cs : List Char} :
    ∀ c ∈ (cs.dropWhile p).head?, ¬ p c := by
  intro c hc
  have hnot := List.head?_dropWhile_not p cs
  rw [hc] at hnot
  simpa using hnot

/-- **What a lexeme is found in** is its text, and its text ends there. -/
theorem scan_sound {cs rest : List Char} {l : Lexeme} (h : scan cs = some (l, rest)) :
    ∃ w, LexemeText w l ∧ l.Ends rest ∧ cs = w ++ rest := by
  cases cs with
  | nil => cases h
  | cons c tail =>
    rw [scan] at h
    split at h
    · rename_i hmark
      obtain ⟨rfl, rfl⟩ := Prod.mk.inj (Option.some.inj h)
      exact ⟨[c], .mark hmark, trivial, rfl⟩
    split at h
    · rename_i hstart
      obtain ⟨rfl, rfl⟩ := Prod.mk.inj (Option.some.inj h)
      have hname := isName_of_parts hstart fun d (hd : d ∈ tail.takeWhile isNameRest) =>
        List.mem_takeWhile_imp hd
      refine ⟨_, .name hname, head?_dropWhile_not, ?_⟩
      rw [String.toList_ofList, List.cons_append, List.takeWhile_append_dropWhile]
    split at h
    · rename_i hquote
      subst hquote
      split at h
      · cases h
      rename_i htwo
      obtain ⟨s, hs, rfl⟩ := exists_of_map_fst (f := fun s => Lexeme.text (String.ofList s)) h
      obtain ⟨w, hw, rfl⟩ := scanQuoted_sound hs
      refine ⟨_, .text hw, fun hempty c hc hquote => htwo ?_, ?_⟩
      · -- a third quote behind two is a block string
        have hnil : s = [] := String.ofList_eq_empty_iff.mp hempty
        subst hnil hquote
        cases hw
        obtain ⟨more, rfl⟩ := List.head?_eq_some_iff.mp hc
        rfl
      · rw [List.cons_append, List.append_assoc, List.singleton_append]
    · exact scanNumber_sound h

theorem lexemesIn_sound {n : Nat} {cs : List Char} {ls : List Lexeme}
    (h : lexemesIn n cs = some ls) : Lexes cs ls := by
  induction n generalizing cs ls with
  | zero =>
    cases cs with
    | nil =>
      cases h
      exact .nil
    | cons c cs => cases h
  | succ n ih =>
    cases cs with
    | nil =>
      cases h
      exact .nil
    | cons c cs =>
      rw [lexemesIn] at h
      split at h
      · rename_i hc
        exact .ignored hc (ih h)
      split at h
      · cases h
      rename_i l rest hscan
      obtain ⟨ls, hls, rfl⟩ := Option.map_eq_some_iff.mp h
      obtain ⟨w, hw, hends, hcs⟩ := scan_sound hscan
      rw [hcs]
      exact .lexeme hw hends (ih hls)

/-- **The lexemes that are found** are the lexemes of the text. -/
theorem lexes_iff {cs : List Char} {ls : List Lexeme} : Lexes cs ls ↔ lexemes? cs = some ls :=
  ⟨lexemes?_of_lexes, lexemesIn_sound⟩

/-! ### values -/

theorem after?_sound {c : Char} {ls rest : List Lexeme} (h : after? c ls = some rest) :
    ls = .mark c :: rest := by
  unfold after? at h
  split at h
  · split at h
    · rename_i hc
      rw [hc, Option.some.inj h]
    · cases h
  · cases h

mutual

/-- **A value is read off its lexemes only.** -/
theorem readValue_sound {n : Nat} {ls rest : List Lexeme} {v : Value}
    (h : readValue n ls = some (v, rest)) : ls = v.lexemes ++ rest := by
  match n, ls with
  | 0, _ => cases h
  | _ + 1, [] => cases h
  | n + 1, l :: ls =>
    cases l with
    | name s =>
      simp only [readValue] at h
      split at h
      · rename_i hs
        obtain ⟨rfl, rfl⟩ := Prod.mk.inj (Option.some.inj h)
        rw [hs]
        rfl
      split at h
      · rename_i hs
        obtain ⟨rfl, rfl⟩ := Prod.mk.inj (Option.some.inj h)
        rw [hs]
        rfl
      split at h
      · rename_i hs
        obtain ⟨rfl, rfl⟩ := Prod.mk.inj (Option.some.inj h)
        rw [hs]
        rfl
      · cases h
    | int i =>
      obtain ⟨rfl, rfl⟩ := Prod.mk.inj (Option.some.inj h)
      rfl
    | float x =>
      obtain ⟨rfl, rfl⟩ := Prod.mk.inj (Option.some.inj h)
      rfl
    | text s =>
      obtain ⟨rfl, rfl⟩ := Prod.mk.inj (Option.some.inj h)
      rfl
    | mark c =>
      simp only [readValue] at h
      split at h
      · rename_i hc
        obtain ⟨items, hitems, rfl⟩ := exists_of_map_fst h
        have hls := readItems_sound hitems
        rw [hc, hls, Value.lexemes, List.cons_append, List.append_assoc, List.singleton_append]
      split at h
      · rename_i hc
        obtain ⟨entries, hentries, rfl⟩ := exists_of_map_fst h
        have hls := readEntries_sound hentries
        rw [hc, hls, Value.lexemes, List.cons_append, List.append_assoc, List.singleton_append]
      · cases h

theorem readItems_sound {n : Nat} {ls rest : List Lexeme} {items : List Value}
    (h : readItems n ls = some (items, rest)) :
    ls = Value.itemLexemes items ++ .mark ']' :: rest := by
  match n with
  | 0 => cases h
  | n + 1 =>
    rw [readItems] at h
    split at h
    · rename_i hafter
      obtain ⟨rfl, rfl⟩ := Prod.mk.inj (Option.some.inj h)
      exact after?_sound hafter
    split at h
    · cases h
    rename_i v more hv
    obtain ⟨items, hitems, rfl⟩ := exists_of_map_fst h
    rw [readValue_sound hv, readItems_sound hitems, Value.itemLexemes, List.append_assoc]

theorem readEntries_sound {close : Char} {n : Nat} {ls rest : List Lexeme}
    {entries : List (String × Value)} (h : readEntries close n ls = some (entries, rest)) :
    ls = Value.entryLexemes entries ++ .mark close :: rest := by
  match n with
  | 0 => cases h
  | n + 1 =>
    rw [readEntries.eq_def] at h
    dsimp only at h
    split at h
    · rename_i hafter
      obtain ⟨rfl, rfl⟩ := Prod.mk.inj (Option.some.inj h)
      exact after?_sound hafter
    split at h
    · split at h
      · cases h
      rename_i k ls v more hv
      obtain ⟨entries, hentries, rfl⟩ := exists_of_map_fst h
      rw [readValue_sound hv, readEntries_sound hentries, Value.entryLexemes, List.cons_append,
        List.cons_append, List.append_assoc]
    · cases h

end

/-! ### documents -/

mutual

/-- **A selection set is read off its lexemes only,** and it is not empty. -/
theorem readSet_sound {n : Nat} {ls rest : List Lexeme} {fields : List Selected}
    (h : readSet n ls = some (fields, rest)) :
    Selected.EachSet (· ≠ []) fields ∧
      ls = .mark '{' :: (Selected.allLexemes fields ++ .mark '}' :: rest) := by
  match n with
  | 0 => cases h
  | n + 1 =>
    rw [readSet] at h
    split at h
    · cases h
    rename_i more hafter
    split at h
    · rename_i f fs rest' hfields
      obtain ⟨rfl, rfl⟩ := Prod.mk.inj (Option.some.inj h)
      obtain ⟨hbelow, hmore⟩ := readSelection_sound hfields
      refine ⟨⟨List.cons_ne_nil _ _, hbelow⟩, ?_⟩
      rw [after?_sound hafter, hmore]
    · cases h

theorem readSelection_sound {n : Nat} {ls rest : List Lexeme} {fields : List Selected}
    (h : readSelection n ls = some (fields, rest)) :
    Selected.AllEachBelow (· ≠ []) fields ∧
      ls = Selected.allLexemes fields ++ .mark '}' :: rest := by
  match n with
  | 0 => cases h
  | n + 1 =>
    rw [readSelection.eq_def] at h
    dsimp only at h
    split at h
    · rename_i hafter
      obtain ⟨rfl, rfl⟩ := Prod.mk.inj (Option.some.inj h)
      exact ⟨trivial, after?_sound hafter⟩
    split at h
    · rename_i k ls
      split at h
      · obtain ⟨fields, hfields, rfl⟩ := exists_of_map_fst h
        obtain ⟨hbelow, hls⟩ := readSelection_sound hfields
        refine ⟨⟨trivial, hbelow⟩, ?_⟩
        rw [hls]
        rfl
      · split at h
        · cases h
        rename_i below more hset
        obtain ⟨fields, hfields, rfl⟩ := exists_of_map_fst h
        obtain ⟨hset', hls⟩ := readSet_sound hset
        obtain ⟨hbelow, hmore⟩ := readSelection_sound hfields
        refine ⟨⟨hset', hbelow⟩, ?_⟩
        rw [hls, hmore, Selected.allLexemes, Selected.lexemes]
        simp only [List.cons_append, List.append_assoc, List.nil_append]
    · cases h

end

theorem readArguments_sound {ls rest : List Lexeme} {arguments : List (String × Value)}
    (h : readArguments ls = some (arguments, rest)) :
    ls = Document.argumentLexemes arguments ++ rest := by
  unfold readArguments at h
  split at h
  · obtain ⟨rfl, rfl⟩ := Prod.mk.inj (Option.some.inj h)
    rfl
  rename_i more hafter
  split at h
  · rename_i e es rest' hentries
    obtain ⟨rfl, rfl⟩ := Prod.mk.inj (Option.some.inj h)
    rw [after?_sound hafter, readEntries_sound hentries, Document.argumentLexemes,
      List.cons_append, List.append_assoc, List.singleton_append]
    exact fun hnil => by cases hnil
  · cases h

theorem readDocument_sound {ls : List Lexeme} {d : Document} (h : readDocument ls = some d) :
    Selected.EachSet (· ≠ []) d.selection ∧ ls = d.lexemes := by
  unfold readDocument at h
  split at h
  · rename_i keyword name ls
    split at h
    · cases h
    rename_i kind hkind
    have hkeyword : kind.keyword = keyword := by simpa using List.find?_some hkind
    split at h
    · cases h
    rename_i arguments more harguments
    split at h
    · rename_i selection hset
      cases h
      obtain ⟨hne, hmore⟩ := readSet_sound hset
      refine ⟨hne, ?_⟩
      rw [readArguments_sound harguments, hmore, ← hkeyword]
      rfl
    · cases h
  · cases h

/-- **A text is read as the document that it is derived as,** and not at all if there is none. -/
theorem Document.read_iff {d : Document} {text : String} : read text = some d ↔ d.Derives text := by
  refine ⟨fun h => ?_, read_of_derives⟩
  obtain ⟨ls, hls, hd⟩ := Option.bind_eq_some_iff.mp h
  obtain ⟨hne, rfl⟩ := readDocument_sound hd
  exact ⟨hne, lexes_iff.mpr hls⟩

end GraphQLCall
