import GraphQLCall.Proofs.Syntax.Lexeme

/-!
# Syntax: the scanner

A scanner takes one lexeme after another from the front of a text, each as far as it goes.  It finds
the lexemes of every text that has some.

* `scanQuoted`, `scanPower`, `scanNumber`   the scanners of strings and numbers
* `scan`   the lexeme in front of a text, and the text behind it
* `scan_lexeme`   it finds the lexeme that stands there
* `lexemes?`   all lexemes of a text
* `lexemes?_of_lexes`   it finds the lexemes of a text
-/

namespace GraphQLCall

open Number

def scanQuoted : List Char → Option (List Char × List Char)
  | [] => none
  | '"' :: rest => some ([], rest)
  | '\\' :: 'u' :: a :: b :: c :: d :: rest =>
    match unitChar? a b c d with
    | some x => (scanQuoted rest).map fun p => (x :: p.1, p.2)
    | none => none
  | '\\' :: c :: rest =>
    match Json.escaped c with
    | some x => (scanQuoted rest).map fun p => (x :: p.1, p.2)
    | none => none
  | c :: rest => if isQuotable c then (scanQuoted rest).map fun p => (c :: p.1, p.2) else none

def scanSign (cs : List Char) : Bool × List Char :=
  if cs.head? = some '-' then (true, cs.tail) else (false, cs)

def scanPowerSign (cs : List Char) : Bool × List Char :=
  if cs.head? = some '+' then (false, cs.tail) else scanSign cs

def scanPower (cs : List Char) : Option (Option Int × List Char) :=
  if cs.head? = some 'e' ∨ cs.head? = some 'E' then
    let p := scanPowerSign cs.tail
    let ds := p.2.takeWhile Char.isDigit
    if ds.isEmpty then none else some (some (signed p.1 ds), p.2.dropWhile Char.isDigit)
  else some (none, cs)

/-- a number, unless its text goes on -/
def endNumber (l : Lexeme) (rest : List Char) : Option (Lexeme × List Char) :=
  if rest.head?.any (fun c => isNameRest c || c = '.') then none else some (l, rest)

def wholeDigits (ds : List Char) : Bool := !ds.isEmpty && (ds.head? ≠ some '0' || ds = ['0'])

def scanNumber (cs : List Char) : Option (Lexeme × List Char) :=
  let p := scanSign cs
  let whole := p.2.takeWhile Char.isDigit
  let rest := p.2.dropWhile Char.isDigit
  if !wholeDigits whole then none
  else if rest.head? = some '.' then
    let fraction := rest.tail.takeWhile Char.isDigit
    if fraction.isEmpty then none
    else
      match scanPower (rest.tail.dropWhile Char.isDigit) with
      | some (power, rest) => endNumber (.float (doubleOf p.1 whole fraction power)) rest
      | none => none
  else
    match scanPower rest with
    | some (some power, rest) => endNumber (.float (doubleOf p.1 whole [] (some power))) rest
    | some (none, rest) => endNumber (.int (signed p.1 whole)) rest
    | none => none

/-- **The lexeme in front of a text,** and the text behind it. -/
def scan : List Char → Option (Lexeme × List Char)
  | [] => none
  | c :: rest =>
    if isMark c then some (.mark c, rest)
    else if isNameStart c then
      some (.name (String.ofList (c :: rest.takeWhile isNameRest)), rest.dropWhile isNameRest)
    else if c = '"' then
      if rest.take 2 = ['"', '"'] then none
      else (scanQuoted rest).map fun p => (.text (String.ofList p.1), p.2)
    else scanNumber (c :: rest)

/-- all lexemes of a text, in at most `n` steps -/
def lexemesIn : (n : Nat) → List Char → Option (List Lexeme)
  | _, [] => some []
  | 0, _ :: _ => none
  | n + 1, c :: cs =>
    if isIgnored c then lexemesIn n cs
    else
      match scan (c :: cs) with
      | none => none
      | some (l, rest) => (lexemesIn n rest).map (l :: ·)

/-- **All lexemes of a text.** -/
def lexemes? (cs : List Char) : Option (List Lexeme) := lexemesIn cs.length cs

/-! ### strings -/

theorem scanQuoted_append {w s : List Char} (h : Quoted w s) (rest : List Char) :
    scanQuoted (w ++ '"' :: rest) = some (s, rest) := by
  induction h with
  | nil => simp [scanQuoted]
  | @plain c w s hc _ ih =>
    have hne : c ≠ '"' ∧ c ≠ '\\' := by
      simp only [isQuotable, Bool.and_eq_true, decide_eq_true_eq] at hc
      exact hc.1
    rw [List.cons_append, scanQuoted, if_pos hc, ih]
    · rfl
    · exact fun heq => hne.1 heq
    · exact fun _ _ _ _ _ heq => fun _ => hne.2 heq
    · exact fun _ _ heq => fun _ => hne.2 heq
  | @escape c x w s hc _ ih =>
    have hu : c ≠ 'u' := by
      rintro rfl
      cases hc
    rw [List.cons_append, List.cons_append, scanQuoted]
    · simp only [hc, ih]
      rfl
    · exact fun _ _ _ _ _ heq => fun _ => hu heq
  | @unit a b c d x w s hx _ ih =>
    simp only [List.cons_append, scanQuoted, hx, ih]
    rfl

/-! ### numbers -/

theorem takeWhile_append {p : Char → Bool} {ds rest : List Char} (hds : ∀ d ∈ ds, p d)
    (hrest : ∀ c ∈ rest.head?, ¬ p c) : (ds ++ rest).takeWhile p = ds := by
  rw [List.takeWhile_append_of_pos hds]
  cases rest with
  | nil => simp
  | cons c rest =>
    rw [List.takeWhile_cons_of_neg (hrest c rfl), List.append_nil]

theorem dropWhile_append {p : Char → Bool} {ds rest : List Char} (hds : ∀ d ∈ ds, p d)
    (hrest : ∀ c ∈ rest.head?, ¬ p c) : (ds ++ rest).dropWhile p = rest := by
  rw [List.dropWhile_append_of_pos hds]
  cases rest with
  | nil => rfl
  | cons c rest => rw [List.dropWhile_cons_of_neg (hrest c rfl)]

theorem scanSign_append {ds : List Char} (negative : Bool) (hds : ds.head? ≠ some '-') :
    scanSign (signText negative ++ ds) = (negative, ds) := by
  cases negative with
  | true => rfl
  | false => exact if_neg hds

theorem not_isDigit_of_not_isNameRest {c : Char} (h : ¬ isNameRest c) : ¬ c.isDigit := by
  intro hd
  simp [isNameRest, Char.isAlphanum, hd] at h

theorem head?_digits_ne {ds : List Char} (h : IsDigits ds) {c : Char} (hc : ¬ c.isDigit)
    (rest : List Char) : (ds ++ rest).head? ≠ some c := by
  obtain ⟨d, ds, rfl⟩ := List.exists_cons_of_ne_nil h.1
  intro heq
  cases heq
  exact hc (h.2 c List.mem_cons_self)

section
variable {rest : List Char} (hrest : ∀ c ∈ rest.head?, ¬ isNameRest c)
include hrest

theorem takeWhile_digits {ds : List Char} (h : IsDigits ds) :
    (ds ++ rest).takeWhile Char.isDigit = ds :=
  takeWhile_append h.2 fun c hc => not_isDigit_of_not_isNameRest (hrest c hc)

theorem dropWhile_digits {ds : List Char} (h : IsDigits ds) :
    (ds ++ rest).dropWhile Char.isDigit = rest :=
  dropWhile_append h.2 fun c hc => not_isDigit_of_not_isNameRest (hrest c hc)

theorem scanPower_cons {e : Char} {ds tail : List Char} {negative : Bool} (he : e = 'e' ∨ e = 'E')
    (h : IsDigits ds) (hsign : scanPowerSign tail = (negative, ds ++ rest)) :
    scanPower (e :: tail) = some (some (signed negative ds), rest) := by
  have hhead : (e :: tail).head? = some 'e' ∨ (e :: tail).head? = some 'E' :=
    he.imp (congrArg some) (congrArg some)
  have hempty : ds.isEmpty = false := by simpa using h.1
  unfold scanPower
  rw [if_pos hhead, List.tail_cons, hsign]
  simp only [takeWhile_digits hrest h, dropWhile_digits hrest h, hempty, Bool.false_eq_true,
    if_false]

theorem scanPower_append {w : List Char} {power : Option Int} (h : PowerText w power) :
    scanPower (w ++ rest) = some (power, rest) := by
  cases h with
  | none =>
    rw [List.nil_append, scanPower, if_neg]
    rintro (he | he)
    · exact hrest 'e' he rfl
    · exact hrest 'E' he rfl
  | @unsigned e ds he hds =>
    have hsign : scanPowerSign (ds ++ rest) = (false, ds ++ rest) := by
      rw [scanPowerSign, if_neg (head?_digits_ne hds (by decide) rest)]
      exact scanSign_append false (head?_digits_ne hds (by decide) rest)
    exact scanPower_cons hrest he hds hsign
  | plus he hds => exact scanPower_cons hrest he hds rfl
  | minus he hds => exact scanPower_cons hrest he hds rfl

theorem not_isDigit_head?_power {w : List Char} {power : Option Int} (h : PowerText w power) :
    ∀ c ∈ (w ++ rest).head?, ¬ c.isDigit := by
  intro c hc
  cases h with
  | none => exact not_isDigit_of_not_isNameRest (hrest c hc)
  | unsigned he _ | plus he _ | minus he _ =>
    cases hc
    rcases he with rfl | rfl <;> decide

end

theorem endNumber_of_ends {l : Lexeme} {rest : List Char}
    (h : ∀ c ∈ rest.head?, ¬ isNameRest c ∧ c ≠ '.') : endNumber l rest = some (l, rest) := by
  cases rest with
  | nil => rfl
  | cons c rest =>
    obtain ⟨hname, hpoint⟩ := h c rfl
    simp [endNumber, hname, hpoint]

theorem wholeDigits_of_isWhole {ds : List Char} (h : IsWhole ds) : wholeDigits ds = true := by
  obtain ⟨⟨hne, -⟩, hzero⟩ := h
  by_cases hhead : ds.head? = some '0'
  · rw [hzero hhead]
    rfl
  · simp [wholeDigits, hne, hhead]

theorem mem_digits {c : Char} (h : c.isDigit) : c ∈ "0123456789".toList := by
  have hall : ∀ n < 10, Char.ofNat (48 + n) ∈ "0123456789".toList := by decide
  simp only [Char.isDigit, Bool.and_eq_true, decide_eq_true_eq, ge_iff_le,
    UInt32.le_iff_toNat_le] at h
  have hlow : 48 ≤ c.toNat := h.1
  have hhigh : c.toNat ≤ 57 := h.2
  have hc := hall (c.toNat - 48) (by omega)
  rwa [Nat.add_sub_cancel' hlow, Char.ofNat_toNat] at hc

section
variable {negative : Bool} {whole rest : List Char}

theorem scanNumber_whole (hwhole : IsWhole whole) (hrest : ∀ c ∈ rest.head?, ¬ c.isDigit) :
    scanNumber (signText negative ++ whole ++ rest) =
      if rest.head? = some '.' then
        let fraction := rest.tail.takeWhile Char.isDigit
        if fraction.isEmpty then none
        else
          match scanPower (rest.tail.dropWhile Char.isDigit) with
          | some (power, rest) => endNumber (.float (doubleOf negative whole fraction power)) rest
          | none => none
      else
        match scanPower rest with
        | some (some power, rest) =>
          endNumber (.float (doubleOf negative whole [] (some power))) rest
        | some (none, rest) => endNumber (.int (signed negative whole)) rest
        | none => none := by
  have hsign : scanSign (signText negative ++ whole ++ rest) = (negative, whole ++ rest) := by
    rw [List.append_assoc]
    exact scanSign_append negative (head?_digits_ne hwhole.1 (by decide) rest)
  unfold scanNumber
  simp only [hsign, takeWhile_append hwhole.1.2 hrest, dropWhile_append hwhole.1.2 hrest,
    wholeDigits_of_isWhole hwhole, Bool.not_true, Bool.false_eq_true, if_false]

theorem scanNumber_int (hwhole : IsWhole whole)
    (hrest : ∀ c ∈ rest.head?, ¬ isNameRest c ∧ c ≠ '.') :
    scanNumber (signText negative ++ whole ++ rest) = some (.int (signed negative whole), rest) := by
  have hname : ∀ c ∈ rest.head?, ¬ isNameRest c := fun c hc => (hrest c hc).1
  have hpoint : rest.head? ≠ some '.' := fun heq => (hrest '.' heq).2 rfl
  have hpower : scanPower rest = some (none, rest) := scanPower_append hname .none
  rw [scanNumber_whole hwhole fun c hc => not_isDigit_of_not_isNameRest (hname c hc),
    if_neg hpoint, hpower]
  exact endNumber_of_ends hrest

theorem scanNumber_float {fraction w : List Char} {power : Option Int} (hwhole : IsWhole whole)
    (hfraction : IsDigits fraction) (hpower : PowerText w power)
    (hrest : ∀ c ∈ rest.head?, ¬ isNameRest c ∧ c ≠ '.') :
    scanNumber (signText negative ++ whole ++ ('.' :: (fraction ++ (w ++ rest))))
      = some (.float (doubleOf negative whole fraction power), rest) := by
  have hname : ∀ c ∈ rest.head?, ¬ isNameRest c := fun c hc => (hrest c hc).1
  have hdigits := not_isDigit_head?_power hname hpower
  have hempty : fraction.isEmpty = false := by simpa using hfraction.1
  rw [scanNumber_whole hwhole (by simp), List.head?_cons, if_pos rfl, List.tail_cons,
    takeWhile_append hfraction.2 hdigits, dropWhile_append hfraction.2 hdigits,
    scanPower_append hname hpower]
  simp only [hempty, Bool.false_eq_true, if_false]
  exact endNumber_of_ends hrest

theorem scanNumber_scaled {w : List Char} {power : Int} (hwhole : IsWhole whole)
    (hpower : PowerText w (some power)) (hrest : ∀ c ∈ rest.head?, ¬ isNameRest c ∧ c ≠ '.') :
    scanNumber (signText negative ++ whole ++ (w ++ rest))
      = some (.float (doubleOf negative whole [] (some power)), rest) := by
  have hname : ∀ c ∈ rest.head?, ¬ isNameRest c := fun c hc => (hrest c hc).1
  have hpoint : (w ++ rest).head? ≠ some '.' := by
    cases hpower with
    | unsigned he _ | plus he _ | minus he _ => rcases he with rfl | rfl <;> simp
  rw [scanNumber_whole hwhole (not_isDigit_head?_power hname hpower), if_neg hpoint,
    scanPower_append hname hpower]
  exact endNumber_of_ends hrest

theorem number_head (hwhole : IsWhole whole) (rest : List Char) :
    ∃ c tail, signText negative ++ whole ++ rest = c :: tail ∧ c ∈ "-0123456789".toList := by
  cases negative with
  | true => exact ⟨'-', _, rfl, by decide⟩
  | false =>
    obtain ⟨d, ds, rfl⟩ := List.exists_cons_of_ne_nil hwhole.1.1
    exact ⟨d, ds ++ rest, rfl, List.mem_cons_of_mem _
      (mem_digits (hwhole.1.2 d List.mem_cons_self))⟩

theorem scan_number (hwhole : IsWhole whole) :
    scan (signText negative ++ whole ++ rest) = scanNumber (signText negative ++ whole ++ rest) := by
  obtain ⟨c, tail, heq, hc⟩ := number_head hwhole rest
  have hnot : ∀ d ∈ "-0123456789".toList, ¬ isMark d ∧ ¬ isNameStart d ∧ d ≠ '"' :=
    List.all_iff_forall_prop.mp (by decide)
  obtain ⟨hmark, hname, hquote⟩ := hnot c hc
  rw [heq, scan, if_neg hmark, if_neg hname, if_neg hquote]

end

/-! ### lexemes -/

theorem toList_isName {s : String} (h : isName s) :
    ∃ c rest, s.toList = c :: rest ∧ isNameStart c ∧ ∀ d ∈ rest, isNameRest d := by
  unfold isName at h
  cases hs : s.toList with
  | nil =>
    rw [hs] at h
    cases h
  | cons c rest =>
    rw [hs] at h
    simp only [Bool.and_eq_true, List.all_eq_true] at h
    exact ⟨c, rest, rfl, h⟩

theorem not_isMark_of_isNameStart {c : Char} (h : isNameStart c) : ¬ isMark c := by
  intro hm
  have hall : ∀ d ∈ "!$&():=@[]\x7b|\x7d".toList, ¬ isNameStart d :=
    List.all_iff_forall_prop.mp (by decide)
  exact hall c (List.contains_iff_mem.mp hm) h

/-- **A scanner finds the lexeme in front of a text.** -/
theorem scan_lexeme {w rest : List Char} {l : Lexeme} (h : LexemeText w l) (hends : l.Ends rest) :
    scan (w ++ rest) = some (l, rest) := by
  cases h with
  | mark hc => exact if_pos hc
  | @name s hs =>
    obtain ⟨c, cs, heq, hstart, hcs⟩ := toList_isName hs
    rw [heq, List.cons_append, scan, if_neg (not_isMark_of_isNameStart hstart), if_pos hstart,
      takeWhile_append hcs hends, dropWhile_append hcs hends, ← heq, String.ofList_toList]
  | int hwhole => rw [scan_number hwhole, scanNumber_int hwhole hends]
  | @float negative whole fraction w power hwhole hfraction hpower =>
    have heq : signText negative ++ whole ++ '.' :: fraction ++ w ++ rest
        = signText negative ++ whole ++ ('.' :: (fraction ++ (w ++ rest))) := by simp
    rw [heq, scan_number hwhole, scanNumber_float hwhole hfraction hpower hends]
  | scaled hwhole hpower =>
    rw [List.append_assoc, scan_number hwhole, scanNumber_scaled hwhole hpower hends]
  | @text w s hw =>
    have htwo : (w ++ '"' :: rest).take 2 ≠ ['"', '"'] := by
      cases hw with
      | nil =>
        -- a third quote would begin a block string
        intro heq
        cases rest with
        | nil => cases heq
        | cons c rest =>
          simp only [List.nil_append, List.take_succ_cons, List.take_zero, List.cons.injEq, and_true,
            true_and] at heq
          exact hends rfl c rfl heq
      | plain hc _ =>
        intro heq
        rw [(List.cons.inj heq).1] at hc
        cases hc
      | escape _ _ | unit _ _ => exact fun heq => absurd (List.cons.inj heq).1 (by decide)
    rw [List.cons_append, List.append_assoc, List.singleton_append, scan, if_neg (by decide),
      if_neg (by decide), if_pos rfl, if_neg htwo, scanQuoted_append hw]
    rfl

theorem LexemeText.head {w : List Char} {l : Lexeme} (h : LexemeText w l) :
    ∃ c tail, w = c :: tail ∧ ¬ isIgnored c := by
  have hall : ∀ d ∈ " \t\n\r,\uFEFF".toList, ¬ isMark d ∧ ¬ isNameStart d ∧
      d ∉ "-0123456789".toList := List.all_iff_forall_prop.mp (by decide)
  cases h with
  | @mark c hc => exact ⟨c, [], rfl, fun hi => (hall c (List.contains_iff_mem.mp hi)).1 hc⟩
  | @name s hs =>
    obtain ⟨c, cs, heq, hstart, -⟩ := toList_isName hs
    exact ⟨c, cs, heq, fun hi => (hall c (List.contains_iff_mem.mp hi)).2.1 hstart⟩
  | int hwhole =>
    obtain ⟨c, tail, heq, hc⟩ := number_head hwhole []
    rw [List.append_nil] at heq
    exact ⟨c, tail, heq, fun hi => (hall c (List.contains_iff_mem.mp hi)).2.2 hc⟩
  | float hwhole _ _ | scaled hwhole _ =>
    obtain ⟨c, tail, heq, hc⟩ := number_head hwhole _
    simp only [List.append_assoc] at heq ⊢
    exact ⟨c, tail, heq, fun hi => (hall c (List.contains_iff_mem.mp hi)).2.2 hc⟩
  | text _ => exact ⟨'"', _, rfl, by decide⟩

theorem lexemesIn_of_lexes {cs : List Char} {ls : List Lexeme} (h : Lexes cs ls) {n : Nat}
    (hn : cs.length ≤ n) : lexemesIn n cs = some ls := by
  induction h generalizing n with
  | nil => cases n <;> rfl
  | @ignored c cs ls hc _ ih =>
    obtain ⟨n, rfl⟩ := Nat.exists_eq_succ_of_ne_zero (Nat.ne_of_gt (Nat.lt_of_lt_of_le
      (Nat.succ_pos _) hn))
    rw [lexemesIn, if_pos hc]
    exact ih (Nat.le_of_succ_le_succ hn)
  | @lexeme w rest l ls hw hends _ ih =>
    obtain ⟨c, tail, rfl, hc⟩ := hw.head
    have hscan := scan_lexeme hw hends
    rw [List.cons_append] at hscan hn ⊢
    obtain ⟨n, rfl⟩ := Nat.exists_eq_succ_of_ne_zero (Nat.ne_of_gt (Nat.lt_of_lt_of_le
      (Nat.succ_pos _) hn))
    have hrest : rest.length ≤ n := by
      rw [List.length_cons, List.length_append] at hn
      omega
    rw [lexemesIn, if_neg hc, hscan]
    simp only [ih hrest, Option.map_some]

/-- **All lexemes of a text are found.** -/
theorem lexemes?_of_lexes {cs : List Char} {ls : List Lexeme} (h : Lexes cs ls) :
    lexemes? cs = some ls := lexemesIn_of_lexes h (Nat.le_refl _)

end GraphQLCall
