import GraphQLCall.Proofs.Syntax.Scanner
import GraphQLCall.Proofs.Syntax.Spelling

/-!
# Syntax: where a string literal ends

A quote inside a string literal stands behind a backslash, and so does a backslash, so that the literal
itself says where it ends.  A scanner stops right behind it, and two literals with texts behind them are
the same text only if they are the same piece by piece.

* `NonControl`   a character that is no control character
* `Literal.nonControl_quote`   a literal holds no other
* `Literal.toList_quote_append`   a literal and the text behind it
* `scan_quote_iff`   when a scanner finds the literal in front of a text
* `Literal.quote_append_eq_iff`   literals with texts behind them
* `Literal.quote_delimited`   all of this of a literal
-/

namespace GraphQLCall

/-- **A character that is no control character.** -/
def NonControl (c : Char) : Prop := 0x20 ≤ c.toNat ∧ ¬ (0x7F ≤ c.toNat ∧ c.toNat ≤ 0x9F)

instance : DecidablePred NonControl := fun _ => inferInstanceAs (Decidable (_ ∧ _))

namespace Literal

theorem nonControl_hexDigit {n : Nat} (h : n < 16) : NonControl (hexDigit n) := by
  have hall : ∀ n ∈ List.range 16, NonControl (hexDigit n) := List.all_iff_forall_prop.mp (by decide)
  exact hall n (List.mem_range.mpr h)

theorem isControl_iff {c : Char} : isControl c = true ↔ ¬ NonControl c := by
  simp only [isControl, NonControl, Bool.or_eq_true, Bool.and_eq_true, decide_eq_true_eq]
  omega

/-- **What is written for a character** holds no control character. -/
theorem nonControl_escapeChar (c : Char) : ∀ d ∈ escapeChar c, NonControl d := by
  have hpair {e : Char} (he : NonControl e) : ∀ d ∈ ['\\', e], NonControl d :=
    List.forall_mem_cons.mpr ⟨by decide, List.forall_mem_singleton.mpr he⟩
  unfold escapeChar
  split
  · exact hpair (by decide)
  · exact hpair (by decide)
  · exact hpair (by decide)
  · exact hpair (by decide)
  · exact hpair (by decide)
  · exact hpair (by decide)
  · exact hpair (by decide)
  · by_cases hcontrol : isControl c = true
    · have hcode : c.toNat < 256 := by
        have hnot := isControl_iff.mp hcontrol
        unfold NonControl at hnot
        omega
      have hhigh : NonControl (hexDigit (c.toNat / 16)) := nonControl_hexDigit (by omega)
      have hlow : NonControl (hexDigit (c.toNat % 16)) := nonControl_hexDigit (by omega)
      have hunit : ∀ d ∈ ['\\', 'u', '0', '0'], NonControl d :=
        List.all_iff_forall_prop.mp (by decide)
      rw [if_pos hcontrol]
      refine List.forall_mem_append.mpr ⟨hunit, ?_⟩
      exact List.forall_mem_cons.mpr ⟨hhigh, List.forall_mem_singleton.mpr hlow⟩
    · rw [if_neg hcontrol]
      exact List.forall_mem_singleton.mpr (not_not.mp (mt isControl_iff.mpr hcontrol))

/-- **A literal and the text behind it:** the characters inside the quotes, the closing quote and that
text. -/
theorem toList_quote_append (s : String) (rest : List Char) :
    (quote s).toList ++ rest = '"' :: (s.toList.flatMap escapeChar ++ '"' :: rest) := by
  rw [quote, String.toList_ofList, List.cons_append, List.append_assoc]
  rfl

theorem nonControl_quote (s : String) : ∀ d ∈ (quote s).toList, NonControl d := by
  have hmark : NonControl '"' := by decide
  intro d hd
  rw [← List.append_nil (quote s).toList, toList_quote_append] at hd
  rcases List.mem_cons.mp hd with rfl | hd
  · exact hmark
  rcases List.mem_append.mp hd with hd | hd
  · obtain ⟨c, -, hc⟩ := List.mem_flatMap.mp hd
    exact nonControl_escapeChar c d hc
  · rw [List.mem_singleton.mp hd]
    exact hmark

/-- **Literals with texts behind them** are the same text only piece by piece. -/
theorem quote_append_eq_iff {s t x y : String} : quote s ++ x = quote t ++ y ↔ s = t ∧ x = y := by
  constructor
  · intro h
    have htexts := congrArg String.toList h
    rw [String.toList_append, String.toList_append, toList_quote_append, toList_quote_append]
      at htexts
    -- both sides are scanned behind the opening quote
    have hscan := congrArg scanQuoted (List.cons.inj htexts).2
    rw [scanQuoted_append (quoted_flatMap s.toList), scanQuoted_append (quoted_flatMap t.toList)]
      at hscan
    obtain ⟨hst, hxy⟩ := Prod.mk.inj (Option.some.inj hscan)
    exact ⟨String.toList_inj.mp hst, String.toList_inj.mp hxy⟩
  · rintro ⟨rfl, rfl⟩
    rfl

end Literal

/-- **A scanner finds a literal in front of a text** and stops right behind it, unless a third quote
stands behind the two of the empty text. -/
theorem scan_quote_iff {s : String} {rest : List Char} :
    scan ((Literal.quote s).toList ++ rest) = some (.text s, rest) ↔
      (s = "" → rest.head? ≠ some '"') := by
  constructor
  · rintro h rfl hquote
    obtain ⟨rest, rfl⟩ := List.head?_eq_some_iff.mp hquote
    cases h
  · intro hends
    have hlexeme := LexemeText.text (quoted_flatMap s.toList)
    rw [String.ofList_toList] at hlexeme
    have hfound : (Lexeme.text s).Ends rest := fun hs c hc heq => hends hs (heq ▸ hc)
    have hscan := scan_lexeme hlexeme hfound
    rw [Literal.toList_quote_append]
    rwa [List.cons_append, List.append_assoc] at hscan

namespace Literal

/-- **A string literal says where it ends.**  It holds no control character; a scanner in front of it
finds its text and stops right behind it, unless the text is empty and a third quote follows; and
literals with texts behind them are the same only if both their texts and those behind them are. -/
theorem quote_delimited (s : String) :
    (∀ d ∈ (quote s).toList, NonControl d) ∧
    (∀ rest, scan ((quote s).toList ++ rest) = some (.text s, rest) ↔
      (s = "" → rest.head? ≠ some '"')) ∧
    ∀ t x y, quote s ++ x = quote t ++ y ↔ s = t ∧ x = y :=
  ⟨nonControl_quote s, fun _ => scan_quote_iff, fun _ _ _ => quote_append_eq_iff⟩

/-- A text that looks like escapes and a quote that is closed again. -/
theorem quote_delimited_escapes :
    let s := "\\u0041\\\" )\n\x01\x7f\u009f\u00a0é"
    let rest := ", t: \"\")".toList
    '\\' ∈ (quote s).toList ∧ NonControl '\\' ∧
    scan ((quote s).toList ++ rest) = some (.text s, rest) ∧
    quote "" ++ "\"a" ≠ quote "\"" ++ "a" := by
  intro s rest
  obtain ⟨hshown, hscan, -⟩ := quote_delimited s
  obtain ⟨-, -, hpieces⟩ := quote_delimited ""
  have hin : '\\' ∈ (quote s).toList := by decide
  refine ⟨hin, hshown '\\' hin, (hscan rest).mpr (by decide), fun heq => ?_⟩
  exact absurd ((hpieces "\"" "\"a" "a").mp heq).1 (by decide)

end Literal

end GraphQLCall
