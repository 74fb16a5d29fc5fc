import GraphQLCall.Proofs.Syntax.Lexeme
import GraphQLCall.Text.Join

/-!
# Syntax: texts that spell lexemes

A text spells lexemes if they are what it adds in front of any text that stands apart.  So texts that
are put together spell what their parts do.

* `Spells`   a text spells lexemes
* `Spells.lexeme`, `Spells.separated`, `Spells.enclosed`, `Spells.join_cons`   texts put together
* `spells_quote`   a string literal spells its text
* `spells_int`, `spells_float`   the literals of numbers spell them
-/

namespace GraphQLCall

open Number

/-- **A text spells lexemes.** -/
def Spells (s : String) (ls : List Lexeme) : Prop :=
  ∀ rest more, Apart rest → Lexes rest more → Lexes (s.toList ++ rest) (ls ++ more)

namespace Spells

variable {s t : String} {a b : List Lexeme}

theorem empty : Spells "" [] := fun _ _ _ h => h

theorem lexeme {l : Lexeme} (h : LexemeText s.toList l) : Spells s [l] :=
  fun _ _ hapart hrest => .lexeme h (l.ends_of_apart hapart) hrest

theorem mark {c : Char} (hs : s.toList = [c]) (hc : isMark c) : Spells s [.mark c] :=
  lexeme (hs ▸ LexemeText.mark hc)

theorem append (hs : Spells s a) (ht : Spells t b)
    (hapart : ∀ rest, Apart rest → Apart (t.toList ++ rest)) : Spells (s ++ t) (a ++ b) := by
  intro rest more hrest hlexes
  rw [String.toList_append, List.append_assoc, List.append_assoc]
  exact hs _ _ (hapart rest hrest) (ht rest more hrest hlexes)

theorem mark_append {c : Char} (hs : s.toList = [c]) (hc : isMark c) (ht : Spells t b) :
    Spells (s ++ t) (.mark c :: b) := by
  intro rest more hrest hlexes
  rw [String.toList_append, hs, List.append_assoc]
  exact .lexeme (.mark hc) trivial (ht rest more hrest hlexes)

theorem lexes_ignored {sep rest : List Char} {ls : List Lexeme} (hsep : ∀ c ∈ sep, isIgnored c)
    (h : Lexes rest ls) : Lexes (sep ++ rest) ls := by
  induction sep with
  | nil => exact h
  | cons c sep ih =>
    exact .ignored (hsep c List.mem_cons_self) (ih fun d hd => hsep d (List.mem_cons_of_mem _ hd))

theorem isIgnored_blank : ∀ c ∈ " ".toList, isIgnored c := List.all_eq_true.mp (by decide)

theorem isIgnored_comma : ∀ c ∈ ", ".toList, isIgnored c := List.all_eq_true.mp (by decide)

theorem ignored_append (hs : ∀ c ∈ s.toList, isIgnored c) (ht : Spells t b) : Spells (s ++ t) b := by
  intro rest more hrest hlexes
  rw [String.toList_append, List.append_assoc]
  exact lexes_ignored hs (ht rest more hrest hlexes)

theorem apart_of_head {c : Char} {cs : List Char} (hs : s.toList = c :: cs)
    (hc : isMark c ∨ isIgnored c) (rest : List Char) : Apart (s.toList ++ rest) := by
  rw [hs]
  exact apart_cons hc

/-- **Texts with a separator between them.** -/
theorem separated {sep : String} {c : Char} {cs : List Char} (hsep : sep.toList = c :: cs)
    (hignored : ∀ d ∈ sep.toList, isIgnored d) (hs : Spells s a) (ht : Spells t b) :
    Spells (s ++ sep ++ t) (a ++ b) := by
  have hc : isMark c ∨ isIgnored c := .inr (hignored c (hsep ▸ List.mem_cons_self))
  rw [String.append_assoc]
  refine hs.append (ignored_append hignored ht) fun rest _ => ?_
  rw [String.toList_append, List.append_assoc]
  exact apart_of_head hsep hc _

/-- **A text between marks.** -/
theorem enclosed {o e : String} {c d : Char} (ho : o.toList = [c]) (he : e.toList = [d])
    (hc : isMark c) (hd : isMark d) (hs : Spells s a) :
    Spells (o ++ s ++ e) (.mark c :: (a ++ [.mark d])) := by
  rw [String.append_assoc]
  exact mark_append ho hc (hs.append (mark he hd) fun rest _ => apart_of_head he (.inl hd) rest)

/-- **One more text in front of texts with commas between them.** -/
theorem join_cons {ss : List String} (hs : Spells s a) (ht : Spells (Text.join ", " ss) b) :
    Spells (Text.join ", " (s :: ss)) (a ++ b) := by
  cases ss with
  | nil =>
    -- the texts that follow spell nothing
    intro rest more hrest hlexes
    rw [List.append_assoc]
    exact hs rest _ hrest (ht rest more hrest hlexes)
  | cons t ss =>
    rw [Text.join_cons_cons]
    exact separated rfl isIgnored_comma hs ht

/-- **A name, a colon and a text.** -/
theorem entry {k : String} (hk : isName k) (hs : Spells s a) :
    Spells (k ++ ": " ++ s) (.name k :: .mark ':' :: a) := by
  have hcolon : Spells (": " ++ s) (.mark ':' :: a) := by
    have heq : ": " ++ s = ":" ++ (" " ++ s) := by rw [← String.append_assoc]; rfl
    rw [heq]
    exact mark_append rfl (by decide) (ignored_append isIgnored_blank hs)
  rw [String.append_assoc]
  refine append (lexeme (.name hk)) hcolon fun rest _ => ?_
  rw [String.toList_append, List.append_assoc]
  exact apart_of_head (c := ':') rfl (.inl (by decide)) _

end Spells

/-! ### string literals -/

theorem hexValue_hexDigit : ∀ d < 16, Json.hexValue (Literal.hexDigit d) = some d := by decide

theorem unitChar?_hexDigit {c : Char} (h : c.toNat < 256) :
    unitChar? '0' '0' (Literal.hexDigit (c.toNat / 16)) (Literal.hexDigit (c.toNat % 16))
      = some c := by
  have hzero : Json.hexValue '0' = some 0 := by decide
  have hcode : ((0 * 16 + 0) * 16 + c.toNat / 16) * 16 + c.toNat % 16 = c.toNat := by omega
  unfold unitChar?
  rw [hzero, hexValue_hexDigit _ (by omega), hexValue_hexDigit _ (by omega)]
  dsimp only
  have hvalid : c.toNat.isValidChar := c.valid
  rw [hcode, if_pos hvalid, Char.ofNat_toNat]

theorem quoted_escapeChar {w s : List Char} (c : Char) (h : Quoted w s) :
    Quoted (Literal.escapeChar c ++ w) (c :: s) := by
  unfold Literal.escapeChar
  split
  · exact .escape rfl h
  · exact .escape rfl h
  · exact .escape rfl h
  · exact .escape rfl h
  · exact .escape rfl h
  · exact .escape rfl h
  · exact .escape rfl h
  · rename_i hquote hback _ _ _ _ _
    by_cases hcontrol : Literal.isControl c
    · rw [if_pos hcontrol]
      refine .unit (unitChar?_hexDigit ?_) h
      simp only [Literal.isControl, Bool.or_eq_true, Bool.and_eq_true, decide_eq_true_eq] at hcontrol
      omega
    · rw [if_neg hcontrol]
      refine .plain ?_ h
      simp only [Literal.isControl, Bool.or_eq_true, Bool.and_eq_true, decide_eq_true_eq, not_or]
        at hcontrol
      have hshown : 0x20 ≤ c.toNat := by omega
      have hq : c ≠ '"' := hquote
      have hb : c ≠ '\\' := hback
      simp [isQuotable, hq, hb, hshown]

theorem quoted_flatMap (cs : List Char) : Quoted (cs.flatMap Literal.escapeChar) cs := by
  induction cs with
  | nil => exact .nil
  | cons c cs ih =>
    rw [List.flatMap_cons]
    exact quoted_escapeChar c ih

/-- **A string literal spells its text.** -/
theorem spells_quote (s : String) : Spells (Literal.quote s) [.text s] := by
  have h := LexemeText.text (quoted_flatMap s.toList)
  rw [String.ofList_toList] at h
  refine Spells.lexeme ?_
  rw [Literal.quote, String.toList_ofList]
  exact h

/-! ### numbers -/

theorem isWhole_toDigits (n : Nat) : IsWhole (Nat.toDigits 10 n) := by
  refine ⟨Decimal.isDigits_toDigits n, fun hzero => ?_⟩
  by_cases hn : n = 0
  · rw [hn]
    rfl
  · exact absurd hzero (Decimal.head?_toDigits hn)

/-- **The literal of an integer spells it.** -/
theorem spells_int (n : Int) : Spells (toString n) [.int n] := by
  refine Spells.lexeme ?_
  cases n with
  | ofNat m =>
    have h : LexemeText (signText false ++ Nat.toDigits 10 m) (.int (signed false _)) :=
      .int (isWhole_toDigits m)
    have htext : (toString (Int.ofNat m)).toList = Nat.toDigits 10 m := Nat.toList_repr
    rw [signed, Nat.ofDigitChars_ten_toDigits] at h
    rw [htext]
    exact h
  | negSucc m =>
    have h : LexemeText (signText true ++ Nat.toDigits 10 (m + 1)) (.int (signed true _)) :=
      .int (isWhole_toDigits (m + 1))
    have htext : (toString (Int.negSucc m)).toList = '-' :: Nat.toDigits 10 (m + 1) := by
      rw [← Nat.toList_repr]
      exact String.toList_append
    rw [signed, Nat.ofDigitChars_ten_toDigits] at h
    rw [htext]
    exact h

/-- **The literal of a floating point number spells it.** -/
theorem spells_float {x : Double} {s : String} (h : Literal.ofFloat? x = some s) :
    Spells s [.float x] := by
  unfold Literal.ofFloat? at h
  split at h
  · rename_i hfinite
    cases h
    obtain ⟨whole, fraction, htext, hwhole, hfraction, hreads⟩ := Layout.renderAbs_literal hfinite
    refine Spells.lexeme ?_
    have hx : doubleOf x.negative whole fraction none = x := by
      unfold doubleOf
      rw [Option.getD_none, hreads]
    have hlex : LexemeText (signText x.negative ++ whole ++ '.' :: fraction ++ [])
        (.float (doubleOf x.negative whole fraction none)) := .float hwhole hfraction .none
    rw [hx] at hlex
    have heq : (Layout.literal.render x).toList
        = signText x.negative ++ whole ++ '.' :: fraction ++ [] := by
      rw [Layout.render, htext, String.toList_ofList]
      cases x.negative <;> simp [signText]
    rw [heq]
    exact hlex
  · cases h

end GraphQLCall
