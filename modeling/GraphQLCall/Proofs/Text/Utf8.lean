import GraphQLCall.Text.Utf8
import Mathlib.Data.String.Basic

/-!
# Text: the octets of a text

The octets of a text are those that every reader of UTF-8 takes; they are read back as the text, and
texts are in the order of their octets.

* `Utf8.leading_octetsOf`   the character in front of octets that start with its own
* `Utf8.characters_octets`, `Utf8.text?_octets`   a text is read back
* `Utf8.isValidUTF8_octets`   its octets are well formed
* `Utf8.octets_lt_iff`   the order of texts is the order of their octets
* `Utf8.Ascending`   texts in strictly ascending order of their octets
-/

namespace GraphQLCall.Utf8

/-! ### reading back -/

theorem toNat_ofNat {n : Nat} (h : n < 0x100) : (UInt8.ofNat n).toNat = n := by
  rw [UInt8.toNat_ofNat']
  omega

theorem toNat_lt (c : Char) : c.toNat < 0x110000 := by
  have hvalid : c.toNat.isValidChar := c.valid
  rcases hvalid with h | h
  · exact Nat.lt_trans h (by decide)
  · exact h.2

theorem continuation_ofNat {x : Nat} (h : x < 0x40) :
    continuation (.ofNat (0x80 + x)) = some x := by
  unfold continuation
  rw [toNat_ofNat (by omega), if_pos (by omega), Nat.add_sub_cancel_left]

theorem scalar_toNat {c : Char} {least n : Nat} (hn : n = c.toNat) (h : least ≤ c.toNat) :
    scalar least n = some c := by
  have hvalid : c.toNat.isValidChar := c.valid
  unfold scalar
  rw [hn, if_pos ⟨h, hvalid⟩, Char.ofNat_toNat]

section
variable {b : UInt8}

theorem leading_one (h : b.toNat < 0x80) (rest : List UInt8) :
    leading (b :: rest) = some (Char.ofNat b.toNat, 1) := by
  unfold leading
  dsimp only
  rw [if_pos h]

theorem leading_two (h : 0xC0 ≤ b.toNat) (h' : b.toNat < 0xE0) (b1 : UInt8) (rest : List UInt8) :
    leading (b :: b1 :: rest) = (continuation b1).bind fun x =>
      (scalar 0x80 ((b.toNat - 0xC0) * 0x40 + x)).bind fun c => some (c, 2) := by
  unfold leading
  dsimp only
  rw [if_neg (by omega), if_pos ⟨h, h'⟩]
  rfl

theorem leading_three (h : 0xE0 ≤ b.toNat) (h' : b.toNat < 0xF0) (b1 b2 : UInt8)
    (rest : List UInt8) :
    leading (b :: b1 :: b2 :: rest) = (continuation b1).bind fun x => (continuation b2).bind fun y =>
      (scalar 0x800 ((b.toNat - 0xE0) * 0x1000 + x * 0x40 + y)).bind fun c => some (c, 3) := by
  unfold leading
  dsimp only
  rw [if_neg (by omega), if_neg (by omega), if_pos ⟨h, h'⟩]
  rfl

theorem leading_four (h : 0xF0 ≤ b.toNat) (h' : b.toNat < 0xF8) (b1 b2 b3 : UInt8)
    (rest : List UInt8) :
    leading (b :: b1 :: b2 :: b3 :: rest) = (continuation b1).bind fun x =>
      (continuation b2).bind fun y => (continuation b3).bind fun z =>
        (scalar 0x10000 ((b.toNat - 0xF0) * 0x40000 + x * 0x1000 + y * 0x40 + z)).bind fun c =>
          some (c, 4) := by
  unfold leading
  dsimp only
  rw [if_neg (by omega), if_neg (by omega), if_neg (by omega), if_pos ⟨h, h'⟩]
  rfl

end

/-- **The character in front of octets that start with its own** is found, with their number. -/
theorem leading_octetsOf (c : Char) (rest : List UInt8) :
    leading (octetsOf c ++ rest) = some (c, (octetsOf c).length) := by
  have hlt := toNat_lt c
  unfold octetsOf
  by_cases h1 : c.toNat < 0x80
  · have hb : (UInt8.ofNat c.toNat).toNat = c.toNat := toNat_ofNat (by omega)
    rw [if_pos h1, List.singleton_append, leading_one (by omega), hb, Char.ofNat_toNat]
    rfl
  by_cases h2 : c.toNat < 0x800
  · have hb : (UInt8.ofNat (0xC0 + c.toNat / 0x40)).toNat = 0xC0 + c.toNat / 0x40 :=
      toNat_ofNat (by omega)
    rw [if_neg h1, if_pos h2, List.cons_append, List.cons_append,
      leading_two (by omega) (by omega), hb, continuation_ofNat (by omega), Option.bind_some,
      scalar_toNat (c := c) (by omega) (by omega)]
    rfl
  by_cases h3 : c.toNat < 0x10000
  · have hb : (UInt8.ofNat (0xE0 + c.toNat / 0x1000)).toNat = 0xE0 + c.toNat / 0x1000 :=
      toNat_ofNat (by omega)
    rw [if_neg h1, if_neg h2, if_pos h3, List.cons_append, List.cons_append, List.cons_append,
      leading_three (by omega) (by omega), hb, continuation_ofNat (by omega), Option.bind_some,
      continuation_ofNat (by omega), Option.bind_some, scalar_toNat (c := c) (by omega) (by omega)]
    rfl
  · have hb : (UInt8.ofNat (0xF0 + c.toNat / 0x40000)).toNat = 0xF0 + c.toNat / 0x40000 :=
      toNat_ofNat (by omega)
    rw [if_neg h1, if_neg h2, if_neg h3, List.cons_append, List.cons_append, List.cons_append,
      List.cons_append, leading_four (by omega) (by omega), hb, continuation_ofNat (by omega),
      Option.bind_some, continuation_ofNat (by omega), Option.bind_some,
      continuation_ofNat (by omega), Option.bind_some, scalar_toNat (c := c) (by omega) (by omega)]
    rfl

theorem octetsOf_ne_nil (c : Char) : octetsOf c ≠ [] := by
  unfold octetsOf
  dsimp only
  split
  · exact List.cons_ne_nil _ _
  split
  · exact List.cons_ne_nil _ _
  split
  · exact List.cons_ne_nil _ _
  · exact List.cons_ne_nil _ _

theorem charactersAfter_length (covered rest : List UInt8) :
    charactersAfter covered.length (covered ++ rest) = charactersAfter 0 rest := by
  induction covered with
  | nil => rfl
  | cons b covered ih => exact ih

theorem characters_octetsOf (c : Char) (rest : List UInt8) :
    characters (octetsOf c ++ rest) = some c :: characters rest := by
  have hleading := leading_octetsOf c rest
  cases hc : octetsOf c with
  | nil => exact absurd hc (octetsOf_ne_nil c)
  | cons b covered =>
    rw [hc, List.cons_append] at hleading
    rw [List.cons_append, characters, charactersAfter, hleading]
    show some c :: charactersAfter covered.length (covered ++ rest) = _
    rw [charactersAfter_length]
    rfl

/-- **The octets of a text are read back** as its characters. -/
theorem characters_octets (s : String) : characters (octets s) = s.toList.map some := by
  unfold octets
  induction s.toList with
  | nil => rfl
  | cons c cs ih => rw [List.flatMap_cons, characters_octetsOf, ih, List.map_cons]

theorem text?_octets (s : String) : text? (octets s) = some s := by
  have hall : s.toList.all (Option.isSome ∘ some) = true := List.all_eq_true.mpr fun c _ => rfl
  unfold text?
  dsimp only
  rw [characters_octets, List.all_map, if_pos hall, List.filterMap_map]
  have hid : s.toList.filterMap (id ∘ some) = s.toList := List.filterMap_some
  rw [hid, String.ofList_toList]

/-! ### well formed octets -/

theorem octetsOf_eq (c : Char) : octetsOf c = String.utf8EncodeChar c := by
  have hlt := toNat_lt c
  have hval : c.val.toNat = c.toNat := rfl
  have hlast : 0x80 + c.toNat % 0x40 = c.toNat % 64 + 128 := by omega
  have hmiddle : 0x80 + c.toNat / 0x40 % 0x40 = c.toNat / 64 % 64 + 128 := by omega
  unfold octetsOf String.utf8EncodeChar
  dsimp only
  rw [hval]
  by_cases h1 : c.toNat < 0x80
  · rw [if_pos h1, if_pos (by omega)]
  by_cases h2 : c.toNat < 0x800
  · have hfirst : 0xC0 + c.toNat / 0x40 = c.toNat / 64 % 32 + 192 := by omega
    rw [if_neg h1, if_pos h2, if_neg (by omega), if_pos (by omega), hfirst, hlast]
  by_cases h3 : c.toNat < 0x10000
  · have hfirst : 0xE0 + c.toNat / 0x1000 = c.toNat / 4096 % 16 + 224 := by omega
    rw [if_neg h1, if_neg h2, if_pos h3, if_neg (by omega), if_neg (by omega), if_pos (by omega),
      hfirst, hmiddle, hlast]
  · have hfirst : 0xF0 + c.toNat / 0x40000 = c.toNat / 262144 % 8 + 240 := by omega
    have hsecond : 0x80 + c.toNat / 0x1000 % 0x40 = c.toNat / 4096 % 64 + 128 := by omega
    rw [if_neg h1, if_neg h2, if_neg h3, if_neg (by omega), if_neg (by omega), if_neg (by omega),
      hfirst, hsecond, hmiddle, hlast]

theorem toByteArray_octets (s : String) : (octets s).toByteArray = s.toByteArray := by
  have hoctets : octetsOf = String.utf8EncodeChar := funext octetsOf_eq
  rw [← String.utf8Encode_toList, List.utf8Encode, octets, hoctets]

/-- **The octets of a text are well formed.** -/
theorem isValidUTF8_octets (s : String) : (octets s).toByteArray.IsValidUTF8 := by
  rw [toByteArray_octets]
  exact s.isValidUTF8

/-! ### order -/

section
variable {a b : Nat} {xs ys : List UInt8}

theorem cons_lt_cons_of_lt (ha : a < b) (hb : b < 0x100) :
    UInt8.ofNat a :: xs < UInt8.ofNat b :: ys := by
  rw [List.cons_lt_cons_iff, UInt8.lt_iff_toNat_lt, toNat_ofNat (by omega), toNat_ofNat hb]
  exact .inl ha

theorem cons_lt_cons_of_eq (h : a = b) (hlt : xs < ys) :
    UInt8.ofNat a :: xs < UInt8.ofNat b :: ys := by
  rw [h, List.cons_lt_cons_iff]
  exact .inr ⟨rfl, hlt⟩

end

/-- **Characters are in the order of their octets**, whatever stands after them. -/
theorem octetsOf_append_lt {c d : Char} (h : c < d) (xs ys : List UInt8) :
    octetsOf c ++ xs < octetsOf d ++ ys := by
  have hcd : c.toNat < d.toNat := h
  have hlt := toNat_lt d
  unfold octetsOf
  dsimp only
  -- The first octet tells the number of octets, so only characters of one length agree on it.
  by_cases hd1 : d.toNat < 0x80
  · rw [if_pos (by omega : c.toNat < 0x80), if_pos hd1]
    exact cons_lt_cons_of_lt hcd (by omega)
  rw [if_neg hd1]
  by_cases hc1 : c.toNat < 0x80
  · rw [if_pos hc1]
    split
    · exact cons_lt_cons_of_lt (by omega) (by omega)
    split
    · exact cons_lt_cons_of_lt (by omega) (by omega)
    · exact cons_lt_cons_of_lt (by omega) (by omega)
  rw [if_neg hc1]
  by_cases hd2 : d.toNat < 0x800
  · rw [if_pos (by omega : c.toNat < 0x800), if_pos hd2]
    by_cases hfirst : c.toNat / 0x40 < d.toNat / 0x40
    · exact cons_lt_cons_of_lt (by omega) (by omega)
    · exact cons_lt_cons_of_eq (by omega) (cons_lt_cons_of_lt (by omega) (by omega))
  rw [if_neg hd2]
  by_cases hc2 : c.toNat < 0x800
  · rw [if_pos hc2]
    split
    · exact cons_lt_cons_of_lt (by omega) (by omega)
    · exact cons_lt_cons_of_lt (by omega) (by omega)
  rw [if_neg hc2]
  by_cases hd3 : d.toNat < 0x10000
  · rw [if_pos (by omega : c.toNat < 0x10000), if_pos hd3]
    by_cases hfirst : c.toNat / 0x1000 < d.toNat / 0x1000
    · exact cons_lt_cons_of_lt (by omega) (by omega)
    refine cons_lt_cons_of_eq (by omega) ?_
    by_cases hsecond : c.toNat / 0x40 < d.toNat / 0x40
    · exact cons_lt_cons_of_lt (by omega) (by omega)
    · exact cons_lt_cons_of_eq (by omega) (cons_lt_cons_of_lt (by omega) (by omega))
  rw [if_neg hd3]
  by_cases hc3 : c.toNat < 0x10000
  · rw [if_pos hc3]
    exact cons_lt_cons_of_lt (by omega) (by omega)
  rw [if_neg hc3]
  by_cases hfirst : c.toNat / 0x40000 < d.toNat / 0x40000
  · exact cons_lt_cons_of_lt (by omega) (by omega)
  refine cons_lt_cons_of_eq (by omega) ?_
  by_cases hsecond : c.toNat / 0x1000 < d.toNat / 0x1000
  · exact cons_lt_cons_of_lt (by omega) (by omega)
  refine cons_lt_cons_of_eq (by omega) ?_
  by_cases hthird : c.toNat / 0x40 < d.toNat / 0x40
  · exact cons_lt_cons_of_lt (by omega) (by omega)
  · exact cons_lt_cons_of_eq (by omega) (cons_lt_cons_of_lt (by omega) (by omega))

theorem flatMap_octetsOf_lt {cs ds : List Char} (h : cs < ds) :
    cs.flatMap octetsOf < ds.flatMap octetsOf := by
  induction h with
  | nil =>
    rename_i d ds
    rw [List.flatMap_cons]
    cases hd : octetsOf d with
    | nil => exact absurd hd (octetsOf_ne_nil d)
    | cons b bs => exact List.Lex.nil
  | rel hcd =>
    rw [List.flatMap_cons, List.flatMap_cons]
    exact octetsOf_append_lt hcd _ _
  | cons _ ih =>
    rw [List.flatMap_cons, List.flatMap_cons]
    exact List.append_left_lt ih

/-- **The order of texts is the order of their octets.** -/
theorem octets_lt_iff {s t : String} : octets s < octets t ↔ s < t := by
  constructor
  · intro h
    rcases lt_trichotomy s t with hlt | heq | hgt
    · exact hlt
    · rw [heq] at h
      exact absurd h (List.lt_irrefl _)
    · have hback : octets t < octets s := flatMap_octetsOf_lt (String.lt_iff_toList_lt.mp hgt)
      exact absurd (List.lt_trans h hback) (List.lt_irrefl _)
  · intro h
    exact flatMap_octetsOf_lt (String.lt_iff_toList_lt.mp h)

example : octets "Z" < octets "a" ∧ octets "z" < octets "é" := by decide

/-- **Texts in strictly ascending order of their octets.** -/
def Ascending (texts : List String) : Prop := texts.Pairwise fun s t => octets s < octets t

theorem ascending_iff {texts : List String} : Ascending texts ↔ texts.Pairwise (· < ·) := by
  unfold Ascending
  simp only [octets_lt_iff]

theorem Ascending.sublist {texts texts' : List String} (h : Ascending texts)
    (hsub : texts'.Sublist texts) : Ascending texts' :=
  List.Pairwise.sublist hsub h

end GraphQLCall.Utf8
