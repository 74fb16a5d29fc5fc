import GraphQLCall.Json.Reader
import GraphQLCall.Json.Writer
import GraphQLCall.Proofs.Text.Utf8

/-!
# JSON: what is written is read back

A piece of text takes the reader from one state to another, and pieces that stand one behind the
other do so in turn.  The pieces of a string are its characters, each written by itself.

* `Json.Reads`   what a piece of text does to the reader
* `Json.reads_escapeChar`   one character inside the quotes
* `Json.reads_key`, `Json.reads_text`   a whole string
* `Json.parse_compact_text`, `Json.parse_pretty_text`   an object whose one entry is a text
-/

namespace GraphQLCall.Json

/-- **A piece of text takes the reader** from one state to another. -/
def Reads (limit : Nat) (before : State) (piece : List Char) (after : State) : Prop :=
  run limit before (piece.map some) = .ok after

variable {limit : Nat} {before between after : State} {frames : List Frame}
  {entries : List (String × Json)}

/-! ### pieces -/

theorem Reads.append {xs ys : List Char} (h : Reads limit before xs between)
    (h' : Reads limit between ys after) : Reads limit before (xs ++ ys) after := by
  unfold Reads at h h' ⊢
  induction xs generalizing before with
  | nil =>
    cases h
    exact h'
  | cons x xs ih =>
    rw [List.map_cons, run] at h
    rw [List.cons_append, List.map_cons, run]
    cases hstep : step limit before (some x) with
    | error fault =>
      rw [hstep] at h
      cases h
    | ok next =>
      rw [hstep] at h
      exact ih h

theorem Reads.one {c : Char} (h : step limit before (some c) = .ok after) :
    Reads limit before [c] after := by
  unfold Reads
  rw [List.map_cons, List.map_nil, run, h]
  rfl

theorem parseWithin_of_reads {text : List Char} {j : Json}
    (h : Reads limit start text ⟨[], .finished j⟩) :
    parseWithin limit (text.map some) = .ok j := by
  unfold parseWithin
  rw [h]
  rfl

/-- **What the reader makes of a whole text** it makes of the octets of the text. -/
theorem parse_of_reads {s : String} {j : Json}
    (h : Reads depthLimit start s.toList ⟨[], .finished j⟩) : parse (Utf8.octets s) = .ok j := by
  rw [parse, Utf8.characters_octets]
  exact parseWithin_of_reads h

/-! ### strings -/

section
variable {isKey : Bool} {read : List Char} {c : Char}

theorem hexValue_hexDigit : ∀ d < 16, hexValue (hexDigit d) = some d := by decide

theorem width_hexDigit : ∀ d < 16, Utf8.width (some (hexDigit d)) = 1 := by decide

theorem stepUnit_hexDigit {d value left : Nat} (hd : d < 16) (hleft : 1 < left) :
    stepUnit isKey read true none (some value) left (some (hexDigit d)) frames =
      .ok ⟨frames, .text isKey read true (.unit none (some (value * 16 + d)) (left - 1))⟩ := by
  unfold stepUnit
  dsimp only
  rw [width_hexDigit d hd, if_neg (by omega), Option.bind_some, hexValue_hexDigit d hd]
  rfl

theorem stepUnit_last {d value : Nat} (hd : d < 16) (hplain : value * 16 + d < 0xD800) :
    stepUnit isKey read true none (some value) 1 (some (hexDigit d)) frames =
      .ok ⟨frames, .text isKey (Char.ofNat (value * 16 + d) :: read) true .outside⟩ := by
  unfold stepUnit
  dsimp only
  rw [width_hexDigit d hd, if_pos rfl, Option.bind_some, hexValue_hexDigit d hd]
  show deliverUnit isKey read true none (value * 16 + d) frames = _
  unfold deliverUnit
  dsimp only
  rw [if_neg (by omega), if_neg (by omega)]

theorem reads_unit (h : c.toNat < 0x20) :
    Reads limit ⟨frames, .text isKey read true .outside⟩
      ['\\', 'u', '0', '0', hexDigit (c.toNat / 16), hexDigit (c.toNat % 16)]
      ⟨frames, .text isKey (c :: read) true .outside⟩ := by
  have hopen : Reads limit ⟨frames, .text isKey read true .outside⟩ ['\\', 'u', '0', '0']
      ⟨frames, .text isKey read true (.unit none (some 0) 2)⟩ := rfl
  have hthird : Reads limit ⟨frames, .text isKey read true (.unit none (some 0) 2)⟩
      [hexDigit (c.toNat / 16)]
      ⟨frames, .text isKey read true (.unit none (some (0 * 16 + c.toNat / 16)) 1)⟩ :=
    Reads.one (stepUnit_hexDigit (by omega) (by omega))
  have hfourth : Reads limit
      ⟨frames, .text isKey read true (.unit none (some (0 * 16 + c.toNat / 16)) 1)⟩
      [hexDigit (c.toNat % 16)]
      ⟨frames, .text isKey (Char.ofNat ((0 * 16 + c.toNat / 16) * 16 + c.toNat % 16) :: read) true
        .outside⟩ :=
    Reads.one (stepUnit_last (by omega) (by omega))
  have hcode : (0 * 16 + c.toNat / 16) * 16 + c.toNat % 16 = c.toNat := by omega
  rw [hcode, Char.ofNat_toNat] at hfourth
  exact (hopen.append hthird).append hfourth

theorem reads_plain (hquote : c ≠ '"') (hback : c ≠ '\\') (h : ¬ c.toNat < 0x20) :
    Reads limit ⟨frames, .text isKey read true .outside⟩ [c]
      ⟨frames, .text isKey (c :: read) true .outside⟩ := by
  refine Reads.one ?_
  show stepText isKey read true .outside (some c) frames = _
  unfold stepText
  dsimp only
  split
  · rename_i hc
    exact absurd (Option.some.inj hc) hquote
  · rename_i hc
    exact absurd (Option.some.inj hc) hback
  · rename_i hc
    cases hc
    rw [if_neg h]
  · rename_i hc
    cases hc

/-- **One character inside the quotes** is read as itself. -/
theorem reads_escapeChar (c : Char) :
    Reads limit ⟨frames, .text isKey read true .outside⟩ (escapeChar c)
      ⟨frames, .text isKey (c :: read) true .outside⟩ := by
  unfold escapeChar
  split
  -- the seven characters with a short escape
  · rfl
  · rfl
  · rfl
  · rfl
  · rfl
  · rfl
  · rfl
  · rename_i hquote hback _ _ _ _ _
    by_cases hcontrol : c.toNat < 0x20
    · rw [if_pos hcontrol]
      exact reads_unit hcontrol
    · rw [if_neg hcontrol]
      exact reads_plain hquote hback hcontrol

theorem reads_escaped (cs : List Char) :
    Reads limit ⟨frames, .text isKey read true .outside⟩ (cs.flatMap escapeChar)
      ⟨frames, .text isKey (cs.reverse ++ read) true .outside⟩ := by
  induction cs generalizing read with
  | nil => rfl
  | cons c cs ih =>
    have hrest : Reads limit ⟨frames, .text isKey (c :: read) true .outside⟩
        (cs.flatMap escapeChar) ⟨frames, .text isKey (cs.reverse ++ c :: read) true .outside⟩ := ih
    rw [List.flatMap_cons, List.reverse_cons, List.append_assoc]
    exact (reads_escapeChar c).append hrest

/-- the string from behind its first quote on -/
theorem reads_quoted (s : String) {after : State}
    (h : (if isKey then deliverKey s frames else deliver (.str s) frames) = .ok after) :
    Reads limit ⟨frames, .text isKey [] true .outside⟩ (s.toList.flatMap escapeChar ++ ['"'])
      after := by
  refine (reads_escaped s.toList).append (Reads.one ?_)
  show (let s' := String.ofList (s.toList.reverse ++ []).reverse
    if isKey then deliverKey s' frames else deliver (.str s') frames) = _
  rw [List.append_nil, List.reverse_reverse, String.ofList_toList]
  exact h

end

/-- **A key** is read as itself. -/
theorem reads_key (key : String) :
    Reads limit ⟨.object entries :: frames, .firstKey⟩ (quote key).toList
      ⟨.member entries key :: frames, .colon⟩ := by
  have hopen : Reads limit ⟨.object entries :: frames, .firstKey⟩ ['"']
      ⟨.object entries :: frames, .text true [] true .outside⟩ := rfl
  rw [quote, String.toList_ofList]
  exact hopen.append (reads_quoted key rfl)

/-- **A text** is read as itself. -/
theorem reads_text (s : String) (h : deliver (.str s) frames = .ok after) :
    Reads limit ⟨frames, .value⟩ (quote s).toList after := by
  have hopen : Reads limit ⟨frames, .value⟩ ['"'] ⟨frames, .text false [] true .outside⟩ := rfl
  rw [quote, String.toList_ofList]
  exact hopen.append (reads_quoted s h)

/-! ### an object whose one entry is a text -/

/-- **An object whose one entry is a text,** with blanks behind the brace, behind the colon and
before the last brace. -/
theorem reads_entry (inner gap outer : List Char) (key s : String)
    (hinner : Reads depthLimit ⟨[.object []], .firstKey⟩ inner ⟨[.object []], .firstKey⟩)
    (hgap : Reads depthLimit ⟨[.member [] key], .value⟩ gap ⟨[.member [] key], .value⟩)
    (houter : Reads depthLimit ⟨[.object [(key, .str s)]], .afterEntry⟩ outer
      ⟨[.object [(key, .str s)]], .afterEntry⟩) :
    Reads depthLimit start
      (['\x7b'] ++ inner ++ (quote key).toList ++ [':'] ++ gap ++ (quote s).toList ++ outer ++
        ['\x7d'])
      ⟨[], .finished (.obj [(key, .str s)])⟩ := by
  have hopen : Reads depthLimit start ['\x7b'] ⟨[.object []], .firstKey⟩ := rfl
  have hcolon : Reads depthLimit ⟨[.member [] key], .colon⟩ [':'] ⟨[.member [] key], .value⟩ := rfl
  have htext : Reads depthLimit ⟨[.member [] key], .value⟩ (quote s).toList
      ⟨[.object [(key, .str s)]], .afterEntry⟩ := reads_text s rfl
  have hclose : Reads depthLimit ⟨[.object [(key, .str s)]], .afterEntry⟩ ['\x7d']
      ⟨[], .finished (.obj [(key, .str s)])⟩ := rfl
  exact ((((((hopen.append hinner).append (reads_key key)).append hcolon).append hgap).append
    htext).append houter).append hclose

theorem parse_compact_text (key s : String) :
    parse (Utf8.octets (compact (.obj [(key, .str s)]))) = .ok (.obj [(key, .str s)]) := by
  refine parse_of_reads ?_
  have hreads := reads_entry [] [] [] key s rfl rfl rfl
  have htext : (compact (.obj [(key, .str s)])).toList =
      ['\x7b'] ++ [] ++ (quote key).toList ++ [':'] ++ [] ++ (quote s).toList ++ [] ++ ['\x7d'] := by
    simp [compact, compactEntries, scalar]
  rw [htext]
  exact hreads

theorem parse_pretty_text (key s : String) :
    parse (Utf8.octets (pretty (.obj [(key, .str s)]))) = .ok (.obj [(key, .str s)]) := by
  refine parse_of_reads ?_
  have hreads := reads_entry ['\n', ' ', ' '] [' '] ['\n'] key s rfl rfl rfl
  have htext : (pretty (.obj [(key, .str s)])).toList =
      ['\x7b'] ++ ['\n', ' ', ' '] ++ (quote key).toList ++ [':'] ++ [' '] ++ (quote s).toList ++
        ['\n'] ++ ['\x7d'] := by
    simp [pretty, prettyAt, prettyEntries, newLine, scalar, List.replicate]
  rw [htext]
  exact hreads

end GraphQLCall.Json
