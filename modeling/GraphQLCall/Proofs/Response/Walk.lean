import GraphQLCall.Proofs.Json.Parts
import GraphQLCall.Response.Extract

/-!
# Responses: the walk to a result

A payload is walked along the response path, and on to the entry of the operation.  The walk strays
to a value that has no entries, or it misses something, or it comes to its end.

* `Json.Strays`   the first value on the walk that is no object, null apart
* `Json.Misses`   null on the walk, or an entry that is not there
* `container_eq_some_iff`, `container_eq_none_iff`, `container_eq_error_iff`   the three outcomes of
  the walk along the response path
* `locate_eq_some_iff`, `locate_eq_none_iff`, `locate_eq_error_iff`   the outcomes of the whole walk
-/

namespace GraphQLCall

namespace Json

/-- **The walk strays:** `walked` leads to `v`, which is neither an object nor null.  What it passes
before are objects. -/
structure Strays (way : List String) (j : Json) (walked : List String) (v : Json) : Prop where
  onWay : walked <+: way
  reached : j.at? walked = some v
  noEntries : ∀ entries, v ≠ .obj entries
  notNull : v ≠ .null

/-- **The walk misses something:** it comes to null, or to an object without the next entry. -/
inductive Misses (way : List String) (j : Json) : Prop
  | null {walked : List String} : walked <+: way → j.at? walked = some .null → Misses way j
  | absent {walked : List String} {key : String} {entries : List (String × Json)} :
      walked ++ [key] <+: way → j.at? walked = some (.obj entries) →
      Entries.find? key entries = none → Misses way j

variable {way walked : List String} {key : String} {j next v : Json}
  {entries : List (String × Json)}

theorem at?_cons_obj (h : Entries.find? key entries = some next) :
    (obj entries).at? (key :: way) = next.at? way := by
  rw [at?, entry?, h, Option.bind_some]

theorem at?_cons_absent (h : Entries.find? key entries = none) :
    (obj entries).at? (key :: way) = none := by
  rw [at?, entry?, h, Option.bind_none]

/-- what has no entries leads nowhere -/
theorem at?_of_noEntries (hno : ∀ entries, j ≠ .obj entries) (h : j.at? way = some v) :
    way = [] ∧ v = j := by
  cases way with
  | nil => exact ⟨rfl, (Option.some.inj h).symm⟩
  | cons key rest =>
    cases j with
    | obj entries => exact absurd rfl (hno entries)
    | _ => cases h

/-! ### one step -/

theorem misses_null : Misses way .null := .null List.nil_prefix rfl

theorem misses_absent (h : Entries.find? key entries = none) :
    Misses (key :: way) (.obj entries) := by
  have hway : [] ++ [key] <+: key :: way := List.cons_prefix_cons.mpr ⟨rfl, List.nil_prefix⟩
  exact .absent hway rfl h

theorem not_misses_nil : ¬ Misses [] (.obj entries) := by
  intro h
  cases h with
  | null hway hat =>
    rw [List.prefix_nil.mp hway] at hat
    cases hat
  | absent hway => simp at hway

theorem not_misses (hno : ∀ entries, j ≠ .obj entries) (hnull : j ≠ .null) : ¬ Misses way j := by
  intro h
  cases h with
  | null _ hat => exact hnull (at?_of_noEntries hno hat).2.symm
  | absent _ hat => exact hno _ (at?_of_noEntries hno hat).2.symm

theorem misses_cons_iff (h : Entries.find? key entries = some next) :
    Misses (key :: way) (.obj entries) ↔ Misses way next := by
  constructor
  · intro hm
    cases hm with
    | @null walked hway hat =>
      cases walked with
      | nil => cases hat
      | cons k walked =>
        obtain ⟨rfl, hway'⟩ := List.cons_prefix_cons.mp hway
        rw [at?_cons_obj h] at hat
        exact .null hway' hat
    | @absent walked last es hway hat hnone =>
      cases walked with
      | nil =>
        obtain ⟨rfl, -⟩ := List.cons_prefix_cons.mp hway
        cases hat
        rw [h] at hnone
        cases hnone
      | cons k walked =>
        obtain ⟨rfl, hway'⟩ := List.cons_prefix_cons.mp hway
        rw [at?_cons_obj h] at hat
        exact .absent hway' hat hnone
  · intro hm
    cases hm with
    | null hway hat =>
      exact .null (List.cons_prefix_cons.mpr ⟨rfl, hway⟩) ((at?_cons_obj h).trans hat)
    | absent hway hat hnone =>
      exact .absent (List.cons_prefix_cons.mpr ⟨rfl, hway⟩) ((at?_cons_obj h).trans hat) hnone

theorem not_strays_null : ¬ Strays way .null walked v := by
  intro h
  have hno : ∀ entries, null ≠ .obj entries := nofun
  exact h.notNull (at?_of_noEntries hno h.reached).2

theorem not_strays_nil : ¬ Strays [] (.obj entries) walked v := by
  intro h
  have hat := h.reached
  rw [List.prefix_nil.mp h.onWay] at hat
  exact h.noEntries entries (Option.some.inj hat).symm

theorem not_strays_absent (h : Entries.find? key entries = none) :
    ¬ Strays (key :: way) (.obj entries) walked v := by
  rintro ⟨hway, hat, hno, -⟩
  cases walked with
  | nil => exact hno entries (Option.some.inj hat).symm
  | cons k walked =>
    obtain ⟨rfl, -⟩ := List.cons_prefix_cons.mp hway
    rw [at?_cons_absent h] at hat
    cases hat

theorem strays_iff_of_noEntries (hno : ∀ entries, j ≠ .obj entries) (hnull : j ≠ .null) :
    Strays way j walked v ↔ walked = [] ∧ v = j := by
  refine ⟨fun h => at?_of_noEntries hno h.reached, ?_⟩
  rintro ⟨rfl, rfl⟩
  exact ⟨List.nil_prefix, rfl, hno, hnull⟩

theorem strays_cons_iff (h : Entries.find? key entries = some next) :
    Strays (key :: way) (.obj entries) walked v ↔
      ∃ walked', walked = key :: walked' ∧ Strays way next walked' v := by
  constructor
  · rintro ⟨hway, hat, hno, hnull⟩
    cases walked with
    | nil => exact absurd (Option.some.inj hat).symm (hno entries)
    | cons k walked =>
      obtain ⟨rfl, hway'⟩ := List.cons_prefix_cons.mp hway
      rw [at?_cons_obj h] at hat
      exact ⟨walked, rfl, hway', hat, hno, hnull⟩
  · rintro ⟨walked', rfl, hway, hat, hno, hnull⟩
    exact ⟨List.cons_prefix_cons.mpr ⟨rfl, hway⟩, (at?_cons_obj h).trans hat, hno, hnull⟩

theorem misses_append_iff {more : List String} :
    Misses (way ++ more) j ↔ Misses way j ∨ ∃ v, j.at? way = some v ∧ Misses more v := by
  induction way generalizing j with
  | nil =>
    refine ⟨fun h => .inr ⟨j, rfl, h⟩, ?_⟩
    rintro (h | ⟨v, hv, h⟩)
    · cases j with
      | null => exact misses_null
      | obj entries => exact absurd h not_misses_nil
      | _ => exact absurd h (not_misses nofun nofun)
    · cases hv
      exact h
  | cons key rest ih =>
    rw [List.cons_append]
    cases j with
    | obj entries =>
      cases hfind : Entries.find? key entries with
      | none => simp [misses_absent hfind]
      | some next =>
        rw [misses_cons_iff hfind, misses_cons_iff hfind, at?_cons_obj hfind]
        exact ih
    | null => simp [misses_null]
    | _ =>
      refine ⟨fun h => absurd h (not_misses nofun nofun), ?_⟩
      rintro (h | ⟨v, hv, -⟩)
      · exact absurd h (not_misses nofun nofun)
      · cases hv

theorem misses_of_at?_null (h : j.at? way = some .null) : Misses way j := by
  rw [← List.append_nil way]
  exact misses_append_iff.mpr (.inr ⟨.null, h, misses_null⟩)

end Json

open Json (Strays Misses)

variable {way walked : List String} {j v : Json} {entries : List (String × Json)}
  {e : ResponseError}

theorem container_eq_some_iff :
    container walked way j = .ok (some entries) ↔ j.at? way = some (.obj entries) := by
  fun_induction container walked way j with
  | case1 way walked =>
    have hno : ∀ entries, Json.null ≠ .obj entries := by simp
    simp only [Except.ok.injEq, reduceCtorEq, false_iff]
    exact fun h => hno _ (Json.at?_of_noEntries hno h).2.symm
  | case2 walked es => simp [Json.at?]
  | case3 walked es key rest hfind => simp [Json.at?_cons_absent hfind]
  | case4 walked es key rest next hfind ih =>
    rw [Json.at?_cons_obj hfind]
    exact ih
  | case5 way walked j hnull hno =>
    simp only [reduceCtorEq, false_iff]
    exact fun h => hno _ (Json.at?_of_noEntries hno h).2.symm

theorem container_eq_none_iff : container walked way j = .ok none ↔ Misses way j := by
  fun_induction container walked way j with
  | case1 way walked => simp [Json.misses_null]
  | case2 walked es => simp [Json.not_misses_nil]
  | case3 walked es key rest hfind => simp [Json.misses_absent hfind]
  | case4 walked es key rest next hfind ih =>
    rw [Json.misses_cons_iff hfind]
    exact ih
  | case5 way walked j hnull hno => simp [Json.not_misses hno hnull]

theorem container_eq_error_iff : container walked way j = .error e ↔ ∃ walked' v,
    Strays way j walked' v ∧ e = .mismatch (wayText (walked ++ walked')) (.notObject v.kind) := by
  fun_induction container walked way j with
  | case1 way walked => simp [Json.not_strays_null]
  | case2 walked es => simp [Json.not_strays_nil]
  | case3 walked es key rest hfind => simp [Json.not_strays_absent hfind]
  | case4 walked es key rest next hfind ih =>
    rw [ih]
    constructor
    · rintro ⟨walked', v, hs, rfl⟩
      refine ⟨key :: walked', v, (Json.strays_cons_iff hfind).mpr ⟨walked', rfl, hs⟩, ?_⟩
      rw [List.append_assoc]
      rfl
    · rintro ⟨walked', v, hs, rfl⟩
      obtain ⟨behind, rfl, hs'⟩ := (Json.strays_cons_iff hfind).mp hs
      refine ⟨behind, v, hs', ?_⟩
      rw [List.append_assoc]
      rfl
  | case5 way walked j hnull hno =>
    constructor
    · intro h
      cases h
      refine ⟨[], j, (Json.strays_iff_of_noEntries hno hnull).mpr ⟨rfl, rfl⟩, ?_⟩
      rw [List.append_nil]
    · rintro ⟨walked', v, hs, rfl⟩
      obtain ⟨rfl, rfl⟩ := (Json.strays_iff_of_noEntries hno hnull).mp hs
      rw [List.append_nil]

/-! ### the whole walk -/

variable {operation : String} {o : ExtractionOptions} {payload : Json}

theorem entryOf_eq_some_iff :
    entryOf operation (some entries) = some v ↔ Entries.find? operation entries = some v ∧
      v ≠ .null := by
  simp only [entryOf]
  split
  · rename_i hnull
    rw [hnull]
    refine ⟨nofun, ?_⟩
    rintro ⟨h, hv⟩
    exact absurd (Option.some.inj h).symm hv
  · rename_i hnull
    exact ⟨fun h => ⟨h, fun hv => hnull (hv ▸ h)⟩, And.left⟩

theorem entryOf_eq_none_iff :
    entryOf operation (some entries) = none ↔ Misses [operation] (.obj entries) := by
  simp only [entryOf]
  cases hfind : Entries.find? operation entries with
  | none => simp [Json.misses_absent hfind]
  | some next =>
    rw [Json.misses_cons_iff hfind]
    cases next with
    | null => simp [Json.misses_null]
    | obj entries => simp [Json.not_misses_nil]
    | _ => exact ⟨nofun, fun h => absurd h (Json.not_misses nofun nofun)⟩

/-- **The walk comes to its end.** -/
theorem found_iff :
    (∃ es, container [] way j = .ok es ∧ entryOf operation es = some v) ↔
      j.at? (way ++ [operation]) = some v ∧ v ≠ .null := by
  constructor
  · rintro ⟨es, hes, hentry⟩
    cases es with
    | none => cases hentry
    | some entries =>
      obtain ⟨hfind, hnull⟩ := entryOf_eq_some_iff.mp hentry
      refine ⟨?_, hnull⟩
      rw [Json.at?_append, container_eq_some_iff.mp hes, Option.bind_some, Json.at?_singleton]
      exact hfind
  · rintro ⟨hat, hnull⟩
    rw [Json.at?_append, Option.bind_eq_some_iff] at hat
    obtain ⟨w, hw, hlast⟩ := hat
    rw [Json.at?_singleton] at hlast
    cases w with
    | obj entries =>
      exact ⟨some entries, container_eq_some_iff.mpr hw, entryOf_eq_some_iff.mpr ⟨hlast, hnull⟩⟩
    | _ => cases hlast

/-- **The walk misses something,** the last step of it too. -/
theorem missed_iff :
    (∃ es, container [] way j = .ok es ∧ entryOf operation es = none) ↔
      Misses (way ++ [operation]) j := by
  rw [Json.misses_append_iff]
  constructor
  · rintro ⟨es, hes, hentry⟩
    cases es with
    | none => exact .inl (container_eq_none_iff.mp hes)
    | some entries =>
      exact .inr ⟨_, container_eq_some_iff.mp hes, entryOf_eq_none_iff.mp hentry⟩
  · rintro (hm | ⟨w, hw, hlast⟩)
    · exact ⟨none, container_eq_none_iff.mpr hm, rfl⟩
    · cases w with
      | null => exact ⟨none, container_eq_none_iff.mpr (Json.misses_of_at?_null hw), rfl⟩
      | obj entries =>
        exact ⟨some entries, container_eq_some_iff.mpr hw, entryOf_eq_none_iff.mpr hlast⟩
      | _ => exact absurd hlast (Json.not_misses nofun nofun)

theorem locate_eq_some_iff : locate o operation payload = .ok (some j) ↔
    payload.at? (o.responsePath ++ [operation]) = some j ∧ j ≠ .null := by
  rw [← found_iff]
  unfold locate
  cases container [] o.responsePath payload with
  | error e => simp
  | ok es =>
    cases hentry : entryOf operation es with
    | none =>
      simp only [hentry]
      split <;> simp [hentry]
    | some v => simp [hentry]

theorem locate_eq_none_iff : locate o operation payload = .ok none ↔
    Misses (o.responsePath ++ [operation]) payload ∧
      (o.surfaceServerErrors && !(serverErrors payload).isEmpty) = false := by
  rw [← missed_iff]
  unfold locate
  cases container [] o.responsePath payload with
  | error e => simp
  | ok es =>
    cases hentry : entryOf operation es with
    | none =>
      simp only [hentry]
      generalize (o.surfaceServerErrors && !(serverErrors payload).isEmpty) = surfaces
      cases surfaces <;> simp [hentry]
    | some v => simp [hentry]

theorem locate_eq_error_iff : locate o operation payload = .error e ↔
    (∃ walked v, Strays o.responsePath payload walked v ∧
      e = .mismatch (wayText walked) (.notObject v.kind)) ∨
    Misses (o.responsePath ++ [operation]) payload ∧
      (o.surfaceServerErrors && !(serverErrors payload).isEmpty) = true ∧
      e = .serverErrors operation (serverErrors payload) := by
  have hstrays : container [] o.responsePath payload = .error e ↔ ∃ walked v,
      Strays o.responsePath payload walked v ∧ e = .mismatch (wayText walked) (.notObject v.kind) :=
    container_eq_error_iff
  rw [← missed_iff, ← hstrays]
  unfold locate
  cases container [] o.responsePath payload with
  | error e => simp
  | ok es =>
    cases hentry : entryOf operation es with
    | none =>
      simp only [hentry]
      generalize (o.surfaceServerErrors && !(serverErrors payload).isEmpty) = surfaces
      cases surfaces <;> simp [hentry, eq_comm]
    | some v => simp [hentry]

end GraphQLCall
