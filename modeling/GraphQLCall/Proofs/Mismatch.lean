import GraphQLCall.Json.Basic
import GraphQLCall.Mismatch
import Mathlib.Data.List.Basic

/-!
# Mismatch: places as texts

The decoder tells the way to what it refuses, and of a missing field the way to the object.  That a
field is missing, and which, is read off the text of the message; the text of the place is written
step by step from that of the whole.

* `Json.part?`   the data that steps lead to
* `Mismatch.target`   the steps to the place of a mismatch, that of a missing field included
* `Mismatch.place_eq`   the place as a text
* `missingFieldName?`, `Reason.missingFieldName?_message`   the missing field that a message tells
* `Mismatch.replay`, `Mismatch.place_eq_replay`   the place written step by step
-/

namespace GraphQLCall

/-- **The data that steps lead to.** -/
def Json.part? : List Step → Json → Option Json
  | [], j => some j
  | .key name :: rest, j => (j.entry? name).bind (part? rest)
  | .index i :: rest, .arr items => items[i]?.bind (part? rest)
  | _, _ => none

namespace Step

theorem renderAll_append (steps more : List Step) :
    renderAll (steps ++ more) = renderAll steps ++ renderAll more := by
  induction steps with
  | nil => exact String.empty_append.symm
  | cons step rest ih => rw [List.cons_append, renderAll, renderAll, ih, String.append_assoc]

theorem renderAll_singleton (step : Step) : renderAll [step] = step.render := by
  rw [renderAll, renderAll, String.append_empty]

/-- **A place that is written step by step** is that of all the steps. -/
theorem foldl_render (root : String) (steps : List Step) :
    steps.foldl (fun path step => path ++ step.render) root = root ++ renderAll steps := by
  induction steps generalizing root with
  | nil => exact String.append_empty.symm
  | cons step rest ih => rw [List.foldl_cons, ih, renderAll, String.append_assoc]

end Step

/-! ### missing fields -/

/-- **The missing field that a message tells,** if it tells of one. -/
def missingFieldName? (message : String) : Option String :=
  ((message.toList.dropPrefix? "missing field \x60".toList).bind
    (·.dropSuffix? ['\x60'])).map String.ofList

theorem head?_append {s : String} {c : Char} (h : s.toList.head? = some c) (t : String) :
    (s ++ t).toList.head? = some c := by
  rw [String.toList_append, List.head?_append, h]
  rfl

theorem missingFieldName?_of_head {message : String} {c : Char} (hc : c ≠ 'm')
    (h : message.toList.head? = some c) : missingFieldName? message = none := by
  unfold missingFieldName?
  cases hdrop : message.toList.dropPrefix? "missing field \x60".toList with
  | none => rfl
  | some rest =>
    obtain ⟨front, hsplit, hfront⟩ := List.dropPrefix?_eq_some_iff.mp hdrop
    rw [hsplit, beq_iff_eq.mp hfront] at h
    exact absurd (Option.some.inj h).symm hc

/-- **The missing field is read off the message,** and no other message tells of one. -/
theorem Reason.missingFieldName?_message (r : Reason) : missingFieldName? r.message =
    match r with
    | .missingField key => some key
    | _ => none := by
  cases r with
  | missingField key =>
    have hopening : "missing field \x60".toList = "missing field ".toList ++ ['\x60'] := by decide
    have hticked : (Found.ticked key).toList = ['\x60'] ++ (key.toList ++ ['\x60']) := by
      rw [Found.ticked, String.toList_append, String.toList_append, List.append_assoc]
      rfl
    have hmessage : (message (.missingField key)).toList =
        "missing field \x60".toList ++ (key.toList ++ ['\x60']) := by
      rw [hopening, List.append_assoc, ← hticked]
      exact String.toList_append
    have hfront : (message (.missingField key)).toList.dropPrefix? "missing field \x60".toList =
        some (key.toList ++ ['\x60']) :=
      List.dropPrefix?_eq_some_iff.mpr ⟨_, hmessage, beq_self_eq_true _⟩
    have hback : (key.toList ++ ['\x60']).dropSuffix? ['\x60'] = some key.toList :=
      List.dropSuffix?_eq_some_iff.mpr ⟨_, rfl, beq_self_eq_true _⟩
    rw [missingFieldName?, hfront, Option.bind_some, hback, Option.map_some, String.ofList_toList]
  | notScalar scalar found =>
    have hhead : "expected ".toList.head? = some 'e' := by decide
    exact missingFieldName?_of_head (by decide)
      (head?_append (head?_append (head?_append hhead _) _) _)
  | notList found =>
    have hhead : "expected a list, found ".toList.head? = some 'e' := by decide
    exact missingFieldName?_of_head (by decide) (head?_append hhead _)
  | notObject found =>
    have hhead : "expected an object, found ".toList.head? = some 'e' := by decide
    exact missingFieldName?_of_head (by decide) (head?_append hhead _)
  | wrongType found wanted =>
    have hhead : "invalid type: ".toList.head? = some 'i' := by decide
    exact missingFieldName?_of_head (by decide)
      (head?_append (head?_append (head?_append hhead _) _) _)
  | wrongValue found wanted =>
    have hhead : "invalid value: ".toList.head? = some 'i' := by decide
    exact missingFieldName?_of_head (by decide)
      (head?_append (head?_append (head?_append hhead _) _) _)
  | unknownVariant name known =>
    have hhead : "unknown variant ".toList.head? = some 'u' := by decide
    exact missingFieldName?_of_head (by decide)
      (head?_append (head?_append (head?_append hhead _) _) _)
  | tooManyItems count =>
    have hhead : "invalid length ".toList.head? = some 'i' := by decide
    exact missingFieldName?_of_head (by decide) (head?_append (head?_append hhead _) _)
  | tooFewItems count name fields =>
    have hhead : "invalid length ".toList.head? = some 'i' := by decide
    have hcount : ("invalid length " ++ toString count ++ ", expected struct ").toList.head? =
        some 'i' := head?_append (head?_append hhead _) _
    exact missingFieldName?_of_head (by decide)
      (head?_append (head?_append (head?_append (head?_append hcount _) _) _) _)

namespace Mismatch

/-- **The steps to the place of a mismatch.**  A missing field is one step below its object. -/
def target (m : Mismatch) : List Step :=
  match m.reason with
  | .missingField key => m.steps ++ [.key key]
  | _ => m.steps

theorem target_eq_steps {m : Mismatch} (h : ∀ key, m.reason ≠ .missingField key) :
    m.target = m.steps := by
  unfold target
  split
  · rename_i key hreason
    exact absurd hreason (h key)
  · rfl

/-- **The place of a mismatch as a text.** -/
theorem place_eq (root : String) (m : Mismatch) :
    m.place root = root ++ Step.renderAll m.target := by
  obtain ⟨steps, reason⟩ := m
  cases reason with
  | missingField key =>
    show root ++ Step.renderAll steps ++ "." ++ key = root ++ Step.renderAll (steps ++ [.key key])
    rw [Step.renderAll_append, Step.renderAll_singleton, Step.render, String.append_assoc,
      String.append_assoc]
  | _ => rfl

/-- **The place written step by step,** and what the message tells behind it. -/
def replay (root : String) (m : Mismatch) : String :=
  let path := m.steps.foldl (fun path step => path ++ step.render) root
  match missingFieldName? m.reason.message with
  | some name => path ++ "." ++ name
  | none => path

theorem place_eq_replay (root : String) (m : Mismatch) : m.place root = m.replay root := by
  unfold place replay
  rw [Reason.missingFieldName?_message, Step.foldl_render]
  cases m.reason <;> rfl

end Mismatch

end GraphQLCall
