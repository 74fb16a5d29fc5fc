import GraphQLCall.Proofs.Json.Regular
import GraphQLCall.Proofs.Shape.Descriptor
import GraphQLCall.Command.Run

/-!
# The command: what the steps of a run come to

The log that the steps of a run write has no say in what they come to.

* `Steps.ComesTo`   just the results that steps can come to, and what holds of their failures
* `Steps.ComesTo.bind`   steps one behind the other
* `World.Configures`, `World.Holds`, `World.Describes`   what the files of a run say
* `comesTo_loadConfig`, `comesTo_loadJson`, `comesTo_loadShape`   a run reads what its files say
-/

namespace GraphQLCall.Command

open Log (Line)

/-! ### steps -/

namespace Steps

variable {α β : Type} {P : α → Prop} {Q : α → β → Prop} {E : Failure → Prop}

/-- **What steps come to,** whatever the log before them: their results are just those of which `P`
holds, and `E` holds of their failures. -/
def ComesTo (s : Steps α) (P : α → Prop) (E : Failure → Prop) : Prop :=
  ∃ r : Except Failure α, (∀ lines, (s.run.run lines).1 = r) ∧ (∀ a, r = .ok a ↔ P a) ∧
    ∀ e, r = .error e → E e

theorem comesTo_pure (a : α) : (pure a : Steps α).ComesTo (· = a) E :=
  ⟨.ok a, fun _ => rfl, fun _ => ⟨fun h => (Except.ok.inj h).symm, fun h => h ▸ rfl⟩, nofun⟩

theorem comesTo_throw {e : Failure} (he : E e) : (throw e : Steps α).ComesTo (fun _ => False) E :=
  ⟨.error e, fun _ => rfl, fun _ => ⟨nofun, False.elim⟩, fun _ h => Except.error.inj h ▸ he⟩

theorem comesTo_say (lines : List Line) : (say lines).ComesTo (fun _ => True) E :=
  ⟨.ok (), fun _ => rfl, fun _ => ⟨fun _ => trivial, fun _ => rfl⟩, nofun⟩

theorem comesTo_ofExcept {ε : Type} {failure : ε → Failure} {r : Except ε α}
    (h : ∀ e, r = .error e → E (failure e)) : (ofExcept failure r).ComesTo (r = .ok ·) E := by
  cases r with
  | ok a => exact ⟨.ok a, fun _ => rfl, fun _ => by simp, nofun⟩
  | error e =>
    refine ⟨.error (failure e), fun _ => rfl, fun _ => ⟨nofun, nofun⟩, fun _ heq => ?_⟩
    exact Except.error.inj heq ▸ h e rfl

theorem run_bind (s : Steps α) (f : α → Steps β) (lines : List Line) :
    ((s >>= f).run.run lines).1 =
      (s.run.run lines).1.bind fun a => ((f a).run.run (s.run.run lines).2).1 := by
  rw [ExceptT.run_bind, StateT.run_bind]
  cases hrun : s.run.run lines with
  | mk out after => cases out <;> rfl

/-- **Steps one behind the other.** -/
theorem ComesTo.bind {s : Steps α} {f : α → Steps β} (hs : s.ComesTo P E)
    (hf : ∀ a, P a → (f a).ComesTo (Q a) E) :
    (s >>= f).ComesTo (fun b => ∃ a, P a ∧ Q a b) E := by
  obtain ⟨r, hr, hok, herror⟩ := hs
  cases r with
  | error e =>
    refine ⟨.error e, fun lines => ?_, fun b => ⟨nofun, ?_⟩, fun e' he => ?_⟩
    · rw [run_bind, hr]
      rfl
    · rintro ⟨a, ha, -⟩
      cases (hok a).mpr ha
    · exact Except.error.inj he ▸ herror e rfl
  | ok a =>
    have ha : P a := (hok a).mp rfl
    obtain ⟨r', hr', hok', herror'⟩ := hf a ha
    refine ⟨r', fun lines => ?_, fun b => (hok' b).trans ⟨fun hb => ⟨a, ha, hb⟩, ?_⟩, herror'⟩
    · rw [run_bind, hr]
      exact hr' _
    · rintro ⟨a', ha', hb⟩
      cases (hok a').mpr ha'
      exact hb

theorem ComesTo.congr {s : Steps α} {P' : α → Prop} (hs : s.ComesTo P E) (h : ∀ a, P a ↔ P' a) :
    s.ComesTo P' E := by
  obtain ⟨r, hr, hok, herror⟩ := hs
  exact ⟨r, hr, fun a => (hok a).trans (h a), herror⟩

theorem ComesTo.behind_say {s : Steps α} (hs : s.ComesTo P E) (lines : List Line) :
    (say lines >>= fun _ => s).ComesTo P E :=
  ((comesTo_say lines).bind fun _ _ => hs).congr fun _ =>
    ⟨fun ⟨_, _, h⟩ => h, fun h => ⟨(), trivial, h⟩⟩

/-- steps come to one result -/
theorem ComesTo.unique {s : Steps α} (hs : s.ComesTo P E) {a b : α} (ha : P a) (hb : P b) :
    a = b := by
  obtain ⟨r, -, hok, -⟩ := hs
  exact Except.ok.inj (((hok a).mpr ha).symm.trans ((hok b).mpr hb))

end Steps

/-! ### files -/

/-- **A failure that is not about a number without a literal.** -/
def Failure.NotNonFinite (e : Failure) : Prop := ∀ place, e ≠ .call (.nonFinite place)

namespace World

variable (w : World)

/-- **The configuration of a run:** what a file of settings says, or the defaults. -/
def Configures : Option String → Config → Prop
  | none, settings => settings = .default
  | some path, settings => ∃ octets text j, w.file path = .content octets ∧
      Utf8.text? octets = some text ∧ Toml.parse text = some j ∧
      Config.read .ignored j = .ok settings

/-- **What a file holds** as JSON. -/
def Holds (path : String) (j : Json) : Prop :=
  ∃ octets, w.file path = .content octets ∧ Json.parse octets = .ok j

/-- **The shape of a result:** the one that a file describes, or data of any kind. -/
def Describes : Option String → Shape → Prop
  | none, s => s = .scalar .any
  | some path, s => ∃ j, w.Holds path j ∧ j.Describes s

variable {w} {path : String} {j : Json}

theorem Holds.regular (h : w.Holds path j) : j.Regular := by
  obtain ⟨octets, -, hparse⟩ := h
  exact Json.parse_regular hparse

end World

open Steps

variable (w : World)

theorem comesTo_loadConfig (config : Option String) :
    (loadConfig w config).ComesTo (w.Configures config) Failure.NotNonFinite := by
  cases config with
  | none => exact comesTo_pure _
  | some path =>
    refine ComesTo.behind_say ?_ _
    cases hfile : w.file path with
    | unopened reason | unreadable reason =>
      dsimp only
      refine (comesTo_throw nofun).congr fun settings => ?_
      simp [World.Configures, hfile]
    | content octets =>
      dsimp only
      cases htext : Utf8.text? octets with
      | none =>
        dsimp only
        refine (comesTo_throw nofun).congr fun settings => ?_
        simp [World.Configures, hfile, htext]
      | some text =>
        dsimp only
        cases hparse : Toml.parse text with
        | none =>
          dsimp only
          refine (comesTo_throw nofun).congr fun settings => ?_
          simp [World.Configures, hfile, htext, hparse]
        | some j =>
          refine (comesTo_ofExcept fun _ _ => nofun).congr fun settings => ?_
          simp [World.Configures, hfile, htext, hparse]

theorem World.Configures.unique {w : World} {config : Option String} {settings settings' : Config}
    (h : w.Configures config settings) (h' : w.Configures config settings') :
    settings = settings' :=
  (comesTo_loadConfig w config).unique h h'

theorem comesTo_loadJson (path : String) :
    (loadJson w path).ComesTo (w.Holds path) Failure.NotNonFinite := by
  refine ComesTo.behind_say ?_ _
  cases hfile : w.file path with
  | unopened reason | unreadable reason =>
    dsimp only
    refine (comesTo_throw nofun).congr fun j => ?_
    simp [World.Holds, hfile]
  | content octets =>
    refine (comesTo_ofExcept fun _ _ => nofun).congr fun j => ?_
    simp [World.Holds, hfile]

theorem comesTo_loadShape (file : Option String) :
    (loadShape w file).ComesTo (w.Describes file) Failure.NotNonFinite := by
  cases file with
  | none => exact comesTo_pure _
  | some path =>
    have hread (j : Json) : (Steps.ofExcept .descriptor (Shape.ofDescriptor j)).ComesTo
        (Shape.ofDescriptor j = .ok ·) Failure.NotNonFinite := comesTo_ofExcept fun _ _ => nofun
    refine ((comesTo_loadJson w path).bind fun j _ => hread j).congr fun s => ?_
    simp only [Shape.ofDescriptor_eq_ok_iff]
    rfl

end GraphQLCall.Command
