import GraphQLCall.Proofs.Shape.Visited
import GraphQLCall.Proofs.Types.Described

/-!
# Shapes: the check as a walk along the shape

The check follows the data, which has an end.  It can as well follow the shape, which need not have
one, field by field and item by item, and write down the place as it goes: it stops at the same node,
and its calls go no deeper than the data.

* `Halt`, `Shape.walk`   the walk, with a limit to the depth of its calls
* `Shape.walk_eq`   the walk is the check
* `Shape.fit_first_refused`   the check decides whether data conforms, and stops at the first node
                              that does not
-/

namespace GraphQLCall

/-- why a walk along a shape ends before all data is seen: its calls go deeper than they may, or the
data at a place is refused -/
inductive Halt where
  | tooDeep
  | refused (place : String) (reason : Reason)

namespace Shape

/-- **The check as a walk along the shape,** at the place `path`, with `limit` calls one inside the
other at most: the items of a list by index, and the fields of an object in their order, each with
what the object has under its name. -/
def walk (cat : Catalogue) (limit : Nat) (s : Shape) (path : String) (j : Json) :
    Except Halt Unit :=
  match limit with
  | 0 => .error .tooDeep
  | limit + 1 =>
    if j.isNull then .ok ()
    else
      match s.head cat with
      | .scalar kind =>
        if kind.accepts j then .ok ()
        else .error (.refused path (.notScalar kind.graphqlName j.kind))
      | .list inner =>
        match j with
        | .arr items =>
          Outcome.all (fun item => walk cat limit inner (path ++ (Step.index item.2).render) item.1)
            items.zipIdx
        | _ => .error (.refused path (.notList j.kind))
      | .object _ fields =>
        match j with
        | .obj entries =>
          Outcome.all (fun f =>
            match Entries.find? f.1 entries with
            | some j => walk cat limit f.2 (path ++ (Step.key f.1).render) j
            | none => .ok ()) fields
        | _ => .error (.refused path (.notObject j.kind))

end Shape

/-- a mismatch of data at the place `path` -/
def Mismatch.halt (path : String) (m : Mismatch) : Halt :=
  .refused (path ++ Step.renderAll m.steps) m.reason

namespace Shape

variable {cat : Catalogue} {s : Shape} {j : Json}

theorem mapError_within (path : String) (step : Step) (r : Except Mismatch Unit) :
    (Mismatch.within step r).mapError (Mismatch.halt path) =
      r.mapError (Mismatch.halt (path ++ step.render)) := by
  cases r with
  | ok u => rfl
  | error m =>
    show Except.error (Mismatch.halt path (m.behind step)) = Except.error _
    rw [Mismatch.halt, Mismatch.halt, Mismatch.behind, Step.renderAll, String.append_assoc]

theorem walk_items {limit : Nat} {items : List Json} (path : String) (i : Nat)
    (h : ∀ j ∈ items, ∀ path, s.walk cat limit path j =
      (s.fit cat j).mapError (Mismatch.halt path)) :
    Outcome.all (fun item => s.walk cat limit (path ++ (Step.index item.2).render) item.1)
      (items.zipIdx i) = (fitItems cat s i items).mapError (Mismatch.halt path) := by
  induction items generalizing i with
  | nil => rfl
  | cons j rest ih =>
    obtain ⟨hj, hrest⟩ := List.forall_mem_cons.mp h
    rw [List.zipIdx_cons, Outcome.all, fitItems, hj, ← mapError_within, ih _ hrest]
    cases Mismatch.within (.index i) (s.fit cat j) with
    | error m => rfl
    | ok u => rfl

theorem walk_alone {limit : Nat} (path : String)
    (hlist : ∀ inner items, s.head cat = .list inner → j ≠ .arr items)
    (hobject : ∀ typeName fields entries, s.head cat = .object typeName fields → j ≠ .obj entries) :
    s.walk cat (limit + 1) path j = (s.fit cat j).mapError (Mismatch.halt path) := by
  have hhalt (reason : Reason) : Mismatch.halt path ⟨[], reason⟩ = .refused path reason := by
    rw [Mismatch.halt, Step.renderAll, String.append_empty]
  rw [fit_alone hlist hobject, walk, Visit.verdict, Visit.refusal?]
  cases hnull : j.isNull with
  | true => rfl
  | false =>
    cases hs : s.head cat with
    | scalar kind => cases haccepts : kind.accepts j <;> simp [haccepts, hhalt, Except.mapError]
    | list inner =>
      cases j with
      | arr items => exact absurd rfl (hlist inner items hs)
      | _ => simp [hhalt, Json.kind, Except.mapError]
    | object typeName fields =>
      cases j with
      | obj entries => exact absurd rfl (hobject typeName fields entries hs)
      | _ => simp [hhalt, Json.kind, Except.mapError]

theorem walk_congr {s' : Shape} (h : s.head cat = s'.head cat) (limit : Nat) (path : String)
    (j : Json) : s.walk cat limit path j = s'.walk cat limit path j := by
  cases limit with
  | zero => rfl
  | succ limit => rw [walk, walk, h]

/-- **The walk along the shape is the check,** and its calls go no deeper than the data, whether the
shape has an end or not. -/
theorem walk_eq {limit : Nat} (hlimit : j.depth < limit) (hs : s.Ascends cat) (hj : j.Regular)
    (path : String) :
    s.walk cat limit path j = (s.fit cat j).mapError (Mismatch.halt path) := by
  induction limit generalizing s j path with
  | zero => exact absurd hlimit (Nat.not_lt_zero _)
  | succ limit ih =>
    cases parting cat s j with
    | @items inner items hhead hitems =>
      subst hitems
      have hparts (j : Json) (hmem : j ∈ items) (path : String) : inner.walk cat limit path j =
          (inner.fit cat j).mapError (Mismatch.halt path) := by
        have hdepth : j.depth < limit :=
          Nat.lt_of_lt_of_le (Json.Child.item hmem).depth_lt (Nat.le_of_lt_succ hlimit)
        exact ih hdepth (hs.of_list hhead) (hj.of_items j hmem) path
      have hnull : ¬ (Json.arr items).isNull = true := Bool.false_ne_true
      rw [walk, if_neg hnull, hhead, fit, hhead]
      exact walk_items path 0 hparts
    | @fields typeName fields entries hhead hentries =>
      subst hentries
      obtain ⟨hascending, hfields⟩ := hs.of_object hhead
      have hregular (e : String × Json) (he : e ∈ entries) : e.2.Regular := by
        cases hj with
        | obj _ hall => exact hall e he
      have hstrict : Entries.Strict entries := by
        cases hj with
        | obj hstrict _ => exact hstrict
      have hnull : ¬ (Json.obj entries).isNull = true := Bool.false_ne_true
      rw [walk, if_neg hnull, hhead, fit_by_fields hhead hascending hstrict, Outcome.all_mapError]
      refine Outcome.all_congr fun f hf => ?_
      unfold fitField
      cases hfind : Entries.find? f.1 entries with
      | none => rfl
      | some j =>
        have hmem : (f.1, j) ∈ entries := Entries.mem_of_find? hfind
        have hdepth : j.depth < limit :=
          Nat.lt_of_lt_of_le (Json.Child.entry hmem).depth_lt (Nat.le_of_lt_succ hlimit)
        rw [mapError_within]
        exact ih hdepth (hfields f hf) (hregular _ hmem) _
    | alone hlist hobject => exact walk_alone path hlist hobject

/-- **The check decides whether data conforms, and stops at the first node that does not.**  Data that
conforms fits.  Other data is refused at the first of its nodes, in the order of fields and items,
that is not null and no data of the kind of its shape; the steps of the mismatch lead to the node, and
its place is written behind that of the whole.  The check is a walk along the shape that goes no
deeper than the data. -/
theorem fit_first_refused (cat : Catalogue) (s : Shape) (j : Json) :
    (s.fit cat j = .ok () ↔ j.Conforms cat s) ∧
    (∀ v, v ∈ s.visited cat j ↔ s.Leads cat j v.steps v.shape v.data) ∧
    (∀ v ∈ s.visited cat j, j.part? v.steps = some v.data) ∧
    (s.Ordered → cat.Each (fun _ fields => Entries.Ascending fields) → j.Regular →
      (∀ m, s.fit cat j = .error m ↔ ∃ before v after, s.visited cat j = before ++ v :: after ∧
        (∀ u ∈ before, u.refusal? cat = none) ∧ v.refusal? cat = some m.reason ∧
          v.steps = m.steps) ∧
      ∀ limit path, j.depth < limit →
        s.walk cat limit path j = (s.fit cat j).mapError fun m =>
          .refused (path ++ Step.renderAll m.steps) m.reason) := by
  refine ⟨fit_eq_ok_iff, fun v => mem_visited_iff, fun v hv => ?_, fun hs hc hj =>
    ⟨fun m => ?_, fun limit path hlimit => ?_⟩⟩
  · exact (mem_visited_iff.mp hv).part?
  · exact fit_eq_error_iff (hs.ascends hc) hj
  · exact walk_eq hlimit (hs.ascends hc) hj path

/-- a brewery with a beer that is null, one whose strength is no number, and a rank that is none -/
def flatBrewery : Json :=
  .obj [("beers", .arr [.null, .obj [("abv", .bool true), ("brandName", .str "Pils")]]),
    ("rank", .str "first")]

theorem flatBrewery_regular : flatBrewery.Regular := by
  have hbeer : Json.Regular (.obj [("abv", .bool true), ("brandName", .str "Pils")]) := by
    refine .obj (.cons (List.forall_mem_singleton.mpr (by decide)) (List.pairwise_singleton _ _)) ?_
    simp [Json.Regular.bool, Json.Regular.str]
  refine .obj (.cons (List.forall_mem_singleton.mpr (by decide)) (List.pairwise_singleton _ _)) ?_
  simp [Json.Regular.arr, Json.Regular.null, Json.Regular.str, hbeer]

theorem flatBrewery_first_refused :
    let s : Shape := .deferred (.declared "Brewery")
    let m : Mismatch := ⟨[.key "beers", .index 1, .key "abv"], .notScalar "Float" .boolean⟩
    s.Ordered ∧ breweries.Each (fun _ fields => Entries.Ascending fields) ∧ flatBrewery.Regular ∧
    s.fit breweries flatBrewery = .error m ∧ ¬ flatBrewery.Conforms breweries s ∧
    (∃ before v after, s.visited breweries flatBrewery = before ++ v :: after ∧
      (∀ u ∈ before, u.refusal? breweries = none) ∧ v.refusal? breweries = some m.reason ∧
        v.steps = m.steps) ∧
    flatBrewery.depth < 4 ∧
    s.walk breweries 4 "find" flatBrewery = .error (.refused "find.beers[1].abv" m.reason) := by
  intro s m
  have heach : breweries.Each fun _ fields => Entries.Ascending fields := by
    intro name fields hmem
    simp [breweries] at hmem
  have hregular := flatBrewery_regular
  have hfit : s.fit breweries flatBrewery = .error m := by
    simp [s, m, flatBrewery, fit, fitItems, fitEntries, fitLeaf, head, Ty.head, fields?_beer,
      fields?_brewery, Outcome.all, Ty.scalarKind, ScalarKind.accepts, ScalarKind.graphqlName,
      Json.kind, Mismatch.within, Mismatch.here]
  have hdepth : flatBrewery.depth < 4 := by decide
  obtain ⟨hconforms, -, -, hfirst⟩ := fit_first_refused breweries s flatBrewery
  obtain ⟨herror, hwalk⟩ := hfirst trivial heach hregular
  refine ⟨trivial, heach, hregular, hfit, ?_, (herror m).mp hfit, hdepth, ?_⟩
  · rw [← hconforms, hfit]
    simp
  · rw [hwalk 4 "find" hdepth, hfit]
    rfl

end Shape

end GraphQLCall
