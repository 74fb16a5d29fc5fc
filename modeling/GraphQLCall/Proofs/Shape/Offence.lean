import GraphQLCall.Proofs.Json.Regular
import GraphQLCall.Proofs.Mismatch
import GraphQLCall.Proofs.Shape.Descriptor

/-!
# Shapes: descriptors and what is none

A descriptor is put together of null, true, the names of the kinds, arrays of one descriptor and
objects of descriptors.  The shape that it describes is written back as the same descriptor.  Other
data has nodes that stand in no descriptor, and is refused at the one that is met first, depth first.

* `Json.IsDescriptor`   the data that is a descriptor
* `Json.spelledOut`   a descriptor with a name for null and for true
* `Shape.descriptor`, `Shape.Anonymous`   a shape written as a descriptor, and the shapes that have one
* `Json.offence?`   why a node stands in no descriptor
* `Step.Before`   the order in which places are met
* `Json.FirstOffence`, `Json.FirstOffence.unique`   the node that is met first of those
* `Shape.descriptor_of_describes`   what is described is written back
* `Shape.ofDescriptor_eq_error_iff`   what is no descriptor is refused at the first offence
* `Shape.ofDescriptor_outcome`   all of it
-/

namespace GraphQLCall

/-! ### descriptors -/

/-- **The names of the kinds.** -/
def scalarNames : List String := ["Any", "Boolean", "Float", "ID", "Int", "String"]

theorem mem_scalarNames_iff {name : String} :
    name ∈ scalarNames ↔ ∃ kind : ScalarKind, name = kind.graphqlName := by
  constructor
  · intro h
    have hall : scalarNames = ScalarKind.all.map ScalarKind.graphqlName := rfl
    rw [hall] at h
    obtain ⟨kind, -, hkind⟩ := List.mem_map.mp h
    exact ⟨kind, hkind.symm⟩
  · rintro ⟨kind, rfl⟩
    cases kind <;> simp [scalarNames, ScalarKind.graphqlName]

namespace Json

/-- **The data that is a descriptor.** -/
inductive IsDescriptor : Json → Prop
  | null : IsDescriptor .null
  | yes : IsDescriptor (.bool true)
  | scalar {name : String} : name ∈ scalarNames → IsDescriptor (.str name)
  | list {j : Json} : IsDescriptor j → IsDescriptor (.arr [j])
  | object {entries : List (String × Json)} :
      (∀ e ∈ entries, IsDescriptor e.2) → IsDescriptor (.obj entries)

mutual

/-- **A descriptor with a name for null and for true.** -/
def spelledOut : Json → Json
  | .null => .str "Any"
  | .bool true => .str "Any"
  | .arr items => .arr (spelledOutItems items)
  | .obj entries => .obj (spelledOutEntries entries)
  | j => j

def spelledOutItems : List Json → List Json
  | [] => []
  | j :: rest => spelledOut j :: spelledOutItems rest

def spelledOutEntries : List (String × Json) → List (String × Json)
  | [] => []
  | (name, j) :: rest => (name, spelledOut j) :: spelledOutEntries rest

end

end Json

namespace Shape

mutual

/-- **A shape as a descriptor,** if it has one. -/
def descriptor : Shape → Json
  | .scalar kind => .str kind.graphqlName
  | .list inner => .arr [descriptor inner]
  | .object _ fields => .obj (fieldDescriptors fields)
  | .deferred _ => .null

def fieldDescriptors : List (String × Shape) → List (String × Json)
  | [] => []
  | (name, s) :: rest => (name, descriptor s) :: fieldDescriptors rest

end

/-- **The shapes that have a descriptor:** nothing in them has to be looked up, and no object has a
name; the fields of objects are in strictly ascending order. -/
inductive Anonymous : Shape → Prop
  | scalar (kind : ScalarKind) : Anonymous (.scalar kind)
  | list {inner : Shape} : Anonymous inner → Anonymous (.list inner)
  | object {fields : List (String × Shape)} : Entries.Strict fields →
      (∀ f ∈ fields, Anonymous f.2) → Anonymous (.object none fields)

end Shape

namespace Json

theorem isDescriptor_of_describes {j : Json} {s : Shape} : j.Describes s → j.IsDescriptor
  | .null => .null
  | .yes => .yes
  | .scalar kind => .scalar (mem_scalarNames_iff.mpr ⟨kind, rfl⟩)
  | .list h => .list (isDescriptor_of_describes h)
  | .object h => .object (forall_of_describesFields h)
where
  forall_of_describesFields {entries : List (String × Json)} {fields : List (String × Shape)} :
      DescribesFields entries fields → ∀ e ∈ entries, e.2.IsDescriptor
  | .nil => List.forall_mem_nil _
  | .cons h hrest =>
    List.forall_mem_cons.mpr ⟨isDescriptor_of_describes h, forall_of_describesFields hrest⟩

theorem describesFields_of_forall {entries : List (String × Json)}
    (h : ∀ e ∈ entries, ∃ s, e.2.Describes s) : ∃ fields, DescribesFields entries fields := by
  induction entries with
  | nil => exact ⟨[], .nil⟩
  | cons entry rest ih =>
    obtain ⟨⟨s, hs⟩, hrest⟩ := List.forall_mem_cons.mp h
    obtain ⟨fields, hfields⟩ := ih hrest
    exact ⟨(entry.1, s) :: fields, .cons hs hfields⟩

theorem exists_describes_iff {j : Json} : (∃ s, j.Describes s) ↔ j.IsDescriptor := by
  refine ⟨fun ⟨s, h⟩ => isDescriptor_of_describes h, fun h => ?_⟩
  induction h with
  | null => exact ⟨_, .null⟩
  | yes => exact ⟨_, .yes⟩
  | scalar hname =>
    obtain ⟨kind, rfl⟩ := mem_scalarNames_iff.mp hname
    exact ⟨_, .scalar kind⟩
  | list _ ih =>
    obtain ⟨s, hs⟩ := ih
    exact ⟨_, .list hs⟩
  | object _ ih =>
    obtain ⟨fields, hfields⟩ := describesFields_of_forall ih
    exact ⟨_, .object hfields⟩

theorem DescribesFields.names {entries : List (String × Json)} {fields : List (String × Shape)}
    (h : DescribesFields entries fields) : fields.map Prod.fst = entries.map Prod.fst := by
  induction fields generalizing entries with
  | nil =>
    cases h
    rfl
  | cons field rest ih =>
    cases h with
    | cons _ hrest => rw [List.map_cons, List.map_cons, ih hrest]

end Json

namespace Shape

mutual

/-- **What a descriptor describes is written back,** with a name for null and for true. -/
theorem descriptor_of_describes {j : Json} {s : Shape} (hj : j.Regular) :
    j.Describes s → s.descriptor = j.spelledOut ∧ s.Anonymous
  | .null => ⟨rfl, .scalar .any⟩
  | .yes => ⟨rfl, .scalar .any⟩
  | .scalar kind => ⟨rfl, .scalar kind⟩
  | .list h => by
    obtain ⟨hback, hanonymous⟩ := descriptor_of_describes (hj.of_items _ List.mem_cons_self) h
    exact ⟨by rw [descriptor, hback]; rfl, .list hanonymous⟩
  | @Json.Describes.object entries fields h => by
    obtain ⟨hstrict, hregular⟩ : Entries.Strict entries ∧ ∀ e ∈ entries, e.2.Regular := by
      cases hj with
      | obj hstrict hregular => exact ⟨hstrict, hregular⟩
    obtain ⟨hback, hanonymous⟩ := descriptors_of_describes hregular h
    have hnames : (fields.map Prod.fst).Pairwise (· < ·) := by
      rw [h.names]
      exact hstrict.names
    have hfields : Entries.Strict fields := List.pairwise_map.mp hnames
    rw [record, hfields.sort_eq]
    exact ⟨by rw [descriptor, hback]; rfl, .object hfields hanonymous⟩

theorem descriptors_of_describes {entries : List (String × Json)} {fields : List (String × Shape)}
    (hentries : ∀ e ∈ entries, e.2.Regular) : Json.DescribesFields entries fields →
      fieldDescriptors fields = Json.spelledOutEntries entries ∧ ∀ f ∈ fields, f.2.Anonymous
  | .nil => ⟨rfl, List.forall_mem_nil _⟩
  | .cons h hrest => by
    obtain ⟨hj, hentries⟩ := List.forall_mem_cons.mp hentries
    obtain ⟨hback, hanonymous⟩ := descriptor_of_describes hj h
    obtain ⟨hbacks, hall⟩ := descriptors_of_describes hentries hrest
    refine ⟨?_, List.forall_mem_cons.mpr ⟨hanonymous, hall⟩⟩
    rw [fieldDescriptors, hback, hbacks]
    rfl

end

end Shape

/-! ### what is no descriptor -/

namespace Step

/-- a step to an earlier part of the same node: keys ascend, and so do indices -/
inductive Below : Step → Step → Prop
  | key {m n : String} : m < n → Below (.key m) (.key n)
  | index {i k : Nat} : i < k → Below (.index i) (.index k)

/-- **The order in which places are met,** depth first: a whole before its parts, and a part with all
below it before the parts that follow. -/
def Before (q p : List Step) : Prop := List.Lex Below q p

theorem not_before_nil (q : List Step) : ¬ Before q [] := nofun

theorem before_cons_iff {s t : Step} {q p : List Step} :
    Before (s :: q) (t :: p) ↔ Below s t ∨ s = t ∧ Before q p := by
  constructor
  · intro h
    cases h with
    | rel h => exact .inl h
    | cons h => exact .inr ⟨rfl, h⟩
  · rintro (h | ⟨rfl, h⟩)
    · exact .rel h
    · exact .cons h

theorem not_below_self (s : Step) : ¬ Below s s := by
  intro h
  cases h with
  | key h => exact lt_irrefl _ h
  | index h => exact lt_irrefl _ h

/-- a step as the part of a descriptor that it leads to -/
def inDescriptor : Step → DescriptorStep
  | .key name => .field name
  | _ => .element

/-- **A place as the path of a descriptor's part,** written step by step from that of the whole. -/
def descriptorPath (p : List Step) : String :=
  p.foldl (fun path step =>
    match step with
    | .key name => path ++ "." ++ name
    | _ => path ++ "[]") "$"

theorem path_inDescriptor {p : List Step} {e : DescriptorError}
    (h : e.steps = p.map inDescriptor) : e.path = descriptorPath p := by
  have hfold (p : List Step) (root : String) :
      root ++ DescriptorStep.renderAll (p.map inDescriptor) =
      p.foldl (fun path step =>
        match step with
        | .key name => path ++ "." ++ name
        | _ => path ++ "[]") root := by
    induction p generalizing root with
    | nil => exact String.append_empty
    | cons step rest ih =>
      rw [List.map_cons, DescriptorStep.renderAll, ← String.append_assoc, ih, List.foldl_cons]
      cases step with
      | key name => rw [inDescriptor, DescriptorStep.render, ← String.append_assoc]
      | _ => rfl
  rw [DescriptorError.path, h]
  exact hfold p "$"

end Step

namespace Json

/-- **Why a node stands in no descriptor,** whatever its parts are. -/
def offence? : Json → Option DescriptorReason
  | .str name => if name ∈ scalarNames then none else some (.unknownKind name)
  | .arr items => if items.length = 1 then none else some (.notOneElement items.length)
  | .null | .bool true | .obj _ => none
  | j => some (.unsupported j)

/-- the node at a place stands in no descriptor -/
def OffendsAt (j : Json) (p : List Step) (reason : DescriptorReason) : Prop :=
  ∃ part, j.part? p = some part ∧ part.offence? = some reason

/-- **The node that is met first** of those that stand in no descriptor. -/
def FirstOffence (j : Json) (p : List Step) (reason : DescriptorReason) : Prop :=
  j.OffendsAt p reason ∧ ∀ q reason', j.OffendsAt q reason' → ¬ Step.Before q p

variable {j a b : Json} {p q : List Step} {reason : DescriptorReason} {e : DescriptorError}

theorem firstOffence_here (h : j.offence? = some reason) : j.FirstOffence [] reason :=
  ⟨⟨j, rfl, h⟩, fun q _ _ => Step.not_before_nil q⟩

theorem part?_cons (step : Step) (p : List Step) (j : Json) :
    j.part? (step :: p) = (j.part? [step]).bind (part? p) := by
  have hwhole (o : Option Json) : o.bind (part? p) = (o.bind (part? [])).bind (part? p) := by
    cases o <;> rfl
  cases step with
  | key name => exact hwhole (j.entry? name)
  | index i =>
    cases j with
    | arr items => exact hwhole items[i]?
    | _ => rfl
  | _ => cases j <;> rfl

/-- **Of two steps to parts of the same node** one is the earlier, if they are not the same. -/
theorem below_or_below {s t : Step} (hs : j.part? [s] = some a) (ht : j.part? [t] = some b) :
    s = t ∨ Step.Below s t ∨ Step.Below t s := by
  match j, s, t with
  | .obj _, .key m, .key n =>
    rcases lt_trichotomy m n with hlt | rfl | hgt
    · exact .inr (.inl (.key hlt))
    · exact .inl rfl
    · exact .inr (.inr (.key hgt))
  | .arr _, .index i, .index k =>
    rcases lt_trichotomy i k with hlt | rfl | hgt
    · exact .inr (.inl (.index hlt))
    · exact .inl rfl
    · exact .inr (.inr (.index hgt))

/-- **Of two places of the same data** one is met first. -/
theorem before_or_before (hp : j.part? p = some a) (hq : j.part? q = some b) :
    p = q ∨ Step.Before p q ∨ Step.Before q p := by
  induction p generalizing j q with
  | nil =>
    cases q with
    | nil => exact .inl rfl
    | cons t q => exact .inr (.inl .nil)
  | cons s p ih =>
    cases q with
    | nil => exact .inr (.inr .nil)
    | cons t q =>
      rw [part?_cons] at hp hq
      obtain ⟨js, hs, hp⟩ := Option.bind_eq_some_iff.mp hp
      obtain ⟨jt, ht, hq⟩ := Option.bind_eq_some_iff.mp hq
      rcases below_or_below hs ht with rfl | hlt | hgt
      · cases hs.symm.trans ht
        rcases ih hp hq with rfl | hbefore | hbefore
        · exact .inl rfl
        · exact .inr (.inl (.cons hbefore))
        · exact .inr (.inr (.cons hbefore))
      · exact .inr (.inl (.rel hlt))
      · exact .inr (.inr (.rel hgt))

/-- **There is one first offence** at most. -/
theorem FirstOffence.unique {reason' : DescriptorReason} (h : j.FirstOffence p reason)
    (h' : j.FirstOffence q reason') : p = q ∧ reason = reason' := by
  obtain ⟨⟨a, ha, hreason⟩, hfirst⟩ := h
  obtain ⟨⟨b, hb, hreason'⟩, hfirst'⟩ := h'
  have hsame : p = q := by
    rcases before_or_before ha hb with heq | hlt | hgt
    · exact heq
    · exact absurd hlt (hfirst' p reason ⟨a, ha, hreason⟩)
    · exact absurd hgt (hfirst q reason' ⟨b, hb, hreason'⟩)
  subst hsame
  cases ha.symm.trans hb
  exact ⟨rfl, Option.some.inj (hreason.symm.trans hreason')⟩

/-- **A descriptor** has no node that stands in none. -/
theorem IsDescriptor.not_offendsAt (h : j.IsDescriptor) : ¬ j.OffendsAt p reason := by
  rintro ⟨part, hpart, hreason⟩
  induction h generalizing p with
  | null | yes =>
    cases p with
    | nil =>
      cases hpart
      cases hreason
    | cons step rest => cases step <;> cases hpart
  | scalar hname =>
    cases p with
    | nil =>
      cases hpart
      rw [offence?, if_pos hname] at hreason
      cases hreason
    | cons step rest => cases step <;> cases hpart
  | list _ ih =>
    match p with
    | [] =>
      cases hpart
      cases hreason
    | .index 0 :: rest => exact ih hpart
    | .index (k + 1) :: rest | .key _ :: rest => cases hpart
  | object _ ih =>
    match p with
    | [] =>
      cases hpart
      cases hreason
    | .key name :: rest =>
      obtain ⟨content, hcontent, hrest⟩ := Option.bind_eq_some_iff.mp hpart
      exact ih _ (Entries.mem_of_find? hcontent) hrest

/-- **The first offence of the one item of an array** is that of the array. -/
theorem FirstOffence.item (h : j.FirstOffence p reason) :
    (Json.arr [j]).FirstOffence (.index 0 :: p) reason := by
  refine ⟨h.1, ?_⟩
  rintro q reason' ⟨part, hpart, hreason⟩ hbefore
  match q with
  | [] =>
    cases hpart
    cases hreason
  | .index 0 :: q =>
    rcases Step.before_cons_iff.mp hbefore with hlt | ⟨-, hrest⟩
    · exact absurd hlt (Step.not_below_self _)
    · exact h.2 q reason' ⟨part, hpart, hreason⟩ hrest
  | .index (k + 1) :: q | .key _ :: q => cases hpart

/-- **The first offence of an entry,** those in front of it being descriptors, is that of the object. -/
theorem FirstOffence.entry {before after : List (String × Json)} {name : String}
    (hstrict : Entries.Strict (before ++ (name, j) :: after))
    (hbefore : ∀ e ∈ before, e.2.IsDescriptor) (h : j.FirstOffence p reason) :
    (Json.obj (before ++ (name, j) :: after)).FirstOffence (.key name :: p) reason := by
  obtain ⟨⟨part, hpart, hreason⟩, hfirst⟩ := h
  have hfind : Entries.find? name (before ++ (name, j) :: after) = some j :=
    (Entries.find?_eq_some_iff_of_nodup hstrict.nodup).mpr
      (List.mem_append_right _ List.mem_cons_self)
  refine ⟨⟨part, Option.bind_eq_some_iff.mpr ⟨j, hfind, hpart⟩, hreason⟩, ?_⟩
  rintro q reason' ⟨part', hpart', hreason'⟩ hearlier
  match q with
  | [] =>
    cases hpart'
    cases hreason'
  | .key m :: q =>
    obtain ⟨content, hm, hq⟩ := Option.bind_eq_some_iff.mp hpart'
    rcases Step.before_cons_iff.mp hearlier with hlt | ⟨heq, hrest⟩
    · -- a key below the name stands in front of it, where all are descriptors
      have hlt : m < name := by
        cases hlt with
        | key hlt => exact hlt
      rcases List.mem_append.mp (Entries.mem_of_find? hm) with hfront | hback
      · exact (hbefore _ hfront).not_offendsAt ⟨part', hq, hreason'⟩
      · obtain ⟨-, hbehind, -⟩ := List.pairwise_append.mp hstrict
        rcases List.mem_cons.mp hback with heq | hback
        · cases heq
          exact absurd hlt (lt_irrefl _)
        · exact lt_asymm hlt ((List.pairwise_cons.mp hbehind).1 _ hback)
    · cases heq
      cases hm.symm.trans hfind
      exact hfirst q reason' ⟨part', hq, hreason'⟩ hrest

end Json

/-! ### the reader of descriptors -/

theorem DescriptorError.within_eq_error_iff {α : Type} {step : DescriptorStep}
    {r : Except DescriptorError α} {e : DescriptorError} : within step r = .error e ↔
      ∃ e', r = .error e' ∧ e = ⟨step :: e'.steps, e'.reason⟩ := by
  cases r with
  | ok a => exact ⟨nofun, nofun⟩
  | error e' =>
    constructor
    · rintro ⟨⟩
      exact ⟨e', rfl, rfl⟩
    · rintro ⟨_, ⟨⟩, rfl⟩
      rfl

namespace Shape

open Json (firstOffence_here)

variable {j : Json} {s : Shape} {e : DescriptorError}

theorem exists_ofDescriptor_iff : (∃ s, ofDescriptor j = .ok s) ↔ j.IsDescriptor := by
  simp only [ofDescriptor_eq_ok_iff]
  exact Json.exists_describes_iff

/-- **Fields are refused** for the first of them that is. -/
theorem fieldsOfDescriptor_error {entries : List (String × Json)}
    (h : fieldsOfDescriptor entries = .error e) : ∃ before name j after e',
      entries = before ++ (name, j) :: after ∧ (∀ b ∈ before, b.2.IsDescriptor) ∧
      ofDescriptor j = .error e' ∧ e = ⟨.field name :: e'.steps, e'.reason⟩ := by
  induction entries with
  | nil => cases h
  | cons entry rest ih =>
    obtain ⟨name, j⟩ := entry
    rw [fieldsOfDescriptor] at h
    split at h
    · rename_i hj
      cases h
      obtain ⟨e', he', rfl⟩ := DescriptorError.within_eq_error_iff.mp hj
      exact ⟨[], name, j, rest, e', rfl, List.forall_mem_nil _, he', rfl⟩
    · rename_i s hj
      have hhead : j.IsDescriptor :=
        exists_ofDescriptor_iff.mp ⟨s, DescriptorError.within_eq_ok_iff.mp hj⟩
      split at h
      · rename_i hrest
        cases h
        obtain ⟨before, name', j', after, e', rfl, hbefore, hrefused⟩ := ih hrest
        exact ⟨(name, j) :: before, name', j', after, e', rfl,
          List.forall_mem_cons.mpr ⟨hhead, hbefore⟩, hrefused⟩
      · cases h

/-- **Data that is refused** is refused for its first offence. -/
theorem firstOffence_of_error (hj : j.Regular) (h : ofDescriptor j = .error e) :
    ∃ p, j.FirstOffence p e.reason ∧ e.steps = p.map Step.inDescriptor := by
  induction j using Json.induction generalizing e with
  | step j ih =>
    match j with
    | .null | .bool true => cases h
    | .bool false | .int _ | .float _ | .arr [] | .arr (_ :: _ :: _) =>
      cases h
      exact ⟨[], firstOffence_here rfl, rfl⟩
    | .str name =>
      rw [ofDescriptor] at h
      split at h
      · cases h
      · rename_i hnone
        cases h
        have hname : name ∉ scalarNames := by
          intro hname
          obtain ⟨kind, rfl⟩ := mem_scalarNames_iff.mp hname
          rw [ScalarKind.ofGraphQLName?_eq_some_iff.mpr rfl] at hnone
          cases hnone
        exact ⟨[], firstOffence_here (if_neg hname), rfl⟩
    | .arr [element] =>
      rw [ofDescriptor] at h
      split at h
      · cases h
      · rename_i hinner
        cases h
        obtain ⟨e', he', rfl⟩ := DescriptorError.within_eq_error_iff.mp hinner
        obtain ⟨p, hfirst, hsteps⟩ :=
          ih element (.item List.mem_cons_self) (hj.of_items _ List.mem_cons_self) he'
        exact ⟨.index 0 :: p, hfirst.item, congrArg (DescriptorStep.element :: ·) hsteps⟩
    | .obj entries =>
      obtain ⟨hstrict, hregular⟩ : Entries.Strict entries ∧ ∀ e ∈ entries, e.2.Regular := by
        cases hj with
        | obj hstrict hregular => exact ⟨hstrict, hregular⟩
      rw [ofDescriptor] at h
      split at h
      · cases h
      · rename_i hfields
        cases h
        obtain ⟨before, name, j', after, e', rfl, hbefore, he', rfl⟩ :=
          fieldsOfDescriptor_error hfields
        have hmem : (name, j') ∈ before ++ (name, j') :: after :=
          List.mem_append_right _ List.mem_cons_self
        obtain ⟨p, hfirst, hsteps⟩ := ih j' (.entry hmem) (hregular _ hmem) he'
        exact ⟨.key name :: p, hfirst.entry hstrict hbefore,
          congrArg (DescriptorStep.field name :: ·) hsteps⟩

/-- **Data is refused** just for its first offence. -/
theorem ofDescriptor_eq_error_iff (hj : j.Regular) : ofDescriptor j = .error e ↔
    ∃ p, j.FirstOffence p e.reason ∧ e.steps = p.map Step.inDescriptor := by
  refine ⟨firstOffence_of_error hj, fun ⟨p, hfirst, hsteps⟩ => ?_⟩
  cases hr : ofDescriptor j with
  | ok s => exact absurd hfirst.1 (exists_ofDescriptor_iff.mp ⟨s, hr⟩).not_offendsAt
  | error e' =>
    obtain ⟨q, hfirst', hsteps'⟩ := firstOffence_of_error hj hr
    obtain ⟨rfl, hreason⟩ := hfirst.unique hfirst'
    obtain ⟨steps, reason⟩ := e
    obtain ⟨steps', reason'⟩ := e'
    cases hreason
    cases hsteps.trans hsteps'.symm
    rfl

/-- **Just the descriptors are taken, and nothing of them is lost.**  The shape of a descriptor is
written back as the descriptor, with a name for null and for true; it has nothing to look up, and its
objects have no names and their fields in order.  Other data is refused for the node that is met first,
depth first and in the order of keys, of those that stand in no descriptor, an array of more or fewer
items than one whatever they are; the path leads to that node. -/
theorem ofDescriptor_outcome (j : Json) :
    ((∃ s, ofDescriptor j = .ok s) ↔ j.IsDescriptor) ∧
    (j.Regular → ∀ s, ofDescriptor j = .ok s → s.descriptor = j.spelledOut ∧ s.Anonymous) ∧
    (j.Regular → ∀ e, ofDescriptor j = .error e ↔ ∃ p, j.FirstOffence p e.reason ∧
      e.steps = p.map Step.inDescriptor ∧ e.path = Step.descriptorPath p) := by
  refine ⟨exists_ofDescriptor_iff, fun hj s hs => ?_, fun hj e => ?_⟩
  · exact descriptor_of_describes hj (ofDescriptor_eq_ok_iff.mp hs)
  · rw [ofDescriptor_eq_error_iff hj]
    refine exists_congr fun p => and_congr_right fun _ => ?_
    exact ⟨fun hsteps => ⟨hsteps, Step.path_inDescriptor hsteps⟩, And.left⟩

/-- a descriptor with null for a kind -/
def beerDescriptor : Json := .obj [("id", .null), ("tags", .arr [.str "String"])]

/-- an array of two items in an object in an array, in front of a name of no kind -/
def looseDescriptor : Json :=
  .obj [("a", .arr [.obj [("x", .bool true), ("y", .arr [.str "Int", .int 3])]]), ("b", .str "Nope")]

theorem ofDescriptor_outcome_beer :
    let e : DescriptorError := ⟨[.field "a", .element, .field "y"], .notOneElement 2⟩
    beerDescriptor.Regular ∧ looseDescriptor.Regular ∧
    (∃ s, ofDescriptor beerDescriptor = .ok s ∧ s.Anonymous ∧
      s.descriptor = .obj [("id", .str "Any"), ("tags", .arr [.str "String"])]) ∧
    ofDescriptor looseDescriptor = .error e ∧ e.path = "$.a[].y" ∧
    ∃ p, looseDescriptor.FirstOffence p (.notOneElement 2) ∧ e.steps = p.map Step.inDescriptor := by
  intro e
  have hbeer : beerDescriptor.Regular := by
    refine .obj (.cons (List.forall_mem_singleton.mpr (by decide)) (List.pairwise_singleton _ _)) ?_
    simp [Json.Regular.null, Json.Regular.arr, Json.Regular.str]
  have hitem : Json.Regular (.obj [("x", .bool true), ("y", .arr [.str "Int", .int 3])]) := by
    have hthree : Json.Regular (.int 3) := .int (by decide) (by decide)
    refine .obj (.cons (List.forall_mem_singleton.mpr (by decide)) (List.pairwise_singleton _ _)) ?_
    simp [Json.Regular.bool, Json.Regular.arr, Json.Regular.str, hthree]
  have hloose : looseDescriptor.Regular := by
    refine .obj (.cons (List.forall_mem_singleton.mpr (by decide)) (List.pairwise_singleton _ _)) ?_
    simp [Json.Regular.arr, Json.Regular.str, hitem]
  have hrefused : ofDescriptor looseDescriptor = .error e := by rfl
  obtain ⟨-, hback, -⟩ := ofDescriptor_outcome beerDescriptor
  obtain ⟨-, -, herror⟩ := ofDescriptor_outcome looseDescriptor
  obtain ⟨p, hfirst, hsteps, -⟩ := (herror hloose e).mp hrefused
  have htaken : ofDescriptor beerDescriptor = .ok (.object none
      [("id", .scalar .any), ("tags", .list (.scalar .string))]) := by
    have hsort : Entries.sort [("id", Shape.scalar .any), ("tags", .list (.scalar .string))] =
        [("id", .scalar .any), ("tags", .list (.scalar .string))] :=
      Entries.Strict.sort_eq (by decide)
    rw [← hsort]
    rfl
  obtain ⟨hdescriptor, hanonymous⟩ := hback hbeer _ htaken
  exact ⟨hbeer, hloose, ⟨_, htaken, hanonymous, hdescriptor⟩, hrefused, by decide, p, hfirst, hsteps⟩

end Shape

end GraphQLCall
