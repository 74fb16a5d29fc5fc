import GraphQLCall.Proofs.Entries
import GraphQLCall.Shape.Basic
import GraphQLCall.Types.Decode
import Mathlib.Data.List.Nodup

/-!
# Types: families of records

A family of records is a catalogue whose records have fields of types that refer to nothing but
records of the same catalogue, to themselves too.

* `Ty.Known`   the types whose names all stand for records
* `RecordDecl.Agrees`   the records whose fields are asked for and read under the same names
* `Catalogue.Closed`   the families of such records
* `Ty.Form`, `Ty.Known.form`   what a type is without its wrappers
* `Ty.head_of_scalar`, `Ty.head_of_list`, `Ty.head_of_record`   its shape
* `RecordDecl.mem_shape`, `RecordDecl.fieldOf?_eq_some_iff`   the field with a name
-/

namespace GraphQLCall

/-- the types without parts -/
def Ty.isScalar : Ty → Bool
  | .int _ | .single | .double | .bool | .char | .text | .json => true
  | _ => false

/-- **A type whose names all stand for records.** -/
def Ty.Known (cat : Catalogue) : Ty → Prop
  | .option inner => inner.Known cat
  | .boxed inner => inner.Known cat
  | .list inner => inner.Known cat
  | .declared name => ∃ r, cat.find? name = some (.record r)
  | .keyed _ _ => False
  | _ => True

/-- **A record whose fields are asked for and read under the same names,** all of them different. -/
structure RecordDecl.Agrees (r : RecordDecl) : Prop where
  key_eq : ∀ f ∈ r.readFields, f.key = f.name
  nodup : (r.readFields.map (·.name)).Nodup

/-- **A family of records.** -/
structure Catalogue.Closed (cat : Catalogue) : Prop where
  agrees : ∀ name r, cat.find? name = some (.record r) → r.Agrees
  known : ∀ name r, cat.find? name = some (.record r) → ∀ f ∈ r.readFields, f.type.Known cat

/-- **What a type is without its wrappers.** -/
inductive Ty.Form (cat : Catalogue) (t : Ty) : Prop
  | scalar : t.core.isScalar = true → Form cat t
  | list {inner : Ty} : t.core = .list inner → inner.Known cat → Form cat t
  | record {name : String} {r : RecordDecl} :
      t.core = .declared name → cat.find? name = some (.record r) → Form cat t

namespace Ty

variable {cat : Catalogue} {t : Ty}

theorem Known.form (h : t.Known cat) : t.Form cat := by
  induction t with
  | option inner ih =>
    cases ih h with
    | scalar hs => exact .scalar hs
    | list hl hk => exact .list hl hk
    | record hd hr => exact .record hd hr
  | boxed inner ih =>
    cases ih h with
    | scalar hs => exact .scalar hs
    | list hl hk => exact .list hl hk
    | record hd hr => exact .record hd hr
  | list inner => exact .list rfl h
  | declared name =>
    obtain ⟨r, hr⟩ := h
    exact .record rfl hr
  | keyed => exact h.elim
  | _ => exact .scalar rfl

theorem head_core (cat : Catalogue) (t : Ty) : t.core.head cat = t.head cat := by
  induction t with
  | option inner ih => exact ih
  | boxed inner ih => exact ih
  | _ => rfl

theorem head_shape (cat : Catalogue) (t : Ty) : (t.shape cat).head cat = t.head cat := by
  unfold shape
  cases t.head cat <;> rfl

theorem head_of_scalar (h : t.core.isScalar = true) :
    t.head cat = .scalar t.core.scalarKind := by
  rw [← head_core]
  cases hc : t.core <;> rw [hc] at h <;> first | rfl | cases h

theorem head_of_list {inner : Ty} (h : t.core = .list inner) :
    t.head cat = .list (.deferred inner) := by
  rw [← head_core, h]
  rfl

theorem head_of_record {name : String} {r : RecordDecl} (h : t.core = .declared name)
    (hr : cat.find? name = some (.record r)) :
    t.head cat = .object (some name) (r.shape.map fun f => (f.1, .deferred f.2)) := by
  rw [← head_core, h]
  simp only [head, Catalogue.fields?, hr]

end Ty

namespace RecordDecl

variable {r : RecordDecl} {f : FieldDecl} {key : String}

theorem mem_readFields : f ∈ r.readFields ↔ f ∈ r.fields ∧ f.inShape = true := List.mem_filter

theorem mem_shape {s : Shape} : (key, s) ∈ (r.shape.map fun f => (f.1, Shape.deferred f.2)) ↔
    ∃ f ∈ r.readFields, f.name = key ∧ s = .deferred f.type := by
  constructor
  · intro h
    obtain ⟨⟨name, t⟩, hsort, heq⟩ := List.mem_map.mp h
    obtain ⟨f, hf, hpair⟩ := List.mem_map.mp (Entries.mem_sort.mp hsort)
    cases hpair
    cases heq
    exact ⟨f, hf, rfl, rfl⟩
  · rintro ⟨f, hf, rfl, rfl⟩
    exact List.mem_map.mpr ⟨(f.name, f.type),
      Entries.mem_sort.mpr (List.mem_map.mpr ⟨f, hf, rfl⟩), rfl⟩

theorem fieldOf?_some (h : r.fieldOf? key = some f) : f ∈ r.readFields ∧ f.key = key := by
  have hp := List.find?_some h
  simp only [Bool.and_eq_true, decide_eq_true_eq] at hp
  exact ⟨mem_readFields.mpr ⟨List.mem_of_find?_eq_some h, hp.1⟩, hp.2⟩

theorem exists_fieldOf? (hf : f ∈ r.readFields) : ∃ g, r.fieldOf? f.key = some g := by
  obtain ⟨hmem, hshape⟩ := mem_readFields.mp hf
  exact Option.isSome_iff_exists.mp (List.find?_isSome.mpr ⟨f, hmem, by simp [hshape]⟩)

/-- **The field that is read under a name** of a record whose names are all different. -/
theorem Agrees.fieldOf?_eq_some_iff (agrees : r.Agrees) :
    r.fieldOf? key = some f ↔ f ∈ r.readFields ∧ f.name = key := by
  constructor
  · intro h
    obtain ⟨hf, hkey⟩ := fieldOf?_some h
    exact ⟨hf, (agrees.key_eq f hf).symm.trans hkey⟩
  · rintro ⟨hf, rfl⟩
    obtain ⟨g, hg⟩ := exists_fieldOf? hf
    rw [agrees.key_eq f hf] at hg
    obtain ⟨hgmem, hgkey⟩ := fieldOf?_some hg
    rw [hg, List.inj_on_of_nodup_map agrees.nodup hgmem hf (agrees.key_eq g hgmem ▸ hgkey)]

end RecordDecl

end GraphQLCall
