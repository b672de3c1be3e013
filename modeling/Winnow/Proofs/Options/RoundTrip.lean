import Mathlib.Data.List.Nodup
import Mathlib.Data.List.Perm.Subperm
import Winnow.Options.Json

/-!
# Options and their JSON form

Options are read back from what they are written as. The order of the members does not matter, and a
member may be missing where it would say what is the case by default: `Options.Writes` lists all
these forms of the same options. Whatever else an object holds, a member under any other name makes
it refused.

Reading a record comes down to looking up each of its fields (`Json.fields?_ofMembers`), and a field
that is written in one of these forms is read as what it was (`readField_lookup`).
-/

namespace Winnow

namespace Json

variable {members : List (String × Json)} {names : List String} {name : String} {value : Json}

/-- The members of an object that is written under the given names. -/
theorem ofMembers_eq (members : List (String × Json)) :
    ofMembers members = .object (members.map (Prod.map some id)) := rfl

/-- Members with other names do not count. -/
theorem filter_of_absent {members : List (Option String × Json)}
    (absent : ∀ member ∈ members, member.1 ≠ some name) :
    members.filter (fun (other, _) => other == some name) = [] :=
  List.filter_eq_nil_iff.2 fun member listed same => absent member listed (eq_of_beq same)

/-- Under a name that no member has, none is found. -/
theorem only?_of_absent {members : List (Option String × Json)}
    (absent : ∀ member ∈ members, member.1 ≠ some name) : only? members name = some none := by
  rw [only?, filter_of_absent absent]

/-- A member is found if no other one has its name. -/
theorem only?_of_single {before after : List (Option String × Json)}
    (single : ∀ member ∈ before ++ after, member.1 ≠ some name) :
    only? (before ++ (some name, value) :: after) name = some (some value) := by
  obtain ⟨earlier, later⟩ := List.forall_mem_append.1 single
  rw [only?, List.filter_append, filter_of_absent earlier, List.filter_cons, filter_of_absent later]
  simp

/-- Under distinct names the member of a name is found by looking it up. -/
theorem only?_ofMembers (distinct : (members.map Prod.fst).Nodup) (name : String) :
    only? (members.map (Prod.map some id)) name = some (members.lookup name) := by
  cases looked : members.lookup name with
  | none =>
      refine only?_of_absent (List.forall_mem_map.2 fun member listed same => ?_)
      have different := List.lookup_eq_none_iff.1 looked member listed
      exact bne_iff_ne.1 different (Option.some.inj same).symm
  | some value =>
      obtain ⟨before, after, rfl, _⟩ := List.lookup_eq_some_iff.1 looked
      have apart : name ∉ (before ++ after).map Prod.fst := by
        rw [List.map_append, List.map_cons, List.nodup_middle, List.nodup_cons] at distinct
        rw [List.map_append]
        exact distinct.1
      rw [List.map_append, List.map_cons]
      refine only?_of_single ?_
      rw [← List.map_append]
      refine List.forall_mem_map.2 fun member listed same => apart ?_
      exact Option.some.inj same ▸ List.mem_map_of_mem listed

/-- The fields of an object with distinct and known names are looked up one by one. -/
theorem fields?_ofMembers (distinct : (members.map Prod.fst).Nodup)
    (known : ∀ member ∈ members, member.1 ∈ names) (lenient : Bool) :
    (ofMembers members).fields? names lenient = some (names.map (members.lookup ·)) := by
  have named : (members.map (Prod.map some id)).all
      (fun (name, _) => name.any fun known => lenient || names.contains known) = true := by
    simp only [List.all_map, List.all_eq_true]
    intro member listed
    simp [known member listed]
  have looked : only? (members.map (Prod.map some id)) = fun name => pure (members.lookup name) :=
    funext (only?_ofMembers distinct)
  rw [ofMembers_eq, fields?, if_pos named, looked, List.mapM_pure]
  rfl

/-- An object with a member under an unknown name is refused, unless that is to be passed over. -/
theorem fields?_of_unknown {members : List (Option String × Json)}
    (unknown : ∃ member ∈ members, ∀ known ∈ names, member.1 ≠ some known) :
    (object members).fields? names false = none := by
  obtain ⟨⟨name, value⟩, listed, stranger⟩ := unknown
  rw [fields?, if_neg]
  intro named
  have recognised := List.all_eq_true.1 named _ listed
  cases name with
  | none => cases recognised
  | some name =>
      refine stranger name ?_ rfl
      simpa using recognised

/-- A truth value is read back. -/
theorem bool?_bool (value : Bool) : (bool value).bool? = some value := rfl

end Json

/-- An operation is read back. -/
theorem Operation.ofJson?_toJson (operation : Operation) :
    ofJson? operation.toJson = some operation := by
  cases operation <;> rfl

namespace Options

variable {options : Options} {given : List (String × Json)} {name : String} {value : Json}
  {α : Type}

/-- The members are written under the names of the fields. -/
theorem map_fst_members (options : Options) : options.members.map Prod.fst = fieldNames := rfl

/-- No two members have the same name. -/
theorem nodup_members (options : Options) : (options.members.map Prod.fst).Nodup := by
  rw [map_fst_members]
  decide

/-- A text that may be absent is read back, and an empty one is not absent. -/
theorem optionalText?_textToJson (text : Option String) :
    (textToJson text).optionalText? = some text := by
  cases text <;> rfl

/-- Members that stand for options: some of those that the options are written as, in any order, and
what is missing is what it is by default. -/
structure Writes (options : Options) (given : List (String × Json)) : Prop where
  among : given.Subperm options.members
  default : ∀ member ∈ options.members, member ∉ given → member ∈ members {}

/-- All of the members in any order stand for the options. -/
theorem writes_of_perm (order : given.Perm options.members) : Writes options given where
  among := order.subperm
  default _ listed missing := absurd (order.mem_iff.2 listed) missing

/-- The value of a field is determined by its name. -/
theorem eq_of_mem_members {other : Json} (first : (name, value) ∈ options.members)
    (second : (name, other) ∈ options.members) : value = other :=
  congrArg Prod.snd (List.inj_on_of_nodup_map options.nodup_members first second rfl)

namespace Writes

/-- No name is given twice. -/
theorem nodup (writes : Writes options given) : (given.map Prod.fst).Nodup := by
  obtain ⟨part, order, sublist⟩ := writes.among
  have distinct : (part.map Prod.fst).Nodup :=
    options.nodup_members.sublist (sublist.map Prod.fst)
  exact (order.map Prod.fst).nodup_iff.1 distinct

/-- No name is given that is not the name of a field. -/
theorem mem_fieldNames (writes : Writes options given) :
    ∀ member ∈ given, member.1 ∈ fieldNames := by
  intro member listed
  rw [← map_fst_members options]
  exact List.mem_map_of_mem (writes.among.subset listed)

/-- A field is read as what it was before it was written. -/
theorem readField_lookup (writes : Writes options given) {read : Json → Option α} {write : α → Json}
    (back : ∀ field, read (write field) = some field) (name : String) (field : Options → α)
    (listed : ∀ options : Options, (name, write (field options)) ∈ options.members) :
    readField read (field {}) (given.lookup name) = some (field options) := by
  cases looked : given.lookup name with
  | some value =>
      obtain ⟨before, after, rfl, _⟩ := List.lookup_eq_some_iff.1 looked
      have written : (name, value) ∈ options.members :=
        writes.among.subset (List.mem_append_right _ List.mem_cons_self)
      rw [readField, eq_of_mem_members written (listed options), back]
  | none =>
      have missing : (name, write (field options)) ∉ given := fun present =>
        bne_iff_ne.1 (List.lookup_eq_none_iff.1 looked _ present) rfl
      -- A field can be missing only if it is what the default options have there.
      have default := writes.default _ (listed options) missing
      have same := eq_of_mem_members default (listed {})
      rw [readField, ← back (field options), same, back]

/-- A filter is read as what it was before it was written. -/
theorem readField_text (writes : Writes options given) (name : String)
    (field : Options → Option String) (absent : field {} = none)
    (listed : ∀ options : Options, (name, textToJson (field options)) ∈ options.members) :
    readField Json.optionalText? none (given.lookup name) = some (field options) := by
  rw [← absent]
  exact writes.readField_lookup optionalText?_textToJson name field listed

/-- Options are read back from all of their forms. -/
theorem ofJson?_ofMembers (writes : Writes options given) :
    ofJson? (.ofMembers given) = some options := by
  have operation : readField Operation.ofJson? .copy (given.lookup "operation") =
      some options.operation :=
    writes.readField_lookup Operation.ofJson?_toJson _ Options.operation fun _ => by simp [members]
  have recursive : readField Json.bool? false (given.lookup "recursive") =
      some options.recursive :=
    writes.readField_lookup Json.bool?_bool _ Options.recursive fun _ => by simp [members]
  have includePath := writes.readField_text "includePath" Options.includePath rfl fun _ => by
    simp [members]
  have excludePath := writes.readField_text "excludePath" Options.excludePath rfl fun _ => by
    simp [members]
  have includePattern := writes.readField_text "includePattern" Options.includePattern rfl
    fun _ => by simp [members]
  have excludePattern := writes.readField_text "excludePattern" Options.excludePattern rfl
    fun _ => by simp [members]
  have includeAfter := writes.readField_text "includeAfter" Options.includeAfter rfl fun _ => by
    simp [members]
  have relativeSourcePath := writes.readField_text "relativeSourcePath" Options.relativeSourcePath
    rfl fun _ => by simp [members]
  rw [ofJson?, Json.fields?_ofMembers writes.nodup writes.mem_fieldNames]
  simp only [fieldNames, List.map_cons, List.map_nil, Option.bind_eq_bind, Option.bind_some,
    operation, recursive, includePath, excludePath, includePattern, excludePattern, includeAfter,
    relativeSourcePath]
  rfl

end Writes

/-- Options survive their JSON form. They are read back from what they are written as, and also when
the members come in another order or members that say what is the case by default are missing. An
object with a member under any other name is refused, whatever else it holds. -/
theorem survives_toJson :
    (∀ options : Options, ofJson? options.toJson = some options) ∧
      (∀ options given, Writes options given → ofJson? (.ofMembers given) = some options) ∧
      ∀ members : List (Option String × Json),
        (∃ member ∈ members, ∀ known ∈ fieldNames, member.1 ≠ some known) →
          ofJson? (.object members) = none := by
  refine ⟨fun options => ?_, fun options given writes => writes.ofJson?_ofMembers, ?_⟩
  · rw [toJson]
    exact (writes_of_perm (.refl options.members)).ofJson?_ofMembers
  · intro members unknown
    rw [ofJson?, Json.fields?_of_unknown unknown]
    rfl

/-- An empty filter and an operation, in another order and without anything else, stand for a
removal that keeps the empty filter; with a strange member beside them they stand for nothing. -/
theorem survives_toJson_reordered :
    let given : List (String × Json) := [("excludePath", .text ""), ("operation", .text "remove")]
    ofJson? (.ofMembers given) = some { operation := .remove, excludePath := some "" } ∧
      ofJson? (.object ((some "exclude_path", .null) ::
        given.map fun member => (some member.1, member.2))) = none := by
  intro given
  have writes : Writes { operation := .remove, excludePath := some "" } given := by
    constructor
    · refine ⟨[("operation", .text "remove"), ("excludePath", .text "")], .swap _ _ _, ?_⟩
      exact .cons_cons _ (.cons _ (.cons _ (.cons_cons _ (List.nil_sublist _))))
    · simp [given, members, textToJson, Operation.toJson, Operation.label, Json.text]
  constructor
  · exact survives_toJson.2.1 _ given writes
  · exact survives_toJson.2.2 _ ⟨_, List.mem_cons_self, by decide⟩

end Options

end Winnow
