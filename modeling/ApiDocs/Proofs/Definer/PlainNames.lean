import ApiDocs.Proofs.Definer.Invariant
import ApiDocs.Proofs.Names

/-!
# Targets under plain names

If units declare plain names and refer to plain names, every target that a definer sets leads to a
stored definition with the name of the reference (`Member.Leads`). The answers of the loader may
change, and import paths may differ in slashes and points alone: what is stored under the name that
a reference asks for has the reference's own name, whichever unit it is of.
-/

namespace ApiDocs

/-! ## Plain declarations -/

/-- The type texts inside a field's type that need a declaration. -/
def FieldDecl.references (field : FieldDecl) : List String :=
  (Member.ofTypeText field.typeText.toList {}).references

/-- The type has a plain name and its fields refer to plain names. -/
def TypeDecl.IsPlain (decl : TypeDecl) : Prop :=
  Plain decl.name ∧
    ∀ field ∈ decl.fields, ∀ text ∈ field.references, Plain (TypeText.reference text).name

instance (decl : TypeDecl) : Decidable decl.IsPlain :=
  inferInstanceAs (Decidable (Plain decl.name ∧
    ∀ field ∈ decl.fields, ∀ text ∈ field.references, Plain (TypeText.reference text).name))

/-- All types that any answer declares are plain. -/
def Loader.IsPlain (loader : Loader) : Prop :=
  ∀ path, ∀ answer ∈ loader.answers path, ∀ group ∈ answer.groupList, ∀ decl ∈ group.types,
    decl.IsPlain

theorem Loader.isPlain_fixed {units : Table (List DeclGroup)}
    (plain : ∀ entry ∈ units, ∀ group ∈ entry.2, ∀ decl ∈ group.types, decl.IsPlain) :
    (Loader.fixed units).IsPlain := by
  intro path answer answered group among decl declared
  obtain ⟨groups, present, inGroups⟩ := Loader.exists_mem_of_mem_answers_fixed answered among
  exact plain _ present group inGroups decl declared

/-- The definition has a plain name, and so has all that it refers to. -/
structure Definition.IsPlain (d : Definition) : Prop where
  name : Plain d.name
  members : ∀ entry ∈ d.members, ∀ text ∈ entry.2.references, Plain (TypeText.reference text).name
  embedded : ∀ text ∈ d.embedded, Scope.isMergeable text = true →
    Plain (TypeText.reference text).name

theorem TypeText.reference_stripPointers (text : String) :
    reference (.ofList (stripPointers text.toList)) = reference text := by
  rw [reference, reference, String.toList_ofList, stripPointers_stripPointers]

/-- What can be merged is a reference of the field that embeds it. -/
theorem FieldDecl.plain_of_isMergeable {field : FieldDecl}
    (plain : ∀ text ∈ field.references, Plain (TypeText.reference text).name)
    (mergeable : Scope.isMergeable field.typeText = true) :
    Plain (TypeText.reference field.typeText).name := by
  rw [Scope.isMergeable] at mergeable
  split at mergeable
  · rename_i bare shaped
    have stripped : bare = TypeText.stripPointers field.typeText.toList := by
      rw [TypeText.shape] at shaped
      split at shaped
      · cases shaped
      · split at shaped
        · cases shaped
        · cases shaped
          rfl
    have only : (.ofList bare) ∈ field.references := by
      rw [references, Member.ofTypeText_of_scalar shaped, Member.references,
        if_neg (by simpa using mergeable)]
      exact List.mem_singleton_self _
    rw [← TypeText.reference_stripPointers, ← stripped]
    exact plain _ only
  · cases mergeable

/-- What a plain loader offers is plain. -/
theorem Scope.Offers.isPlain {scope : Scope} {path : ImportPath} {name : String} {d : Definition}
    (plain : scope.loader.IsPlain) (offers : scope.Offers path name d) : d.IsPlain := by
  have named := offers.core_eq.2
  obtain ⟨_, answer, answered, group, decl, values, selected, declares, rfl⟩ := offers
  obtain ⟨plainName, plainFields⟩ := plain path answer answered group (mem_of_selectGroup selected)
    decl (List.mem_of_find?_eq_some declares)
  obtain ⟨members, embedded⟩ := decl.fields_of_definition group.name path
  have matched : decl.name = name := by simpa using List.find?_some declares
  refine ⟨?_, fun entry among text refers => ?_, fun text among mergeable => ?_⟩
  · rw [named, ← matched]
    exact plainName
  · obtain ⟨field, declared, given⟩ := members entry among
    obtain ⟨info, built, _⟩ := Member.of_member? given
    refine plainFields field declared text ?_
    rw [FieldDecl.references, Member.references_ofTypeText_info _ {} info, ← built]
    exact refers
  · obtain ⟨field, declared, rfl⟩ := embedded text among
    exact FieldDecl.plain_of_isMergeable (plainFields field declared) mergeable

/-! ## Where targets lead -/

/-- Every target inside the member is the unit of a stored definition that has the name of the
reference. -/
def Member.Leads (store : Store) : Member → Prop
  | .scalar _ text target => ∀ unit, target = some unit → TypeText.isPrimitive text = false →
    ∃ d, store.get? d.canonical = some d ∧ d.target = unit ∧ d.name = (TypeText.reference text).name
  | .collection _ element => element.Leads store
  | .mapping _ key value => key.Leads store ∧ value.Leads store

namespace Member

theorem leads_bare (store : Store) (m : Member) : m.bare.Leads store := by
  induction m with
  | scalar info text target => exact nofun
  | collection info element ih => exact ih
  | mapping info key value ihKey ihValue => exact ⟨ihKey, ihValue⟩

/-- Members that lead to stored definitions do so as the store grows. -/
theorem Leads.grow {state state' : Definer} (grows : state.Grows state') {m : Member}
    (leads : m.Leads state.store) : m.Leads state'.store := by
  induction m with
  | scalar info text target =>
      intro unit set needs
      obtain ⟨d, known, rfl, named⟩ := leads unit set needs
      obtain ⟨d', known', core⟩ := grows.stored _ d known
      rw [← Definition.canonical_eq_of_core core] at known'
      exact ⟨d', known', Definition.target_eq_of_core core,
        (Definition.name_eq_of_core core).trans named⟩
  | collection info element ih => exact ih leads
  | mapping info key value ihKey ihValue => exact ⟨ihKey leads.1, ihValue leads.2⟩

end Member

/-- Setting targets makes them lead to what is stored, given that everything stored is plain. -/
theorem Scope.Targets.leads {scope : Scope} {state : Definer} {referring : ImportPath}
    {m m' : Member} (targeted : scope.Targets state referring m m')
    (stored : ∀ name d, state.store.get? name = some d → d.canonical = name ∧ d.IsPlain)
    (plain : ∀ text ∈ m.references, Plain (TypeText.reference text).name)
    (leads : m.Leads state.store) : m'.Leads state.store := by
  induction targeted with
  | kept settled => exact leads
  | @found info text d needs named visited =>
      intro unit set _
      cases set
      obtain ⟨path, _, known⟩ := named
      obtain ⟨canonical, plainName⟩ := stored _ d known
      have plainText : Plain (TypeText.reference text).name :=
        plain text (by simp [Member.references, needs])
      have names := (canonicalName_eq_iff plainName.name plainText).mp canonical
      exact ⟨d, canonical ▸ known, rfl, names.2⟩
  | collection _ ih => exact ih plain leads
  | mapping _ _ ihKey ihValue =>
      exact ⟨ihKey (fun text among => plain text (List.mem_append_left _ among)) leads.1,
        ihValue (fun text among => plain text (List.mem_append_right _ among)) leads.2⟩

/-- A plain definition whose targets all lead to what is stored. -/
structure Definition.Linked (state : Definer) (d : Definition) : Prop where
  isPlain : d.IsPlain
  leads : ∀ entry ∈ d.members, entry.2.Leads state.store

/-- It lasts that definitions are plain and that their members lead to stored ones. -/
theorem lasting_linked {scope : Scope} (plain : scope.loader.IsPlain)
    (roots : ImportPath → String → Prop) (supply : List String) :
    Lasting scope roots supply Definition.Linked where
  grow grows linked := ⟨linked.isPlain, fun entry among => (linked.leads entry among).grow grows⟩
  resolve {conf referring text d journal} _ _ _ resolves := by
    obtain ⟨path, _, offers⟩ := (scope.resolve_offers referring text _).ok resolves d rfl
    refine ⟨offers.isPlain plain, fun entry among => ?_⟩
    obtain ⟨_, _, _, group, decl, values, _, _, rfl⟩ := offers
    obtain ⟨field, _, given⟩ := (decl.fields_of_definition group.name path).1 entry among
    obtain ⟨info, built, _⟩ := Member.of_member? given
    rw [built, ← Member.bare_ofTypeText]
    exact Member.leads_bare _ _
  skip {state host text texts} next _ linked := by
    refine ⟨⟨linked.isPlain.name, linked.isPlain.members, fun other among => ?_⟩, linked.leads⟩
    exact linked.isPlain.embedded other (next ▸ List.mem_cons_of_mem _ among)
  merge {conf host source stack text texts} sound all top next _ named := by
    have ours := all.opened host (top ▸ List.mem_cons_self)
    obtain ⟨path, _, known⟩ := named
    have theirs := all.stored _ source known
    obtain ⟨taken, merged, drawn⟩ := Scope.mergeMembers_eq_append host.members source.members
    have either : ∀ {entry : String × Member},
        entry ∈ Scope.mergeMembers host.members source.members →
        entry ∈ host.members ∨ entry ∈ source.members := by
      intro entry among
      rw [merged] at among
      exact (List.mem_append.mp among).imp_right (drawn entry)
    refine ⟨⟨ours.isPlain.name, fun entry among => ?_, fun other among => ?_⟩,
      fun entry among => ?_⟩
    · exact (either among).elim (ours.isPlain.members entry) (theirs.isPlain.members entry)
    · exact ours.isPlain.embedded other (next ▸ List.mem_cons_of_mem _ among)
    · exact (either among).elim (ours.leads entry) (theirs.leads entry)
  close {conf host stack members} sound all top _ targeted := by
    have ours := all.opened host (top ▸ List.mem_cons_self)
    refine ⟨⟨ours.isPlain.name, fun entry' among => ?_, ours.isPlain.embedded⟩,
      fun entry' among => ?_⟩
    · obtain ⟨entry, present, _, targets⟩ := Scope.TargetsAll.exists_targets targeted among
      rw [targets.references_eq]
      exact ours.isPlain.members entry present
    · obtain ⟨entry, present, _, targets⟩ := Scope.TargetsAll.exists_targets targeted among
      exact targets.leads
        (fun name d known => ⟨Store.canonical_of_get? known, (all.stored name d known).isPlain⟩)
        (ours.isPlain.members entry present) (ours.leads entry present)

end ApiDocs
