import ApiDocs.Definition.OfDeclaration

/-!
# References of members

The type texts inside a member that need a declaration (`Member.references`), those of them that
have no target yet (`Member.unresolved`), and a member without any target (`Member.bare`). The
members of a declaration have no targets.
-/

namespace ApiDocs.Member

/-- The type texts inside the member that are not primitive. -/
def references : Member → List String
  | .scalar _ typeText _ => if TypeText.isPrimitive typeText then [] else [typeText]
  | .collection _ element => element.references
  | .mapping _ key value => key.references ++ value.references

/-- The type texts inside the member that are not primitive and have no target. -/
def unresolved : Member → List String
  | .scalar _ typeText target =>
    if TypeText.isPrimitive typeText || target.isSome then [] else [typeText]
  | .collection _ element => element.unresolved
  | .mapping _ key value => key.unresolved ++ value.unresolved

/-- The member without targets. -/
def bare : Member → Member
  | .scalar info typeText _ => .scalar info typeText none
  | .collection info element => .collection info element.bare
  | .mapping info key value => .mapping info key.bare value.bare

theorem info_bare (m : Member) : m.bare.info = m.info := by
  cases m <;> rfl

theorem references_bare (m : Member) : m.bare.references = m.references := by
  induction m with
  | scalar info typeText target => rfl
  | collection info element ih => exact ih
  | mapping info key value ihKey ihValue => rw [bare, references, ihKey, ihValue, references]

/-- Open references are references. -/
theorem mem_references_of_unresolved {m : Member} {text : String} (open_ : text ∈ m.unresolved) :
    text ∈ m.references := by
  induction m with
  | scalar info typeText target =>
      rw [unresolved] at open_
      rw [references]
      split at open_
      · cases open_
      · rename_i needs
        rw [if_neg fun primitive => needs (by rw [primitive, Bool.true_or])]
        exact open_
  | collection info element ih => exact ih open_
  | mapping info key value ihKey ihValue =>
      rcases List.mem_append.mp open_ with inKey | inValue
      · exact List.mem_append_left _ (ihKey inKey)
      · exact List.mem_append_right _ (ihValue inValue)

/-! ## Members of type texts -/

section

variable {text key value element bare : List Char} {info : MemberInfo}

theorem ofTypeText_of_mapping (shaped : TypeText.shape text = .mapping key value) :
    ofTypeText text info =
      .mapping info (ofTypeText key info.nested) (ofTypeText value info.nested) := by
  rw [ofTypeText]
  split <;> simp_all

theorem ofTypeText_of_collection (shaped : TypeText.shape text = .collection element) :
    ofTypeText text info = .collection info (ofTypeText element info.nested) := by
  rw [ofTypeText]
  split <;> simp_all

theorem ofTypeText_of_scalar (shaped : TypeText.shape text = .scalar bare) :
    ofTypeText text info = .scalar info (.ofList bare) none := by
  rw [ofTypeText]
  split <;> simp_all

end

/-- The text of a type does not touch the information about its member. -/
theorem info_ofTypeText (text : List Char) (info : MemberInfo) :
    (ofTypeText text info).info = info := by
  rw [ofTypeText]
  split <;> rfl

/-- Members come from the text of a type without targets. -/
theorem bare_ofTypeText (text : List Char) (info : MemberInfo) :
    (ofTypeText text info).bare = ofTypeText text info := by
  fun_induction ofTypeText text info with
  | case1 text info key value shaped ihKey ihValue => rw [bare, ihKey, ihValue]
  | case2 text info element shaped ih => rw [bare, ih]
  | case3 text info scalar shaped => rfl

/-- The members of a field are bare and remember their unit. -/
theorem of_member? {field : FieldDecl} {origin : ImportPath} {m : Member}
    (given : field.member? origin = some m) :
    ∃ info, m = ofTypeText field.typeText.toList info ∧ info.origin = origin := by
  rw [FieldDecl.member?] at given
  split at given
  · cases given
  · dsimp only at given
    split at given
    · cases given
    · cases given
      exact ⟨_, rfl, rfl⟩

end ApiDocs.Member
