import SchemaRpc.Proofs.Json.Parts
import SchemaRpc.Proofs.Schema.Document
import SchemaRpc.Proofs.TypeDef.Refs
import SchemaRpc.Proofs.Registry.Calls

/-!
# The names in a schema

A schema mentions a definition by a text under one of three keywords, at any depth. Read off the document alone, the names
it mentions are those of its procedures and those that its definitions refer to.
-/

namespace SchemaRpc

namespace Json

/-- The keywords whose texts are names of definitions. -/
def nameKeywords : List String :=
  ["params", "response", "ref"]

/-- Somewhere in the JSON a name stands under one of the keywords. -/
inductive Mentions (name : String) : Json → Prop
  | keyword {keyword : String} {members : List (String × Json)} :
      keyword ∈ nameKeywords →
      (keyword, .str name) ∈ members →
      Mentions name (.obj members)
  | part {json part : Json} :
      part ∈ json.parts →
      Mentions name part →
      Mentions name json

/-- A member mentions a name by its own text or further inside. -/
def MemberMentions (name : String) (member : String × Json) : Prop :=
  (member.1 ∈ nameKeywords ∧ member.2 = .str name) ∨ Mentions name member.2

variable {name : String} {members : List (String × Json)}

theorem Mentions.exists_member (mentions : Mentions name (.obj members)) :
    ∃ member ∈ members, MemberMentions name member := by
  cases mentions with
  | keyword isKeyword listed =>
      exact ⟨_, listed, .inl ⟨isKeyword, rfl⟩⟩
  | part held inside =>
      obtain ⟨member, listed, rfl⟩ := List.mem_map.1 held
      exact ⟨member, listed, .inr inside⟩

theorem not_mentions_of_parts {json : Json} (notObject : ∀ members, json ≠ .obj members)
    (none : ∀ part ∈ json.parts, ¬ Mentions name part) : ¬ Mentions name json := by
  intro mentions
  cases mentions with
  | keyword =>
      exact notObject _ rfl
  | part held inside =>
      exact none _ held inside

theorem not_mentions_str (text : String) : ¬ Mentions name (.str text) :=
  not_mentions_of_parts nofun (List.forall_mem_nil _)

theorem not_mentions_bool (b : Bool) : ¬ Mentions name (.bool b) :=
  not_mentions_of_parts nofun (List.forall_mem_nil _)

theorem not_mentions_ofStrings (texts : List String) : ¬ Mentions name (ofStrings texts) := by
  refine not_mentions_of_parts nofun fun part held => ?_
  obtain ⟨text, _, rfl⟩ := List.mem_map.1 held
  exact not_mentions_str text

/-- A text under another keyword is no name. -/
theorem not_memberMentions_str {keyword : String} (other : keyword ∉ nameKeywords) (text : String) :
    ¬ MemberMentions name (keyword, .str text) := by
  rintro (⟨isKeyword, -⟩ | inside)
  · exact other isKeyword
  · exact not_mentions_str text inside

theorem not_memberMentions_bool (keyword : String) (b : Bool) : ¬ MemberMentions name (keyword, .bool b) := by
  rintro (⟨-, same⟩ | inside)
  · cases same
  · exact not_mentions_bool b inside

theorem MemberMentions.mentions_obj {keyword : String}
    (mentions : MemberMentions name (keyword, .obj members)) : Mentions name (.obj members) := by
  rcases mentions with ⟨-, same⟩ | inside
  · cases same
  · exact inside

theorem MemberMentions.eq_of_str {keyword text : String} (mentions : MemberMentions name (keyword, .str text)) :
    text = name := by
  rcases mentions with ⟨-, same⟩ | inside
  · cases same
    rfl
  · exact absurd inside (not_mentions_str text)

end Json

open Json

variable {name : String} {casing : Casing}

theorem Metadata.not_mentions (m : Metadata) : ¬ Mentions name (.obj m.toSchema) := by
  intro mentions
  obtain ⟨member, listed, inside⟩ := mentions.exists_member
  rcases List.mem_append.1 listed with texts | flag
  · rcases List.mem_append.1 texts with id | description
    · obtain ⟨text, -, rfl⟩ := Option.map_eq_some_iff.1 (Option.mem_toList.1 id)
      exact not_memberMentions_str (by decide) text inside
    · obtain ⟨text, -, rfl⟩ := Option.map_eq_some_iff.1 (Option.mem_toList.1 description)
      exact not_memberMentions_str (by decide) text inside
  · split at flag
    · cases List.mem_singleton.1 flag
      exact not_memberMentions_bool _ true inside
    · cases flag

namespace TypeDef

theorem mentions_of_memberMentions {keyword : String} {t : TypeDef}
    (mentions : MemberMentions name (keyword, t.toSchema casing)) : Mentions name (t.toSchema casing) := by
  rw [toSchema_eq] at mentions ⊢
  exact mentions.mentions_obj

theorem exists_mentions_of_propertySchemas {properties : List (Property TypeDef)} {optional : Bool} {keyword : String}
    (mentions : MemberMentions name (keyword, .obj (Members.ofPairs (propertySchemas casing optional properties)))) :
    ∃ p ∈ properties, Mentions name (p.type.toSchema casing) := by
  obtain ⟨member, written, inside⟩ := mentions.mentions_obj.exists_member
  obtain ⟨p, declared, given⟩ := List.mem_filterMap.1 (Members.mem_of_mem_ofPairs written)
  obtain ⟨document, shown, rfl⟩ := Option.map_eq_some_iff.1 given
  dsimp only at shown
  split at shown
  · cases shown
    exact ⟨p, declared, mentions_of_memberMentions inside⟩
  · cases shown

/-- What a record mentions is mentioned by the type of a property. -/
theorem exists_mentions_of_objectMembers {properties : List (Property TypeDef)} {member : String × Json}
    (listed : member ∈ objectMembers (schemaOfProperties casing ([], []) properties))
    (mentions : MemberMentions name member) : ∃ p ∈ properties, Mentions name (p.type.toSchema casing) := by
  rw [schemaOfProperties_eq_foldl] at listed
  rcases List.mem_cons.1 listed with rfl | listed
  · exact exists_mentions_of_propertySchemas mentions
  · split at listed
    · cases listed
    · cases List.mem_singleton.1 listed
      exact exists_mentions_of_propertySchemas mentions

/-- What the document of a form mentions is its own reference, or is mentioned by a definition directly inside. -/
theorem ref_or_child_mentions {form : Form TypeDef} {member : String × Json} (listed : member ∈ schemaOfForm casing form)
    (mentions : MemberMentions name member) :
    form = .ref name ∨ ∃ s ∈ form.children, Mentions name (s.toSchema casing) := by
  cases form with
  | any =>
      cases listed
  | primitive kind =>
      cases List.mem_singleton.1 listed
      exact absurd mentions (not_memberMentions_str (by decide) _)
  | enumeration values =>
      cases List.mem_singleton.1 listed
      rcases mentions with ⟨isKeyword, -⟩ | inside
      · have other : "enum" ∉ nameKeywords := by decide
        exact absurd isKeyword other
      · exact absurd inside (not_mentions_ofStrings values)
  | elements item | values item =>
      cases List.mem_singleton.1 listed
      exact .inr ⟨item, List.mem_singleton_self item, mentions_of_memberMentions mentions⟩
  | object properties =>
      obtain ⟨p, declared, inside⟩ := exists_mentions_of_objectMembers listed mentions
      exact .inr ⟨p.type, Form.mem_children_object.2 ⟨p, declared, rfl⟩, inside⟩
  | ref other =>
      cases List.mem_singleton.1 listed
      exact .inl (congrArg Form.ref mentions.eq_of_str)
  | union key mapping =>
      rcases List.mem_cons.1 listed with rfl | listed
      · exact absurd mentions (not_memberMentions_str (by decide) _)
      · cases List.mem_singleton.1 listed
        rw [schemaOfMapping_eq_foldl] at mentions
        obtain ⟨member, written, inside⟩ := mentions.mentions_obj.exists_member
        obtain ⟨variant, listed, rfl⟩ := List.mem_map.1 (Members.mem_of_mem_ofPairs written)
        have insideVariant := mentions_of_memberMentions inside
        rw [toSchema_object] at insideVariant
        obtain ⟨member, listedInside, inside⟩ := insideVariant.exists_member
        obtain ⟨p, declared, inside⟩ := exists_mentions_of_objectMembers listedInside inside
        exact .inr ⟨p.type, Form.mem_children_union.2 ⟨variant, listed, p, declared, rfl⟩, inside⟩

/-- The document of a definition mentions no other names than the definition refers to. -/
theorem mem_refs_of_mentions (t : TypeDef) (mentions : Mentions name (t.toSchema casing)) : name ∈ t.refs := by
  induction t using induct with
  | step t inductionHypothesis =>
      rw [toSchema_eq] at mentions
      obtain ⟨member, listed, inside⟩ := mentions.exists_member
      rcases List.mem_append.1 listed with listed | metadata
      rcases List.mem_append.1 listed with ofForm | flag
      · rcases ref_or_child_mentions ofForm inside with isRef | ⟨s, child, inside⟩
        · exact mem_refs_of_ref isRef
        · exact mem_refs_of_child child (inductionHypothesis s child inside)
      · split at flag
        · cases List.mem_singleton.1 flag
          exact absurd inside (not_memberMentions_bool _ true)
        · cases flag
      · split at metadata
        · cases metadata
        · cases List.mem_singleton.1 metadata
          exact absurd inside.mentions_obj t.metadata.not_mentions

end TypeDef

theorem Procedure.names_of_mentions {p : Procedure} (mentions : Mentions name p.toSchema) : p.Names name := by
  obtain ⟨member, listed, inside⟩ := mentions.exists_member
  simp only [List.mem_append, List.mem_cons, List.not_mem_nil, or_false, Option.mem_toList, Option.map_eq_some_iff]
    at listed
  rcases listed with (((texts | params) | response) | flags) | description
  · rcases texts with rfl | rfl | rfl
    all_goals exact absurd inside (not_memberMentions_str (by decide) _)
  · obtain ⟨given, stored, rfl⟩ := params
    exact .inl (stored.trans (congrArg some inside.eq_of_str))
  · obtain ⟨given, stored, rfl⟩ := response
    exact .inr (stored.trans (congrArg some inside.eq_of_str))
  · rcases flags with rfl | rfl
    all_goals exact absurd inside (not_memberMentions_bool _ _)
  · obtain ⟨text, -, rfl⟩ := description
    exact absurd inside (not_memberMentions_str (by decide) text)

theorem AppInfo.not_mentions (info : AppInfo) : ¬ Mentions name info.toJson := by
  intro mentions
  obtain ⟨member, listed, inside⟩ := mentions.exists_member
  simp only [List.mem_append, List.mem_cons, List.not_mem_nil, or_false, Option.mem_toList, Option.map_eq_some_iff]
    at listed
  rcases listed with (rfl | ⟨text, -, rfl⟩) | rfl
  all_goals exact not_memberMentions_str (by decide) _ inside

namespace Registry

variable {r : Registry}

/-- The schema mentions names of its procedures and names that its definitions refer to, and no others. -/
theorem names_of_mentions {info : AppInfo} {routePrefix : String}
    (mentions : Mentions name (r.toSchema info routePrefix casing)) :
    (∃ entry ∈ r.procedures, entry.2.Names name) ∨ ∃ entry ∈ r.definitions.completed, name ∈ entry.2.refs := by
  obtain ⟨member, listed, inside⟩ := mentions.exists_member
  rcases List.mem_append.1 listed with listed | tables
  rcases List.mem_append.1 listed with start | ofPrefix
  · rcases List.mem_cons.1 start with rfl | start
    · exact absurd inside (not_memberMentions_str (by decide) schemaVersion)
    · cases List.mem_singleton.1 start
      exact absurd inside.mentions_obj info.not_mentions
  · split at ofPrefix
    · cases ofPrefix
    · cases List.mem_singleton.1 ofPrefix
      exact absurd inside (not_memberMentions_str (by decide) routePrefix)
  · rcases List.mem_cons.1 tables with rfl | definitions
    · obtain ⟨member, shown, inside⟩ := inside.mentions_obj.exists_member
      obtain ⟨entry, registered, rfl⟩ := List.mem_map.1 shown
      exact .inl ⟨entry, registered, Procedure.names_of_mentions inside.mentions_obj⟩
    · cases List.mem_singleton.1 definitions
      obtain ⟨member, shown, inside⟩ := inside.mentions_obj.exists_member
      obtain ⟨entry, completed, rfl⟩ := List.mem_map.1 shown
      exact .inr ⟨entry, completed, entry.2.mem_refs_of_mentions (TypeDef.mentions_of_memberMentions inside)⟩

/-- The names of procedures are mentioned. -/
theorem mentions_of_names {info : AppInfo} {routePrefix : String} {entry : String × Procedure}
    (registered : entry ∈ r.procedures) (names : entry.2.Names name) :
    Mentions name (r.toSchema info routePrefix casing) := by
  have ofProcedure : Mentions name entry.2.toSchema := by
    have isParams : "params" ∈ nameKeywords := by decide
    have isResponse : "response" ∈ nameKeywords := by decide
    rcases names with named | named
    · refine .keyword isParams ?_
      simp [named]
    · refine .keyword isResponse ?_
      simp [named]
  have shown : entry.2.toSchema ∈ (obj (r.procedures.map fun entry => (entry.1, entry.2.toSchema))).parts :=
    List.mem_map.2 ⟨_, List.mem_map.2 ⟨entry, registered, rfl⟩, rfl⟩
  exact .part (List.mem_map.2 ⟨_, List.mem_append_right _ List.mem_cons_self, rfl⟩) (.part shown ofProcedure)

end Registry

end SchemaRpc
