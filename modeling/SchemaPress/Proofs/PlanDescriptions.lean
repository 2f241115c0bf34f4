import SchemaPress.Plan.Entries
import SchemaPress.Proofs.Mentions

/-! Plans and the objects that describe them. Every directive, with whatever is stated or left out
in it, is read back from its description, and so are modules in their order. A plan is read back
exactly if it holds nothing that an object cannot say; what else can be described is read back
without its overrides. -/

namespace SchemaPress

theorem Method.ofJson_name (method : Method) : ofJson (.str method.name) = .ok method := by
  cases method <;> rfl

theorem OptionalField.ofJson_name (form : OptionalField) : ofJson (.str form.name) = .ok form := by
  cases form <;> rfl

namespace Directive

variable {key other : String} {rest : Table Json}

/-- An entry that may be left out does not hide other entries. -/
theorem optional_of_ne (value : Json) (rest : Table Json) (different : key ≠ other) :
    Json.optional (given key value ++ rest) other = Json.optional rest other := by
  unfold given
  split
  · rfl
  · simp [Json.optional, Table.get?, different]

/-- An entry reads as its value, also if it is left out because that is null. -/
theorem optional_given (value : Json) (absent : Json.optional rest key = .null) :
    Json.optional (given key value ++ rest) key = value := by
  unfold given
  split
  · rename_i null
    cases value with
    | null => exact absent
    | _ => cases null
  · simp [Json.optional, Table.get?]

theorem optional_type (declaration : Declaration) :
    Json.optional (typeEntries declaration) "type_declaration" = declaration.type := by
  refine optional_given _ ?_
  rw [← List.append_nil (given _ _), optional_of_ne _ _ (by decide)]
  rfl

theorem optional_encoded (declaration : Declaration) :
    Json.optional (typeEntries declaration) "type_declaration_encoded" = declaration.encoded := by
  rw [typeEntries, optional_of_ne _ _ (by decide), ← List.append_nil (given _ _)]
  exact optional_given _ rfl

theorem optional_typeEntries_of_ne (declaration : Declaration) (first : "type_declaration" ≠ key)
    (second : "type_declaration_encoded" ≠ key) :
    Json.optional (typeEntries declaration) key = .null := by
  rw [typeEntries, optional_of_ne _ _ first, ← List.append_nil (given _ _),
    optional_of_ne _ _ second]
  rfl

/-- Directives of all kinds are read back, with what is stated in them and what is not. -/
theorem ofJson_toJson (directive : Directive) : ofJson directive.toJson = .ok directive := by
  cases directive with
  | literal id code => rfl
  | inline id schema declaration =>
    show Except.ok (Directive.inline id schema ⟨declaration.lazy,
      Json.optional (typeEntries declaration) "type_declaration",
      Json.optional (typeEntries declaration) "type_declaration_encoded"⟩) = _
    rw [optional_type, optional_encoded]
  | generate id source declaration fields =>
    obtain ⟨entries, isEntries⟩ : ∃ entries, entries =
      given "source_schema_id" source ++ given "fields" fields ++ typeEntries declaration := ⟨_, rfl⟩
    have read : ofJson (Directive.generate id source declaration fields).toJson =
        .ok (.generate id (Json.optional entries "source_schema_id")
          ⟨declaration.lazy, Json.optional entries "type_declaration",
            Json.optional entries "type_declaration_encoded"⟩ (Json.optional entries "fields")) := by
      rw [isEntries]
      rfl
    rw [List.append_assoc] at isEntries
    have isSource : Json.optional entries "source_schema_id" = source := by
      rw [isEntries]
      refine optional_given _ ?_
      rw [optional_of_ne _ _ (by decide), optional_typeEntries_of_ne _ (by decide) (by decide)]
    have isFields : Json.optional entries "fields" = fields := by
      rw [isEntries, optional_of_ne _ _ (by decide)]
      exact optional_given _ (optional_typeEntries_of_ne _ (by decide) (by decide))
    have others : ∀ key, "source_schema_id" ≠ key → "fields" ≠ key →
        Json.optional entries key = Json.optional (typeEntries declaration) key := by
      intro key first second
      rw [isEntries, optional_of_ne _ _ first, optional_of_ne _ _ second]
    rw [read, isSource, isFields, others _ (by decide) (by decide), others _ (by decide) (by decide),
      optional_type, optional_encoded]

end Directive

namespace Modules

theorem directivesOf_toJson (directives : List Directive) :
    directivesOf (.obj [("definitions", .arr (directives.map Directive.toJson))]) =
      .ok directives := by
  show (directives.map Directive.toJson).mapM Directive.ofJson = .ok directives
  rw [mapM_eq_ok, List.forall₂_map_left_iff, List.forall₂_same]
  exact fun directive _ => directive.ofJson_toJson

/-- What describes modules describes a table of them. -/
theorem toJson_eq_ok {modules : Modules} {value : Json} (described : modules.toJson = .ok value) :
    ∃ entries, (Modules.table entries).toJson = .ok value := by
  unfold toJson at described
  split at described
  · rename_i entries
    exact ⟨entries, described⟩
  · exact ⟨[], described⟩
  · cases described
  · cases described
  · cases described

end Modules

namespace Plan

/-- Modules are read back in their order, each with its directives in theirs. -/
theorem setModules_toJson {entries : Table (List Directive)} {value : Json} (old : Modules)
    (described : (Modules.table entries).toJson = .ok value) :
    setModules old value = .ok (.table entries) := by
  cases described
  refine except_bind_eq_ok.mpr ⟨entries, ?_, rfl⟩
  rw [mapM_eq_ok, List.forall₂_map_left_iff, List.forall₂_same]
  rintro ⟨path, directives⟩ _
  exact except_bind_eq_ok.mpr ⟨directives, Modules.directivesOf_toJson directives, rfl⟩

theorem overridesOf_name (form : OptionalField) :
    overridesOf [("optional_field_representation", .str form.name)] =
      .ok (.known { optionalField := form }) :=
  except_bind_eq_ok.mpr ⟨form, form.ofJson_name, rfl⟩

/-- The plan with nothing but what an object can say. -/
def stated (method : Method) (bundleName barrel : Json) (form : OptionalField)
    (runtime modules : Table (List Directive)) : Plan where
  method := method
  bundleName := bundleName
  barrel := barrel
  overrides := .known { optionalField := form }
  runtime := .table runtime
  modules := .table modules

/-- Nothing in a plan is beyond what an object can say: it has modules by path, overrides that keep
the usual code, and nothing in place of what it needs for itself. -/
structure Describable (plan : Plan) : Prop where
  overrides : ∃ overrides, plan.overrides = .known overrides ∧ overrides.Silent
  runtime : ∃ entries, plan.runtime = .table entries
  modules : ∃ entries, plan.modules = .table entries
  untaken : plan.taken = []

theorem describable_stated (method : Method) (bundleName barrel : Json) (form : OptionalField)
    (runtime modules : Table (List Directive)) :
    (stated method bundleName barrel form runtime modules).Describable :=
  ⟨⟨_, rfl, rfl, rfl, rfl, rfl, rfl⟩, ⟨runtime, rfl⟩, ⟨modules, rfl⟩, rfl⟩

theorem Describable.eq_stated {plan : Plan} (describable : plan.Describable) :
    ∃ form runtime modules,
      plan = stated plan.method plan.bundleName plan.barrel form runtime modules := by
  obtain ⟨⟨overrides, isOverrides, silent⟩, ⟨runtime, isRuntime⟩, ⟨modules, isModules⟩, untaken⟩ :=
    describable
  obtain ⟨schema, string, number, boolean, null, form⟩ := overrides
  obtain ⟨rfl, rfl, rfl, rfl, rfl⟩ := silent
  refine ⟨form, runtime, modules, ?_⟩
  obtain ⟨method, bundleName, barrel, _, _, _, taken⟩ := plan
  cases isOverrides
  cases isRuntime
  cases isModules
  cases untaken
  rfl

/-- A plan that says only what an object can say is read back from its description. -/
theorem stated_reads_back (method : Method) (bundleName barrel : Json) (form : OptionalField)
    (runtime modules : Table (List Directive)) :
    ∃ value, (stated method bundleName barrel form runtime modules).toJson = .ok value ∧
      ofJson value = .ok (stated method bundleName barrel form runtime modules) := by
  refine ⟨_, rfl, except_bind_eq_ok.mpr ⟨_, rfl, ?_⟩⟩
  -- The entries are set one after the other; two of them are kept as they are.
  refine except_bind_eq_ok.mpr ⟨_, except_bind_eq_ok.mpr ⟨_, method.ofJson_name, rfl⟩, ?_⟩
  refine except_bind_eq_ok.mpr ⟨_, rfl, except_bind_eq_ok.mpr ⟨_, rfl, ?_⟩⟩
  refine except_bind_eq_ok.mpr ⟨_, except_bind_eq_ok.mpr ⟨_, overridesOf_name form, rfl⟩, ?_⟩
  refine except_bind_eq_ok.mpr ⟨_, except_bind_eq_ok.mpr ⟨_, setModules_toJson _ rfl, rfl⟩, ?_⟩
  exact except_bind_eq_ok.mpr ⟨_, except_bind_eq_ok.mpr ⟨_, setModules_toJson _ rfl, rfl⟩, rfl⟩

/-- Whatever can be described has the description of a plan that says only what an object can
say. -/
theorem toJson_eq_stated {plan : Plan} {value : Json} (described : plan.toJson = .ok value) :
    ∃ form runtime modules,
      (stated plan.method plan.bundleName plan.barrel form runtime modules).toJson = .ok value := by
  unfold toJson at described
  cases first : plan.isTaken descriptionName <;> cases second : plan.isTaken methodName <;>
    rw [first, second] at described
  case false.false =>
    obtain ⟨form, _, described⟩ := except_bind_eq_ok.mp described
    obtain ⟨support, isSupport, described⟩ := except_bind_eq_ok.mp described
    obtain ⟨listed, isListed, described⟩ := except_bind_eq_ok.mp described
    cases described
    obtain ⟨runtime, isRuntime⟩ := Modules.toJson_eq_ok isSupport
    obtain ⟨modules, isModules⟩ := Modules.toJson_eq_ok isListed
    exact ⟨form, runtime, modules, except_bind_eq_ok.mpr ⟨form, rfl, except_bind_eq_ok.mpr
      ⟨support, isRuntime, except_bind_eq_ok.mpr ⟨listed, isModules, rfl⟩⟩⟩⟩
  all_goals cases described

/-- Plans are read back from their descriptions. A plan has a description from which exactly this
plan is read, with all modules and directives in their order, if and only if it holds nothing that
an object cannot say. Every other plan that has a description shares it with such a plan, which is
then the one that is read. -/
theorem descriptions_read_back (plan : Plan) :
    ((∃ value, plan.toJson = .ok value ∧ ofJson value = .ok plan) ↔ plan.Describable) ∧
      ∀ value, plan.toJson = .ok value →
        ∃ again, ofJson value = .ok again ∧ again.Describable ∧ again.toJson = .ok value := by
  have again : ∀ value, plan.toJson = .ok value →
      ∃ again, ofJson value = .ok again ∧ again.Describable ∧ again.toJson = .ok value := by
    intro value described
    obtain ⟨form, runtime, modules, same⟩ := toJson_eq_stated described
    obtain ⟨_, isValue, read⟩ :=
      stated_reads_back plan.method plan.bundleName plan.barrel form runtime modules
    obtain rfl := Except.ok.inj (same.symm.trans isValue)
    exact ⟨_, read, describable_stated _ _ _ _ _ _, same⟩
  refine ⟨⟨?_, ?_⟩, again⟩
  · rintro ⟨value, described, read⟩
    obtain ⟨other, isOther, describable, _⟩ := again value described
    obtain rfl := Except.ok.inj (read.symm.trans isOther)
    exact describable
  · intro describable
    obtain ⟨form, runtime, modules, isStated⟩ := describable.eq_stated
    rw [isStated]
    exact stated_reads_back _ _ _ _ _ _

/-- A plan with a directive of each kind. -/
def manifold : Plan where
  method := .custom
  barrel := .bool true
  overrides := .known { optionalField := .nullish }
  runtime := .table [("./support/Id.ts", [.literal (.str "Id") (.str "S.String")])]
  modules := .table [
    ("./b.ts", [.generate (.str "B") (.str "Base") { lazy := .bool true, type := .str "T" }
      (.obj [("Main", .obj [("id, name", .obj [])])]), .generate (.str "C") .null {} .null]),
    ("./a.ts", [.inline (.str "A") (.obj []) { encoded := .str "" }]), ("./empty.ts", [])]

theorem descriptions_read_back_manifold :
    ∃ value, manifold.toJson = .ok value ∧ ofJson value = .ok manifold := by
  have describable : manifold.Describable :=
    ⟨⟨_, rfl, rfl, rfl, rfl, rfl, rfl⟩, ⟨_, rfl⟩, ⟨_, rfl⟩, rfl⟩
  exact (descriptions_read_back manifold).1.mpr describable

end Plan

end SchemaPress
