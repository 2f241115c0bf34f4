import SchemaPress.Proofs.PlainPlans

/-! Plans that can be used. A plan may hold values that nobody has checked; if what it lists are
modules, and every id in it can be looked up, then it can be resolved for any document and has a
generator. What is wrong with a single module shows when that module is generated. -/

namespace SchemaPress

/-- The ids of all schemas that listed modules are made from can be looked up. -/
def Keyed (entries : Table (List Directive)) : Prop :=
  ∀ entry ∈ entries, ∀ directive ∈ entry.2, directive.source.isKey = true

/-- What a plan has to be made of: modules by path, of which the support modules have a path each,
overrides of some kind, and nothing in place of what it needs for itself. -/
structure Plan.Usable (plan : Plan) : Prop where
  runtime : ∃ entries, plan.runtime = .table entries ∧ (Table.keys entries).Nodup ∧ Keyed entries
  modules : ∃ entries, plan.modules = .table entries ∧ Keyed entries
  overrides : plan.overrides ≠ .absent
  untaken : plan.taken = []

theorem Plan.usable_plain (method : Method) (bundleName barrel : Json) :
    (plain method bundleName barrel).Usable :=
  ⟨⟨[], rfl, List.nodup_nil, List.forall_mem_nil _⟩, ⟨[], rfl, List.forall_mem_nil _⟩, nofun, rfl⟩

theorem Keyed.update {below entries : Table (List Directive)} (first : Keyed below)
    (second : Keyed entries) : Keyed (Table.update below entries) := by
  intro entry inside
  rcases Table.mem_of_update inside with inside | inside
  · exact first entry inside
  · exact second entry inside

theorem keyed_derivedModules (ids : List String) : Keyed (Plan.derivedModules ids) := by
  intro entry inside directive member
  obtain ⟨id, _, rfl⟩ := List.mem_map.mp inside
  obtain rfl := List.mem_singleton.mp member
  rfl

theorem keyed_bundledTable (given : Table (List Directive)) (order : List OrderEntry) :
    Keyed (Plan.bundledTable given order) := by
  intro entry inside directive member
  obtain ⟨place, _, rfl⟩ := List.mem_map.mp inside
  obtain rfl := List.mem_singleton.mp member
  obtain ⟨source, declaration, fields, isDirective, _⟩ := Plan.bundledDirective_generate given place
  rw [isDirective]
  cases source <;> rfl

theorem Locators.addModules_keyed (isRuntime : String → Bool) {entries : Table (List Directive)}
    (keyed : Keyed entries) (locators : Locators) :
    ∃ result, addModules isRuntime locators (Table.mapValues some entries) = .ok result := by
  refine foldlM_ok ?_ locators
  intro entry inside locators
  obtain ⟨listed, member, rfl⟩ := List.mem_map.mp inside
  refine foldlM_ok ?_ locators
  intro directive isDirective locators
  have isKey : directive.source.asKey = .ok directive.source := by
    simp [Json.asKey, keyed listed member directive isDirective]
  exact ⟨_, except_bind_eq_ok.mpr ⟨_, isKey, rfl⟩⟩

namespace Plan.Usable

variable {plan : Plan}

/-- A usable plan takes other modules and stays usable. -/
theorem withModules (usable : plan.Usable) {entries : Table (List Directive)}
    (keyed : Keyed entries) :
    plan.withModules (.table entries) = .ok { plan with modules := .table entries } ∧
      Usable { plan with modules := .table entries } := by
  refine ⟨?_, usable.runtime, ⟨entries, rfl, keyed⟩, usable.overrides, usable.untaken⟩
  obtain ⟨method, bundleName, barrel, overrides, runtime, modules, taken⟩ := plan
  obtain ⟨⟨support, rfl, _⟩, _, present, rfl⟩ := usable
  cases overrides with
  | known | unusable => rfl
  | absent => exact absurd rfl present

/-- A usable plan can be resolved, whatever the document defines in whichever order. -/
theorem resolve (usable : plan.Usable) (ids : List String) (order : List OrderEntry) :
    ∃ entries, plan.resolve ids order = .ok { plan with modules := .table entries } ∧
      Usable { plan with modules := .table entries } := by
  obtain ⟨given, isGiven, keyed⟩ := usable.modules
  -- Whichever modules the method asks for, the plan takes them.
  have taken : ∀ {entries : Table (List Directive)} {made : Except Failure Modules},
      Keyed entries → made = .ok (.table entries) →
      ∃ entries, made >>= plan.withModules = .ok { plan with modules := .table entries } ∧
        Usable { plan with modules := .table entries } := by
    intro entries made keyed isMade
    obtain ⟨resolved, still⟩ := usable.withModules keyed
    exact ⟨entries, except_bind_eq_ok.mpr ⟨_, isMade, resolved⟩, still⟩
  unfold Plan.resolve
  rw [isGiven]
  dsimp only
  split
  · exact taken ((keyed_derivedModules ids).update keyed) rfl
  · refine taken (keyed_bundledTable given order) ?_
    cases order <;> rfl
  · exact taken (Keyed.update (List.forall_mem_nil _) keyed) rfl

theorem listings (usable : plan.Usable) :
    ∃ runtime modules,
      plan.listings = .ok (Table.mapValues some runtime, Table.mapValues some modules) ∧
      (Table.keys runtime).Nodup ∧ Keyed (Table.update runtime modules) ∧
      ∃ entries, plan.modules = .table entries := by
  obtain ⟨runtime, isRuntime, distinct, keyed⟩ := usable.runtime
  obtain ⟨modules, isModules, others⟩ := usable.modules
  refine ⟨runtime, modules, ?_, distinct, keyed.update others, modules, isModules⟩
  simp only [Plan.listings, isTaken, usable.untaken, isRuntime, isModules]
  rfl

/-- A usable plan has a generator, with a module for each path that the plan lists. -/
theorem prepared (usable : plan.Usable) (workingDir : List String) (table : Definitions)
    (isBefore : String → Json → Except Failure Bool) :
    ∃ generator, Generator.ofPlan workingDir table plan isBefore = .ok generator ∧
      plan.allModules = .ok generator.modules ∧ (Table.keys generator.modules).Nodup := by
  obtain ⟨runtime, modules, listed, distinct, keyed, given, isGiven⟩ := usable.listings
  have laid := Table.mapValues_update some runtime modules
  have all : plan.allModules = .ok (Table.update runtime modules) := by
    refine except_bind_eq_ok.mpr ⟨_, listed, ?_⟩
    show (Table.update _ _).mapM _ = _
    rw [← laid, mapM_eq_ok, Table.mapValues, List.forall₂_map_left_iff, List.forall₂_same]
    exact fun _ _ => rfl
  obtain ⟨found, located⟩ : ∃ locators, plan.locators = .ok locators := by
    obtain ⟨locators, added⟩ := Locators.addModules_keyed
      (fun path => Table.has (Table.mapValues some runtime) path &&
        !Table.has (Table.mapValues some modules) path) keyed []
    refine ⟨locators, except_bind_eq_ok.mpr ⟨_, listed, except_bind_eq_ok.mpr ⟨locators, ?_, ?_⟩⟩⟩
    · rw [← laid]
      exact added
    · rw [isGiven]
      rfl
  refine ⟨_, except_bind_eq_ok.mpr ⟨_, located, except_bind_eq_ok.mpr ⟨_, all, rfl⟩⟩, all, ?_⟩
  exact Table.nodup_keys_update distinct

end Plan.Usable

end SchemaPress
