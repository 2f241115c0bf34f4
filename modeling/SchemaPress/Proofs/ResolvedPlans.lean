import SchemaPress.Plan.Resolve
import SchemaPress.Proofs.Results
import SchemaPress.Proofs.Tables

/-! Plans that are resolved for a bundle. Each definition has a module with one directive for its own
id, whatever the plan says about it; support modules are kept or given up, and the modules of the
definitions are laid over them. -/

namespace SchemaPress

theorem Json.eq_str_of_same {value : Json} {text : String} (same : value.same (.str text) = true) :
    value = .str text := by
  cases value with
  | str other =>
    rw [Json.same, beq_iff_eq] at same
    rw [same]
  | _ =>
    simp only [Json.same] at same
    split at same
    · contradiction
    · cases same
    · cases same

theorem modulePath_injective : Function.Injective modulePath := by
  intro first second same
  simpa [modulePath, ← String.toList_inj] using same

/-- Modules list a path. -/
def Modules.Lists (modules : Modules) (path : String) : Prop :=
  ∃ listing, modules.listing = .ok listing ∧ path ∈ Table.keys listing

namespace Plan

variable {plan resolved : Plan} {order : List OrderEntry}

/-- Whatever a plan says about a definition, its directive in a bundle is for the definition's own
id, and is lazy exactly if the definition lies on a cycle. -/
theorem bundledDirective_generate (given : Table (List Directive)) (entry : OrderEntry) :
    ∃ source declaration fields,
      bundledDirective given entry = .generate (.str entry.id) source declaration fields ∧
        declaration.lazy = .bool entry.circular := by
  unfold bundledDirective
  cases own : (Table.get? given (modulePath entry.id)).bind (findGenerate? entry.id) with
  | none => exact ⟨_, _, _, rfl, rfl⟩
  | some directive =>
    obtain ⟨directives, _, found⟩ := Option.bind_eq_some_iff.mp own
    have chosen := List.find?_some found
    cases directive with
    | generate target source declaration fields =>
      obtain rfl := Json.eq_str_of_same chosen
      exact ⟨_, _, _, rfl, rfl⟩
    | _ => cases chosen

theorem keys_bundledTable (given : Table (List Directive)) (order : List OrderEntry) :
    Table.keys (bundledTable given order) = (order.map OrderEntry.id).map modulePath := by
  simp [Table.keys, bundledTable]

theorem entry_of_path {given : Table (List Directive)} {path : String}
    (listed : path ∈ Table.keys (bundledTable given order)) :
    ∃ entry ∈ order, modulePath entry.id = path := by
  rw [keys_bundledTable, List.map_map] at listed
  exact List.mem_map.mp listed

theorem bundledModules_ok {modules result : Modules}
    (made : bundledModules modules order = .ok result) :
    ∃ given, result = .table (bundledTable given order) ∧ (modules = .table [] → given = []) := by
  unfold bundledModules at made
  split at made
  · cases made
    exact ⟨[], rfl, fun _ => rfl⟩
  · rename_i given _
    cases made
    exact ⟨given, rfl, fun none => Modules.table.inj none⟩
  · split at made
    · cases made
    · cases made
      exact ⟨[], rfl, fun _ => rfl⟩
  · cases made

/-- The support modules of a plan are kept, or given up all together. -/
theorem withModules_ok {modules : Modules} (made : plan.withModules modules = .ok resolved) :
    resolved.modules = modules ∧
      (resolved.runtime = plan.runtime ∨ resolved.runtime = .table []) := by
  unfold withModules at made
  split at made <;> cases made
  · exact ⟨rfl, .inr rfl⟩
  · exact ⟨rfl, .inl rfl⟩

theorem resolve_bundled {ids : List String} (bundled : plan.method = .bundled)
    (made : plan.resolve ids order = .ok resolved) :
    ∃ given, resolved.modules = .table (bundledTable given order) ∧
      (plan.modules = .table [] → given = []) ∧
      (resolved.runtime = plan.runtime ∨ resolved.runtime = .table []) := by
  unfold resolve at made
  rw [bundled] at made
  obtain ⟨modules, listed, made⟩ := except_bind_eq_ok.mp made
  obtain ⟨isModules, kept⟩ := withModules_ok made
  obtain ⟨given, rfl, none⟩ := bundledModules_ok listed
  exact ⟨given, isModules, none, kept⟩

theorem listings_ok {runtime modules : Listing} (listed : plan.listings = .ok (runtime, modules)) :
    plan.runtime.listing = .ok runtime ∧ plan.modules.listing = .ok modules := by
  unfold listings at listed
  split at listed
  · cases listed
  · obtain ⟨_, isRuntime, listed⟩ := except_bind_eq_ok.mp listed
    obtain ⟨_, isModules, listed⟩ := except_bind_eq_ok.mp listed
    cases listed
    exact ⟨isRuntime, isModules⟩

/-- All modules of a plan are those it lists: the support modules, with the other modules laid over
them. -/
theorem allModules_ok {all : Table (List Directive)} (made : plan.allModules = .ok all) :
    ∃ runtime modules, plan.runtime.listing = .ok runtime ∧ plan.modules.listing = .ok modules ∧
      Table.mapValues some all = Table.update runtime modules := by
  obtain ⟨⟨runtime, modules⟩, listed, made⟩ := except_bind_eq_ok.mp made
  obtain ⟨isRuntime, isModules⟩ := listings_ok listed
  refine ⟨runtime, modules, isRuntime, isModules, ?_⟩
  have each : List.Forall₂ Eq (Table.update runtime modules) (Table.mapValues some all) := by
    refine List.forall₂_map_right_iff.mpr ((mapM_eq_ok.mp made).imp ?_)
    rintro ⟨path, directives?⟩ entry here
    cases directives? <;> cases here
    rfl
  rw [List.forall₂_eq_eq_eq] at each
  exact each.symm

end Plan

end SchemaPress
