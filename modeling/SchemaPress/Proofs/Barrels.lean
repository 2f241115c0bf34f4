import SchemaPress.Proofs.BestEffort

/-! Barrels. The module that exports the others has a line for every module of the plan, also for
those that failed, and takes the place of a module that has its path. So its lines are good if and
only if nothing failed, and no text is lost if and only if no module was generated under its
path. -/

namespace SchemaPress

theorem Text.trimRight_line (text : String) : trimRight (text ++ ";\n") = text ++ ";" := by
  have blank : isBlank '\n' = true := by decide
  have solid : ¬ isBlank ';' = true := by decide
  have ending : (";\n" : String).toList = [';', '\n'] := rfl
  have cut : dropBlanksRight (text ++ ";\n").toList = text.toList ++ [';'] := by
    rw [String.toList_append, ending, dropBlanksRight, List.reverse_append]
    show (('\n' :: ';' :: text.toList.reverse).dropWhile isBlank).reverse = _
    rw [List.dropWhile_cons_of_pos blank, List.dropWhile_cons_of_neg solid, List.reverse_cons,
      List.reverse_reverse]
  rw [trimRight, cut, String.ofList_append, String.ofList_toList]

namespace ModuleText

/-- The line that exports what a module exports. -/
def exportLine (path : String) : String :=
  "export * from '" ++ path ++ "';\n"

/-- A barrel has one line for each module. -/
theorem renderBarrel_lines {paths : List String} (some : paths ≠ []) :
    renderBarrel paths = String.join (paths.map exportLine) := by
  rcases List.eq_nil_or_concat paths with none | ⟨init, last, rfl⟩
  · exact absurd none some
  · have ends : String.join ((init ++ [last]).map exportLine) =
        String.join (init.map exportLine) ++ "export * from '" ++ last ++ "'" ++ ";\n" := by
      simp [exportLine, String.append_assoc]
    rw [List.concat_eq_append]
    show Text.trimRight (String.join ((init ++ [last]).map exportLine)) ++ "\n" = _
    rw [ends, Text.trimRight_line, String.append_assoc]
    rfl

end ModuleText

namespace Compiler

variable {compiler : Compiler}

/-- Every module that a barrel has a line for was generated: it is among the outputs, and no failure
of it is noted. -/
def Basis.SoundIn (basis : compiler.Basis) (outputs : Table String) (failures : Table Failure) :
    Prop :=
  ∀ path ∈ basis.paths, path ∈ Table.keys outputs ∧ path ∉ Table.keys failures

theorem Basis.soundIn_iff (basis : compiler.Basis) (barrel : String) :
    basis.SoundIn (Table.insert barrelPath barrel basis.outcomes.yielded) basis.outcomes.failed ↔
      basis.outcomes.failed = [] := by
  have shared := basis.outcomes.divided
  rw [basis.keys_outcomes] at shared
  constructor
  · intro sound
    -- A failure would be that of a module of the plan.
    refine List.eq_nil_iff_forall_not_mem.mpr fun entry inside => ?_
    have failed := Table.mem_keys_of_mem inside
    exact (sound entry.1 (shared.right_sublist.subset failed)).2 failed
  · intro none path listed
    have unfailed : path ∉ Table.keys basis.outcomes.failed := by simp [none, Table.keys]
    have generated := (shared.mem_left basis.distinct).mpr ⟨listed, unfailed⟩
    exact ⟨Table.mem_keys_insert.mpr (.inr generated), unfailed⟩

/-- With a barrel, compiling one module for each definition succeeds, under any formatter. The
outputs are the modules that were generated and the barrel, which has a line for each module of the
plan; so it is sound if and only if nothing failed. A module keeps its text unless it has the path
of the barrel. -/
theorem barrel_sound_iff_nothing_failed (single : compiler.plan.method = .oneToOne)
    (barrel : compiler.plan.barrel.isTruthy = true) (usable : compiler.plan.Usable) :
    ∃ (basis : compiler.Basis) (outputs : Table String),
      (compile.run compiler).1.result = .ok outputs ∧
      (compile.run compiler).2.failures = basis.outcomes.failed ∧
      Divided basis.paths (Table.keys basis.outcomes.yielded) (Table.keys basis.outcomes.failed) ∧
      Table.get? outputs barrelPath = some (ModuleText.renderBarrel basis.paths) ∧
      (basis.paths ≠ [] → ModuleText.renderBarrel basis.paths =
        String.join (basis.paths.map ModuleText.exportLine)) ∧
      (basis.SoundIn outputs basis.outcomes.failed ↔ basis.outcomes.failed = []) ∧
      (∀ path, path ≠ barrelPath →
        Table.get? outputs path = Table.get? basis.outcomes.yielded path) ∧
      (barrelPath ∉ Table.keys basis.outcomes.yielded → outputs = basis.outcomes.yielded ++
        [(barrelPath, ModuleText.renderBarrel basis.paths)]) := by
  obtain ⟨basis⟩ := exists_basis usable
  have separate : compiler.plan.method ≠ .bundled := by simp [single]
  have isBarrel : (decide (compiler.plan.method = .oneToOne) && compiler.plan.barrel.isTruthy) =
      true := by simp [single, barrel]
  have compiled := basis.compiles separate
  rw [if_pos isBarrel] at compiled
  have shared := basis.outcomes.divided
  rw [basis.keys_outcomes] at shared
  refine ⟨basis, _, compiled.1, by rw [compiled.2], shared, ?_, ModuleText.renderBarrel_lines,
    basis.soundIn_iff _, fun path other => ?_, Table.insert_of_not_mem⟩
  · rw [Table.get?_insert, if_pos rfl]
  · rw [Table.get?_insert, if_neg other.symm]

/-- The compiler for a document with a module for each definition, and a barrel. -/
abbrev barrelled (document : Document) : Compiler :=
  new [] document (.plain .oneToOne (.str "bundle") (.bool true)) {} none {}

/-- A document with a definition that has no code, and one whose module has the path of a barrel. -/
def indexDocument : Document :=
  ⟨"Index", "1", [("index", Definitions.linking []),
    ("B", .unsupported ⟨"", .null, .null, false, none, []⟩ "not")]⟩

theorem barrel_sound_iff_nothing_failed_index :
    ∃ (basis : (barrelled indexDocument).Basis) (outputs : Table String),
      (compile.run (barrelled indexDocument)).1.result = .ok outputs ∧
      Table.keys basis.outcomes.failed = ["./B.ts"] ∧
      ¬ basis.SoundIn outputs basis.outcomes.failed ∧
      Table.get? outputs "./index.ts" = some (ModuleText.renderBarrel basis.paths) := by
  have anywhere : ∀ document, ∃ (basis : (barrelled document).Basis) (outputs : Table String),
      (compile.run (barrelled document)).1.result = .ok outputs ∧
      (compile.run (barrelled document)).2.failures = basis.outcomes.failed ∧
      Table.get? outputs "./index.ts" = some (ModuleText.renderBarrel basis.paths) ∧
      (basis.SoundIn outputs basis.outcomes.failed ↔ basis.outcomes.failed = []) := by
    intro document
    obtain ⟨basis, outputs, compiled, failures, _, lines, _, sound, _⟩ :=
      (barrel_sound_iff_nothing_failed rfl rfl (Plan.usable_plain _ _ _) :
        ∃ basis : (barrelled document).Basis, _)
    exact ⟨basis, outputs, compiled, failures, lines, sound⟩
  obtain ⟨basis, outputs, compiled, failures, lines, sound⟩ := anywhere indexDocument
  have failed : Table.keys basis.outcomes.failed = ["./B.ts"] := by
    rw [← failures]
    decide +kernel
  refine ⟨basis, outputs, compiled, failed, fun good => ?_, lines⟩
  rw [sound.mp good] at failed
  exact absurd failed (List.cons_ne_nil _ _).symm

/-- A barrel exports a module that failed, and takes the place of a module that did not. -/
theorem barrel_exports_failure_and_replaces_module :
    (compile.run (plainly .oneToOne indexDocument)).1.result.toOption.map Table.keys =
        some ["./index.ts"] ∧
      (compile.run (barrelled indexDocument)).1.result.toOption =
        some [("./index.ts", "export * from './index.ts';\nexport * from './B.ts';\n")] ∧
      Table.keys (compile.run (barrelled indexDocument)).2.failures = ["./B.ts"] := by
  decide +kernel

end Compiler

end SchemaPress
