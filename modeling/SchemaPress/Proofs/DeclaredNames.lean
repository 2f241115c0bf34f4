import Mathlib.Data.List.Lattice
import Mathlib.Data.List.Pairwise
import SchemaPress.Proofs.Strategies

/-! The names that a bundle declares. Every definition declares its identifier and the name of its
encoded form, and also two local types if it lies on a cycle. Neither identifiers nor the names that
are made from them are kept apart, and nothing checks that they are: a bundle declares every name
once exactly if no identifier meets a name that is made from another one. -/

namespace SchemaPress

namespace Name

/-- A definition takes a name that a definition with another identifier needs: both have the same
identifier, or the other identifier is the name of the encoded form or, if the definition is lazy,
of a local type, or else a local type has the name of the other's encoded form. -/
def Takes (isLazy : Prop) (own other : String) : Prop :=
  other = own ∨ other = own ++ "Encoded" ∨
    isLazy ∧ (other = "_" ++ own ∨ other = "_" ++ own ++ "Encoded" ∨
      other ++ "Encoded" = "_" ++ own)

/-- An id that is its own identifier and does not look like a name that is made from another one. -/
structure IsPlain (id : String) : Prop where
  isIdentifier : Name.isIdentifier id.toList = true
  start : id.toList.head? ≠ some '_'
  final : ¬ "Encoded".toList <:+ id.toList

instance (id : String) : Decidable (IsPlain id) :=
  decidable_of_iff
    (Name.isIdentifier id.toList = true ∧ id.toList.head? ≠ some '_' ∧
      ¬ "Encoded".toList <:+ id.toList)
    ⟨fun ⟨named, start, final⟩ => ⟨named, start, final⟩,
      fun plain => ⟨plain.isIdentifier, plain.start, plain.final⟩⟩

theorem identifier_of_isIdentifier {id : String} (named : isIdentifier id.toList = true) :
    identifier id = id := by
  simp [identifier, readsAsIdentifier, named]

/-- Plain ids take no names from each other. -/
theorem not_takes_of_plain {isLazy : Prop} {id other : String} (plain : IsPlain id)
    (otherPlain : IsPlain other) (different : id ≠ other) :
    ¬ Takes isLazy (identifier id) (identifier other) := by
  rw [identifier_of_isIdentifier plain.isIdentifier,
    identifier_of_isIdentifier otherPlain.isIdentifier]
  have unmarked : ∀ rest, other ≠ "_" ++ rest := by
    rintro rest rfl
    exact otherPlain.start (by simp)
  rintro (same | encoded | ⟨_, localType | localEncoded | localMeets⟩)
  · exact different same.symm
  · apply otherPlain.final
    simp [encoded]
  · exact unmarked id localType
  · rw [String.append_assoc] at localEncoded
    exact unmarked (id ++ "Encoded") localEncoded
  · -- An identifier is not empty, so the underscore would be its first character.
    have characters : other.toList ++ "Encoded".toList = '_' :: id.toList := by
      simpa using congrArg String.toList localMeets
    cases first : other.toList with
    | nil =>
      have named := otherPlain.isIdentifier
      simp [first, isIdentifier] at named
    | cons c rest =>
      rw [first, List.cons_append, List.cons.injEq] at characters
      apply otherPlain.start
      rw [first, characters.1]
      rfl

end Name

namespace Export

/-- The names that the exports declare. -/
def declared (item : Export) : List String :=
  let identifier := item.identifier
  [identifier, identifier ++ "Encoded"] ++
    if item.localTypes?.isSome then ["_" ++ identifier, "_" ++ identifier ++ "Encoded"] else []

variable {item first second : Export} {name : String}

theorem mem_declared :
    name ∈ item.declared ↔ name = item.identifier ∨ name = item.identifier ++ "Encoded" ∨
      item.localTypes?.isSome = true ∧
        (name = "_" ++ item.identifier ∨ name = "_" ++ item.identifier ++ "Encoded") := by
  by_cases present : item.localTypes?.isSome = true <;> simp [declared, present]

/-- The names that the exports of a definition declare have different lengths. -/
theorem declared_nodup (item : Export) : item.declared.Nodup := by
  have underscore : "_".length = 1 := rfl
  have encoded : "Encoded".length = 7 := rfl
  have lengths : (item.declared.map String.length).Nodup := by
    by_cases present : item.localTypes?.isSome = true
    · simp [declared, present, String.length_append, underscore, encoded]
      omega
    · simp [declared, present, String.length_append, encoded]
  exact lengths.of_map

/-- A line of the exports declares a name. -/
def DeclaresIn (item : Export) (name : String) : Prop :=
  ∃ keyword ∈ ["export const ", "export type ", "type "], ∃ body,
    keyword ++ name ++ " = " ++ body ∈ item.lines

/-- Each of the names has a line that declares it. -/
theorem declares_of_mem (member : name ∈ item.declared) : item.DeclaresIn name := by
  rcases mem_declared.mp member with rfl | rfl | ⟨present, isLocal⟩
  · exact ⟨"export const ", by simp, _, by
      simp only [lines, List.mem_append, List.mem_cons, String.append_assoc]
      exact .inr (.inl rfl)⟩
  · exact ⟨"export type ", by simp, _, by
      simp only [lines, List.mem_append, List.mem_cons, String.append_assoc]
      exact .inr (.inr (.inr (.inl rfl)))⟩
  · obtain ⟨types, isTypes⟩ := Option.isSome_iff_exists.mp present
    rcases isLocal with rfl | rfl
    · refine ⟨"type ", by simp, types.1 ++ ";", ?_⟩
      have isLine : "type " ++ ("_" ++ item.identifier) ++ " = " ++ (types.1 ++ ";") =
          "type _" ++ item.identifier ++ " = " ++ types.1 ++ ";" := by
        simp [← String.toList_inj]
      simp [isLine, lines, isTypes]
    · refine ⟨"type ", by simp, types.2 ++ ";", ?_⟩
      have isLine : "type " ++ ("_" ++ item.identifier ++ "Encoded") ++ " = " ++ (types.2 ++ ";") =
          "type _" ++ item.identifier ++ "Encoded = " ++ types.2 ++ ";" := by
        simp [← String.toList_inj]
      simp [isLine, lines, isTypes]

theorem shared_of_takes
    (takes : Name.Takes (first.localTypes?.isSome = true) first.identifier second.identifier) :
    ∃ name ∈ first.declared, name ∈ second.declared := by
  simp only [mem_declared]
  rcases takes with same | encoded | ⟨present, localType | localEncoded | meets⟩
  · exact ⟨_, .inl same, .inl rfl⟩
  · exact ⟨_, .inr (.inl encoded), .inl rfl⟩
  · exact ⟨_, .inr (.inr ⟨present, .inl localType⟩), .inl rfl⟩
  · exact ⟨_, .inr (.inr ⟨present, .inr localEncoded⟩), .inl rfl⟩
  · exact ⟨_, .inr (.inr ⟨present, .inl meets⟩), .inr (.inl rfl)⟩

/-- What two definitions both declare comes from one that takes it from the other: an ending or an
underscore that is common to both forms of the name can be left out. -/
theorem takes_of_shared (inFirst : name ∈ first.declared) (inSecond : name ∈ second.declared) :
    Name.Takes (first.localTypes?.isSome = true) first.identifier second.identifier ∨
      Name.Takes (second.localTypes?.isSome = true) second.identifier first.identifier := by
  rw [mem_declared] at inFirst inSecond
  rcases inFirst with rfl | rfl | ⟨present, rfl | rfl⟩
  · rcases inSecond with same | encoded | ⟨also, localType | localEncoded⟩
    · exact .inr (.inl same)
    · exact .inr (.inr (.inl encoded))
    · exact .inr (.inr (.inr ⟨also, .inl localType⟩))
    · exact .inr (.inr (.inr ⟨also, .inr (.inl localEncoded)⟩))
  · rcases inSecond with same | encoded | ⟨also, localType | localEncoded⟩
    · exact .inl (.inr (.inl same.symm))
    · exact .inl (.inl ((String.append_left_inj _).mp encoded).symm)
    · exact .inr (.inr (.inr ⟨also, .inr (.inr localType)⟩))
    · exact .inr (.inr (.inr ⟨also, .inl ((String.append_left_inj _).mp localEncoded)⟩))
  · rcases inSecond with same | encoded | ⟨also, localType | localEncoded⟩
    · exact .inl (.inr (.inr ⟨present, .inl same.symm⟩))
    · exact .inl (.inr (.inr ⟨present, .inr (.inr encoded.symm)⟩))
    · exact .inl (.inl ((String.append_right_inj _).mp localType).symm)
    · rw [String.append_assoc] at localEncoded
      exact .inr (.inr (.inl ((String.append_right_inj _).mp localEncoded)))
  · rcases inSecond with same | encoded | ⟨also, localType | localEncoded⟩
    · exact .inl (.inr (.inr ⟨present, .inr (.inl same.symm)⟩))
    · exact .inl (.inr (.inr ⟨present, .inl ((String.append_left_inj _).mp encoded).symm⟩))
    · rw [String.append_assoc] at localType
      exact .inl (.inr (.inl ((String.append_right_inj _).mp localType).symm))
    · have same := (String.append_left_inj _).mp localEncoded
      exact .inl (.inl ((String.append_right_inj _).mp same).symm)

/-- Two definitions declare different names exactly if neither takes one from the other. -/
theorem disjoint_declared_iff :
    first.declared.Disjoint second.declared ↔
      ¬ Name.Takes (first.localTypes?.isSome = true) first.identifier second.identifier ∧
      ¬ Name.Takes (second.localTypes?.isSome = true) second.identifier first.identifier := by
  constructor
  · intro disjoint
    constructor
    · intro takes
      obtain ⟨name, inFirst, inSecond⟩ := shared_of_takes takes
      exact disjoint inFirst inSecond
    · intro takes
      obtain ⟨name, inSecond, inFirst⟩ := shared_of_takes takes
      exact disjoint inFirst inSecond
  · rintro ⟨first, second⟩ name inFirst inSecond
    exact (takes_of_shared inFirst inSecond).elim first second

/-- Definitions with different ids declare every name once exactly if any two of them declare
different names. -/
theorem nodup_declared_iff {exports : List Export} (distinct : (exports.map Export.id).Nodup) :
    (exports.flatMap Export.declared).Nodup ↔ ∀ first ∈ exports, ∀ second ∈ exports,
      first.id ≠ second.id → first.declared.Disjoint second.declared := by
  have byId := List.inj_on_of_nodup_map distinct
  rw [List.nodup_flatMap]
  constructor
  · rintro ⟨_, apart⟩ first inFirst second inSecond different
    have symmetric : Std.Symm (Function.onFun List.Disjoint Export.declared) :=
      ⟨fun _ _ disjoint => disjoint.symm⟩
    exact apart.forall inFirst inSecond fun same => different (same ▸ rfl)
  · intro apart
    refine ⟨fun item _ => item.declared_nodup, ?_⟩
    refine distinct.of_map.pairwise_of_forall_ne fun first inFirst second inSecond different => ?_
    exact apart first inFirst second inSecond fun same => different (byId inFirst inSecond same)

end Export

/-- The names that a section declares. -/
def Section.declared : Section → List String
  | .literal _ => []
  | .definition item => item.declared

/-- A definition takes a name that another one needs. It is lazy if it depends on itself. -/
def Definitions.Takes (table : Definitions) (id other : String) : Prop :=
  Name.Takes (table.Reaches id id) (Name.identifier id) (Name.identifier other)

namespace Compiler

variable {workingDir : List String} {document : Document} {settings : Settings}
  {formatter : Option Formatter} {shell : Shell} {bundleName barrel : Json}

/-- If a plan has no modules of its own, a definition declares local types exactly if it depends on
itself. -/
theorem Bundle.localTypes_iff {compiler : Compiler} (bundle : compiler.Bundle)
    (unlisted : compiler.plan.modules = .table []) {entry : OrderEntry} {item : Export}
    (member : entry ∈ bundle.order) (exported : bundle.Exports entry item) :
    item.localTypes?.isSome = true ↔ compiler.document.schemas.Reaches item.id item.id := by
  obtain ⟨noType, _⟩ := exported.untyped unlisted
  rw [exported.id, ← Definitions.order_circular bundle.ordered member, Export.localTypes?,
    exported.isLazy, noType]
  cases entry.circular <;> simp [Json.isTruthy, Json.isNull]

/-- When a bundle declares every name once. The names of a definition are those that the lines of
its section declare. Two definitions declare different names exactly if neither takes a name from
the other, and a bundle declares every name once exactly if no definition takes a name from another;
so it does if all ids are plain. -/
theorem names_declared_once_iff {outputs : Table String}
    (compiled : (compile.run (new workingDir document (.plain .bundled bundleName barrel) settings
      formatter shell)).1.result = .ok outputs) :
    ∃ (bundle : (new workingDir document (.plain .bundled bundleName barrel) settings formatter
        shell).Bundle) (exports : List Export),
      bundle.Prints outputs ∧ bundle.sections = exports.map .definition ∧
      (exports.map Export.id).Nodup ∧
      (∀ id, id ∈ exports.map Export.id ↔ id ∈ Table.keys document.schemas) ∧
      (∀ item ∈ exports,
        (item.localTypes?.isSome = true ↔ document.schemas.Reaches item.id item.id) ∧
        ∀ name ∈ item.declared, item.DeclaresIn name) ∧
      (∀ first ∈ exports, ∀ second ∈ exports, first.id ≠ second.id →
        (first.declared.Disjoint second.declared ↔
          ¬ document.schemas.Takes first.id second.id ∧
          ¬ document.schemas.Takes second.id first.id)) ∧
      ((exports.flatMap Export.declared).Nodup ↔
        ∀ id ∈ Table.keys document.schemas, ∀ other ∈ Table.keys document.schemas, id ≠ other →
          ¬ document.schemas.Takes id other) ∧
      ((∀ id ∈ Table.keys document.schemas, Name.IsPlain id) →
        (exports.flatMap Export.declared).Nodup) := by
  obtain ⟨bundle, prints⟩ := compile_bundle new_remembers rfl compiled
  obtain ⟨exports, isSections, exported⟩ := bundle.exports_of_entries rfl (List.Subset.refl _)
    (List.Subset.refl _) bundle.paths_plain.1
  obtain ⟨distinct, members⟩ := Definitions.order_ids bundle.ordered
  rw [← bundle.ids_of_exports exported] at distinct members
  have isLazy : ∀ item ∈ exports,
      item.localTypes?.isSome = true ↔ document.schemas.Reaches item.id item.id := by
    intro item inside
    obtain ⟨entry, member, exported⟩ := exists_of_mem_right exported item inside
    exact bundle.localTypes_iff rfl member exported
  have disjoint : ∀ first ∈ exports, ∀ second ∈ exports,
      first.declared.Disjoint second.declared ↔
        ¬ document.schemas.Takes first.id second.id ∧
        ¬ document.schemas.Takes second.id first.id := by
    intro first inFirst second inSecond
    rw [Export.disjoint_declared_iff]
    simp only [isLazy first inFirst, isLazy second inSecond]
    rfl
  have once : (exports.flatMap Export.declared).Nodup ↔
      ∀ id ∈ Table.keys document.schemas, ∀ other ∈ Table.keys document.schemas, id ≠ other →
        ¬ document.schemas.Takes id other := by
    rw [Export.nodup_declared_iff distinct]
    constructor
    · intro apart id isId other isOther different
      obtain ⟨first, inFirst, rfl⟩ := List.mem_map.mp ((members id).mpr isId)
      obtain ⟨second, inSecond, rfl⟩ := List.mem_map.mp ((members other).mpr isOther)
      exact ((disjoint first inFirst second inSecond).mp
        (apart first inFirst second inSecond different)).1
    · intro untaken first inFirst second inSecond different
      have isFirst := (members first.id).mp (List.mem_map_of_mem inFirst)
      have isSecond := (members second.id).mp (List.mem_map_of_mem inSecond)
      exact (disjoint first inFirst second inSecond).mpr
        ⟨untaken _ isFirst _ isSecond different, untaken _ isSecond _ isFirst different.symm⟩
  refine ⟨bundle, exports, prints, isSections, distinct, members, fun item inside =>
    ⟨isLazy item inside, fun name => Export.declares_of_mem⟩,
    fun first inFirst second inSecond _ => disjoint first inFirst second inSecond, once, ?_⟩
  intro plain
  rw [once]
  intro id isId other isOther different
  exact Name.not_takes_of_plain (plain id isId) (plain other isOther) different

theorem names_declared_once_iff_entwined :
    ∃ outputs, (compile.run (plainly .bundled entwinedDocument)).1.result = .ok outputs ∧
      ∃ (bundle : (plainly .bundled entwinedDocument).Bundle) (exports : List Export),
        bundle.Prints outputs ∧ bundle.sections = exports.map .definition ∧
        (∀ id, id ∈ exports.map Export.id ↔ id ∈ ["A", "B", "C", "D"]) ∧
        (exports.flatMap Export.declared).Nodup := by
  obtain ⟨outputs, compiled⟩ :
      ∃ outputs, (compile.run (plainly .bundled entwinedDocument)).1.result = .ok outputs :=
    exists_of_isOk (by decide +kernel)
  obtain ⟨bundle, exports, prints, isSections, _, members, _, _, _, once⟩ :=
    names_declared_once_iff compiled
  have plain : ∀ id ∈ ["A", "B", "C", "D"], Name.IsPlain id := by decide
  exact ⟨outputs, compiled, bundle, exports, prints, isSections, members, once plain⟩

/-- A document with two definitions whose ids have the same identifier. -/
def namesakeDocument : Document :=
  let text : Schema := .scalar ⟨"", .null, .null, false, none, []⟩ { kind := .string }
  ⟨"T", "1", [("user-profile", text), ("userprofile", text)]⟩

/-- A bundle may declare the same names for two definitions. -/
theorem namesakes_declare_same_names :
    ∃ outputs, (compile.run (plainly .bundled namesakeDocument)).1.result = .ok outputs ∧
      ∃ bundle : (plainly .bundled namesakeDocument).Bundle, bundle.Prints outputs ∧
        ∃ first second, bundle.SectionOf "user-profile" first ∧ first.id = "user-profile" ∧
          bundle.SectionOf "userprofile" second ∧ second.id = "userprofile" ∧
          first.declared = ["userprofile", "userprofileEncoded"] ∧
          second.declared = ["userprofile", "userprofileEncoded"] := by
  obtain ⟨outputs, compiled⟩ :
      ∃ outputs, (compile.run (plainly .bundled namesakeDocument)).1.result = .ok outputs :=
    exists_of_isOk (by decide +kernel)
  obtain ⟨bundle, prints⟩ := compile_bundle new_remembers rfl compiled
  have names : bundle.sections.map Section.declared =
      [["userprofile", "userprofileEncoded"], ["userprofile", "userprofileEncoded"]] :=
    bundle.read_sections (List.map Section.declared) (by decide +kernel)
  have held : ∀ id ∈ Table.keys namesakeDocument.schemas, ∃ item, bundle.SectionOf id item ∧
      item.id = id ∧ item.declared = ["userprofile", "userprofileEncoded"] := by
    intro id defined
    obtain ⟨entry, member, rfl⟩ :=
      List.mem_map.mp (((Definitions.order_ids bundle.ordered).2 id).mpr defined)
    obtain ⟨item, own⟩ := bundle.exists_section rfl member
    have isId := (bundle.exports_of_section rfl member own).id
    have listed : Section.declared (.definition item) ∈ bundle.sections.map Section.declared :=
      List.mem_map_of_mem own.mem_sections
    rw [names] at listed
    exact ⟨item, own, isId, by simpa [Section.declared] using listed⟩
  obtain ⟨first, isFirst⟩ := held "user-profile" (by decide)
  obtain ⟨second, isSecond⟩ := held "userprofile" (by decide)
  exact ⟨outputs, compiled, bundle, prints, first, second, isFirst.1, isFirst.2.1, isSecond.1,
    isSecond.2.1, isFirst.2.2, isSecond.2.2⟩

end Compiler

end SchemaPress
