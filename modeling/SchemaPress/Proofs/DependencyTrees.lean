import Mathlib.Data.List.Perm.Subperm
import Mathlib.Logic.Relation
import SchemaPress.Dependency.Tree
import SchemaPress.Proofs.OrderSearch
import SchemaPress.Proofs.SchemaWalks

/-! Dependency trees. A tree lists, at every place, the dependencies of the definition that is
expanded there, and each of them is expanded in turn unless it repeats along the path from the root.
Paths do not repeat an id, so they are no longer than the table; and every id that can be reached
through references is expanded somewhere, so a tree exists exactly if none of them is missing or at
fault. -/

namespace SchemaPress

open Relation

/-- The walk through the schema of a definition comes across a reference to an id. -/
def Definitions.RefersTo (table : Definitions) (id target : String) : Prop :=
  ∃ schema, Table.get? table id = some schema ∧ ∃ node ∈ schema.walk, node.IsReferenceTo target

/-- A path of ids leads in a tree to what is expanded under its last id, which the path lists
first. -/
inductive Tree.Expands (tree : Tree) : List String → Tree → Prop where
  | root {id : String} {children : Tree} (member : (id, Branch.expanded children) ∈ tree) :
    Expands tree [id] children
  | child {path : List String} {id : String} {children inner : Tree}
    (above : Expands tree path children) (member : (id, Branch.expanded inner) ∈ children) :
    Expands tree (id :: path) inner

/-- Every id on a path is expanded on the way. -/
theorem Tree.Expands.of_mem {tree children : Tree} {path : List String} {id : String}
    (expands : tree.Expands path children) (inside : id ∈ path) :
    ∃ rest inner, tree.Expands (id :: rest) inner := by
  induction expands with
  | root member =>
    obtain rfl := List.mem_singleton.mp inside
    exact ⟨[], _, .root member⟩
  | child above member ih =>
    rcases List.mem_cons.mp inside with rfl | inside
    · exact ⟨_, _, .child above member⟩
    · exact ih inside

section Following

variable {follow : String → Except Failure Branch} {targets others : List String}
  {tree other : Tree}

/-- A tree has, for each of some ids at its first occurrence, what there is under it. -/
structure Tree.Follows (follow : String → Except Failure Branch) (targets : List String)
    (tree : Tree) : Prop where
  keys : Table.keys tree = Text.unique targets
  each : ∀ entry ∈ tree, follow entry.1 = .ok entry.2

namespace Tree.Follows

theorem eq (follows : tree.Follows follow targets) (again : other.Follows follow targets) :
    tree = other := by
  refine Table.eq_of_keys (follows.keys.trans again.keys.symm) ?_
  intro id branch found inside member
  have here : follow id = .ok branch := follows.each _ inside
  have there : follow id = .ok found := again.each _ member
  exact Except.ok.inj (here.symm.trans there)

/-- Trees of ids are put together to the tree of all of them. -/
theorem update (follows : tree.Follows follow targets) (later : other.Follows follow others) :
    Tree.Follows follow (targets ++ others) (Table.update tree other) := by
  have distinct : (Table.keys tree).Nodup := follows.keys ▸ Text.unique_nodup targets
  refine ⟨?_, fun entry inside => ?_⟩
  · rw [Table.keys_update distinct, follows.keys, later.keys]
    exact Text.unique_append_congr (Text.unique_unique _) (Text.unique_unique _)
  · exact (Table.mem_of_update inside).elim (follows.each entry) (later.each entry)

theorem exists_branch (follows : tree.Follows follow targets) :
    ∀ id ∈ targets, ∃ branch, follow id = .ok branch := by
  intro id inside
  have listed : id ∈ Table.keys tree := follows.keys ▸ Text.mem_unique.mpr inside
  obtain ⟨branch, found⟩ := Table.mem_keys_iff.mp listed
  exact ⟨branch, follows.each _ (Table.mem_of_get? found)⟩

end Tree.Follows

theorem Tree.exists_follows (each : ∀ id ∈ targets, ∃ branch, follow id = .ok branch) :
    ∃ tree : Tree, tree.Follows follow targets := by
  obtain ⟨tree, isKeys, each⟩ := Table.exists_of_keys fun id inside =>
    each id (Text.mem_unique.mp inside)
  exact ⟨tree, isKeys, each⟩

theorem Tree.follows_unique :
    tree.Follows follow (Text.unique targets) ↔ tree.Follows follow targets := by
  constructor
  · exact fun ⟨isKeys, each⟩ => ⟨isKeys.trans (Text.unique_unique targets), each⟩
  · exact fun ⟨isKeys, each⟩ => ⟨isKeys.trans (Text.unique_unique targets).symm, each⟩

/-- One computation gives the tree of the ids that another gives. -/
def TreeOf (follow : String → Except Failure Branch) (trees : Except Failure Tree)
    (ids : Except Failure (List String)) : Prop :=
  ∀ tree, trees = .ok tree ↔ ∃ targets, ids = .ok targets ∧ tree.Follows follow targets

variable {x y : Except Failure Tree} {ids later : Except Failure (List String)}

theorem treeOf_nil : TreeOf follow (.ok []) (.ok []) := by
  intro tree
  constructor
  · intro same
    cases same
    exact ⟨[], rfl, rfl, List.forall_mem_nil _⟩
  · rintro ⟨_, same, isKeys, _⟩
    cases same
    exact congrArg _ (List.map_eq_nil_iff.mp isKeys).symm

theorem TreeOf.unique (first : TreeOf follow x ids) :
    TreeOf follow x (Text.unique <$> ids) := by
  intro tree
  rw [first tree]
  constructor
  · rintro ⟨targets, known, follows⟩
    exact ⟨_, except_map_eq_ok.mpr ⟨targets, known, rfl⟩, Tree.follows_unique.mpr follows⟩
  · rintro ⟨_, reduced, follows⟩
    obtain ⟨targets, known, rfl⟩ := except_map_eq_ok.mp reduced
    exact ⟨targets, known, Tree.follows_unique.mp follows⟩

theorem TreeOf.append (first : TreeOf follow x ids) (second : TreeOf follow y later) :
    TreeOf follow (do
      let here ← x
      return Table.update here (← y)) (do
      let here ← ids
      return here ++ (← later)) := by
  intro tree
  constructor
  · intro made
    obtain ⟨here, isHere, made⟩ := except_bind_eq_ok.mp made
    obtain ⟨rest, isRest, made⟩ := except_bind_eq_ok.mp made
    cases made
    obtain ⟨targets, known, follows⟩ := (first here).mp isHere
    obtain ⟨others, isOthers, further⟩ := (second rest).mp isRest
    exact ⟨targets ++ others, except_bind_eq_ok.mpr ⟨targets, known,
      except_bind_eq_ok.mpr ⟨others, isOthers, rfl⟩⟩, follows.update further⟩
  · rintro ⟨_, known, follows⟩
    obtain ⟨targets, isTargets, known⟩ := except_bind_eq_ok.mp known
    obtain ⟨others, isOthers, known⟩ := except_bind_eq_ok.mp known
    cases known
    -- What there is under all ids is there under those of each part.
    obtain ⟨here, isHere⟩ := Tree.exists_follows fun id inside =>
      follows.exists_branch id (List.mem_append_left others inside)
    obtain ⟨rest, isRest⟩ := Tree.exists_follows fun id inside =>
      follows.exists_branch id (List.mem_append_right targets inside)
    refine except_bind_eq_ok.mpr ⟨here, (first here).mpr ⟨targets, isTargets, isHere⟩,
      except_bind_eq_ok.mpr ⟨rest, (second rest).mpr ⟨others, isOthers, isRest⟩, ?_⟩⟩
    exact congrArg _ ((isHere.update isRest).eq follows)

theorem memberTree_of {members : List Schema}
    (each : ∀ member ∈ members, TreeOf follow (member.tree follow) member.dependencies) :
    TreeOf follow (memberTree follow members) (memberDependencies members) := by
  induction members with
  | nil => exact treeOf_nil
  | cons first rest ih =>
    obtain ⟨here, later⟩ := List.forall_mem_cons.mp each
    exact here.append (ih later)

theorem propertyTree_eq (properties : List (String × Schema)) :
    propertyTree follow properties = memberTree follow (properties.map Prod.snd) := by
  induction properties with
  | nil => rfl
  | cons property rest ih =>
    obtain ⟨name, schema⟩ := property
    rw [propertyTree, ih, List.map_cons, memberTree]

theorem additionalTree_of {additional : Additional}
    (typed : ∀ schema, additional = .typed schema →
      TreeOf follow (schema.tree follow) schema.dependencies) :
    TreeOf follow (additional.tree follow) additional.dependencies := by
  cases additional with
  | unstated | allowed => exact treeOf_nil
  | typed schema => exact typed schema rfl

/-- The tree of a schema is that of its dependencies. -/
theorem Schema.tree_of (schema : Schema) :
    TreeOf follow (schema.tree follow) schema.dependencies := by
  induction schema using Schema.induction with
  | reference info ref =>
    intro tree
    constructor
    · intro made
      obtain ⟨id, isId, made⟩ := except_bind_eq_ok.mp made
      obtain ⟨branch, isBranch, made⟩ := except_bind_eq_ok.mp made
      cases made
      exact ⟨[id], except_bind_eq_ok.mpr ⟨id, isId, rfl⟩, rfl, List.forall_mem_singleton.mpr isBranch⟩
    · rintro ⟨_, known, isKeys, each⟩
      obtain ⟨id, isId, known⟩ := except_bind_eq_ok.mp known
      cases known
      obtain ⟨⟨_, branch⟩, rfl, rfl⟩ := List.map_eq_singleton_iff.mp isKeys
      have isBranch := each _ List.mem_cons_self
      exact except_bind_eq_ok.mpr ⟨_, isId, except_bind_eq_ok.mpr ⟨branch, isBranch, rfl⟩⟩
  | array info items minItems maxItems ih =>
    have inner := ih.unique
    rwa [map_eq_pure_bind] at inner
  | scalar info scalar => exact treeOf_nil
  | unsupported info construct =>
    intro tree
    constructor
    · intro made
      cases made
    · rintro ⟨_, known, _⟩
      cases known
  | object info properties required additional headings named others =>
    have each := memberTree_of (List.forall_mem_map.mpr named)
    have inner := (each.append (additionalTree_of others)).unique
    rw [← propertyTree_eq, ← propertyDependencies_eq] at inner
    simp only [map_bind, map_pure] at inner
    exact inner
  | combined info combinator members ih =>
    have inner := (memberTree_of ih).unique
    rwa [map_eq_pure_bind] at inner

end Following

namespace Definitions

variable {table : Definitions} {path : List String} {root id : String} {schema : Schema}
  {tree children : Tree}

/-- What there is under an id that is come across along a path. -/
def branch (table : Definitions) (path : List String) (id : String) : Except Failure Branch :=
  if id ∈ path then .ok .recurse
  else match Table.get? table id with
    | none => .error (.missingSchema id)
    | some definition => do return .expanded (← table.expand (id :: path) definition)

theorem branch_eq_recurse : table.branch path id = .ok .recurse ↔ id ∈ path := by
  unfold branch
  split
  · rename_i inside
    exact iff_of_true rfl inside
  · rename_i outside
    refine iff_of_false ?_ outside
    split
    · intro ended
      cases ended
    · intro ended
      obtain ⟨_, _, ended⟩ := except_bind_eq_ok.mp ended
      cases ended

theorem branch_eq_expanded :
    table.branch path id = .ok (.expanded children) ↔ id ∉ path ∧
      ∃ schema, Table.get? table id = some schema ∧
        table.expand (id :: path) schema = .ok children := by
  unfold branch
  split
  · rename_i inside
    refine iff_of_false ?_ fun outside => outside.1 inside
    intro ended
    cases ended
  · rename_i outside
    rw [and_iff_right outside]
    split
    · rename_i missing
      simp [missing]
    · rename_i definition found
      constructor
      · intro ended
        obtain ⟨inner, expanded, ended⟩ := except_bind_eq_ok.mp ended
        cases ended
        exact ⟨definition, found, expanded⟩
      · rintro ⟨_, same, expanded⟩
        obtain rfl := Option.some.inj (found.symm.trans same)
        exact except_bind_eq_ok.mpr ⟨children, expanded, rfl⟩

theorem expand_eq : table.expand path schema = schema.tree (table.branch path) := by
  rw [expand]
  congr 1
  funext id
  unfold branch
  split
  · rfl
  · split <;> simp_all

/-- One level of a tree: it lists the dependencies of a schema in their order, each with what there
is under it along the path. -/
theorem expand_eq_ok :
    table.expand path schema = .ok tree ↔ schema.dependencies = .ok (Table.keys tree) ∧
      ∀ entry ∈ tree, table.branch path entry.1 = .ok entry.2 := by
  rw [expand_eq, schema.tree_of tree]
  constructor
  · rintro ⟨targets, known, isKeys, each⟩
    rw [Text.unique_of_nodup (Schema.dependencies_nodup known)] at isKeys
    exact ⟨isKeys ▸ known, each⟩
  · rintro ⟨known, each⟩
    exact ⟨_, known, (Text.unique_of_nodup (Schema.dependencies_nodup known)).symm, each⟩

theorem tree_eq_ok :
    table.tree root = .ok tree ↔ ∃ schema children, Table.get? table root = some schema ∧
      table.expand [root] schema = .ok children ∧ tree = [(root, .expanded children)] := by
  unfold Definitions.tree
  split
  · rename_i missing
    simp [missing]
  · rename_i schema found
    constructor
    · intro made
      obtain ⟨children, expanded, made⟩ := except_bind_eq_ok.mp made
      cases made
      exact ⟨schema, children, found, expanded, rfl⟩
    · rintro ⟨_, children, same, expanded, rfl⟩
      obtain rfl := Option.some.inj (found.symm.trans same)
      exact except_bind_eq_ok.mpr ⟨children, expanded, rfl⟩

/-- What is known of what a path leads to in a tree. The path goes through different definitions,
and the schema of the last of them is expanded along it. -/
structure ExpandedAt (table : Definitions) (path : List String) (children : Tree) : Prop where
  distinct : path.Nodup
  defined : path ⊆ Table.keys table
  last : ∃ id rest schema, path = id :: rest ∧ Table.get? table id = some schema ∧
    table.expand path schema = .ok children

/-- A path is as long as the table at most. -/
theorem ExpandedAt.bounded (place : table.ExpandedAt path children) :
    path.length ≤ table.length := by
  have bound := (List.subperm_of_subset place.distinct place.defined).length_le
  rwa [Table.keys, List.length_map] at bound

theorem expandedAt_of_expands (built : table.tree root = .ok tree)
    (expands : tree.Expands path children) : table.ExpandedAt path children := by
  induction expands with
  | root member =>
    obtain ⟨schema, children, found, expanded, rfl⟩ := tree_eq_ok.mp built
    cases List.mem_singleton.mp member
    refine ⟨List.nodup_cons.mpr ⟨List.not_mem_nil, List.nodup_nil⟩, ?_,
      root, [], schema, rfl, found, expanded⟩
    exact List.cons_subset.mpr ⟨Table.mem_keys_iff.mpr ⟨schema, found⟩, List.nil_subset _⟩
  | child above member ih =>
    obtain ⟨distinct, defined, _, _, _, _, _, expanded⟩ := ih
    obtain ⟨outside, schema, found, inner⟩ :=
      branch_eq_expanded.mp ((expand_eq_ok.mp expanded).2 _ member)
    refine ⟨List.nodup_cons.mpr ⟨outside, distinct⟩, ?_, _, _, schema, rfl, found, inner⟩
    exact List.cons_subset.mpr ⟨Table.mem_keys_iff.mpr ⟨schema, found⟩, defined⟩

/-- Every id that can be reached is expanded somewhere: either where it is come across, or further
up on the path to it. -/
theorem expanded_of_reachable (built : table.tree root = .ok tree)
    (reachable : ReflTransGen table.RefersTo root id) :
    ∃ rest children, tree.Expands (id :: rest) children := by
  induction reachable with
  | refl =>
    obtain ⟨schema, children, _, _, rfl⟩ := tree_eq_ok.mp built
    exact ⟨[], children, .root List.mem_cons_self⟩
  | tail _ refers ih =>
    obtain ⟨rest, children, expands⟩ := ih
    obtain ⟨_, _, schema, same, found, expanded⟩ := (expandedAt_of_expands built expands).last
    cases same
    obtain ⟨known, each⟩ := expand_eq_ok.mp expanded
    obtain ⟨_, isSchema, referring⟩ := refers
    obtain rfl := Option.some.inj (found.symm.trans isSchema)
    have listed := (Schema.mem_dependencies_iff known _).mpr referring
    obtain ⟨branch, isBranch⟩ := Table.mem_keys_iff.mp listed
    have member := Table.mem_of_get? isBranch
    cases branch with
    | recurse => exact expands.of_mem (branch_eq_recurse.mp (each _ member))
    | expanded inner => exact ⟨_, inner, .child expands member⟩

/-- A schema can be expanded along any path if everything that can be reached from it is defined and
not at fault. -/
theorem exists_expand (path : List String) (schema : Schema)
    (sound : ∀ node ∈ schema.walk, ¬ node.IsFaulty)
    (beyond : ∀ target, (∃ node ∈ schema.walk, node.IsReferenceTo target) →
      ∀ id, ReflTransGen table.RefersTo target id →
        ∃ definition, Table.get? table id = some definition ∧
          ∀ node ∈ definition.walk, ¬ node.IsFaulty) :
    ∃ tree, table.expand path schema = .ok tree := by
  obtain ⟨targets, known⟩ := Schema.exists_dependencies.mpr sound
  have each : ∀ id ∈ targets, ∃ branch, table.branch path id = .ok branch := by
    intro id listed
    by_cases inside : id ∈ path
    · exact ⟨.recurse, branch_eq_recurse.mpr inside⟩
    · have referring := (Schema.mem_dependencies_iff known id).mp listed
      obtain ⟨definition, found, faultless⟩ := beyond id referring id .refl
      have fewer := unvisited_lt table path id definition inside found
      obtain ⟨inner, expanded⟩ := exists_expand (id :: path) definition faultless
        fun target refers other reachable =>
          beyond id referring other (.head ⟨definition, found, refers⟩ reachable)
      exact ⟨.expanded inner, branch_eq_expanded.mpr ⟨inside, definition, found, expanded⟩⟩
  obtain ⟨tree, isKeys, each⟩ := Table.exists_of_keys each
  exact ⟨tree, expand_eq_ok.mpr ⟨isKeys ▸ known, each⟩⟩
termination_by unvisited table path

/-- A dependency tree exists exactly if every id that can be reached from the root through
references is defined, and no definition among them has a schema that cannot be expressed or a
reference that spells no id. In a tree, every path goes through different definitions and is no
longer than the table. What it leads to lists the dependencies of its last definition in their
order; a dependency is marked as repeating if it is on the path, and otherwise expanded along the
path that goes on to it. -/
theorem tree_unfolds_dependencies (table : Definitions) (root : String) :
    ((∃ tree, table.tree root = .ok tree) ↔
      ∀ id, ReflTransGen table.RefersTo root id →
        ∃ schema, Table.get? table id = some schema ∧ ∀ node ∈ schema.walk, ¬ node.IsFaulty) ∧
    ∀ tree, table.tree root = .ok tree →
      (∃ children, tree = [(root, .expanded children)]) ∧
      ∀ path children, tree.Expands path children →
        path.Nodup ∧ path.length ≤ table.length ∧
        ∃ id rest schema, path = id :: rest ∧ Table.get? table id = some schema ∧
          schema.dependencies = .ok (Table.keys children) ∧
          ∀ child branch, (child, branch) ∈ children →
            (branch = .recurse ↔ child ∈ path) ∧
            (child ∉ path → ∃ inner, branch = .expanded inner ∧
              tree.Expands (child :: path) inner) := by
  refine ⟨⟨?_, ?_⟩, ?_⟩
  · rintro ⟨tree, built⟩ id reachable
    obtain ⟨rest, children, expands⟩ := expanded_of_reachable built reachable
    obtain ⟨_, _, schema, same, found, expanded⟩ := (expandedAt_of_expands built expands).last
    cases same
    exact ⟨schema, found, Schema.exists_dependencies.mp ⟨_, (expand_eq_ok.mp expanded).1⟩⟩
  · intro sound
    obtain ⟨schema, found, faultless⟩ := sound root .refl
    obtain ⟨children, expanded⟩ := exists_expand [root] schema faultless
      fun target refers id reachable => sound id (.head ⟨schema, found, refers⟩ reachable)
    exact ⟨_, tree_eq_ok.mpr ⟨schema, children, found, expanded, rfl⟩⟩
  · intro tree built
    obtain ⟨_, children, _, _, isTree⟩ := tree_eq_ok.mp built
    refine ⟨⟨children, isTree⟩, fun path children expands => ?_⟩
    have place := expandedAt_of_expands built expands
    obtain ⟨id, rest, schema, isPath, found, expanded⟩ := place.last
    obtain ⟨known, each⟩ := expand_eq_ok.mp expanded
    refine ⟨place.distinct, place.bounded, id, rest, schema, isPath, found, known, ?_⟩
    intro child branch member
    have under := each _ member
    cases branch with
    | recurse =>
      have repeats := branch_eq_recurse.mp under
      exact ⟨iff_of_true rfl repeats, fun outside => absurd repeats outside⟩
    | expanded inner =>
      have outside := (branch_eq_expanded.mp under).1
      refine ⟨iff_of_false ?_ outside, fun _ => ⟨inner, rfl, .child expands member⟩⟩
      intro same
      cases same

theorem tree_unfolds_dependencies_entwined :
    (¬ ∃ tree, entwined.tree "A" = .ok tree) ∧
      ∃ tree children, entwined.tree "B" = .ok tree ∧ tree.Expands ["C", "B"] children ∧
        Table.keys children = ["B", "D"] ∧ ("B", .recurse) ∈ children := by
  constructor
  · rw [(tree_unfolds_dependencies entwined "A").1]
    intro sound
    have known : (linking ["B", "X"]).dependencies = .ok ["B", "X"] :=
      eq_ok_of_toOption (by decide +kernel)
    have refers : entwined.RefersTo "A" "X" :=
      ⟨_, rfl, (Schema.mem_dependencies_iff known "X").mp (by decide)⟩
    obtain ⟨_, found, _⟩ := sound "X" (.single refers)
    cases found
  · obtain ⟨tree, built⟩ : ∃ tree, entwined.tree "B" = .ok tree :=
      exists_of_isOk (by decide +kernel)
    obtain ⟨⟨top, isTree⟩, places⟩ := (tree_unfolds_dependencies entwined "B").2 tree built
    have listed : ∀ {id rest targets children}, tree.Expands (id :: rest) children →
        Table.get? entwined id = some (linking targets) →
        (linking targets).dependencies = .ok targets → Table.keys children = targets := by
      intro id rest targets children expands isLinking known
      obtain ⟨_, _, _, _, schema, same, found, isKeys, _⟩ := places _ _ expands
      cases same
      obtain rfl := Option.some.inj (found.symm.trans isLinking)
      exact Except.ok.inj (isKeys.symm.trans known)
    -- The tree has C under B, and under that B again and D.
    have expands : tree.Expands ["B"] top := .root (isTree ▸ List.mem_cons_self)
    have isTop := listed expands rfl (eq_ok_of_toOption (by decide +kernel) :
      (linking ["C"]).dependencies = .ok ["C"])
    obtain ⟨branch, found⟩ := Table.mem_keys_iff.mp (isTop ▸ List.mem_cons_self)
    obtain ⟨_, _, _, _, _, _, _, _, each⟩ := places _ _ expands
    obtain ⟨inner, rfl, deeper⟩ := (each "C" branch (Table.mem_of_get? found)).2 (by decide)
    have isInner := listed deeper rfl (eq_ok_of_toOption (by decide +kernel) :
      (linking ["B", "D"]).dependencies = .ok ["B", "D"])
    obtain ⟨again, found⟩ := Table.mem_keys_iff.mp (isInner ▸ List.mem_cons_self)
    obtain ⟨_, _, _, _, _, _, _, _, each⟩ := places _ _ deeper
    obtain rfl := (each "B" again (Table.mem_of_get? found)).1.mpr (by decide)
    exact ⟨tree, inner, built, deeper, isInner, Table.mem_of_get? found⟩

end Definitions

end SchemaPress
