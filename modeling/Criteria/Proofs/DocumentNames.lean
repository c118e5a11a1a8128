import Criteria.Proofs.OverlaidTrees
import Criteria.Toml.Document
/-!
The names in a document. Reading defines nothing twice: a name is put where there was none, or in the place of its own
table. So of every table the members have distinct names when the document has been read.
-/

namespace Criteria.Toml

open Association (put)

inductive Node.Distinct : Node → Prop
  | value {value : SettingValue} (distinct : value.Distinct) : Distinct (.value value)
  | table {origin : Origin} {members : Members} (names : (members.map Prod.fst).Nodup)
      (each : ∀ member ∈ members, Distinct member.2) : Distinct (.table origin members)
  | tables (items : List Members) : Distinct (.tables items)

/-- Each name occurs once, here and in every table below. -/
structure Distinct (members : Members) : Prop where
  names : (members.map Prod.fst).Nodup
  each : ∀ member ∈ members, member.2.Distinct

namespace Distinct

variable {members inner : Members} {name : String} {new : Node} {origin : Origin}

theorem nil : Distinct [] := ⟨.nil, by simp⟩

theorem toNode (distinct : Distinct members) : Node.Distinct (.table origin members) :=
  .table distinct.names distinct.each

theorem put (distinct : Distinct members) (fits : new.Distinct) : Distinct (put name new members) := by
  refine ⟨Association.nodup_keys_put name new distinct.names, fun member inside => ?_⟩
  rcases Association.mem_put inside with rfl | kept
  · exact fits
  · exact distinct.each member kept

theorem add (distinct : Distinct members) (fresh : members.lookup name = none) (fits : new.Distinct) :
    Distinct (members ++ [(name, new)]) := by
  rw [← Association.put_of_fresh (Association.lookup_eq_none_iff_not_mem.mp fresh)]
  exact distinct.put fits

theorem enter (distinct : Distinct members) (found : members.lookup name = some (.table origin inner)) :
    Distinct inner := by
  cases distinct.each _ ((Association.lookup_eq_some_iff_mem distinct.names).mp found) with
  | table names each => exact ⟨names, each⟩

end Distinct

variable {members result : Members} {path : List String}

theorem distinct_assign {value : SettingValue} (plain : value.Distinct) (distinct : Distinct members)
    (assigned : assign value members path = some result) : Distinct result := by
  fun_induction assign value members path generalizing result with
  | case1 | case3 | case5 | case7 | case9 => cases assigned
  | case2 members name fresh =>
    cases assigned
    exact distinct.add fresh (.value plain)
  | case4 members name rest _ fresh ih =>
    obtain ⟨inner, done, rfl⟩ := Option.map_eq_some_iff.mp assigned
    exact distinct.add fresh (ih .nil done).toNode
  | case6 members name rest _ origin inner _ found ih =>
    obtain ⟨inner, done, rfl⟩ := Option.map_eq_some_iff.mp assigned
    exact distinct.put (ih (distinct.enter found) done).toNode
  -- The tables of an array are no members: once the document is read they are a list, which is overlaid as a whole.
  | case8 members name rest _ last earlier found _ ih =>
    obtain ⟨last, done, rfl⟩ := Option.map_eq_some_iff.mp assigned
    exact distinct.put (.tables _)

theorem distinct_openTable (distinct : Distinct members) (opened : openTable members path = some result) :
    Distinct result := by
  fun_induction openTable members path generalizing result with
  | case1 | case4 | case8 => cases opened
  | case2 members name fresh =>
    cases opened
    exact distinct.add fresh Distinct.nil.toNode
  | case3 members name inner found =>
    cases opened
    exact distinct.put (distinct.enter found).toNode
  | case5 members name rest _ fresh ih =>
    obtain ⟨inner, done, rfl⟩ := Option.map_eq_some_iff.mp opened
    exact distinct.add fresh (ih .nil done).toNode
  | case6 members name rest _ origin inner found ih =>
    obtain ⟨inner, done, rfl⟩ := Option.map_eq_some_iff.mp opened
    exact distinct.put (ih (distinct.enter found) done).toNode
  | case7 members name rest _ last earlier found ih =>
    obtain ⟨last, done, rfl⟩ := Option.map_eq_some_iff.mp opened
    exact distinct.put (.tables _)

theorem distinct_openItem (distinct : Distinct members) (opened : openItem members path = some result) :
    Distinct result := by
  fun_induction openItem members path generalizing result with
  | case1 | case4 | case8 => cases opened
  | case2 members name fresh =>
    cases opened
    exact distinct.add fresh (.tables _)
  | case3 members name items found =>
    cases opened
    exact distinct.put (.tables _)
  | case5 members name rest _ fresh ih =>
    obtain ⟨inner, done, rfl⟩ := Option.map_eq_some_iff.mp opened
    exact distinct.add fresh (ih .nil done).toNode
  | case6 members name rest _ origin inner found ih =>
    obtain ⟨inner, done, rfl⟩ := Option.map_eq_some_iff.mp opened
    exact distinct.put (ih (distinct.enter found) done).toNode
  | case7 members name rest _ last earlier found ih =>
    obtain ⟨last, done, rfl⟩ := Option.map_eq_some_iff.mp opened
    exact distinct.put (.tables _)

theorem distinct_within {change : Members → Option Members}
    (keeps : ∀ members result, Distinct members → change members = some result → Distinct result)
    (distinct : Distinct members) (changed : within change members path = some result) : Distinct result := by
  fun_induction within change members path generalizing result with
  | case1 members => exact keeps members result distinct changed
  | case2 members name rest origin inner found ih =>
    obtain ⟨inner, done, rfl⟩ := Option.map_eq_some_iff.mp changed
    exact distinct.put (ih (distinct.enter found) done).toNode
  | case3 members name rest last earlier found ih =>
    obtain ⟨last, done, rfl⟩ := Option.map_eq_some_iff.mp changed
    exact distinct.put (.tables _)
  | case4 => cases changed

theorem memberValues_eq_map (members : Members) :
    memberValues members = members.map fun (name, node) => (name, node.toValue) := by
  induction members with
  | nil => rw [memberValues, List.map_nil]
  | cons member rest ih => rw [memberValues, List.map_cons, ih]

theorem Node.Distinct.toValue {node : Node} (distinct : node.Distinct) : node.toValue.Distinct := by
  induction distinct with
  | value distinct => rwa [Node.toValue]
  | tables items => rw [Node.toValue]; exact .plain rfl
  | table names each ih =>
    rw [Node.toValue, memberValues_eq_map]
    refine .table ?_ fun _ inside => ?_
    · rwa [List.map_map]
    · obtain ⟨member, kept, rfl⟩ := List.mem_map.mp inside
      exact ih member kept

theorem Distinct.toValue (distinct : Distinct members) : (SettingValue.table (memberValues members)).Distinct := by
  have whole : (Node.table .header members).toValue.Distinct := distinct.toNode.toValue
  rwa [Node.toValue] at whole

/-- No scalar in it is a table. What stands in brackets may be anything. -/
inductive Expression.Plain : Expression → Prop
  | scalar {value : SettingValue} (plain : value.isTable = false) : Plain (.scalar value)
  | array (items : List Expression) : Plain (.array items)
  | inlineTable {members : List (List String × Expression)} (each : ∀ member ∈ members, Plain member.2) :
      Plain (.inlineTable members)

theorem distinct_inlineMembers {assignments : List (List String × Expression)}
    (each : ∀ member ∈ assignments, ∀ value, member.2.toValue? = some value → value.Distinct)
    (distinct : Distinct members) (made : inlineMembers? members assignments = some result) : Distinct result := by
  induction assignments generalizing members with
  | nil =>
    rw [inlineMembers?] at made
    cases made
    exact distinct
  | cons assignment rest ih =>
    obtain ⟨path, expression⟩ := assignment
    obtain ⟨here, later⟩ := List.forall_mem_cons.mp each
    rw [inlineMembers?] at made
    split at made
    · cases made
    next value found =>
      split at made
      · cases made
      next grown assigned => exact ih later (distinct_assign (here value found) distinct assigned) made

theorem Expression.Plain.distinct {expression : Expression} (plain : expression.Plain) {value : SettingValue}
    (meant : expression.toValue? = some value) : value.Distinct := by
  induction plain generalizing value with
  | scalar plain =>
    rw [toValue?] at meant
    cases meant
    exact .plain plain
  | array items =>
    rw [toValue?] at meant
    obtain ⟨items, _, rfl⟩ := Option.map_eq_some_iff.mp meant
    exact .plain rfl
  | inlineTable each ih =>
    rw [toValue?] at meant
    obtain ⟨members, made, rfl⟩ := Option.map_eq_some_iff.mp meant
    exact (distinct_inlineMembers (fun member inside value => ih member inside) .nil made).toValue

theorem isTable_momentText? {word : List Char} {value : SettingValue} (read : momentText? word = some value) :
    value.isTable = false := by
  obtain ⟨moment, _, rfl⟩ := Option.map_eq_some_iff.mp read
  rfl

theorem isTable_scalar? {word : List Char} {value : SettingValue} (read : scalar? word = some value) :
    value.isTable = false := by
  unfold scalar? at read
  split at read
  · cases read
    rfl
  split at read
  · cases read
    rfl
  split at read
  · cases read
    rfl
  split at read
  · cases read
    rfl
  · exact isTable_momentText? read

theorem isTable_scanWord {text after : List Char} {value : SettingValue} (read : scanWord text = some (value, after)) :
    value.isTable = false := by
  unfold scanWord at read
  rcases Option.or_eq_some_iff.mp read with joined | ⟨_, single⟩
  · split at joined
    next =>
      obtain ⟨value, found, same⟩ := Option.map_eq_some_iff.mp joined
      cases same
      exact isTable_momentText? found
    next => cases joined
  · obtain ⟨value, found, same⟩ := Option.map_eq_some_iff.mp single
    cases same
    exact isTable_scalar? found

section Scanned

variable {fuel room : Nat} {text after : List Char}

theorem plain_scanValue
    (within : ∀ room text members after, scanMembers room fuel text = some (members, after) →
      ∀ member ∈ members, member.2.Plain) {expression : Expression}
    (scanned : scanValue room (fuel + 1) text = some (expression, after)) : expression.Plain := by
  rw [scanValue.eq_def] at scanned
  dsimp only at scanned
  split at scanned
  next rest =>
    split at scanned
    · cases scanned
    split at scanned
    · cases scanned
    · cases scanned
      exact .array []
    · obtain ⟨items, _, same⟩ := Option.map_eq_some_iff.mp scanned
      cases same
      exact .array _
  next rest =>
    split at scanned
    · cases scanned
    split at scanned
    · cases scanned
    · cases scanned
      exact .inlineTable (by simp)
    · obtain ⟨⟨members, _⟩, found, same⟩ := Option.map_eq_some_iff.mp scanned
      cases same
      exact .inlineTable (within _ _ members _ found)
  next c rest _ _ =>
    split at scanned
    · obtain ⟨text, _, same⟩ := Option.map_eq_some_iff.mp scanned
      cases same
      exact .scalar rfl
    · obtain ⟨⟨value, _⟩, found, same⟩ := Option.map_eq_some_iff.mp scanned
      cases same
      exact .scalar (isTable_scanWord found)
  next => cases scanned

theorem plain_scanMembers
    (values : ∀ room text expression after, scanValue room fuel text = some (expression, after) → expression.Plain)
    (within : ∀ room text members after, scanMembers room fuel text = some (members, after) →
      ∀ member ∈ members, member.2.Plain) {members : List (List String × Expression)}
    (scanned : scanMembers room (fuel + 1) text = some (members, after)) : ∀ member ∈ members, member.2.Plain := by
  rw [scanMembers] at scanned
  obtain ⟨⟨path, afterKey⟩, _, scanned⟩ := Option.bind_eq_some_iff.mp scanned
  obtain ⟨afterKey, _, scanned⟩ := Option.bind_eq_some_iff.mp scanned
  split at scanned
  next rest =>
    obtain ⟨start, _, scanned⟩ := Option.bind_eq_some_iff.mp scanned
    obtain ⟨⟨value, afterValue⟩, found, scanned⟩ := Option.bind_eq_some_iff.mp scanned
    have here : value.Plain := values _ _ _ _ found
    obtain ⟨afterValue, _, scanned⟩ := Option.bind_eq_some_iff.mp scanned
    split at scanned
    · cases scanned
      exact List.forall_mem_singleton.mpr here
    next =>
      obtain ⟨more, _, scanned⟩ := Option.bind_eq_some_iff.mp scanned
      split at scanned
      · cases scanned
        exact List.forall_mem_singleton.mpr here
      · obtain ⟨⟨members, _⟩, found, same⟩ := Option.map_eq_some_iff.mp scanned
        cases same
        exact List.forall_mem_cons.mpr ⟨here, within _ _ members _ found⟩
    next => cases scanned
  next => cases scanned

end Scanned

theorem plain_scanned (fuel : Nat) :
    (∀ room text expression after, scanValue room fuel text = some (expression, after) → expression.Plain) ∧
    ∀ room text members after, scanMembers room fuel text = some (members, after) →
      ∀ member ∈ members, member.2.Plain := by
  induction fuel with
  | zero =>
    constructor
    · intro room text expression after scanned
      rw [scanValue] at scanned
      cases scanned
    · intro room text members after scanned
      rw [scanMembers] at scanned
      cases scanned
  | succ fuel ih =>
    obtain ⟨values, within⟩ := ih
    exact ⟨fun _ _ _ _ => plain_scanValue within, fun _ _ _ _ => plain_scanMembers values within⟩

/-- The values that a statement assigns are plain. -/
def Statement.Plain : Statement → Prop
  | .assignment _ expression => expression.Plain
  | _ => True

theorem plain_scanStatement {text after : List Char} {statement : Statement}
    (scanned : scanStatement text = some (statement, after)) : statement.Plain := by
  unfold scanStatement at scanned
  split at scanned
  · split at scanned
    · cases scanned
      exact trivial
    · cases scanned
  · split at scanned
    · cases scanned
      exact trivial
    · cases scanned
  · split at scanned
    next =>
      obtain ⟨⟨value, _⟩, found, same⟩ := Option.map_eq_some_iff.mp scanned
      cases same
      exact (plain_scanned _).1 _ _ _ _ found
    next => cases scanned

theorem plain_scanStatements {fuel : Nat} {text : List Char} {statements : List Statement}
    (scanned : scanStatements fuel text = some statements) : ∀ statement ∈ statements, statement.Plain := by
  induction fuel generalizing text statements with
  | zero => cases scanned
  | succ fuel ih =>
    rw [scanStatements] at scanned
    split at scanned
    · cases scanned
    · cases scanned
      simp
    next text _ _ =>
      obtain ⟨⟨statement, afterStatement⟩, found, scanned⟩ := Option.bind_eq_some_iff.mp scanned
      obtain ⟨afterComment, _, scanned⟩ := Option.bind_eq_some_iff.mp scanned
      split at scanned
      · obtain ⟨rest, later, same⟩ := Option.map_eq_some_iff.mp scanned
        cases same
        exact List.forall_mem_cons.mpr ⟨plain_scanStatement found, ih later⟩
      · cases scanned

theorem distinct_step {progress next : Progress} {statement : Statement} (plain : statement.Plain)
    (distinct : Distinct progress.members) (stepped : progress.step statement = some next) :
    Distinct next.members := by
  cases statement with
  | header path =>
    obtain ⟨members, opened, rfl⟩ := Option.map_eq_some_iff.mp stepped
    exact distinct_openTable distinct opened
  | arrayHeader path =>
    obtain ⟨members, opened, rfl⟩ := Option.map_eq_some_iff.mp stepped
    exact distinct_openItem distinct opened
  | assignment path expression =>
    obtain ⟨value, meant, stepped⟩ := Option.bind_eq_some_iff.mp stepped
    obtain ⟨members, changed, stepped⟩ := Option.bind_eq_some_iff.mp stepped
    cases stepped
    exact distinct_within (fun _ _ => distinct_assign (plain.distinct meant)) distinct changed

theorem distinct_foldlM {statements : List Statement} (plain : ∀ statement ∈ statements, statement.Plain)
    {progress last : Progress} (distinct : Distinct progress.members)
    (made : statements.foldlM Progress.step progress = some last) : Distinct last.members := by
  induction statements generalizing progress with
  | nil =>
    cases made
    exact distinct
  | cons statement rest ih =>
    obtain ⟨here, later⟩ := List.forall_mem_cons.mp plain
    obtain ⟨next, stepped, made⟩ := Option.bind_eq_some_iff.mp made
    exact ih later (distinct_step here distinct stepped) made

/-- In a document that has been read, no table has two members of one name. -/
theorem distinct_read {text : String} {members : List (String × SettingValue)} (read : Toml.read text = some members) :
    (SettingValue.table members).Distinct := by
  obtain ⟨statements, scanned, read⟩ := Option.bind_eq_some_iff.mp read
  obtain ⟨progress, made, read⟩ := Option.bind_eq_some_iff.mp read
  cases read
  exact (distinct_foldlM (plain_scanStatements scanned) .nil made).toValue

end Criteria.Toml
