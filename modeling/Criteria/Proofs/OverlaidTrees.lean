import Criteria.Settings.Path
/-!
Trees laid over each other. What the upper tree has at the end of a path is what is found there, and where it has nothing
the lower one shows. This takes tables with distinct names, and a path on which the upper tree has tables only.
-/

namespace Criteria.SettingValue

variable {base value : SettingValue} {members : List (String × SettingValue)} {name : String} {path : List String}

def isTable : SettingValue → Bool
  | .table _ => true
  | _ => false

def isScalar : SettingValue → Bool
  | .table _ => false
  | .list _ => false
  | _ => true

/-- No table has two members of one name. Tables within lists do not count. -/
inductive Distinct : SettingValue → Prop
  | table {members : List (String × SettingValue)} (names : (members.map Prod.fst).Nodup)
      (each : ∀ member ∈ members, Distinct member.2) : Distinct (.table members)
  | plain {value : SettingValue} (plain : value.isTable = false) : Distinct value

/-- As far as the path leads there are tables, and at its end there is a scalar if there is anything. -/
def Leads : SettingValue → List String → Prop
  | value, [] => value.isScalar = true
  | value, name :: rest => value.isTable = true ∧ ∀ inner, value.members.lookup name = some inner → inner.Leads rest

theorem overlay_of_scalar (scalar : value.isScalar = true) : base.overlay value = value := by
  rw [overlay]
  rintro members rfl
  cases scalar

theorem members_putMember (base : SettingValue) (name : String) (value : SettingValue) :
    (base.putMember name value).members = Association.put name value base.members := rfl

theorem at?_cons (tree : SettingValue) (name : String) (rest : List String) :
    tree.at? (name :: rest) = (tree.members.lookup name).bind (·.at? rest) := rfl

theorem at?_member (further : path ≠ []) : (base.member name).at? path = base.at? (name :: path) := by
  rw [member, at?_cons]
  cases base.members.lookup name with
  | some inner => rfl
  | none =>
    cases path with
    | nil => exact absurd rfl further
    | cons next rest => rfl

theorem lookup_overlayMembers (names : (members.map Prod.fst).Nodup) (base : SettingValue) (name : String) :
    (overlayMembers base members).members.lookup name =
      ((members.lookup name).map (base.member name).overlay).or (base.members.lookup name) := by
  induction members generalizing base with
  | nil => rw [overlayMembers, List.lookup_nil, Option.map_none, Option.none_or]
  | cons member rest ih =>
    obtain ⟨first, value⟩ := member
    rw [List.map_cons, List.nodup_cons] at names
    rw [overlayMembers, ih names.2, members_putMember, List.lookup_cons]
    by_cases same : name = first
    · subst same
      have later : rest.lookup name = none := Association.lookup_eq_none_iff_not_mem.mpr names.1
      rw [later, Association.lookup_put_self, beq_self_eq_true]
      rfl
    · rw [beq_false_of_ne same, Association.lookup_put_of_ne same, SettingValue.member, members_putMember,
        Association.lookup_put_of_ne same]
      rfl

theorem at?_overlayMembers_cons {rest : List String} (names : (members.map Prod.fst).Nodup)
    (inner : ∀ value, members.lookup name = some value →
      ∀ base : SettingValue, (base.overlay value).at? rest = (value.at? rest).or (base.at? rest))
    (base : SettingValue) :
    (overlayMembers base members).at? (name :: rest) =
      ((SettingValue.table members).at? (name :: rest)).or (base.at? (name :: rest)) := by
  rw [at?_cons, lookup_overlayMembers names]
  change _ = ((members.lookup name).bind _).or _
  cases found : members.lookup name with
  | none => rfl
  | some value =>
    rw [Option.map_some, Option.some_or, Option.bind_some, Option.bind_some, inner value found]
    cases rest with
    | nil => rfl
    | cons next rest => rw [at?_member (List.cons_ne_nil _ _)]

theorem at?_overlay (distinct : value.Distinct) (leads : value.Leads path) (base : SettingValue) :
    (base.overlay value).at? path = (value.at? path).or (base.at? path) := by
  induction path generalizing base value with
  | nil => rw [overlay_of_scalar leads, at?, Option.some_or]
  | cons name rest ih =>
    obtain ⟨table, inner⟩ := leads
    cases distinct with
    | plain plain =>
      rw [plain] at table
      cases table
    | table names each =>
      rw [overlay, at?_overlayMembers_cons names fun value found base => ?_]
      · rfl
      · exact ih (each _ ((Association.lookup_eq_some_iff_mem names).mp found)) (inner value found) base

/-- Laying the members of a table over a tree one by one is laying the table over it. -/
theorem at?_overlayMembers (distinct : (table members).Distinct) (leads : (table members).Leads path)
    (further : path ≠ []) (base : SettingValue) :
    (overlayMembers base members).at? path = ((table members).at? path).or (base.at? path) := by
  cases path with
  | nil => exact absurd rfl further
  | cons name rest =>
    cases distinct with
    | plain plain => cases plain
    | table names each =>
      exact at?_overlayMembers_cons names (fun value found base =>
        at?_overlay (each _ ((Association.lookup_eq_some_iff_mem names).mp found)) (leads.2 value found) base) base

theorem at?_overlayAt_self (scalar : value.isScalar = true) (base : SettingValue) (path : List String) :
    (base.overlayAt value (path.map .member)).at? path = some value := by
  induction path generalizing base with
  | nil => rw [List.map_nil, overlayAt, overlay_of_scalar scalar, at?]
  | cons name rest ih =>
    rw [List.map_cons, overlayAt, at?_cons, members_putMember, Association.lookup_put_self, Option.bind_some, ih]

/-- A value leaves alone what is not on the way to it, nor it on the way there. -/
theorem at?_overlayAt_of_apart {other : List String} (behind : ¬ path <+: other) (before : ¬ other <+: path)
    (base value : SettingValue) : (base.overlayAt value (path.map .member)).at? other = base.at? other := by
  induction path generalizing base other with
  | nil => exact absurd (List.nil_prefix ..) behind
  | cons name rest ih =>
    cases other with
    | nil => exact absurd (List.nil_prefix ..) before
    | cons first later =>
      rw [List.map_cons, overlayAt, at?_cons, members_putMember]
      by_cases same : first = name
      · subst same
        rw [List.cons_prefix_cons] at behind before
        have further : later ≠ [] := by
          rintro rfl
          exact before ⟨rfl, List.nil_prefix ..⟩
        rw [Association.lookup_put_self, Option.bind_some, ih (fun more => behind ⟨rfl, more⟩)
          (fun more => before ⟨rfl, more⟩), at?_member further]
      · rw [Association.lookup_put_of_ne same, ← at?_cons]

theorem isTable_overlayMembers (table : base.isTable = true) : (overlayMembers base members).isTable = true := by
  induction members generalizing base with
  | nil => rwa [overlayMembers]
  | cons member rest ih =>
    rw [overlayMembers]
    exact ih rfl

theorem isTable_overlay (table : value.isTable = true) : (base.overlay value).isTable = true := by
  cases value with
  | table members =>
    rw [overlay]
    exact isTable_overlayMembers rfl
  | _ => cases table

end Criteria.SettingValue
