import Criteria.Proofs.FetchedCatalogs
import Criteria.Proofs.WrittenDocuments
import Criteria.Token.Codec
/-!
What is stored and read again. Each record is written with all its members, and each of them is read back by the decoder
that belongs to it. The factors of a catalog may be written in any order of the ids, since no question depends on it.
-/

namespace Criteria

open Text

theorem FactorTable.ofList_entries (table : FactorTable) : ofList table.entries = table := by
  have entered (rest : List (ParameterId × List FactorDef)) (done : FactorTable)
      (distinct : ((done.entries ++ rest).map Prod.fst).Nodup) :
      (rest.foldl (fun table entry => table.insert entry.1 entry.2) done).entries = done.entries ++ rest := by
    induction rest generalizing done with
    | nil => rw [List.foldl_nil, List.append_nil]
    | cons entry rest ih =>
      have fresh : entry.1 ∉ done.entries.map Prod.fst := by
        rw [List.map_append, List.nodup_append] at distinct
        exact fun member => distinct.2.2 _ member _ (List.mem_map_of_mem List.mem_cons_self) rfl
      have put : (done.insert entry.1 entry.2).entries = done.entries ++ [entry] :=
        Association.put_of_fresh fresh entry.2
      rw [List.foldl_cons, ih, put, List.append_assoc, List.singleton_append]
      rwa [put, List.append_assoc, List.singleton_append]
  have all := entered table.entries .empty table.distinct
  cases table
  rw [ofList, FactorTable.mk.injEq]
  exact all

namespace Binary64

theorem isInfinite_nearestPositive {number : Nat} (small : number.log2 < 64) (negative : Bool) :
    (nearestPositive negative number).isInfinite = false := by
  have low : unitExponent number ≤ 12 := by
    have coarse : (number : Rat).num.natAbs.log2 = number.log2 ∧ (number : Rat).den.log2 = 0 := by
      rw [Rat.num_natCast, Rat.den_natCast, Int.natAbs_natCast]
      exact ⟨rfl, rfl⟩
    simp only [unitExponent, coarse, leastExponent]
    split <;> omega
  have bound : greatestExponent = 971 := rfl
  unfold nearestPositive
  dsimp only
  split
  · rw [if_neg (show ¬ greatestExponent < unitExponent number + 1 by omega)]
    rfl
  · rw [if_neg (show ¬ greatestExponent < unitExponent number by omega)]
    rfl

theorem isInfinite_ofDecimal {number : Nat} (small : number < 2 ^ 64) (negative : Bool) :
    (ofDecimal ⟨negative, number, 0⟩).isInfinite = false := by
  unfold ofDecimal
  split
  · rfl
  next positive =>
    have digits : (Nat.toDigits 10 number).length ≤ 20 :=
      (Nat.length_toDigits_le_iff (by decide) (by decide)).mpr (Nat.lt_trans small (by decide))
    -- A number of so few digits is rounded, and neither taken for infinite nor for zero without that.
    have near : ¬ (310 : Int) < (Nat.toDigits 10 number).length + 0 := by omega
    have far : ¬ ((Nat.toDigits 10 number).length + 0 : Int) < -330 := by omega
    simp only [if_neg near, if_neg far, Rat.zpow_zero, Rat.mul_one]
    exact isInfinite_nearestPositive ((Nat.log2_lt positive).mpr small) negative

end Binary64

theorem Decimal.read_writeInteger (value : Int64) :
    ∃ negative, Decimal.read (writeInteger value) = some ⟨negative, value.toInt.natAbs, 0⟩ := by
  rw [writeInteger_eq]
  generalize value.toInt.natAbs = number
  have all : ∀ c ∈ Nat.toDigits 10 number, c.isDigit = true :=
    fun c => Nat.isDigit_of_mem_toDigits (by decide) (by decide)
  have occupied : (Nat.toDigits 10 number).isEmpty = false := by simp [Nat.toDigits_ne_nil]
  split
  · refine ⟨true, ?_⟩
    simp [Decimal.read, splitSign, List.takeWhile_eq_self_iff.mpr all, List.dropWhile_eq_nil_iff.mpr all, occupied,
      readExponent, Nat.ofDigitChars_ten_toDigits]
  · refine ⟨false, ?_⟩
    have unsigned : splitSign (Nat.toDigits 10 number) = (false, Nat.toDigits 10 number) := by
      unfold splitSign
      split
      next same => exact absurd rfl (ne_minus_of_mem_toDigits (same ▸ List.mem_cons_self))
      next same => exact absurd (all '+' (same ▸ List.mem_cons_self)) (by decide)
      next => rfl
    simp [Decimal.read, unsigned, List.takeWhile_eq_self_iff.mpr all, List.dropWhile_eq_nil_iff.mpr all, occupied,
      readExponent, Nat.ofDigitChars_ten_toDigits]

namespace Json

theorem escapeCharacter_of_digit {c : Char} (low : 45 ≤ c.toNat) (high : c.toNat ≤ 57) : escapeCharacter c = [c] := by
  have all : ∀ code ≤ 57, 45 ≤ code → escapeCharacter (Char.ofNat code) = [Char.ofNat code] := by decide
  simpa using all c.toNat high low

theorem escape_writeInteger (value : Int64) : escape (writeInteger value) = writeInteger value := by
  have plain : ∀ c ∈ writeInteger value, escapeCharacter c = [c] := fun c inside =>
    escapeCharacter_of_digit (bounds_of_mem_writeInteger inside).1 (bounds_of_mem_writeInteger inside).2
  rw [escape, List.flatMap_congr plain, List.flatMap_singleton']

theorem text?_ofText (text : String) : (ofText text).text? = some text := by
  rw [ofText, text?, unescape_escape, Option.map_some, String.ofList_toList]

theorem integer?_ofInteger (value : Int64) : (ofInteger value).integer? = some value :=
  readInteger_writeInteger value

theorem optional?_ofOption {α : Type} {encode : α → Json} {decode : Json → Option α}
    (back : ∀ value, decode (encode value) = some value) (given : ∀ value, encode value ≠ .null) (value : Option α) :
    optional? decode (ofOption encode value) = some value := by
  cases value with
  | none => rfl
  | some value =>
    rw [ofOption]
    unfold optional?
    split
    next same => exact absurd same (given value)
    next => rw [back, Option.map_some]

theorem mapM_map {α β : Type} {encode : α → β} {decode : β → Option α}
    (back : ∀ value, decode (encode value) = some value) (values : List α) :
    (values.map encode).mapM decode = some values := by
  induction values with
  | nil => rfl
  | cons value rest ih => simp [back, ih]

theorem listOf?_map {α : Type} {encode : α → Json} {decode : Json → Option α}
    (back : ∀ value, decode (encode value) = some value) (values : List α) :
    listOf? decode (.array (values.map encode)) = some values :=
  mapM_map back values

theorem decodeNames_map (members : List (String × Json)) :
    decodeNames (members.map fun (name, value) => (escape name.toList, value)) = some members :=
  mapM_map (fun (name, value) => by simp [unescape_escape]) members

theorem record?_ofMembers (names : List String) (members : List (String × Json)) :
    (ofMembers members).record? names = names.mapM (member? members) := by
  simp [ofMembers, record?, decodeNames_map]

theorem written_ofMembers {members : List (String × Json)} (each : ∀ member ∈ members, Written member.2) :
    Written (ofMembers members) := by
  refine .object ?_ ?_
  · rintro _ inside
    obtain ⟨member, _, rfl⟩ := List.mem_map.mp inside
    exact ⟨_, rfl⟩
  · rintro _ inside
    obtain ⟨member, found, rfl⟩ := List.mem_map.mp inside
    exact each member found

theorem written_ofOption {α : Type} {encode : α → Json} (each : ∀ value, Written (encode value)) (value : Option α) :
    Written (ofOption encode value) := by
  cases value with
  | none => exact .null
  | some value => exact each value

theorem written_map {α : Type} {encode : α → Json} (each : ∀ value, Written (encode value)) (values : List α) :
    Written (.array (values.map encode)) := by
  refine .array fun _ inside => ?_
  obtain ⟨value, _, rfl⟩ := List.mem_map.mp inside
  exact each value

theorem isSound_ofInteger (depth : Nat) (value : Int64) : isSound depth (ofInteger value) = true := by
  obtain ⟨negative, read⟩ := Decimal.read_writeInteger value
  have low := Int64.le_toInt value
  have high := Int64.toInt_lt value
  have small : value.toInt.natAbs < 2 ^ 64 := by omega
  simp only [isSound, ofInteger, read, Binary64.isInfinite_ofDecimal small, Bool.not_false]

theorem isSound_ofText (depth : Nat) (text : String) : isSound depth (ofText text) = true := by
  rw [ofText, isSound, unescape_escape, Option.isSome_some]

theorem isSound_ofMembers {depth : Nat} {members : List (String × Json)}
    (each : ∀ member ∈ members, isSound depth member.2 = true) : isSound (depth + 1) (ofMembers members) = true := by
  rw [ofMembers, isSound]
  induction members with
  | nil => rfl
  | cons member rest ih =>
    obtain ⟨here, later⟩ := List.forall_mem_cons.mp each
    rw [List.map_cons, haveSound, unescape_escape, here, ih later]
    rfl

end Json

namespace Token

theorem kindOfTypeName?_typeName (kind : TokenKind) : kindOfTypeName? (typeName kind) = some kind := by
  cases kind <;> decide

theorem written_toJson (token : Token) : token.toJson.Written := by
  refine Json.written_ofMembers (List.forall_mem_cons.mpr ⟨.text _, ?_⟩)
  cases token <;> simp [fields, Json.Written.text, Json.written_ofOption Json.Written.integer]

theorem isSound_toJson (token : Token) : token.toJson.isSound nestingLimit = true := by
  refine Json.isSound_ofMembers (List.forall_mem_cons.mpr ⟨Json.isSound_ofText .., ?_⟩)
  cases token with
  | parameter name id =>
    cases id with
    | none => simp [fields, Json.isSound_ofText, Json.ofOption, Json.isSound]
    | some id => simp [fields, Json.isSound_ofText, Json.ofOption, Json.isSound_ofInteger]
  | factor | operator | logicalOperator | unknown => simp [fields, Json.isSound_ofText]
  | openParen | closeParen => simp [fields]

theorem member?_type (token : Token) (type : Json) :
    Json.member? (("type", type) :: token.fields) "type" = some (some type) := by
  cases token <;> rfl

theorem member?_fields (token : Token) (type : Json) :
    (fieldNames token.kind).mapM (Json.member? (("type", type) :: token.fields)) =
      some (token.fields.map (some ·.2)) := by
  cases token <;> rfl

theorem ofFields?_fields (token : Token) : ofFields? token.kind (token.fields.map (some ·.2)) = some token := by
  cases token with
  | parameter name id =>
    have given := Json.optional?_ofOption Json.integer?_ofInteger (fun _ => Json.noConfusion) id
    simp [kind, fields, ofFields?, Json.text?_ofText, given]
  | factor | operator | logicalOperator | unknown => simp [kind, fields, ofFields?, Json.text?_ofText]
  | openParen | closeParen => rfl

theorem ofJson?_toJson (token : Token) : ofJson? token.toJson = some token := by
  unfold ofJson?
  rw [if_pos token.isSound_toJson]
  simp only [toJson, Json.ofMembers, Json.decodeNames_map, Option.bind_eq_bind, Option.bind_some, member?_type,
    Json.text?_ofText, kindOfTypeName?_typeName, member?_fields, ofFields?_fields]

end Token

namespace ParameterDef

theorem written_toJson (parameter : ParameterDef) : parameter.toJson.Written :=
  Json.written_ofMembers (by simp [Json.Written.integer, Json.Written.text])

theorem ofJson?_toJson (parameter : ParameterDef) : ofJson? parameter.toJson = some parameter := by
  rw [ofJson?, toJson, Json.record?_ofMembers]
  simp [Json.member?, Json.integer?_ofInteger, Json.text?_ofText]

end ParameterDef

namespace FactorDef

theorem written_toJson (factor : FactorDef) : factor.toJson.Written :=
  Json.written_ofMembers (by simp [Json.Written.text, Json.written_ofOption Json.Written.text])

theorem ofJson?_toJson (factor : FactorDef) : ofJson? factor.toJson = some factor := by
  rw [ofJson?, toJson, Json.record?_ofMembers]
  simp [Json.member?, Json.text?_ofText, Json.optional?_ofOption Json.text?_ofText fun _ => Json.noConfusion]

end FactorDef

namespace FactorTable

theorem written_toJson (table : FactorTable) : table.toJson.Written := by
  refine .object ?_ ?_
  · rintro _ inside
    obtain ⟨⟨id, factors⟩, _, rfl⟩ := List.mem_map.mp inside
    exact ⟨writeInteger id, (Json.escape_writeInteger id).symm⟩
  · rintro _ inside
    obtain ⟨⟨id, factors⟩, _, rfl⟩ := List.mem_map.mp inside
    exact Json.written_map FactorDef.written_toJson factors

theorem ofJson?_toJson (table : FactorTable) : ofJson? table.toJson = some table := by
  rw [toJson, ofJson?, Json.mapM_map, Option.map_some, ofList_entries]
  rintro ⟨id, factors⟩
  simp [entryOfMember?, readInteger_writeInteger, Json.listOf?_map FactorDef.ofJson?_toJson]

end FactorTable

namespace Snapshot

theorem written_toJson (snapshot : Snapshot) : snapshot.toJson.Written :=
  Json.written_ofMembers <| by
    simp [Json.written_map ParameterDef.written_toJson, FactorTable.written_toJson,
      Json.written_map Json.Written.text]

theorem ofJson?_toJson (snapshot : Snapshot) : ofJson? snapshot.toJson = some snapshot := by
  rw [ofJson?, toJson, Json.record?_ofMembers]
  simp [Json.member?, Json.listOf?_map ParameterDef.ofJson?_toJson, FactorTable.ofJson?_toJson,
    Json.listOf?_map Json.text?_ofText]

/-- The same snapshot, but for the order in which the ids and their factors are listed. -/
structure Reordered (first second : Snapshot) : Prop where
  parameters : first.parameters = second.parameters
  operators : first.operators = second.operators
  factors : first.factors.entries.Perm second.factors.entries

/-- The same parameters and operators, and the same factors under each id. -/
structure Same (first second : Snapshot) : Prop where
  parameters : first.parameters = second.parameters
  operators : first.operators = second.operators
  factors : ∀ id, first.factors.entries.lookup id = second.factors.entries.lookup id

theorem Reordered.same {first second : Snapshot} (order : first.Reordered second) : first.Same second where
  parameters := order.parameters
  operators := order.operators
  factors := Association.lookup_perm first.factors.distinct order.factors

theorem Same.sameResult {first second : Snapshot} (same : first.Same second) :
    Catalog.SameResult (Catalog.ofSnapshot first) (Catalog.ofSnapshot second) := by
  have offered : first.factors.get = second.factors.get := funext fun id => by
    rw [FactorTable.get, FactorTable.get, same.factors id]
  rw [Catalog.ofSnapshot, Catalog.ofSnapshot, same.parameters, same.operators]
  exact Catalog.build_congr offered second.parameters second.operators

/-- What was written is read as it was: any token, any factor and any snapshot, in whatever order the ids of its factors
are written. The catalog that is read from it is the one that is built from the snapshot, or ends with the same error. -/
theorem read_written :
    (∀ token : Token, Token.read? (Json.write token.toJson) = some token) ∧
    (∀ factor : FactorDef, FactorDef.read? (Json.write factor.toJson) = some factor) ∧
    ∀ snapshot arranged : Snapshot, arranged.Reordered snapshot →
      (∃ decoded, read? (Json.write arranged.toJson) = some decoded ∧ decoded.Same snapshot) ∧
      ∃ result, Catalog.read (Json.write arranged.toJson) = result.mapError .catalog ∧
        Catalog.SameResult result (Catalog.ofSnapshot snapshot) := by
  refine ⟨fun token => ?_, fun factor => ?_, fun snapshot arranged order => ⟨⟨arranged, ?_, order.same⟩, ?_⟩⟩
  · rw [Token.read?, Json.read_write token.written_toJson, Option.bind_some, Token.ofJson?_toJson]
  · rw [FactorDef.read?, Json.read_write factor.written_toJson, Option.bind_some, FactorDef.ofJson?_toJson]
  · rw [read?, Json.read_write arranged.written_toJson, Option.bind_some, ofJson?_toJson]
  · refine ⟨Catalog.ofSnapshot arranged, ?_, order.same.sameResult⟩
    simp only [Catalog.read, Json.read_write arranged.written_toJson, Catalog.decode, ofJson?_toJson]

/-- The least and the greatest id, as numbers and as names of members, in the other order. -/
theorem read_written_limits :
    let snapshot : Snapshot := ⟨[⟨-9223372036854775808, "Loan\t\"A\""⟩],
      .ofList [(-9223372036854775808, [.single "A"]), (9223372036854775807, [])], [">"]⟩
    let text := "\x7b\"parameters\":[\x7b\"id\":-9223372036854775808,\"name\":\"Loan\\t\\\"A\\\"\"\x7d]," ++
      "\"factorsByParameter\":\x7b\"9223372036854775807\":[]," ++
      "\"-9223372036854775808\":[\x7b\"value1\":\"A\",\"value2\":null\x7d]\x7d,\"operators\":[\">\"]\x7d"
    (∃ decoded, read? text = some decoded ∧ decoded.Same snapshot) ∧
      ∃ catalog built, Catalog.read text = .ok catalog ∧ Catalog.ofSnapshot snapshot = .ok built ∧
        Catalog.SameAnswers catalog built := by
  intro snapshot text
  let arranged : Snapshot := { snapshot with
    factors := .ofList [(9223372036854775807, []), (-9223372036854775808, [.single "A"])] }
  have order : arranged.Reordered snapshot := ⟨rfl, rfl, .swap ..⟩
  have written : Json.write arranged.toJson = text := by decide +kernel
  obtain ⟨decoded, result, read, same⟩ := read_written.2.2 snapshot arranged order
  rw [written] at decoded read
  obtain ⟨built, listed⟩ : ∃ built, Catalog.ofSnapshot snapshot = .ok built := by
    dsimp only [snapshot]
    exact ⟨_, rfl⟩
  rw [listed] at same
  obtain ⟨catalog, rfl, answers⟩ := same.eq_ok
  exact ⟨decoded, catalog, built, read, listed, answers⟩

end Snapshot

end Criteria
