import RealmAccess.Proofs.JsonReadBack
import RealmAccess.Config.Json
import RealmAccess.Expansion
/-!
# Configurations and expansions read back

A JSON library is relied on for the round trip it documents, `Json.Format.RoundTrips`, read
through a relation `Reads d v a`: the reader `d` reads the text of the document `v` as `a`.
Strings and `u32`s read back; a list reads back when its elements do, and a value other than
`null` reads back as an optional value when it reads back on its own; a record reads back from
an object whose entries its fields read, in order, when every field that may not be left out is
given; and a value that reads back is what its whole text parses to. The library the program
runs on keeps that contract (`defaultFormat_roundTrips`).

Over every library that keeps it, every configuration is read back from the JSON it is written
as, and so is every expansion whose permission and condition numbers fit a `u32`
(`json_encodings_round_trip`). A record is written as an object with a key for each field in
declaration order, so its reader stores every field in turn (`Json.Field.Stores`). Two optional
values are left out of the text when absent, the restriction of a condition and the data of a
realm; the fields that read them may be left out, and then keep their defaults.
-/

namespace RealmAccess

open Json

namespace Json.Format

/-- The round trip a JSON library documents, read through `Reads d v a`: the reader `d` reads
the text of the document `v` as `a`, wherever that text stands. -/
structure RoundTrips (format : Format) (Reads : ∀ {α : Type}, format.Reader α → Value → α → Prop) :
    Prop where
  string : ∀ s, Reads format.string (.string s) s
  u32 : ∀ n, n < 2 ^ 32 → Reads format.u32 (.number n) n
  map : ∀ {α β : Type} {d : format.Reader α} {v : Value} {a : α} (f : α → β),
    Reads d v a → Reads (format.map f d) v (f a)
  list : ∀ {α : Type} {d : format.Reader α} {write : α → Value} {items : List α},
    (∀ x ∈ items, Reads d (write x) x) → Reads (format.list d) (.array (items.map write)) items
  option : ∀ {α : Type} {d : format.Reader α} {v : Value} {a : α},
    Reads d v a → v ≠ .null → Reads (format.option d) v (some a)
  record : ∀ {α : Type} {what : String} {fields : List (Field format.Reader α)} {start : α}
    {written : List (String × Value)} {update : α → α},
    Field.Stores Reads fields [] written update →
    (∀ field ∈ fields, field.optional = false → field.name ∈ written.map Prod.fst) →
    Reads (format.record what fields start) (.object written) (update start)
  parse : ∀ {α : Type} {d : format.Reader α} {v : Value} {a : α},
    Reads d v a → format.parse d (format.render v) = .ok a

namespace RoundTrips

variable {format : Format} {Reads : ∀ {α : Type}, format.Reader α → Value → α → Prop}
  (laws : format.RoundTrips Reads) {α β : Type}
include laws

theorem required_reads {d : format.Reader β} {v : Value} {b : β} (reads : Reads d v b)
    {name : String} {store : β → α → α} : Reads (format.required name d store).read v (store b) :=
  laws.map store reads

theorem withDefault_reads {d : format.Reader β} {v : Value} {b : β} (reads : Reads d v b)
    {name : String} {store : β → α → α} :
    Reads (format.withDefault name d store).read v (store b) :=
  laws.map store reads

/-- `record`, with the record it stores given by name. -/
theorem record_as {what : String} {fields : List (Field format.Reader α)} {start a : α}
    {written : List (String × Value)} {update : α → α}
    (stores : Field.Stores Reads fields [] written update)
    (given : ∀ field ∈ fields, field.optional = false → field.name ∈ written.map Prod.fst)
    (stored : update start = a) : Reads (format.record what fields start) (.object written) a :=
  stored ▸ laws.record stores given

theorem strings_reads (items : List String) : Reads format.strings (.strings items) items :=
  laws.list fun s _ => laws.string s

theorem u32s_reads {items : List Nat} (fits : ∀ n ∈ items, n < 2 ^ 32) :
    Reads (format.list format.u32) (.numbers items) items :=
  laws.list fun n member => laws.u32 n (fits n member)

end RoundTrips

end Json.Format

/-- The library the program runs on keeps the documented round trip. -/
theorem defaultFormat_roundTrips : defaultFormat.RoundTrips Decoder.Reads where
  string := Decoder.string_reads
  u32 n fits := Decoder.u32_reads (by omega)
  map f reads := reads.map f
  list := Decoder.list_reads
  option := Decoder.option_reads_some
  record := Decoder.record_reads
  parse := Decoder.parse_of_reads

/-- Every permission and condition number of a binding fits a `u32`. -/
def BindingRecord.FitsU32 (record : BindingRecord) : Prop :=
  ∀ n ∈ record.permissions ++ record.conditions, n < 2 ^ 32

instance (record : BindingRecord) : Decidable record.FitsU32 :=
  inferInstanceAs (Decidable (∀ n ∈ record.permissions ++ record.conditions, n < 2 ^ 32))

/-- Every number of every binding of an expansion fits a `u32`. -/
def Expansion.FitsU32 (expansion : Expansion) : Prop :=
  ∀ realm ∈ expansion.realms, ∀ binding ∈ realm.bindings, binding.FitsU32

instance (expansion : Expansion) : Decidable expansion.FitsU32 :=
  inferInstanceAs (Decidable (∀ realm ∈ expansion.realms, ∀ binding ∈ realm.bindings,
    binding.FitsU32))

section Encodings

variable {format : Format} {Reads : ∀ {α : Type}, format.Reader α → Value → α → Prop}
  (laws : format.RoundTrips Reads)
include laws

/-! ### Configurations -/

theorem Restriction.decoder_reads (restriction : Restriction) :
    Reads (Restriction.decoder format) restriction.toValue restriction := by
  apply laws.record_as
  · exact .cons rfl (by simp) (laws.required_reads (laws.string _)) <|
      .cons rfl (by simp) (laws.withDefault_reads (laws.strings_reads _)) (.nil _)
  · simp [Format.required, Format.withDefault]
  · rfl

/-- A condition without a restriction is written as the empty object and read back empty. -/
theorem Condition.decoder_reads (condition : Condition) :
    Reads (Condition.decoder format) condition.toValue condition := by
  obtain ⟨restrict⟩ := condition
  cases restrict with
  | none =>
      apply laws.record_as (.nil _)
      · simp [Format.withDefault]
      · rfl
  | some restriction =>
      apply laws.record_as
      · exact .cons rfl (by simp) (laws.withDefault_reads (laws.option
          (Restriction.decoder_reads laws restriction) (by simp [Restriction.toValue]))) (.nil _)
      · simp [Format.withDefault]
      · rfl

theorem Binding.decoder_reads (binding : Binding) :
    Reads (Binding.decoder format) binding.toValue binding := by
  apply laws.record_as
  · exact .cons rfl (by simp) (laws.required_reads (laws.string _)) <|
      .cons rfl (by simp) (laws.withDefault_reads (laws.strings_reads _)) <|
      .cons rfl (by simp)
        (laws.withDefault_reads (laws.list fun c _ => Condition.decoder_reads laws c)) (.nil _)
  · simp [Format.required, Format.withDefault]
  · rfl

theorem Realm.decoder_reads (realm : Realm) :
    Reads (Realm.decoder format) realm.toValue realm := by
  apply laws.record_as
  · exact .cons rfl (by simp) (laws.required_reads (laws.string _)) <|
      .cons rfl (by simp) (laws.withDefault_reads (laws.strings_reads _)) <|
      .cons rfl (by simp)
        (laws.withDefault_reads (laws.list fun b _ => Binding.decoder_reads laws b)) <|
      .cons rfl (by simp) (laws.withDefault_reads (laws.strings_reads _)) (.nil _)
  · simp [Format.required, Format.withDefault]
  · rfl

theorem CustomRole.decoder_reads (role : CustomRole) :
    Reads (CustomRole.decoder format) role.toValue role := by
  apply laws.record_as
  · exact .cons rfl (by simp) (laws.required_reads (laws.string _)) <|
      .cons rfl (by simp) (laws.withDefault_reads (laws.strings_reads _)) <|
      .cons rfl (by simp) (laws.withDefault_reads (laws.strings_reads _)) (.nil _)
  · simp [Format.required, Format.withDefault]
  · rfl

theorem Config.decoder_reads (config : Config) :
    Reads (Config.decoder format) config.toValue config := by
  apply laws.record_as
  · exact .cons rfl (by simp)
        (laws.withDefault_reads (laws.list fun r _ => Realm.decoder_reads laws r)) <|
      .cons rfl (by simp)
        (laws.withDefault_reads (laws.list fun r _ => CustomRole.decoder_reads laws r)) (.nil _)
  · simp [Format.withDefault]
  · rfl

/-! ### Expansions -/

theorem Restriction.normalizedDecoder_reads (restriction : Restriction) :
    Reads (Restriction.normalizedDecoder format) restriction.toValue restriction := by
  apply laws.record_as
  · exact .cons rfl (by simp) (laws.required_reads (laws.string _)) <|
      .cons rfl (by simp) (laws.required_reads (laws.strings_reads _)) (.nil _)
  · simp [Format.required]
  · rfl

theorem BindingRecord.decoder_reads {record : BindingRecord} (fits : record.FitsU32) :
    Reads (BindingRecord.decoder format) record.toValue record := by
  have permissions : ∀ n ∈ record.permissions, n < 2 ^ 32 := fun n member =>
    fits n (List.mem_append_left _ member)
  have conditions : ∀ n ∈ record.conditions, n < 2 ^ 32 := fun n member =>
    fits n (List.mem_append_right _ member)
  apply laws.record_as
  · exact .cons rfl (by simp) (laws.required_reads (laws.u32s_reads permissions)) <|
      .cons rfl (by simp) (laws.required_reads (laws.strings_reads _)) <|
      .cons rfl (by simp) (laws.required_reads (laws.u32s_reads conditions)) (.nil _)
  · simp [Format.required]
  · rfl

theorem RealmRecord.servicesDecoder_reads (services : List String) :
    Reads (RealmRecord.servicesDecoder format)
      (.object [("enforceInService", .strings services)]) services := by
  apply laws.record_as
  · exact .cons rfl (by simp) (laws.required_reads (laws.strings_reads _)) (.nil _)
  · simp [Format.required]
  · rfl

/-- A realm is read back with its data exactly when it has services. -/
theorem RealmRecord.decoder_reads {record : RealmRecord}
    (fits : ∀ binding ∈ record.bindings, binding.FitsU32) :
    Reads (RealmRecord.decoder format) record.toValue record := by
  obtain ⟨name, bindings, services⟩ := record
  have bindingsRead :=
    laws.list fun b member => BindingRecord.decoder_reads laws (fits b member)
  cases services with
  | none =>
      apply laws.record_as
      · exact .cons rfl (by simp) (laws.required_reads (laws.string _)) <|
          .cons rfl (by simp) (laws.required_reads bindingsRead) (.nil _)
      · simp [Format.required, Format.withDefault]
      · rfl
  | some services =>
      apply laws.record_as
      · exact .cons rfl (by simp) (laws.required_reads (laws.string _)) <|
          .cons rfl (by simp) (laws.required_reads bindingsRead) <|
          .cons rfl (by simp) (laws.withDefault_reads (laws.option
            (RealmRecord.servicesDecoder_reads laws services) (by simp))) (.nil _)
      · simp [Format.required, Format.withDefault]
      · rfl

theorem Expansion.decoder_reads {expansion : Expansion} (fits : expansion.FitsU32) :
    Reads (Expansion.decoder format) expansion.toValue expansion := by
  apply laws.record_as
  · exact .cons rfl (by simp) (laws.required_reads (laws.strings_reads _)) <|
      .cons rfl (by simp)
        (laws.required_reads (laws.list fun r _ => Restriction.normalizedDecoder_reads laws r)) <|
      .cons rfl (by simp)
        (laws.required_reads
          (laws.list fun r member => RealmRecord.decoder_reads laws (fits r member)))
        (.nil _)
  · simp [Format.required]
  · rfl

end Encodings

/-! ### What is written -/

/-- A condition is written as the empty object exactly when it has no restriction. -/
theorem Condition.toValue_eq_empty_iff (condition : Condition) :
    condition.toValue = .object [] ↔ condition.restrict = none := by
  obtain ⟨restrict⟩ := condition
  cases restrict with
  | none => simp [Condition.toValue]
  | some restriction => simp [Condition.toValue]

/-- A realm's data is written exactly when it has services. -/
theorem RealmRecord.toValue_has_data (record : RealmRecord) :
    ∃ entries, record.toValue = .object entries ∧
      ("data" ∈ entries.map Prod.fst ↔ record.services.isSome) := by
  obtain ⟨name, bindings, services⟩ := record
  cases services with
  | none => exact ⟨_, rfl, by simp⟩
  | some services => exact ⟨_, rfl, by simp⟩

/-- Over every JSON library that keeps its documented round trip, configurations and expansions
read back from the JSON they are written as: every configuration, a condition without a
restriction written as the empty object, and every expansion whose numbers fit a `u32`, whose
realms carry their data in the text exactly when they have services. -/
theorem json_encodings_round_trip (format : Format)
    {Reads : ∀ {α : Type}, format.Reader α → Value → α → Prop}
    (laws : format.RoundTrips Reads) :
    (∀ config : Config,
        format.parse (Config.decoder format) (format.render config.toValue) = .ok config) ∧
      (∀ condition : Condition, condition.toValue = .object [] ↔ condition.restrict = none) ∧
      (∀ expansion : Expansion, expansion.FitsU32 →
        format.parse (Expansion.decoder format) (format.render expansion.toValue) =
          .ok expansion) ∧
      ∀ record : RealmRecord, ∃ entries, record.toValue = .object entries ∧
        ("data" ∈ entries.map Prod.fst ↔ record.services.isSome) :=
  ⟨fun config => laws.parse (Config.decoder_reads laws config),
    Condition.toValue_eq_empty_iff,
    fun _ fits => laws.parse (Expansion.decoder_reads laws fits),
    RealmRecord.toValue_has_data⟩

/-- A small expansion: two realms, one enforced by a service, and one binding under a
condition. -/
def sampleExpansion : Expansion :=
  { permissions := ["logs.read", "logs.write"],
    conditions := [{ attributeName := "ip", values := ["10.0.0.1"] }],
    realms := [{ name := "proj:@root",
                 bindings := [{ permissions := [0, 1], principals := ["user:a@x.com"],
                                conditions := [0] }],
                 services := some ["svc"] },
               { name := "proj:logs", bindings := [], services := none }] }

theorem sampleExpansion_round_trip :
    defaultFormat.RoundTrips Decoder.Reads ∧ sampleExpansion.FitsU32 ∧
      Expansion.ofJson sampleExpansion.toValue.render = .ok sampleExpansion :=
  ⟨defaultFormat_roundTrips, by decide,
    (json_encodings_round_trip defaultFormat defaultFormat_roundTrips).2.2.1 sampleExpansion
      (by decide)⟩

end RealmAccess
