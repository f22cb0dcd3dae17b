import Mathlib
import Midframe.Network.Config
import Midframe.Proofs.Parameter.Text

/-!
# Configurations in files

A file holds some fields of a configuration, in any order; the others keep their defaults. How the
text is spaced and which characters of it are escaped does not matter, only the names and values
that it stands for. A member that is no field, or a field that is given twice, is refused.
-/

namespace Midframe

/-! ## Fields of a record -/

namespace Json

variable {written : List (Quoted × Json)} {members : List (String × Json)} {fields : List String}
  {field : String}

/-- The value of a field whose name is given once at most. -/
theorem fieldOf?_of_nodup (h : (members.map Prod.fst).Nodup) (field : String) :
    fieldOf? members field = some (members.lookup field) := by
  induction members with
  | nil => rfl
  | cons m members ih =>
    obtain ⟨hnot, hnodup⟩ := List.nodup_cons.mp h
    have hrest := ih hnodup
    rw [fieldOf?, List.filter_cons, List.lookup_cons]
    by_cases hm : m.1 = field
    · have hnone : (members.filter fun m => m.1 == field) = [] := by
        refine List.filter_eq_nil_iff.mpr fun m' hm' heq => hnot ?_
        rw [hm, ← eq_of_beq heq]
        exact List.mem_map_of_mem hm'
      rw [hnone, if_pos (by rw [hm, beq_self_eq_true]), hm, beq_self_eq_true]
    · have hne : (m.1 == field) = false := beq_eq_false_iff_ne.mpr hm
      have hne' : (field == m.1) = false := beq_eq_false_iff_ne.mpr (Ne.symm hm)
      rw [hne, hne']
      exact hrest

/-- A field that is given more than once has no value. -/
theorem fieldOf?_of_repeated (h : 1 < (members.map Prod.fst).count field) :
    fieldOf? members field = none := by
  have hlength : 1 < (members.filter fun m => m.1 == field).length := by
    rwa [List.count, List.countP_map, List.countP_eq_length_filter] at h
  rw [fieldOf?]
  split
  · next hnil =>
    rw [hnil] at hlength
    exact absurd hlength (by decide)
  · next hone =>
    rw [hone] at hlength
    exact absurd hlength (by simp)
  · rfl

theorem record?_refused (h : (object written).members? = some members) :
    record? .refused fields (object written) =
      if members.all fun m => fields.contains m.1 then fields.mapM (fieldOf? members)
      else none := by
  rw [record?, h]
  show (if (UnknownFields.refused == UnknownFields.refused &&
    !members.all fun m => fields.contains m.1) = true then _ else _) = _
  cases members.all fun m => fields.contains m.1 <;> rfl

/-- The values of the fields of a record, each given once at most. -/
theorem record?_of_nodup (h : (object written).members? = some members)
    (known : ∀ m ∈ members, m.1 ∈ fields) (distinct : (members.map Prod.fst).Nodup) :
    record? .refused fields (object written)
      = some (fields.map fun field => members.lookup field) := by
  have hall : (members.all fun m => fields.contains m.1) = true :=
    List.all_eq_true.mpr fun m hm => List.contains_iff_mem.mpr (known m hm)
  have hvalues := mapM_map_eq_some (l := fields) (f := id) (g := fieldOf? members)
    (h := fun field => members.lookup field) fun field _ => fieldOf?_of_nodup distinct field
  rw [record?_refused h, if_pos hall, ← hvalues, List.map_id]

/-- A record with a member that is no field, or with a field that is given more than once, is
refused. -/
theorem record?_eq_none (h : (object written).members? = some members)
    (faulty : (∃ m ∈ members, m.1 ∉ fields) ∨ ¬(members.map Prod.fst).Nodup) :
    record? .refused fields (object written) = none := by
  rw [record?_refused h]
  split
  · next hall =>
    have hknown : ∀ m ∈ members, m.1 ∈ fields := fun m hm =>
      List.contains_iff_mem.mp (List.all_eq_true.mp hall m hm)
    rcases faulty with ⟨m, hm, hnot⟩ | hrepeated
    · exact absurd (hknown m hm) hnot
    · rw [List.nodup_iff_count_le_one, not_forall] at hrepeated
      obtain ⟨field, hcount⟩ := hrepeated
      have hcount := Nat.lt_of_not_le hcount
      obtain ⟨m, hm, rfl⟩ := List.mem_map.mp (List.count_pos_iff.mp (Nat.zero_lt_of_lt hcount))
      have hnone := mapM_map_eq_none (f := id) (hknown m hm) (fieldOf?_of_repeated hcount)
      rwa [List.map_id] at hnone
  · rfl

/-- A field has the value that it stands for where it is given, else the one that it falls back
to. -/
theorem defaulted?_lookup {α : Type} {value? : Json → Option α} {own : α} (fallback : α)
    (reads : ∀ v, (field, v) ∈ members → value? v = some own) :
    defaulted? value? fallback (members.lookup field)
      = some (if field ∈ members.map Prod.fst then own else fallback) := by
  cases hfound : members.lookup field with
  | none =>
    have hnot : field ∉ members.map Prod.fst := fun hmem => by
      obtain ⟨m, hm, rfl⟩ := List.mem_map.mp hmem
      exact absurd (List.lookup_eq_none_iff.mp hfound m hm) (by simp)
    rw [if_neg hnot]
    rfl
  | some v =>
    obtain ⟨before, behind, hsplit, -⟩ := List.lookup_eq_some_iff.mp hfound
    have hmem : (field, v) ∈ members := by
      rw [hsplit]
      exact List.mem_append_right _ List.mem_cons_self
    rw [if_pos (List.mem_map_of_mem hmem)]
    exact reads v hmem

end Json

/-! ## Configurations -/

namespace Config

/-- The configuration that takes some fields from another one, and the others from the defaults. -/
def taking (c : Config) (fields : List String) : Config :=
  let pick {α : Type} (field : String) (own fallback : α) : α :=
    if field ∈ fields then own else fallback
  let fallback : Config := {}
  { channels := pick "channels" c.channels fallback.channels
    encoderHorizontal :=
      pick "encoder_horizontal" c.encoderHorizontal fallback.encoderHorizontal
    encoderVertical := pick "encoder_vertical" c.encoderVertical fallback.encoderVertical
    decoderHorizontal :=
      pick "decoder_horizontal" c.decoderHorizontal fallback.decoderHorizontal
    decoderVertical := pick "decoder_vertical" c.decoderVertical fallback.decoderVertical
    head := pick "head" c.head fallback.head
    kernelSize := pick "kernel_size" c.kernelSize fallback.kernelSize
    maxWidth := pick "max_width" c.maxWidth fallback.maxWidth
    maxHeight := pick "max_height" c.maxHeight fallback.maxHeight
    threads := pick "threads" c.threads fallback.threads }

/-- Some members are fields of a configuration, each given once at most, with values that stand for
those of the configuration. -/
structure IsGivenBy (c : Config) (members : List (String × Json)) : Prop where
  /-- All members are fields. -/
  known : ∀ m ∈ members, m.1 ∈ fieldNames
  /-- No field is given twice. -/
  distinct : (members.map Prod.fst).Nodup
  /-- The channels. -/
  channels : ∀ v, ("channels", v) ∈ members → v.list? Json.count? = some c.channels
  /-- The horizontal blocks of the encoder. -/
  encoderHorizontal : ∀ v, ("encoder_horizontal", v) ∈ members → v.text? = some c.encoderHorizontal
  /-- The vertical blocks of the encoder. -/
  encoderVertical : ∀ v, ("encoder_vertical", v) ∈ members → v.text? = some c.encoderVertical
  /-- The horizontal blocks of the decoder. -/
  decoderHorizontal : ∀ v, ("decoder_horizontal", v) ∈ members → v.text? = some c.decoderHorizontal
  /-- The vertical blocks of the decoder. -/
  decoderVertical : ∀ v, ("decoder_vertical", v) ∈ members → v.text? = some c.decoderVertical
  /-- The blocks behind the decoder. -/
  head : ∀ v, ("head", v) ∈ members → v.text? = some c.head
  /-- The length of a kernel. -/
  kernelSize : ∀ v, ("kernel_size", v) ∈ members → v.count? = some c.kernelSize
  /-- The largest width. -/
  maxWidth : ∀ v, ("max_width", v) ∈ members → v.count? = some c.maxWidth
  /-- The largest height. -/
  maxHeight : ∀ v, ("max_height", v) ∈ members → v.count? = some c.maxHeight
  /-- The number of workers, or null. -/
  threads : ∀ v, ("threads", v) ∈ members → v.optional? Json.count? = some c.threads

variable {c : Config} {written : List (Quoted × Json)} {members : List (String × Json)}

theorem ofJson?_of_isGivenBy (h : (Json.object written).members? = some members)
    (given : c.IsGivenBy members) :
    ofJson? (.object written) = some (c.taking (members.map Prod.fst)) := by
  unfold ofJson?
  rw [Json.record?_of_nodup h given.known given.distinct]
  simp only [fieldNames, List.map_cons, List.map_nil, Option.bind_eq_bind, Option.bind_some,
    Json.defaulted?_lookup _ given.channels, Json.defaulted?_lookup _ given.encoderHorizontal,
    Json.defaulted?_lookup _ given.encoderVertical,
    Json.defaulted?_lookup _ given.decoderHorizontal,
    Json.defaulted?_lookup _ given.decoderVertical, Json.defaulted?_lookup _ given.head,
    Json.defaulted?_lookup _ given.kernelSize, Json.defaulted?_lookup _ given.maxWidth,
    Json.defaulted?_lookup _ given.maxHeight, Json.defaulted?_lookup _ given.threads]
  rfl

theorem ofText_of_isGivenBy {text : String} (hread : Json.read? text = some (.object written))
    (h : (Json.object written).members? = some members) (given : c.IsGivenBy members) :
    ofText text = .ok (c.taking (members.map Prod.fst)) := by
  rw [ofText, hread, Option.bind_some, ofJson?_of_isGivenBy h given]

/-- A text with a member that is no field, or with a field that is given more than once, is
refused. -/
theorem ofText_of_faulty {text : String} (hread : Json.read? text = some (.object written))
    (h : (Json.object written).members? = some members)
    (faulty : (∃ m ∈ members, m.1 ∉ fieldNames) ∨ ¬(members.map Prod.fst).Nodup) :
    ofText text = .error (.unreadable .config) := by
  have hnone : ofJson? (.object written) = none := by
    unfold ofJson?
    rw [Json.record?_eq_none h faulty]
    rfl
  rw [ofText, hread, Option.bind_some, hnone]

/-! ## Written configurations -/

/-- The members that a configuration is written as. -/
def fields (c : Config) : List (String × Json) :=
  [("channels", .ofNats c.channels),
    ("encoder_horizontal", .ofString c.encoderHorizontal),
    ("encoder_vertical", .ofString c.encoderVertical),
    ("decoder_horizontal", .ofString c.decoderHorizontal),
    ("decoder_vertical", .ofString c.decoderVertical),
    ("head", .ofString c.head),
    ("kernel_size", .ofNat c.kernelSize),
    ("max_width", .ofNat c.maxWidth),
    ("max_height", .ofNat c.maxHeight),
    ("threads", .ofOption .ofNat c.threads)]

theorem toJson_eq (c : Config) : c.toJson = .ofMembers c.fields := rfl

theorem map_fst_fields (c : Config) : c.fields.map Prod.fst = fieldNames := rfl

/-- All counts fit into machine words. -/
structure HasMachineCounts (c : Config) : Prop where
  /-- The channels of every level. -/
  channels : ∀ n ∈ c.channels, n ≤ maxCount
  /-- The length of a kernel. -/
  kernelSize : c.kernelSize ≤ maxCount
  /-- The largest width. -/
  maxWidth : c.maxWidth ≤ maxCount
  /-- The largest height. -/
  maxHeight : c.maxHeight ≤ maxCount
  /-- The number of workers. -/
  threads : ∀ n ∈ c.threads, n ≤ maxCount

theorem nodup_fields (c : Config) : (c.fields.map Prod.fst).Nodup := by
  rw [map_fst_fields]
  decide

/-- A field is written in one way. -/
theorem fields_unique {field : String} {v w : Json} (hv : (field, v) ∈ c.fields)
    (hw : (field, w) ∈ c.fields) : v = w :=
  (Prod.mk.inj (List.inj_on_of_nodup_map c.nodup_fields hv hw rfl)).2

theorem isWritable_fields (c : Config) : ∀ m ∈ c.fields, m.2.IsWritable := by
  have htext (s : String) : (Json.ofString s).IsWritable := ⟨s, rfl⟩
  have hcount (n : Nat) : (Json.ofNat n).IsWritable := Numeral.isProper_ofNat n
  have hthreads : (Json.ofOption .ofNat c.threads).IsWritable := by
    cases c.threads with
    | none => trivial
    | some n => exact hcount n
  simp only [fields, List.forall_mem_cons, htext, hcount, hthreads, Json.isWritable_ofNats,
    true_and, List.not_mem_nil, false_implies, implies_true]

/-- Some members of a written configuration, in any order, give its fields. -/
theorem isGivenBy_of_subset (counts : c.HasMachineCounts) {chosen : List (String × Json)}
    (nodup : chosen.Nodup) (subset : chosen ⊆ c.fields) : c.IsGivenBy chosen := by
  have hvalue {field : String} {w : Json} (hw : (field, w) ∈ c.fields) :
      ∀ v, (field, v) ∈ chosen → v = w := fun v hv => fields_unique (subset hv) hw
  have htext {field s : String} (hs : (field, .ofString s) ∈ c.fields) :
      ∀ v, (field, v) ∈ chosen → v.text? = some s := fun v hv => by
    rw [hvalue hs v hv]
    exact Quoted.decode?_ofString s
  have hcount {field : String} {n : Nat} (hn : (field, .ofNat n) ∈ c.fields) (hle : n ≤ maxCount) :
      ∀ v, (field, v) ∈ chosen → v.count? = some n := fun v hv => by
    rw [hvalue hn v hv]
    exact Numeral.count?_ofNat hle
  have hthreads : (Json.ofOption .ofNat c.threads).optional? Json.count? = some c.threads := by
    cases hn : c.threads with
    | none => rfl
    | some n =>
      show (Numeral.ofNat n).count?.map some = _
      rw [Numeral.count?_ofNat (counts.threads n hn)]
      rfl
  refine ⟨fun m hm => ?_, ?_, fun v hv => ?_, htext (by simp [fields]), htext (by simp [fields]),
    htext (by simp [fields]), htext (by simp [fields]), htext (by simp [fields]),
    hcount (by simp [fields]) counts.kernelSize, hcount (by simp [fields]) counts.maxWidth,
    hcount (by simp [fields]) counts.maxHeight, fun v hv => ?_⟩
  · exact c.map_fst_fields ▸ List.mem_map_of_mem (subset hm)
  · exact nodup.map_on fun m hm m' hm' heq =>
      List.inj_on_of_nodup_map c.nodup_fields (subset hm) (subset hm') heq
  · rw [hvalue (w := .ofNats c.channels) (by simp [fields]) v hv]
    exact Json.counts_ofNats counts.channels
  · rw [hvalue (w := .ofOption .ofNat c.threads) (by simp [fields]) v hv]
    exact hthreads

theorem taking_fieldNames (c : Config) : c.taking fieldNames = c := rfl

/-- The compact text of some members is read as these members. -/
theorem exists_written {members : List (String × Json)} (h : ∀ m ∈ members, m.2.IsWritable) :
    ∃ written, Json.read? (Json.ofMembers members).compact = some (.object written) ∧
      (Json.object written).members? = some members :=
  ⟨_, Json.read?_compact (Json.isWritable_ofMembers.mpr h), Json.members?_ofMembers members⟩

/-- The text of some fields, with a member added that is none of them or repeats one. -/
theorem ofText_of_added {before behind : List (String × Json)} {name : String} {v : Json}
    (subset : before ++ behind ⊆ c.fields) (writable : v.IsWritable)
    (faulty : name ∉ fieldNames ∨ name ∈ (before ++ behind).map Prod.fst) :
    ofText (Json.ofMembers (before ++ (name, v) :: behind)).compact
      = .error (.unreadable .config) := by
  have hwritable : ∀ m ∈ before ++ (name, v) :: behind, m.2.IsWritable := by
    intro m hm
    rcases List.mem_append.mp hm with hm | hm
    · exact c.isWritable_fields m (subset (List.mem_append_left _ hm))
    · rcases List.mem_cons.mp hm with rfl | hm
      · exact writable
      · exact c.isWritable_fields m (subset (List.mem_append_right _ hm))
  obtain ⟨written, hread, hmembers⟩ := exists_written hwritable
  refine ofText_of_faulty hread hmembers ?_
  rcases faulty with hunknown | hrepeated
  · exact .inl ⟨(name, v), List.mem_append_right _ List.mem_cons_self, hunknown⟩
  · refine .inr fun hnodup => ?_
    rw [List.map_append, List.map_cons, List.nodup_middle] at hnodup
    rw [List.map_append] at hrepeated
    exact (List.nodup_cons.mp hnodup).1 hrepeated

/-- A text that stands for fields of a configuration with machine counts, in whatever order and
however it is written, gives the configuration with the other fields at their defaults; a text with
a member that is no field, or with a field given twice, is refused. So every choice of fields and
every order of writing them is read back, in particular all fields, and no other member can be
added. -/
theorem ofText_fields (c : Config) (counts : c.HasMachineCounts) :
    (∀ text written members, Json.read? text = some (.object written) →
      (Json.object written).members? = some members →
      (c.IsGivenBy members → ofText text = .ok (c.taking (members.map Prod.fst))) ∧
      ((∃ m ∈ members, m.1 ∉ fieldNames) ∨ ¬(members.map Prod.fst).Nodup →
        ofText text = .error (.unreadable .config))) ∧
    (∀ chosen : List (String × Json), chosen.Nodup → chosen ⊆ c.fields →
      ofText (Json.ofMembers chosen).compact = .ok (c.taking (chosen.map Prod.fst)) ∧
      ∀ before behind name v, chosen = before ++ behind → v.IsWritable →
        name ∉ fieldNames ∨ name ∈ chosen.map Prod.fst →
        ofText (Json.ofMembers (before ++ (name, v) :: behind)).compact
          = .error (.unreadable .config)) ∧
    ofText c.toJson.compact = .ok c := by
  have hchosen {chosen : List (String × Json)} (nodup : chosen.Nodup) (subset : chosen ⊆ c.fields) :
      ofText (Json.ofMembers chosen).compact = .ok (c.taking (chosen.map Prod.fst)) := by
    obtain ⟨written, hread, hmembers⟩ :=
      exists_written fun m hm => c.isWritable_fields m (subset hm)
    exact ofText_of_isGivenBy hread hmembers (isGivenBy_of_subset counts nodup subset)
  refine ⟨fun text written members hread hmembers =>
    ⟨ofText_of_isGivenBy hread hmembers, ofText_of_faulty hread hmembers⟩,
    fun chosen nodup subset => ⟨hchosen nodup subset, ?_⟩, ?_⟩
  · rintro before behind name v rfl writable faulty
    exact ofText_of_added subset writable faulty
  · rw [toJson_eq, hchosen c.nodup_fields.of_map (List.Subset.refl _), map_fst_fields,
      taking_fieldNames]

/-- A specification that needs escapes, and a kernel size. -/
def escapedConfig : Config := { head := "\"é\n", kernelSize := 7 }

/-- Some fields of the configuration, with blanks and with escapes that are not needed. -/
def escapedText : String :=
  " \x7b\"kernel_size\" : 7 , \"thr\\u0065ads\":null,\n\"head\":\"\\u0022é\\n\"\x7d "

/-- The fields in a text of its own, two of them in the compact text, one more that is unknown, and
all fields. -/
theorem ofText_fields_escaped :
    ofText escapedText = .ok escapedConfig ∧
    ofText (Json.ofMembers [("threads", .null), ("head", .ofString "\"é\n")]).compact
      = .ok { head := "\"é\n" } ∧
    ofText (Json.ofMembers [("threads", .null), ("chanels", .bool true),
      ("head", .ofString "\"é\n")]).compact = .error (.unreadable .config) ∧
    ofText escapedConfig.toJson.compact = .ok escapedConfig := by
  have counts : escapedConfig.HasMachineCounts :=
    ⟨by decide, by decide, by decide, by decide, by decide⟩
  obtain ⟨hread, hchosen, hall⟩ := ofText_fields escapedConfig counts
  obtain ⟨htwo, hadded⟩ := hchosen [("threads", .null), ("head", .ofString "\"é\n")]
    (.of_map Prod.fst (by decide)) (by simp [fields, escapedConfig, Json.ofOption])
  refine ⟨?_, htwo, ?_, hall⟩
  · refine (hread escapedText [(⟨"kernel_size".toList⟩, .ofNat 7),
      (⟨"thr\\u0065ads".toList⟩, .null), (⟨"head".toList⟩, .string ⟨"\\u0022é\\n".toList⟩)]
      [("kernel_size", .ofNat 7), ("threads", .null), ("head", .string ⟨"\\u0022é\\n".toList⟩)]
      (by cbv) (by cbv)).1 ?_
    refine ⟨by simp [fieldNames], by decide, ?_, ?_, ?_, ?_, ?_, ?_, ?_, ?_, ?_, ?_⟩
    -- Only the three fields that are given have something to show.
    all_goals simp
    · cbv
    · cbv
    · cbv
  · exact hadded [("threads", .null)] [("head", .ofString "\"é\n")] "chanels" (.bool true) rfl
      trivial (.inl (by decide))

end Config

end Midframe
