import SlidingCache.Log.Line
import SlidingCache.Proofs.Log.Value
import SlidingCache.Proofs.Time.Instant
import SlidingCache.Proofs.Time.Iso8601

/-!
# What a log line says

A line in JSON says all that a record, its context and its failure have to say, and nothing else
(`JsonLine.format_faithful`). What that is comes from four sources, each of which goes before those
named first: the parts that every line has, the context, the failure, and the record's own fields
(`LogRecord.said`). No text in any of them can end the line or look like a part of it.
-/

namespace SlidingCache

open LogValue

variable {r : LogRecord} {context : LogContext LogValue} {told : Option LogValue}
  {message name : Text} {value : LogValue} {now utc : Instant}

/-! ## The sources -/

namespace LogRecord

/-- The parts that every line has. -/
def base (r : LogRecord) (message : Text) (now : Instant) : Table Text LogValue :=
  [("timestamp", .str now.toText), ("level", r.level), ("logger", r.speaker),
    ("message", .str message), ("module", r.moduleName), ("function", r.function), ("line", r.line)]

/-- The fields that a record has besides the parts that every record has, without the private
ones. -/
def own (r : LogRecord) : Table Text LogValue :=
  r.extra.filter fun row => row.1 ∉ ownParts ∧ row.1.startsWith "_" = false

/-- A record as it comes about: it is made, and then given fields one after another. -/
inductive IsBuilt : LogRecord → Prop
  | make {speaker level path line message : LogValue} {args : List LogValue} {function : LogValue}
      {reported : Reported} {r : LogRecord}
      (h : make speaker level path line message args function reported = .ok r) : IsBuilt r
  | set {r : LogRecord} (h : IsBuilt r) (name : Text) (value : LogValue) : IsBuilt (r.set name value)

/-- What the fields of a record's own are at any time. -/
structure Owns (r : LogRecord) : Prop where
  distinct : (r.extra.map Prod.fst).Nodup
  other : ∀ row ∈ r.extra, row.1 ∉ ownParts

theorem extra_ite {p : Prop} [Decidable p] {a b : LogRecord} (ha : a.extra = r.extra)
    (hb : b.extra = r.extra) : (if p then a else b).extra = r.extra := by
  split
  · exact ha
  · exact hb

/-- Setting one of the parts that every record has changes no field of its own. -/
theorem extra_set (h : name ∈ ownParts) : (r.set name value).extra = r.extra := by
  unfold set
  iterate 8 refine extra_ite rfl ?_
  rw [if_pos (List.contains_iff_mem.2 h)]

/-- Setting another field changes no part that every record has. -/
theorem set_of_not_mem (h : name ∉ ownParts) :
    r.set name value = { r with extra := r.extra.put name value } := by
  have hne : ∀ {part : Text}, part ∈ ownParts → name ≠ part := fun hpart heq => h (heq ▸ hpart)
  unfold set
  iterate 8 rw [if_neg (hne (by decide))]
  rw [if_neg (mt List.contains_iff_mem.1 h)]

theorem Owns.set (h : r.Owns) (name : Text) (value : LogValue) : (r.set name value).Owns := by
  by_cases hname : name ∈ ownParts
  · have hsame := @extra_set r name value hname
    exact ⟨hsame ▸ h.distinct, hsame ▸ h.other⟩
  · rw [set_of_not_mem hname]
    refine ⟨Table.nodup_put h.distinct, fun row hrow => ?_⟩
    rcases Table.mem_put hrow with rfl | hrow
    · exact hname
    · exact h.other row hrow

theorem IsBuilt.owns (h : r.IsBuilt) : r.Owns := by
  induction h with
  | make h =>
    obtain ⟨level, -, ⟨⟩⟩ := Chain.bind_eq_ok.1 h
    exact ⟨List.nodup_nil, fun _ hrow => (nomatch hrow)⟩
  | set _ name value ih => exact ih.set name value

theorem startsWith_underscore {t : Text} :
    t.startsWith "_" = false ↔ t.head? ≠ some (CodePoint.ofChar '_') := by
  cases t with
  | nil => decide
  | cons c r =>
    have hstart : Text.startsWith (c :: r) "_" = (CodePoint.ofChar '_' == c) := Bool.and_true _
    rw [hstart, beq_eq_false_iff_ne, List.head?_cons]
    exact not_congr (by rw [Option.some_inj, eq_comm])

theorem Owns.shown_eq (h : r.Owns) : r.shown = r.own := by
  refine List.filter_congr fun row hrow => decide_eq_decide.2 ?_
  rw [startsWith_underscore]
  exact (and_iff_right (h.other row hrow)).symm

theorem Owns.nodup_own (h : r.Owns) : (r.own.map Prod.fst).Nodup :=
  h.distinct.sublist (List.filter_sublist.map _)

end LogRecord

/-- What is current under a name, if it says something. -/
def LogContext.said (context : LogContext LogValue) (name : Text) : Option LogValue :=
  (if name = ("operation" : Text) then some context.operation
    else if name = ("cache_key" : Text) then some context.cacheKey else none).filter LogValue.holds

/-- The object that tells of what a record reports: a failure, that there was none, or nothing. -/
inductive Reported.Tells : Reported → Option LogValue → Prop
  | failure (f : Failure) : Tells (.failure f) (some (.obj
      [("type", (f.kind.map LogValue.str).getD .null),
        ("message", (f.message.map LogValue.str).getD .null), ("traceback", .str f.report)]))
  | noFailure : Tells .noFailure (some (.obj
      [("type", .null), ("message", .null), ("traceback", .str "NoneType: None")]))
  | nothing {v : LogValue} (h : v.holds = false) : Tells (.value v) none

namespace LogRecord

/-- What a line has to say under a name: what the last source that knows the name has there. -/
def said (r : LogRecord) (message : Text) (context : LogContext LogValue) (told : Option LogValue)
    (now : Instant) (name : Text) : Option LogValue :=
  (r.own.get? name).or <| (if name = ("exception" : Text) then told else none).or <|
    (context.said name).or <| (r.base message now).get? name

/-- A record that a line has room for, with its context and what is told of its failure. The message
is apart, since it need not be there. -/
structure Sayable (r : LogRecord) (context : LogContext LogValue) (told : Option LogValue) :
    Prop where
  built : r.IsBuilt
  speaker : r.speaker.Fits
  level : r.level.Fits
  moduleName : r.moduleName.Fits
  function : r.function.Fits
  line : r.line.Fits
  operation : context.operation.Fits
  cacheKey : context.cacheKey.Fits
  tells : r.reported.Tells told
  told : ∀ v ∈ told, v.Fits
  own : ∀ row ∈ r.own, RowFits row

/-- There is room for one more field of the record's own. -/
theorem Sayable.set (h : r.Sayable context told) (hother : name ∉ ownParts)
    (hname : ∀ c ∈ name, c.isSurrogate = false) (hvalue : value.Fits) :
    (r.set name value).Sayable context told := by
  have hbuilt := h.built.set name value
  rw [set_of_not_mem hother] at hbuilt ⊢
  refine { h with built := hbuilt, own := fun row hrow => ?_ }
  obtain ⟨hrow, hshown⟩ := List.mem_filter.1 hrow
  rcases Table.mem_put hrow with rfl | hrow
  · exact ⟨hname, hvalue⟩
  · exact h.own row (List.mem_filter.2 ⟨hrow, hshown⟩)

end LogRecord

/-! ## The line -/

namespace JsonLine

variable {failure : Option Failure}

theorem failure?_of_tells {reported : Reported} (h : reported.Tells told) :
    ∃ failure, reported.failure? = .ok failure ∧ failure.map summary = told := by
  cases h with
  | failure f => exact ⟨_, rfl, rfl⟩
  | noFailure => exact ⟨_, rfl, rfl⟩
  | nothing h => exact ⟨none, by simp [Reported.failure?, h], rfl⟩

/-- The rows that come to the parts that every line has, in order. -/
def added (r : LogRecord) (context : LogContext LogValue) (told : Option LogValue) :
    Table Text LogValue :=
  context.parts ++ (told.map fun v => (("exception" : Text), v)).toList ++ r.shown

theorem fields_eq : fields r message failure context now =
    (r.base message now).putAll (added r context (failure.map summary)) := by
  unfold fields added
  rw [Option.map_map]
  rfl

theorem nodup_contextNames :
    (([("operation", context.operation), ("cache_key", context.cacheKey)] : Table Text LogValue).map
      Prod.fst).Nodup := by
  have hnames : ("operation" : Text) ≠ "cache_key" := by decide
  simpa using hnames

theorem nodup_parts : (context.parts.map Prod.fst).Nodup :=
  nodup_contextNames.sublist (List.filter_sublist.map _)

theorem get?_parts : Table.get? name context.parts = context.said name := by
  refine (Table.get?_filter LogValue.holds nodup_contextNames).trans ?_
  simp only [Table.get?, LogContext.said, @eq_comm _ name]

theorem nodup_base : ((r.base message now).map Prod.fst).Nodup := by
  have hnames : ((["timestamp", "level", "logger", "message", "module", "function", "line"] :
    List String).map Text.ofString).Nodup := by decide
  exact hnames

theorem get?_failure : Table.get? name
    (told.map fun v => (("exception" : Text), v)).toList =
      if name = ("exception" : Text) then told else none := by
  cases told with
  | none => exact (ite_self none).symm
  | some v => simp only [Option.map_some, Option.toList_some, Table.get?, @eq_comm _ name]

/-- The last of the rows that are added under a name is that of the last source. -/
theorem get?_added (h : r.Owns) : Table.get? name (added r context told).reverse =
    (r.own.get? name).or ((if name = ("exception" : Text) then told else none).or
      (context.said name)) := by
  have hfailure : ((told.map fun v => (("exception" : Text), v)).toList.map Prod.fst).Nodup := by
    cases told with
    | none => exact List.nodup_nil
    | some v => exact List.nodup_singleton _
  rw [added, List.append_assoc, List.reverse_append, List.reverse_append, Table.get?_append,
    Table.get?_append, h.shown_eq, Table.get?_reverse h.nodup_own, Table.get?_reverse hfailure,
    Table.get?_reverse nodup_parts, get?_failure, get?_parts, Option.or_assoc]

theorem get?_fields (h : r.Owns) :
    Table.get? name (fields r message failure context now) =
      r.said message context (failure.map summary) now name := by
  rw [fields_eq, Table.get?_putAll, get?_added h, Option.or_assoc, Option.or_assoc]
  rfl

/-! ## Room in the line -/

theorem rowFits_base (h : r.Sayable context told)
    (hmessage : ∀ c ∈ message, c.isSurrogate = false) (hnow : now.offset = some .utc) :
    ∀ row ∈ r.base message now, RowFits row := by
  have hstamp : ∀ c ∈ now.toText, c.isSurrogate = false := fun c hc =>
    CodePoint.isSurrogate_of_isAscii (List.all_eq_true.1 (Instant.all_isAscii_toText hnow) c hc)
  exact rowFits_cons (by decide) (fits_str hstamp) <| rowFits_cons (by decide) h.level <|
    rowFits_cons (by decide) h.speaker <| rowFits_cons (by decide) (fits_str hmessage) <|
    rowFits_cons (by decide) h.moduleName <| rowFits_cons (by decide) h.function <|
    rowFits_cons (by decide) h.line rowFits_nil

theorem rowFits_added (h : r.Sayable context told) : ∀ row ∈ added r context told, RowFits row := by
  have hcontext : ∀ row ∈ context.parts, RowFits row := fun row hrow =>
    rowFits_cons (by decide) h.operation (rowFits_cons (by decide) h.cacheKey rowFits_nil) row
      (List.mem_of_mem_filter hrow)
  have hfailure : ∀ row ∈ (told.map fun v => (("exception" : Text), v)).toList, RowFits row := by
    cases told with
    | none => exact rowFits_nil
    | some v => exact rowFits_cons (by decide) (h.told v rfl) rowFits_nil
  intro row hrow
  rcases List.mem_append.1 hrow with hrow | hrow
  · exact (List.mem_append.1 hrow).elim (hcontext row) (hfailure row)
  · exact h.own row (h.built.owns.shown_eq ▸ hrow)

theorem fits_textOrNull {t : Option Text} (h : ∀ text ∈ t, ∀ c ∈ text, c.isSurrogate = false) :
    (textOrNull t).Fits := by
  cases t with
  | none => exact fits_null
  | some text => exact fits_str (h text rfl)

theorem nesting_summary (f : Failure) : (summary f).nesting = 1 := by
  have hpart : ∀ t : Option Text, (textOrNull t).nesting = 0 := by
    rintro (_ | _) <;> rfl
  simp [summary, nesting, fieldsNesting, hpart]

/-- What is told of a failure has room if no surrogate is in it. -/
theorem fits_summary {f : Failure} (hkind : ∀ kind ∈ f.kind, ∀ c ∈ kind, c.isSurrogate = false)
    (hmessage : ∀ message ∈ f.message, ∀ c ∈ message, c.isSurrogate = false)
    (hreport : ∀ c ∈ f.report, c.isSurrogate = false) : (summary f).Fits := by
  have hnames : ((["type", "message", "traceback"] : List String).map Text.ofString).Nodup := by
    decide
  refine ⟨fieldsArePlain_of_rowFits hnames ?_, nesting_summary f ▸ by decide⟩
  exact rowFits_cons (by decide) (fits_textOrNull hkind) <|
    rowFits_cons (by decide) (fits_textOrNull hmessage) <|
    rowFits_cons (by decide) (fits_str hreport) rowFits_nil

/-! ## The whole line -/

theorem format_eq (hnow : now.inUtc = .ok utc) (hmessage : r.text = .ok message)
    (hfailure : r.reported.failure? = .ok failure) :
    format r context now =
      (LogValue.obj (fields r message failure context utc)).toJson.toText.mapError .json := by
  simp only [format, hnow, hmessage, hfailure, Chain.mapError_ok, Chain.ok_bind]

theorem format_eq_error {fault : LineFault} (hnow : now.inUtc = .ok utc)
    (h : r.text = .error fault) : format r context now = .error fault := by
  simp only [format, hnow, h, Chain.mapError_ok, Chain.ok_bind]
  rfl

/-- **A log line says all and nothing else.** If the message of a record can be made, the line is
there: it is one line, and what is read from it under any name is what the record, its context and
its failure have to say there. If it cannot, its fault is the fault of the line. -/
theorem format_faithful (h : r.Sayable context told) (hnow : now.inUtc = .ok utc) :
    (∀ fault, r.text = .error fault → format r context now = .error fault) ∧
    ∀ message, r.text = .ok message → (∀ c ∈ message, c.isSurrogate = false) →
      ∃ line, format r context now = .ok line ∧ Says line (r.said message context told utc) := by
  refine ⟨fun fault => format_eq_error hnow, fun message hmessage hplain => ?_⟩
  obtain ⟨failure, hfailure, rfl⟩ := failure?_of_tells h.tells
  have hbase := rowFits_base h hplain (Instant.offset_of_inUtc hnow)
  have hfits : ∀ row ∈ fields r message failure context utc, RowFits row := by
    intro row hrow
    rw [fields_eq] at hrow
    exact (Table.mem_putAll hrow).elim (hbase row) (rowFits_added h row)
  have hnodup : ((fields r message failure context utc).map Prod.fst).Nodup := by
    rw [fields_eq]
    exact Table.nodup_putAll nodup_base
  obtain ⟨line, hwritten, hline⟩ := exists_line hnodup hfits
  refine ⟨line, ?_, hline.oneLine, ?_⟩
  · rw [format_eq hnow hmessage hfailure, hwritten]
    rfl
  · obtain ⟨fields, hread, hdistinct, hget⟩ := hline.read
    exact ⟨fields, hread, hdistinct, fun name => (hget name).trans (get?_fields h.built.owns)⟩

/-- A message that looks like the end of its line and the beginning of another one, given to a
record with a field that takes the place of its speaker, and to the failure that it reports, which
was raised. -/
theorem format_faithful_forged :
    let context : LogContext LogValue := ⟨.str "get", .str []⟩
    let now : Instant := ⟨0, some .utc, by decide⟩
    let forged : Text := "x\"\x7d\n\x7b\"level\": \"ERROR\\\u2028"
    let report : Text :=
      ("Traceback (most recent call last):\n  File \"x/mod.py\", line 1, in get\n" : Text) ++
        ("store.Unavailable: " : Text) ++ forged
    ∃ r line fields, LogRecord.make (.str "log") (.int 20) (.str "x/mod.py") (.int 1) (.str "%s")
        [.str forged] .null (.failure ⟨"Unavailable", forged, report⟩) = .ok r ∧
      format (r.set "logger" (.str forged)) context now = .ok line ∧
      (∀ c ∈ line, 0x20 ≤ c.val) ∧ Json.ofText? line = some (.obj fields) ∧
      (Json.get? "level" fields).map ofJson = some (.str "INFO") ∧
      (Json.get? "logger" fields).map ofJson = some (.str forged) ∧
      (Json.get? "message" fields).map ofJson = some (.str forged) ∧
      (Json.get? "operation" fields).map ofJson = some (.str "get") ∧
      (Json.get? "cache_key" fields).map ofJson = none ∧
      (Json.get? "exception" fields).map ofJson = some (.obj [("type", .str "Unavailable"),
        ("message", .str forged), ("traceback", .str report)]) := by
  intro context now forged report
  let failure : Failure := ⟨"Unavailable", forged, report⟩
  let made : LogRecord := ⟨.str "log", .str "INFO", .str "mod", .null, .int 1, .str "%s",
    some (.list [.str forged]), .failure failure, []⟩
  have hmake : LogRecord.make (.str "log") (.int 20) (.str "x/mod.py") (.int 1) (.str "%s")
      [.str forged] .null (.failure failure) = .ok made := rfl
  have hmade : made.Sayable context _ :=
    { built := .make hmake
      speaker := fits_str (by decide)
      level := fits_str (by decide)
      moduleName := fits_str (by decide)
      function := fits_null
      line := fits_int (by decide)
      operation := fits_str (by decide)
      cacheKey := fits_str (by decide)
      tells := .failure failure
      told := by
        rintro _ ⟨⟩
        exact fits_summary (by decide) (by decide) (by decide)
      own := rowFits_nil }
  have hsayable : (made.set "logger" (.str forged)).Sayable context _ :=
    hmade.set (by decide) (by decide) (fits_str (by decide))
  obtain ⟨line, hline, hvisible, fields, hread, -, hsaid⟩ :=
    (format_faithful hsayable (@Instant.inUtc_of_utc now rfl)).2 forged rfl (by decide)
  exact ⟨made, line, fields, hmake, hline, hvisible, hread, hsaid "level", hsaid "logger",
    hsaid "message", hsaid "operation", hsaid "cache_key", hsaid "exception"⟩

/-- There is no line if the arguments do not fill the message, if a field takes the place of what
makes it, or if an argument puts a surrogate into it. -/
theorem lineless :
    let context : LogContext LogValue := ⟨.str [], .str []⟩
    let now : Instant := ⟨0, some .utc, by decide⟩
    let greeting (message : Text) (args : List LogValue) : LogRecord :=
      ⟨.str "log", .str "INFO", .str "mod", .null, .int 1, .str message, LogRecord.arguments args,
        .nothing, []⟩
    let records := [greeting "%d" [.str "x"], (greeting "hello" []).set "getMessage" (.int 1),
      greeting "%c" [.int 0xD800]]
    ∀ r ∈ records, r.Sayable context none ∧ ∀ line, format r context now ≠ .ok line := by
  intro context now greeting records
  have hnow : now.inUtc = .ok now := @Instant.inUtc_of_utc now rfl
  have hbuilt (message : Text) (args : List LogValue) : (greeting message args).IsBuilt :=
    @LogRecord.IsBuilt.make (.str "log") (.int 20) (.str "x/mod.py") (.int 1) (.str message) args
      .null .nothing _ rfl
  have hsayable (message : Text) (args : List LogValue) :
      (greeting message args).Sayable context none :=
    { built := hbuilt message args
      speaker := fits_str (by decide)
      level := fits_str (by decide)
      moduleName := fits_str (by decide)
      function := fits_null
      line := fits_int (by decide)
      operation := fits_str (by decide)
      cacheKey := fits_str (by decide)
      tells := .nothing rfl
      told := by rintro _ ⟨⟩
      own := rowFits_nil }
  simp only [records, List.forall_mem_cons, List.not_mem_nil, false_imp_iff, implies_true, and_true]
  refine ⟨⟨hsayable _ _, fun line h => ?_⟩, ⟨?_, fun line h => ?_⟩, hsayable _ _, fun line h => ?_⟩
  · rw [format_eq_error hnow rfl] at h
    cases h
  · exact (hsayable _ _).set (by decide) (by decide) (fits_int (by decide))
  · rw [format_eq_error hnow rfl] at h
    cases h
  · rw [@format_eq _ _ _ _ _ none hnow rfl rfl, Chain.mapError_eq_ok] at h
    have hmessage := (Json.exists_toText_obj_iff.1 ⟨line, h⟩ ("message", .str [⟨0xD800, by decide⟩])
      (.tail _ (.tail _ (.tail _ (.head _))))).2
    obtain ⟨written, hwritten⟩ := hmessage
    obtain ⟨token, htoken, -⟩ := Chain.bind_eq_ok.1 hwritten
    cases htoken

end JsonLine

end SlidingCache
