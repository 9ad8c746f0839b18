import BlockSynth.Proofs.Text.Columns
import BlockSynth.Proofs.Zig.Literal

/-! # The strings of a sensor read

A sensor is read by a call whose arguments stand on lines of their own, with the comments behind
them aligned. The first two slashes of a line are taken for its comment. A literal with two slashes
is therefore torn apart there, unless they happen to stand where all comments are moved to.
-/
namespace BlockSynth.Zig

/-- The arguments of a sensor read, each with what separates it from its comment. -/
def sensorArguments (field path : String) : List String :=
  ["c." ++ sensorStruct field ++ ",  ", quote field ++ ",  ", quote path ++ "  "]

/-- A sensor read with spaces between its arguments and their comments. -/
def keptCode (unit field path : String) (first second third : Nat) : String :=
  Text.join "\n" ["try sen.readSensor(  // Read BME280 Sensor", unit ++
        ("c." ++ sensorStruct field ++ ",  ") ++ Config.spaces first ++ "// Sensor Data Struct",
      unit ++ (quote field ++ ",  ") ++ Config.spaces second ++ "// Sensor Data Field",
      unit ++ (quote path ++ "  ") ++ Config.spaces third ++ "// Path of Sensor Device", ")"]

/-- The arguments stand unbroken in the code. -/
def KeepsStrings (unit field path code : String) : Prop :=
  ∃ first second third, code = keptCode unit field path first second third

/-- The lines of a sensor read with their comments where they come. -/
def unalignedLines (unit field path : String) : List String :=
  ["try sen.readSensor(  // Read BME280 Sensor",
    unit ++ "c." ++ sensorStruct field ++ ",  // Sensor Data Struct",
    unit ++ quote field ++ ",  // Sensor Data Field",
    unit ++ quote path ++ "  // Path of Sensor Device",
    ")"]

def sensorCode (unit field path : String) : String :=
  Text.join "\n" (Text.alignComments (unalignedLines unit field path))

theorem emission_readSensor {config : Config} {node : Node}
    (hkind : node.kind = "bme280") (session : Session) :
    (node.offer (setting config)).emission session =
      .ok (.value (sensorCode config.indentUnit (optionOr node "FIELD" "temperature")
        (optionOr node "PATH" "/dev/sensor/sensor_baro0")) .unaryPrefix) session := by
  have hfind : catalog.find? "bme280" = some ⟨readSensor, false⟩ :=
    (find?_catalog (by decide)).trans rfl
  rw [emission_of_kind hkind hfind]
  rfl

/-! ### Slashes in literals -/

theorem eq_slash_of_mem_escape {c : Char} (hmem : '/' ∈ Chars.escape '"' c) : c = '/' := by
  have hletter : ∀ {letter : Char}, Chars.unescape? '"' letter = some c → '/' ≠ letter := by
    rintro letter hmeant rfl
    simp [Chars.unescape?] at hmeant
  generalize hwritten : Chars.escape '"' c = written at hmem
  cases hwritten ▸ Chars.escape_cases isDelimiter_quotes c with
  | plain _ _ _ => exact (List.mem_singleton.mp hmem).symm
  | pair hmeant _ _ => simp [hletter hmeant] at hmem
  | byte hcontrol =>
    have hdigits : ∀ n < 16, n.digitChar ≠ '/' := by decide
    simp only [List.mem_cons] at hmem
    rcases hmem with heq | heq | hdigit
    · exact absurd heq (by decide)
    · exact absurd heq (by decide)
    · obtain ⟨n, hn, heq⟩ :=
        Chars.exists_digit_of_mem_hexByte (Chars.toNat_lt_of_isControl hcontrol) hdigit
      exact absurd heq.symm (hdigits n hn)

theorem exists_escape_cons (c : Char) : ∃ first rest, Chars.escape '"' c = first :: rest := by
  generalize hwritten : Chars.escape '"' c = written
  cases hwritten ▸ Chars.escape_cases isDelimiter_quotes c with
  | plain _ _ _ => exact ⟨c, [], rfl⟩
  | pair _ _ _ => exact ⟨_, _, rfl⟩
  | byte _ => exact ⟨_, _, rfl⟩

/-- Escaping brings no two slashes together. -/
theorem slashes_infix_of_escapes {raw : List Char}
    (h : Chars.slashes <:+: raw.flatMap (Chars.escape '"')) :
    Chars.slashes <:+: raw := by
  induction raw with
  | nil => exact h
  | cons c raw ih =>
    rw [List.flatMap_cons] at h
    by_cases hc : c = '/'
    · subst hc
      have hslash : Chars.escape '"' '/' = ['/'] := by decide
      rw [hslash, List.singleton_append] at h
      rcases List.infix_cons_iff.mp h with hhere | hlater
      · cases raw with
        | nil => simp [Chars.slashes] at hhere
        | cons d raw =>
          obtain ⟨first, rest, hd⟩ := exists_escape_cons d
          rw [List.flatMap_cons, hd, List.cons_append] at hhere
          obtain rfl : '/' = first :=
            (List.cons_prefix_cons.mp (List.cons_prefix_cons.mp hhere).2).1
          obtain rfl : d = '/' := eq_slash_of_mem_escape (hd ▸ List.mem_cons_self)
          exact (List.prefix_append Chars.slashes raw).isInfix
      · exact (ih hlater).trans (List.suffix_cons '/' raw).isInfix
    · have hlead : ∀ d ∈ Chars.escape '"' c, d ∉ Chars.slashes := by
        intro d hd hslash
        obtain rfl : d = '/' := by simpa [Chars.slashes] using hslash
        exact hc (eq_slash_of_mem_escape hd)
      have hrest := Chars.infix_of_infix_append (by decide) hlead h
      exact (ih hrest).trans (List.suffix_cons c raw).isInfix

theorem mentions_slashes_of_literal {raw behind : String} (hbehind : ¬Mentions "//" behind)
    (h : Mentions "//" (quote raw ++ behind)) : Mentions "//" raw := by
  unfold Mentions at h hbehind ⊢
  have hquote : '"' ∉ "//".toList := by decide
  have htext : (quote raw ++ behind).toList =
      [] ++ '"' :: (raw.toList.flatMap (Chars.escape '"') ++ '"' :: behind.toList) := by
    rw [String.toList_append, toList_quote, Chars.quote]
    simp
  rw [htext] at h
  rcases Chars.infix_append_cons hquote h with hnil | hbody
  · exact absurd (List.infix_nil.mp hnil) (by decide)
  · rcases Chars.infix_append_cons hquote hbody with hescapes | hrest
    · exact slashes_infix_of_escapes hescapes
    · exact absurd hrest hbehind

/-! ### Lines of a sensor read -/

/-- The lines between the first and the last one, each cut at its comment. -/
def sensorLines (unit field path : String) : List (List Char × List Char) :=
  [(unit.toList ++ ("c." ++ sensorStruct field ++ ",  ").toList, " Sensor Data Struct".toList),
    (unit.toList ++ (quote field ++ ",  ").toList, " Sensor Data Field".toList),
    (unit.toList ++ (quote path ++ "  ").toList, " Path of Sensor Device".toList)]

def sensorHead : List Char :=
  "try sen.readSensor(  // Read BME280 Sensor".toList

theorem map_fst_sensorLines (unit field path : String) :
    (sensorLines unit field path).map Prod.fst =
    (sensorArguments field path).map fun argument => unit.toList ++ argument.toList := rfl

theorem map_toList_unalignedLines (unit field path : String) :
    (unalignedLines unit field path).map String.toList =
    sensorHead ::
      ((sensorLines unit field path).map (fun line =>
        Chars.remarked line.1 line.2) ++ [[')']]) := by
  have hstruct : ",  // Sensor Data Struct".toList =
      ",  ".toList ++ (Chars.slashes ++ " Sensor Data Struct".toList) := by
    decide
  have hfield : ",  // Sensor Data Field".toList =
      ",  ".toList ++ (Chars.slashes ++ " Sensor Data Field".toList) := by
    decide
  have hpath : "  // Path of Sensor Device".toList =
      "  ".toList ++ (Chars.slashes ++ " Path of Sensor Device".toList) := by
    decide
  simp only [unalignedLines, sensorLines, List.map_cons, List.map_nil, Chars.remarked,
    String.toList_append, hstruct, hfield, hpath, List.append_assoc]
  rfl

theorem toList_sensorCode (unit field path : String) : (sensorCode unit field path).toList =
    Chars.joinLines (sensorHead :: ((sensorLines unit field path).map (fun line =>
      Chars.moveComment (Chars.alignedColumn ((sensorLines unit field path).map Prod.fst))
        (Chars.remarked line.1 line.2)) ++ [[')']])) := by
  have hsame : String.toList ∘ String.ofList = id := funext fun _ => String.toList_ofList
  rw [← Chars.alignComments_remarked sensorHead [')'] rfl, ← map_toList_unalignedLines, sensorCode,
    toList_join_newline, Text.alignComments, List.map_map, hsame, List.map_id]

/-- A line with spaces in front of its comment. -/
def keptLine (line : List Char × List Char) (gap : Nat) : List Char :=
  line.1 ++ List.replicate gap ' ' ++ (Chars.slashes ++ line.2)

theorem newline_not_mem_sensorLines {unit : String}
    (hunit : IsIndent unit.toList) (field path : String) :
    ∀ line ∈ sensorLines unit field path, '\n' ∉ line.1 ∧ '\n' ∉ line.2 := by
  have hstruct : '\n' ∉ ("c." ++ sensorStruct field ++ ",  ").toList := by
    unfold sensorStruct
    split
    · decide
    · decide
  have hliteral : ∀ raw behind : String,
      '\n' ∉ behind.toList → '\n' ∉ (quote raw ++ behind).toList := by
    intro raw behind hbehind
    rw [String.toList_append, List.mem_append, not_or]
    exact ⟨(firm_quote raw).line, hbehind⟩
  have hindented : ∀ {argument : List Char}, '\n' ∉ argument → '\n' ∉ unit.toList ++ argument := by
    intro argument h
    rw [List.mem_append, not_or]
    exact ⟨hunit.newline_not_mem, h⟩
  simp only [sensorLines, List.forall_mem_cons]
  refine ⟨⟨hindented hstruct, by decide⟩, ⟨hindented (hliteral field _ (by decide)), by decide⟩,
    ⟨hindented (hliteral path _ (by decide)), by decide⟩, List.forall_mem_nil _⟩

theorem newline_not_mem_keptLine {line : List Char × List Char}
    (h : '\n' ∉ line.1 ∧ '\n' ∉ line.2) (gap : Nat) :
    '\n' ∉ keptLine line gap := by
  have hslashes : '\n' ∉ Chars.slashes := by decide
  simp [keptLine, h.1, h.2, hslashes]

theorem newline_not_mem_movedLine {line : List Char × List Char}
    (h : '\n' ∉ line.1 ∧ '\n' ∉ line.2) (column : Nat) :
    '\n' ∉ Chars.moveComment column (Chars.remarked line.1 line.2) := by
  intro hmem
  have hslashes : '\n' ∉ Chars.slashes := by decide
  simpa [Chars.remarked, h.1, h.2, hslashes] using Chars.newline_mem_of_mem_moveComment hmem

theorem toList_keptCode (unit field path : String) (first second third : Nat) :
    (keptCode unit field path first second third).toList = Chars.joinLines (sensorHead ::
      (List.zipWith keptLine (sensorLines unit field path) [first, second, third] ++ [[')']])) := by
  have hline : ∀ (argument comment : String) (gap : Nat),
      ("//" ++ comment).toList = Chars.slashes ++ comment.toList →
      (unit ++ argument ++ Config.spaces gap ++ ("//" ++ comment)).toList =
        keptLine (unit.toList ++ argument.toList, comment.toList) gap := by
    intro argument comment gap hcomment
    rw [String.toList_append, hcomment]
    simp [keptLine, Config.spaces]
  have hstruct :=
    hline ("c." ++ sensorStruct field ++ ",  ") " Sensor Data Struct" first (by decide)
  have hfield := hline (quote field ++ ",  ") " Sensor Data Field" second (by decide)
  have hpath := hline (quote path ++ "  ") " Path of Sensor Device" third (by decide)
  rw [keptCode, toList_join_newline]
  simp only [List.map_cons, List.map_nil, sensorLines, List.zipWith_cons_cons,
    List.zipWith_nil_left, List.cons_append, List.nil_append]
  rw [← hstruct, ← hfield, ← hpath]
  rfl

/-- Lines between the first and the last one of a sensor read can be told from its text. -/
theorem eq_of_joinLines_eq {lines others : List (List Char)}
    (hlines : ∀ line ∈ lines, '\n' ∉ line) (hothers : ∀ line ∈ others, '\n' ∉ line)
    (h : Chars.joinLines (sensorHead :: (lines ++ [[')']])) =
      Chars.joinLines (sensorHead :: (others ++ [[')']]))) :
    lines = others := by
  have hends : '\n' ∉ sensorHead ∧ '\n' ∉ [')'] := by decide
  have hwhole : ∀ {inner : List (List Char)}, (∀ line ∈ inner, '\n' ∉ line) →
      ∀ line ∈ sensorHead :: (inner ++ [[')']]), '\n' ∉ line := by
    intro inner hinner
    simp only [List.forall_mem_cons, List.forall_mem_append]
    exact ⟨hends.1, hinner, hends.2, List.forall_mem_nil _⟩
  have hsplit := congrArg Chars.splitLines h
  rw [Chars.splitLines_joinLines (List.cons_ne_nil _ _) (hwhole hlines),
    Chars.splitLines_joinLines (List.cons_ne_nil _ _) (hwhole hothers)] at hsplit
  exact List.append_cancel_right (List.cons.inj hsplit).2

theorem keepsStrings_iff_lines {unit : String}
    (hunit : IsIndent unit.toList) (field path : String) :
    KeepsStrings unit field path (sensorCode unit field path) ↔
    ∀ line ∈ sensorLines unit field path, ∃ gap,
      Chars.moveComment (Chars.alignedColumn ((sensorLines unit field path).map Prod.fst))
        (Chars.remarked line.1 line.2) = keptLine line gap := by
  generalize hcolumn : Chars.alignedColumn ((sensorLines unit field path).map Prod.fst) = column
  have hcode := toList_sensorCode unit field path
  rw [hcolumn] at hcode
  have hfree := newline_not_mem_sensorLines hunit field path
  constructor
  · rintro ⟨first, second, third, heq⟩
    rw [heq, toList_keptCode] at hcode
    have hkept : ∀ line ∈ List.zipWith keptLine (sensorLines unit field path)
        [first, second, third],
        '\n' ∉ line := by
      intro line hline
      obtain ⟨i, hi, rfl⟩ := List.mem_iff_getElem.mp hline
      rw [List.getElem_zipWith]
      exact newline_not_mem_keptLine (hfree _ (List.getElem_mem _)) _
    have hmoved : ∀ line ∈ (sensorLines unit field path).map fun line =>
        Chars.moveComment column (Chars.remarked line.1 line.2), '\n' ∉ line := by
      rw [List.forall_mem_map]
      exact fun line hline => newline_not_mem_movedLine (hfree line hline) column
    have hsame := eq_of_joinLines_eq hmoved hkept hcode.symm
    intro line hline
    obtain ⟨i, hi, rfl⟩ := List.mem_iff_getElem.mp hline
    have hat := List.getElem_of_eq hsame (by simpa using hi)
    rw [List.getElem_map, List.getElem_zipWith] at hat
    exact ⟨_, hat⟩
  · intro hkept
    simp only [sensorLines, List.forall_mem_cons] at hkept
    obtain ⟨⟨first, hfirst⟩, ⟨second, hsecond⟩, ⟨third, hthird⟩, -⟩ := hkept
    refine ⟨first, second, third, String.toList_inj.mp ?_⟩
    rw [hcode, toList_keptCode]
    simp only [sensorLines, List.map_cons, List.map_nil, List.zipWith_cons_cons,
      List.zipWith_nil_left, hfirst, hsecond, hthird]

/-! ### Sensor reads -/

theorem slash_not_mem_indent {unit : List Char} (h : IsIndent unit) : '/' ∉ unit := by
  intro hmem
  rcases h '/' hmem with hspace | htab
  · exact absurd hspace (by decide)
  · exact absurd htab (by decide)

theorem getLast_sensorLines (unit field path : String) :
    ∀ line ∈ sensorLines unit field path, line.1.getLast? ≠ some '/' := by
  have hspace : ∀ {front behind : List Char},
      behind.getLast? = some ' ' → (front ++ behind).getLast? ≠ some '/' := by
    intro front behind h
    simp [h]
  simp only [sensorLines, List.forall_mem_cons, String.toList_append, ← List.append_assoc]
  exact ⟨hspace (by decide), hspace (by decide), hspace (by decide), List.forall_mem_nil _⟩

theorem keepsStrings_iff {unit : String} (hunit : IsIndent unit.toList) (field path : String) :
    KeepsStrings unit field path (sensorCode unit field path) ↔
      ∀ argument ∈ sensorArguments field path, Mentions "//" argument →
        ∀ other ∈ sensorArguments field path,
          Chars.slashColumn other.toList ≤ Chars.slashColumn argument.toList := by
  have hfree := slash_not_mem_indent hunit
  have hslashes : "//".toList = Chars.slashes := by decide
  apply (keepsStrings_iff_lines hunit field path).trans
  apply (Chars.exists_gaps_iff (getLast_sensorLines unit field path)).trans
  simp only [map_fst_sensorLines, List.forall_mem_map, Chars.slashes_infix_append_iff hfree,
    Chars.slashColumn_append hfree, Nat.add_le_add_iff_left, Mentions, hslashes]

theorem keepsStrings_of_no_slashes {unit : String} (hunit : IsIndent unit.toList)
    {field path : String} (hfield : ¬Mentions "//" field) (hpath : ¬Mentions "//" path) :
    KeepsStrings unit field path (sensorCode unit field path) := by
  have hstruct : ¬Mentions "//" ("c." ++ sensorStruct field ++ ",  ") := by
    unfold sensorStruct
    split
    · decide
    · decide
  rw [keepsStrings_iff hunit]
  intro argument hargument hmention
  simp only [sensorArguments, List.mem_cons, List.not_mem_nil, or_false] at hargument
  rcases hargument with rfl | rfl | rfl
  · exact absurd hmention hstruct
  · exact absurd (mentions_slashes_of_literal (by decide) hmention) hfield
  · exact absurd (mentions_slashes_of_literal (by decide) hmention) hpath

/-- The second and third argument of a sensor read are its literals, unbroken, if neither has two
slashes, and otherwise exactly if no comment has to be moved to the right of the slashes. -/
theorem sensor_reads_keep_strings_but_for_slashes {config : Config}
    (hindent : IsIndent config.indentUnit.toList) {node : Node}
    (hkind : node.kind = "bme280") (session : Session) :
    let field := optionOr node "FIELD" "temperature"
    let path := optionOr node "PATH" "/dev/sensor/sensor_baro0"
    ∃ code,
      (node.offer (setting config)).emission session = .ok (.value code .unaryPrefix) session ∧
      (¬Mentions "//" field → ¬Mentions "//" path →
        KeepsStrings config.indentUnit field path code) ∧
      (KeepsStrings config.indentUnit field path code ↔
        ∀ argument ∈ sensorArguments field path, Mentions "//" argument →
          ∀ other ∈ sensorArguments field path,
            Chars.slashColumn other.toList ≤ Chars.slashColumn argument.toList) := by
  intro field path
  refine ⟨_, emission_readSensor hkind session, ?_, ?_⟩
  · exact keepsStrings_of_no_slashes hindent
  · exact keepsStrings_iff hindent field path

/-- A sensor read from the given path. -/
def sensorAt (path : String) : Node :=
  { kind := "bme280", fields := [("PATH", .text path)] }

/-- A path without two slashes, and one in which they stand to the right of every comment. -/
theorem plain_and_late_slashes_are_kept : IsIndent ({} : Config).indentUnit.toList ∧
    ∀ path ∈ ["/dev/sensor/x0", "/dev/sensor/sensor_baro//0"],
      ∃ code, ((sensorAt path).offer (setting {})).emission (setting {}).session =
          .ok (.value code .unaryPrefix) (setting {}).session ∧
          KeepsStrings "    " "temperature" path code := by
  have hindent : IsIndent ({} : Config).indentUnit.toList := by decide
  rw [List.forall_mem_cons, List.forall_mem_singleton]
  refine ⟨hindent, ?_, ?_⟩
  · obtain ⟨code, hemission, hplain, -⟩ := @sensor_reads_keep_strings_but_for_slashes {} hindent
      (sensorAt "/dev/sensor/x0") rfl (setting {}).session
    exact ⟨code, hemission, hplain (by decide) (by decide)⟩
  · obtain ⟨code, hemission, -, hkeeps⟩ := @sensor_reads_keep_strings_but_for_slashes {} hindent
      (sensorAt "/dev/sensor/sensor_baro//0") rfl (setting {}).session
    exact ⟨code, hemission, hkeeps.mpr (by decide +kernel)⟩

/-- Spaces come between the slashes of this path and what is in front of them. -/
theorem early_slashes_are_moved :
    ∃ code, ((sensorAt "/dev//baro0").offer (setting {})).emission (setting {}).session =
        .ok (.value code .unaryPrefix) (setting {}).session ∧
      ¬Mentions (quote "/dev//baro0") code ∧ Mentions "\"/dev                  //baro0\"" code := by
  refine ⟨_, emission_readSensor rfl _, ?_, ?_⟩
  · rw [Mentions, toList_sensorCode, ← Chars.occurs_iff]
    decide +kernel
  · rw [Mentions, toList_sensorCode, ← Chars.occurs_iff]
    decide +kernel

end BlockSynth.Zig
