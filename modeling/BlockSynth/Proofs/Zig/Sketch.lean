import BlockSynth.Proofs.Zig.Piece

/-! # Sketches of emitted text

A sketch scans the pieces of a text instead of the text, so that it can be computed, and what a
sketch finds holds of every text with these pieces.
-/
namespace BlockSynth.Zig

/-! ### Scanning pieces -/

structure Sketch where
  mode : Mode := .code
  /-- Directly behind an operand, which a word character must not continue. -/
  behind : Bool := false
  shadow : Outline := {}
  deriving DecidableEq, Repr

/-- Code of which only a bound is known. Outside all brackets it exposes nothing looser. -/
def Outline.fill (outline : Outline) (bound : Rank) : Outline :=
  if outline.opened = [] then
    { outline with last := some .literal, exposed := bound :: outline.exposed }
  else outline

/-- The bound of an operand, if there is an operand due. Where there is none, its
first sign could be taken for a difference. -/
def Outline.bound (outline : Outline) (place : Rank) : Rank :=
  if outline.last.any Token.endsOperand then .none else place

def Sketch.read (sketch : Sketch) : Piece → Option Sketch
  | .chars text =>
    if sketch.behind && (text.head?.all Chars.isWordChar) then none
    else (Scan.read (sketch.mode, sketch.shadow) text).map fun scan => ⟨scan.1, false, scan.2⟩
  | .operand place =>
    if sketch.behind then none
    else match sketch.mode with
      | .code => some ⟨.code, true, sketch.shadow.fill (sketch.shadow.bound place)⟩
      | .operator first =>
        let shadow := sketch.shadow.put (.symbol [first])
        some ⟨.code, true, shadow.fill (shadow.bound place)⟩
      | _ => none
  | .closed =>
    if sketch.mode = .code ∧ sketch.behind = false
      then some { sketch with shadow := sketch.shadow.fill .none }
    else none
  | .blank => if sketch.mode = .code ∧ sketch.behind = false then some sketch else none
  | .inner =>
    if sketch.behind then none
    else match sketch.mode with
      | .literal _ => some sketch
      | .comment => some sketch
      | _ => none

def Sketch.readAll (sketch : Sketch) (pieces : List Piece) : Option Sketch :=
  pieces.foldlM read sketch

/-! ### What a sketch says about the text -/

/-- An outline that a sketch stands for, `base` being the one that the text starts from. -/
structure Mirrors (base actual shadow : Outline) : Prop where
  opened : actual.opened = shadow.opened ++ base.opened
  inside : base.opened ≠ [] → actual.last = base.last ∧ actual.exposed = base.exposed
  due : base.opened = [] → shadow.last.any Token.endsOperand = false →
    actual.last.any Token.endsOperand = false
  condition : base.opened = [] → shadow.last = some .ifWord → actual.last = some .ifWord
  exposed : base.opened = [] → ∀ rank ∈ actual.exposed,
    rank ∈ base.exposed ∨ ∃ bound ∈ shadow.exposed, rank.level ≤ bound.level

/-- The minus sign is the only operator whose rank depends on what stands before it, and the more is
known to be due there, the tighter it is. -/
theorem Token.rank?_le {last shadow : Option Token} {token : Token} {rank : Rank}
    (hdue : shadow.any endsOperand = false → last.any endsOperand = false)
    (h : token.rank? last = some rank) :
    ∃ bound, token.rank? shadow = some bound ∧ rank.level ≤ bound.level := by
  by_cases hminus : token = .minus
  · subst hminus
    cases hs : shadow.any endsOperand with
    | true =>
      refine ⟨.additive, by simp [rank?, hs], ?_⟩
      cases hl : last.any endsOperand with
      | true =>
        have : rank = .additive := by simpa [rank?, hl, eq_comm] using h
        simp [this]
      | false =>
        have : rank = .unaryPrefix := by
          simpa [rank?, hl, operators, List.lookup_cons, eq_comm] using h
        simp [this, Rank.level]
    | false =>
      have hl := hdue hs
      exact ⟨rank, by simpa [rank?, hs, hl] using h, Nat.le_refl _⟩
  · exact ⟨rank, by simpa [rank?, hminus] using h, Nat.le_refl _⟩

variable {base actual shadow : Outline}

theorem Mirrors.put (h : Mirrors base actual shadow) (token : Token) :
    Mirrors base (actual.put token) (shadow.put token) := by
  by_cases hshadow : shadow.opened = []
  · by_cases hbase : base.opened = []
    · have hactual : actual.opened = [] := by simp [h.opened, hshadow, hbase]
      refine ⟨by simp [h.opened], fun hne => absurd hbase hne, fun _ hlast => ?_,
        fun _ hlast => ?_, ?_⟩
      · simpa [Outline.put, hshadow, hactual] using hlast
      · simpa [Outline.put, hshadow, hactual] using hlast
      · intro _ rank hrank
        simp only [Outline.put, hactual, if_true, List.mem_append, Option.mem_toList] at hrank
        simp only [Outline.put, hshadow, if_true, List.mem_append, Option.mem_toList]
        rcases hrank with hrank | hrank
        · obtain ⟨bound, hbound, hle⟩ := Token.rank?_le (h.due hbase) hrank
          exact .inr ⟨bound, .inl hbound, hle⟩
        · rcases h.exposed hbase rank hrank with hold | ⟨bound, hbound, hle⟩
          · exact .inl hold
          · exact .inr ⟨bound, .inr hbound, hle⟩
    · have hactual : actual.opened ≠ [] := by simpa [h.opened, hshadow] using hbase
      rw [Outline.put_of_opened hactual]
      exact ⟨by simpa using h.opened, h.inside, fun hnil => absurd hnil hbase,
        fun hnil => absurd hnil hbase, fun hnil => absurd hnil hbase⟩
  · have hactual : actual.opened ≠ [] := by simp [h.opened, hshadow]
    rw [Outline.put_of_opened hactual, Outline.put_of_opened hshadow]
    exact h

theorem Mirrors.add (h : Mirrors base actual shadow) {token : Token} {next : Outline}
    (hadd : shadow.add token = some next) :
    ∃ result, actual.add token = some result ∧ Mirrors base result next := by
  cases token with
  | opening bracket =>
    obtain rfl : { shadow with opened := bracket :: shadow.opened } = next := by
      simpa [Outline.add] using hadd
    exact ⟨_, rfl, by simp [h.opened], h.inside, h.due, h.condition, h.exposed⟩
  | closing bracket =>
    simp only [Outline.add] at hadd ⊢
    cases hopened : shadow.opened with
    | nil => simp [hopened] at hadd
    | cons innermost rest =>
      have hactual : actual.opened = innermost :: (rest ++ base.opened) := by
        simp [h.opened, hopened]
      simp only [hopened] at hadd
      split at hadd
      · rename_i hmatch
        obtain rfl := Option.some.inj hadd
        simp only [hactual, if_pos hmatch]
        refine ⟨_, rfl, rfl, ?_, ?_, ?_, h.exposed⟩
        · intro hbase
          simp [hbase, h.inside hbase]
        · intro hbase hlast
          by_cases hrest : rest = []
          · by_cases hif : shadow.last = some .ifWord
            · simp [hrest, hbase, h.condition hbase hif]
            · simp [hrest, hif, Token.endsOperand] at hlast
          · simpa [hrest, hbase] using h.due hbase (by simpa [hrest] using hlast)
        · intro hbase hlast
          by_cases hrest : rest = []
          · by_cases hif : shadow.last = some .ifWord
            · simp [hrest, hif] at hlast
            · simp only [hrest, ne_eq, not_true_eq_false, if_false, if_neg hif,
                Option.some.injEq] at hlast
              simp [Token.ifWord] at hlast
          · simpa [hrest, hbase] using h.condition hbase (by simpa [hrest] using hlast)
      · simp at hadd
  | word text =>
    obtain rfl := Option.some.inj hadd
    exact ⟨_, rfl, h.put _⟩
  | symbol text =>
    obtain rfl := Option.some.inj hadd
    exact ⟨_, rfl, h.put _⟩
  | literal =>
    obtain rfl := Option.some.inj hadd
    exact ⟨_, rfl, h.put _⟩

theorem Mirrors.addAll (h : Mirrors base actual shadow) {tokens : List Token} {next : Outline}
    (hadd : shadow.addAll tokens = some next) :
    ∃ result, actual.addAll tokens = some result ∧ Mirrors base result next := by
  induction tokens generalizing actual shadow with
  | nil =>
    obtain rfl := Option.some.inj hadd
    exact ⟨actual, rfl, h⟩
  | cons token rest ih =>
    rw [Outline.addAll_cons] at hadd
    obtain ⟨middle, hfirst, hrest⟩ := Option.bind_eq_some_iff.mp hadd
    obtain ⟨result, hactual, hmirrors⟩ := h.add hfirst
    obtain ⟨final, hfinal, hdone⟩ := ih hmirrors hrest
    exact ⟨final, by simp [Outline.addAll_cons, hactual, hfinal], hdone⟩

/-- Fixed text is scanned alike with and without brackets around it. -/
theorem Mirrors.read (h : Mirrors base actual shadow) {mode mode' : Mode} {text : List Char}
    {next : Outline} (hread : Scan.read (mode, shadow) text = some (mode', next)) :
    ∃ result, Scan.read (mode, actual) text = some (mode', result) ∧ Mirrors base result next := by
  rw [Scan.read_eq_run] at hread
  obtain ⟨⟨tokens, mode₁⟩, hrun, hmap⟩ := Option.bind_eq_some_iff.mp hread
  obtain ⟨outline, hall, heq⟩ := Option.map_eq_some_iff.mp hmap
  obtain ⟨rfl, rfl⟩ := Prod.mk.inj heq
  obtain ⟨result, hactual, hmirrors⟩ := h.addAll hall
  exact ⟨result, by simp [Scan.read_eq_run, hrun, hactual], hmirrors⟩

theorem Mirrors.fill (h : Mirrors base actual shadow) {bound : Rank} {next : Outline}
    (hnext : next.opened = actual.opened) (hsame : actual.opened ≠ [] → next = actual)
    (hexposed : actual.opened = [] → ∀ rank ∈ next.exposed,
      rank ∈ actual.exposed ∨ rank.level ≤ bound.level) :
    Mirrors base next (shadow.fill bound) := by
  by_cases hshadow : shadow.opened = []
  · simp only [Outline.fill, hshadow, if_true]
    refine ⟨by simp [hnext, h.opened, hshadow], fun hbase => ?_, fun _ hlit => ?_, fun _ hif => ?_,
      fun hbase rank hrank => ?_⟩
    · have hactual : actual.opened ≠ [] := by simpa [h.opened, hshadow] using hbase
      rw [hsame hactual]
      exact h.inside hbase
    · simp [Token.endsOperand] at hlit
    · simp [Token.ifWord] at hif
    · have hactual : actual.opened = [] := by simp [h.opened, hshadow, hbase]
      rcases hexposed hactual rank hrank with hold | hle
      · rcases h.exposed hbase rank hold with hfirst | ⟨other, hother, hle⟩
        · exact .inl hfirst
        · exact .inr ⟨other, List.mem_cons_of_mem _ hother, hle⟩
      · exact .inr ⟨bound, List.mem_cons_self, hle⟩
  · have hactual : actual.opened ≠ [] := by simp [h.opened, hshadow]
    simpa [Outline.fill, hshadow, hsame hactual] using h

/-- An operand behind the text that the sketch has read so far. -/
theorem Mirrors.operand (h : Mirrors base actual shadow) {place : Rank} {text : List Char}
    (htext : Operand place text) :
    ∃ scan : Scan, scan.1.IsSettled ∧ Scan.read (.code, actual) text = some scan ∧
      Mirrors base scan.settle (shadow.fill (shadow.bound place)) := by
  by_cases hactual : actual.opened = []
  · have hsides := List.append_eq_nil_iff.mp (h.opened ▸ hactual)
    by_cases hdue : shadow.last.any Token.endsOperand = true
    · -- Nothing is known about the sign, so only the brackets count.
      obtain ⟨⟨mode, next⟩, hset, hread, hnil, -⟩ :=
        htext.outside { actual with last := none } hactual rfl
      have hsame : actual.opened = ({ actual with last := none } : Outline).opened := rfl
      obtain ⟨result, hresult, hopened⟩ := Scan.read_of_opened hsame hread
      have hsettle : (Scan.settle (mode, result)).opened = actual.opened := by
        rw [Scan.settle_opened, hopened, ← Scan.settle_opened (mode, next), hnil, hactual]
      refine ⟨(mode, result), hset, hresult, h.fill hsettle (absurd hactual) ?_⟩
      intro _ rank _
      simp [Outline.bound, hdue, Rank.level_le_none]
    · have hlast := h.due hsides.2 (by simpa using hdue)
      obtain ⟨scan, hset, hread, hnil, hexposed⟩ := htext.outside actual hactual hlast
      refine ⟨scan, hset, hread, h.fill (by rw [hnil, hactual]) (absurd hactual) ?_⟩
      intro _ rank hrank
      rw [Outline.bound, if_neg hdue]
      exact hexposed rank hrank
  · obtain ⟨mode, hset, hread⟩ := htext.inside actual hactual
    have hsettle : Scan.settle (mode, actual) = actual := by
      cases mode <;> simp [Scan.settle, Outline.put_of_opened hactual]
    refine ⟨(mode, actual), hset, hread, ?_⟩
    rw [hsettle]
    exact h.fill rfl (fun _ => rfl) (absurd · hactual)

theorem Mirrors.closed (h : Mirrors base actual shadow) {text : List Char} (htext : Closed text) :
    ∃ result, Scan.read (.code, actual) text = some (.code, result) ∧
      Mirrors base result (shadow.fill .none) := by
  by_cases hactual : actual.opened = []
  · obtain ⟨next, hread, hnil⟩ := htext.outside actual hactual
    exact ⟨next, hread, h.fill (by rw [hnil, hactual]) (absurd hactual)
      fun _ rank _ => .inr (Rank.level_le_none rank)⟩
  · exact ⟨actual, htext.inside actual hactual, h.fill rfl (fun _ => rfl) (absurd · hactual)⟩

/-- A scan that a sketch stands for. -/
def Follows (base : Outline) (scan : Scan) (sketch : Sketch) : Prop :=
  if sketch.behind then
    sketch.mode = .code ∧ scan.1.IsSettled ∧ Mirrors base scan.settle sketch.shadow
  else scan.1 = sketch.mode ∧ Mirrors base scan.2 sketch.shadow

theorem Scan.read_indent {text : List Char} (h : IsIndent text) (outline : Outline) :
    Scan.read (.code, outline) text = some (.code, outline) := by
  rw [read_eq_run, Mode.run_indent h]
  rfl

theorem Scan.read_inner {mode : Mode} (hmode : mode = .comment ∨ ∃ quote, mode = .literal quote)
    {text : List Char} (h : IsInner text) (outline : Outline) :
    Scan.read (mode, outline) text = some (mode, outline) := by
  rw [read_eq_run, Mode.run_inner hmode h]
  rfl

theorem Scan.read_operator {first : Char} {text : List Char} (outline : Outline)
    (h : ∃ c, text.head? = some c ∧ leads c = true) :
    Scan.read (.operator first, outline) text =
      Scan.read (.code, outline.put (.symbol [first])) text := by
  rw [read_eq_run, read_eq_run, Mode.run_operator first h]
  cases Mode.code.run text <;> simp [Outline.addAll_cons, Outline.add]

theorem Scan.read_of_settled {scan : Scan} (hset : scan.1.IsSettled) {c : Char} (rest : List Char)
    (hc : Chars.isWordChar c = false) :
    scan.read (c :: rest) = Scan.read (.code, scan.settle) (c :: rest) := by
  obtain ⟨mode, outline⟩ := scan
  rw [read_eq_run, read_eq_run, Mode.run_of_settled hset hc]
  cases mode with
  | code => simp [Mode.pending, settle]
  | word text =>
    cases Mode.code.run (c :: rest)
      <;> simp [Mode.pending, settle, Outline.addAll_cons, Outline.add]
  | operator first => exact hset.elim
  | literal quote => exact hset.elim
  | escape quote => exact hset.elim
  | comment => exact hset.elim

/-- A scan that a sketch stands for when nothing is pending is in the mode of the sketch. -/
theorem Follows.exists_mirrors {scan : Scan} {mode : Mode}
    {shadow : Outline} (h : Follows base scan ⟨mode, false, shadow⟩) :
    ∃ actual, scan = (mode, actual) ∧ Mirrors base actual shadow := by
  obtain ⟨hmode, hmirrors⟩ := h
  obtain ⟨actualMode, actual⟩ := scan
  obtain rfl : actualMode = mode := hmode
  exact ⟨actual, rfl, hmirrors⟩

theorem Follows.chars {scan : Scan} {sketch next : Sketch} {text : List Char}
    (h : Follows base scan sketch) (hread : sketch.read (.chars text) = some next) :
    ∃ result, scan.read text = some result ∧ Follows base result next := by
  obtain ⟨mode, behind, shadow⟩ := sketch
  simp only [Sketch.read] at hread
  split at hread
  · simp at hread
  · rename_i hword
    obtain ⟨⟨mode', shadow'⟩, hscan, rfl⟩ := Option.map_eq_some_iff.mp hread
    cases behind with
    | true =>
      obtain ⟨rfl, hset, hmirrors⟩ := h
      cases text with
      | nil => simp at hword
      | cons c rest =>
        rw [Scan.read_of_settled hset rest (by simpa using hword)]
        obtain ⟨result, hresult, hnext⟩ := hmirrors.read hscan
        exact ⟨_, hresult, rfl, hnext⟩
    | false =>
      obtain ⟨actual, rfl, hmirrors⟩ := h.exists_mirrors
      obtain ⟨result, hresult, hnext⟩ := hmirrors.read hscan
      exact ⟨_, hresult, rfl, hnext⟩

theorem Follows.operand {scan : Scan} {sketch next : Sketch}
    {place : Rank} {text : List Char} (h : Follows base scan sketch)
    (hread : sketch.read (.operand place) = some next) (htext : Operand place text) :
    ∃ result, scan.read text = some result ∧ Follows base result next := by
  obtain ⟨mode, behind, shadow⟩ := sketch
  cases behind with
  | true => simp [Sketch.read] at hread
  | false =>
    obtain ⟨actual, rfl, hmirrors⟩ := h.exists_mirrors
    simp only [Sketch.read, Bool.false_eq_true, if_false] at hread
    split at hread
    · obtain rfl := Option.some.inj hread
      obtain ⟨result, hset, hresult, hnext⟩ := hmirrors.operand htext
      exact ⟨result, hresult, rfl, hset, hnext⟩
    · rename_i first
      obtain rfl := Option.some.inj hread
      obtain ⟨result, hset, hresult, hnext⟩ := (hmirrors.put (.symbol [first])).operand htext
      exact ⟨result, by rw [Scan.read_operator _ htext.leads, hresult], rfl, hset, hnext⟩
    · simp at hread

theorem Follows.closed {scan : Scan} {sketch next : Sketch} {text : List Char}
    (h : Follows base scan sketch) (hread : sketch.read .closed = some next) (htext : Closed text) :
    ∃ result, scan.read text = some result ∧ Follows base result next := by
  obtain ⟨mode, behind, shadow⟩ := sketch
  simp only [Sketch.read] at hread
  split at hread
  · rename_i hcode
    obtain ⟨rfl, rfl⟩ : mode = .code ∧ behind = false := hcode
    obtain rfl := Option.some.inj hread
    obtain ⟨actual, rfl, hmirrors⟩ := h.exists_mirrors
    obtain ⟨result, hresult, hnext⟩ := hmirrors.closed htext
    exact ⟨_, hresult, rfl, hnext⟩
  · simp at hread

theorem Follows.blank {scan : Scan} {sketch next : Sketch}
    {text : List Char} (h : Follows base scan sketch)
    (hread : sketch.read .blank = some next) (htext : IsIndent text) :
    ∃ result, scan.read text = some result ∧ Follows base result next := by
  obtain ⟨mode, behind, shadow⟩ := sketch
  simp only [Sketch.read] at hread
  split at hread
  · rename_i hcode
    obtain ⟨rfl, rfl⟩ : mode = .code ∧ behind = false := hcode
    obtain rfl := Option.some.inj hread
    obtain ⟨actual, rfl, hmirrors⟩ := h.exists_mirrors
    exact ⟨_, Scan.read_indent htext actual, rfl, hmirrors⟩
  · simp at hread

theorem Follows.inner {scan : Scan} {sketch next : Sketch} {text : List Char}
    (h : Follows base scan sketch) (hread : sketch.read .inner = some next) (htext : IsInner text) :
    ∃ result, scan.read text = some result ∧ Follows base result next := by
  obtain ⟨mode, behind, shadow⟩ := sketch
  cases behind with
  | true => simp [Sketch.read] at hread
  | false =>
    obtain ⟨actual, rfl, hmirrors⟩ := h.exists_mirrors
    simp only [Sketch.read, Bool.false_eq_true, if_false] at hread
    split at hread
    · rename_i quote
      obtain rfl := Option.some.inj hread
      exact ⟨_, Scan.read_inner (.inr ⟨quote, rfl⟩) htext actual, rfl, hmirrors⟩
    · obtain rfl := Option.some.inj hread
      exact ⟨_, Scan.read_inner (.inl rfl) htext actual, rfl, hmirrors⟩
    · simp at hread

/-- What a sketch does for a piece, the scan does for every text of that kind. -/
theorem Follows.read {scan : Scan} {sketch next : Sketch} {piece : Piece} {text : List Char}
    (h : Follows base scan sketch) (hread : sketch.read piece = some next) (htext : piece.Of text) :
    ∃ result, scan.read text = some result ∧ Follows base result next := by
  cases piece with
  | chars fixed =>
    obtain rfl : text = fixed := htext
    exact h.chars hread
  | operand place => exact h.operand hread htext
  | closed => exact h.closed hread htext
  | blank => exact h.blank hread htext
  | inner => exact h.inner hread htext

theorem Follows.readAll {scan : Scan} {sketch next : Sketch} {pieces : List Piece}
    {text : List Char} (h : Follows base scan sketch) (hread : sketch.readAll pieces = some next)
    (htext : Composed pieces text) :
    ∃ result, scan.read text = some result ∧ Follows base result next := by
  induction pieces generalizing scan sketch text with
  | nil =>
    obtain rfl : text = [] := htext
    obtain rfl : sketch = next := by simpa [Sketch.readAll] using hread
    exact ⟨scan, rfl, h⟩
  | cons piece rest ih =>
    obtain ⟨part, more, rfl, hpart, hmore⟩ := htext
    simp only [Sketch.readAll, List.foldlM_cons, Option.bind_eq_bind] at hread
    obtain ⟨middle, hfirst, hrest⟩ := Option.bind_eq_some_iff.mp hread
    obtain ⟨result, hresult, hfollows⟩ := h.read hfirst hpart
    obtain ⟨final, hfinal, hdone⟩ := ih hfollows hrest hmore
    exact ⟨final, by rw [Scan.read_of_read hresult, hfinal], hdone⟩

/-! ### Certificates -/

/-- Whether text with the given pieces starts with a character that completes no operator. -/
def leadsWith : List Piece → Bool
  | .chars (c :: _) :: _ => leads c
  | .operand _ :: _ => true
  | _ => false

theorem leads_of_composed {pieces : List Piece} {text : List Char} (h : leadsWith pieces = true)
    (htext : Composed pieces text) : ∃ c, text.head? = some c ∧ leads c = true := by
  unfold leadsWith at h
  split at h
  · obtain ⟨part, more, rfl, rfl, -⟩ := htext
    exact ⟨_, rfl, h⟩
  · obtain ⟨part, more, rfl, hpart, -⟩ := htext
    obtain ⟨c, hhead, hc⟩ := hpart.leads
    exact ⟨c, by rw [List.head?_append, hhead, Option.some_or], hc⟩
  · simp at h

/-- Whether the pieces make up an operand that exposes nothing looser than the bound. -/
def fitsBelow (bound : Rank) (pieces : List Piece) : Bool :=
  (leadsWith pieces && tamePieces pieces) && match Sketch.readAll {} pieces with
    | some ⟨.code, _, shadow⟩ =>
      shadow.opened.isEmpty && shadow.exposed.all (·.level ≤ bound.level)
    | some ⟨.word text, false, shadow⟩ =>
      shadow.opened.isEmpty && (shadow.put (.word text)).exposed.all (·.level ≤ bound.level)
    | _ => false

/-- Whether the pieces make up closed text. -/
def closesAll (pieces : List Piece) : Bool :=
  match Sketch.readAll {} pieces with
  | some ⟨.code, false, shadow⟩ => shadow.opened.isEmpty
  | _ => false

theorem mirrors_start {base : Outline}
    (h : base.opened = [] → base.last.any Token.endsOperand = false) : Mirrors base base {} where
  opened := rfl
  inside _ := ⟨rfl, rfl⟩
  due hbase _ := h hbase
  condition _ hif := by simp at hif
  exposed _ rank hrank := .inl hrank

theorem follows_start {base : Outline}
    (h : base.opened = [] → base.last.any Token.endsOperand = false) :
    Follows base (.code, base) {} :=
  ⟨rfl, mirrors_start h⟩

/-- Inside brackets a mirrored outline without own brackets is the one that the text
started from. -/
theorem Mirrors.eq_base (h : Mirrors base actual shadow) (hnil : shadow.opened = [])
    (hbase : base.opened ≠ []) : actual = base := by
  obtain ⟨opened, last, exposed⟩ := actual
  have hopened : opened = base.opened := by simpa [hnil] using h.opened
  have hinside := h.inside hbase
  simp only at hinside
  rw [hopened, hinside.1, hinside.2]

/-- The end of a sketch that reads an operand, as a scan. -/
theorem exists_settled_of_fitsBelow {bound : Rank} {pieces : List Piece} {text : List Char}
    (hfits : fitsBelow bound pieces = true) (htext : Composed pieces text)
    (hstart : base.opened = [] → base.last.any Token.endsOperand = false) :
    ∃ scan : Scan, ∃ shadow : Outline, Scan.read (.code, base) text = some scan ∧
      scan.1.IsSettled ∧ Mirrors base scan.settle shadow ∧ shadow.opened = [] ∧
      ∀ rank ∈ shadow.exposed, rank.level ≤ bound.level := by
  simp only [fitsBelow, Bool.and_eq_true] at hfits
  obtain ⟨-, hfits⟩ := hfits
  split at hfits
  · rename_i behind shadow hread
    obtain ⟨result, hresult, hfollows⟩ := (follows_start hstart).readAll hread htext
    simp only [Bool.and_eq_true, List.isEmpty_iff, List.all_eq_true, decide_eq_true_eq] at hfits
    refine ⟨result, shadow, hresult, ?_⟩
    cases behind with
    | true => exact ⟨hfollows.2.1, hfollows.2.2, hfits.1, hfits.2⟩
    | false =>
      obtain ⟨mode, outline⟩ := result
      obtain ⟨rfl, hmirrors⟩ : mode = .code ∧ Mirrors base outline shadow := hfollows
      exact ⟨trivial, hmirrors, hfits.1, hfits.2⟩
  · rename_i word shadow hread
    obtain ⟨⟨mode, outline⟩, hresult, hfollows⟩ := (follows_start hstart).readAll hread htext
    obtain ⟨rfl, hmirrors⟩ : mode = .word word ∧ Mirrors base outline shadow := hfollows
    simp only [Bool.and_eq_true, List.isEmpty_iff, List.all_eq_true, decide_eq_true_eq] at hfits
    exact ⟨_, shadow.put (.word word), hresult, trivial,
      hmirrors.put _, by simpa using hfits.1, hfits.2⟩
  · simp at hfits

theorem operand_of_composed {bound : Rank} {pieces : List Piece} {text : List Char}
    (hfits : fitsBelow bound pieces = true) (htext : Composed pieces text) :
    Operand bound text where
  leads := by
    simp only [fitsBelow, Bool.and_eq_true] at hfits
    exact leads_of_composed hfits.1.1 htext
  tame := by
    simp only [fitsBelow, Bool.and_eq_true] at hfits
    exact tame_of_composed hfits.1.2 htext
  inside outline hopened := by
    obtain ⟨⟨mode, result⟩, shadow, hread, hset, hmirrors, hnil, -⟩ :=
      exists_settled_of_fitsBelow hfits htext (absurd · hopened)
    have heq := hmirrors.eq_base hnil hopened
    have hresult : result.opened ≠ [] := by
      rw [← Scan.settle_opened (mode, result), heq]
      exact hopened
    have hsettle : Scan.settle (mode, result) = result := by
      cases mode <;> simp [Scan.settle, Outline.put_of_opened hresult]
    exact ⟨mode, hset, by rw [hread, ← hsettle, heq]⟩
  outside outline hopened hlast := by
    obtain ⟨scan, shadow, hread, hset, hmirrors, hnil, hbound⟩ :=
      exists_settled_of_fitsBelow hfits htext fun _ => hlast
    refine ⟨scan, hset, hread, by rw [hmirrors.opened, hnil, hopened, List.append_nil], ?_⟩
    intro rank hrank
    rcases hmirrors.exposed hopened rank hrank with hold | ⟨other, hother, hle⟩
    · exact .inl hold
    · exact .inr (Nat.le_trans hle (hbound other hother))

theorem closed_of_composed {pieces : List Piece} {text : List Char}
    (hcloses : closesAll pieces = true) (htext : Composed pieces text) : Closed text := by
  have hscan : ∀ base : Outline, (base.opened = [] → base.last.any Token.endsOperand = false) →
      ∃ result shadow : Outline, Scan.read (.code, base) text = some (.code, result) ∧
        Mirrors base result shadow ∧ shadow.opened = [] := by
    intro base hstart
    unfold closesAll at hcloses
    split at hcloses
    · rename_i shadow hread
      obtain ⟨⟨mode, result⟩, hresult, hfollows⟩ := (follows_start hstart).readAll hread htext
      obtain ⟨rfl, hmirrors⟩ : mode = .code ∧ Mirrors base result shadow := hfollows
      exact ⟨result, shadow, hresult, hmirrors, List.isEmpty_iff.mp hcloses⟩
    · simp at hcloses
  constructor
  · intro outline hopened
    obtain ⟨result, shadow, hread, hmirrors, hnil⟩ := hscan outline (absurd · hopened)
    rw [hread, hmirrors.eq_base hnil hopened]
  · intro outline hopened
    obtain ⟨result, shadow, hread, hmirrors, hnil⟩ := hscan {} fun _ => rfl
    obtain ⟨next, hnext, hsame⟩ := Scan.read_of_opened (h := hopened) hread
    exact ⟨next, hnext, by rw [hsame, hmirrors.opened, hnil, List.append_nil]⟩

/-! ### Strings -/

theorem operand_of_spells {bound : Rank} (code : String) {pieces : List Piece}
    [h : Spells code pieces] (hfits : fitsBelow bound pieces = true) : Operand bound code.toList :=
  operand_of_composed hfits h.composed

theorem closed_of_spells (code : String) {pieces : List Piece} [h : Spells code pieces]
    (hcloses : closesAll pieces = true) : Closed code.toList :=
  closed_of_composed hcloses h.composed

end BlockSynth.Zig
