import BlockSynth.Proofs.Zig.Growth
import BlockSynth.Proofs.Zig.Primary
import BlockSynth.Proofs.Zig.Temperate

/-! # Messages

A message lists the names and values of its fields. The commas come from the fields, not from the
message, and what stands for a slot without a field brings none along.
-/
namespace BlockSynth.Zig

open Script

def Token.comma : Token := .symbol [',']

/-! ### Lists -/

/-- Primaries with commas between them, and perhaps one behind the last. -/
inductive IsList : List Token → Prop
  | nil : IsList []
  | last {element : List Token} : IsPrimary element → IsList element
  | more {element rest : List Token} : IsPrimary element → IsList rest →
    IsList (element ++ .comma :: rest)

/-- The end of the tokens, or a comma. -/
def AtComma (tokens : List Token) : Prop :=
  ∀ token, tokens.head? = some token → token = .comma

theorem atComma_nil : AtComma [] := fun token htoken => by simp at htoken

theorem atComma_cons (rest : List Token) : AtComma (.comma :: rest) :=
  fun _ htoken => (Option.some.inj htoken).symm

theorem Matched.not_append_closing {tokens : List Token}
    (h : Matched tokens) (closer : Char) (rest : List Token) :
    ¬Matched (tokens ++ .closing closer :: rest) := by
  obtain ⟨outline, houtline, hopened⟩ := h
  rintro ⟨last, hlast, -⟩
  rw [Outline.addAll_append, houtline, Option.bind_some, Outline.addAll_cons,
    Outline.add, hopened] at hlast
  simp at hlast

/-- A group ends where its bracket is closed. -/
theorem Matched.eq_of_append {tokens other more rest : List Token}
    {closer : Char} (h : Matched tokens) (h' : Matched other)
    (heq : tokens ++ .closing closer :: more = other ++ .closing closer :: rest) :
    tokens = other := by
  rcases List.append_eq_append_iff.mp heq with ⟨between, hother, hrest⟩ | ⟨between, htokens, hrest⟩
  · rcases List.cons_eq_append_iff.mp hrest with ⟨rfl, -⟩ | ⟨tail, rfl, -⟩
    · simpa using hother.symm
    · exact absurd (hother ▸ h') (h.not_append_closing closer tail)
  · rcases List.cons_eq_append_iff.mp hrest with ⟨rfl, -⟩ | ⟨tail, rfl, -⟩
    · simpa using htokens
    · exact absurd (htokens ▸ h) (h'.not_append_closing closer tail)

theorem IsPrimary.eq_of_append {element other more rest : List Token} (h : IsPrimary element)
    (h' : IsPrimary other) (hmore : AtComma more) (hrest : AtComma rest)
    (heq : element ++ more = other ++ rest) : element = other := by
  have hpoint : ∀ {tail : List Token}, ¬AtComma (.symbol ['.'] :: tail) :=
    fun hcomma => absurd (hcomma _ rfl) (by decide)
  cases h with
  | word hword =>
    cases h' with
    | point hwhole hfraction =>
      simp only [List.cons_append, List.nil_append, List.cons.injEq] at heq
      exact absurd (heq.2 ▸ hmore) hpoint
    | _ => simp_all
  | point hwhole hfraction =>
    cases h' with
    | word hword =>
      simp only [List.cons_append, List.nil_append, List.cons.injEq] at heq
      exact absurd (heq.2 ▸ hrest) hpoint
    | _ => simp_all
  | literal => cases h' <;> simp_all
  | group hinner =>
    cases h' with
    | group hinner' =>
      simp only [List.cons_append, List.append_assoc, List.nil_append,
        List.cons.injEq, true_and] at heq
      rw [hinner.eq_of_append hinner' heq]
    | _ => simp at heq

theorem isList_append_iff {element : List Token} (h : IsPrimary element) (rest : List Token) :
    IsList (element ++ .comma :: rest) ↔ IsList rest := by
  refine ⟨fun hlist => ?_, .more h⟩
  generalize htokens : element ++ .comma :: rest = tokens at hlist
  cases hlist with
  | nil => simp at htokens
  | last hlast =>
    have heq :=
      h.eq_of_append hlast (atComma_cons rest) atComma_nil (htokens.trans (List.append_nil _).symm)
    subst heq
    simp at htokens
  | @more other rest' hother hrest' =>
    have heq := h.eq_of_append hother (atComma_cons rest) (atComma_cons rest') htokens
    subst heq
    obtain rfl : rest = rest' := by simpa using htokens
    exact hrest'

theorem not_isList_literals (rest : List Token) : ¬IsList (.literal :: .literal :: rest) := by
  intro hlist
  generalize htokens : Token.literal :: .literal :: rest = tokens at hlist
  cases hlist with
  | nil => simp at htokens
  | last hlast => cases hlast <;> simp at htokens
  | more hother hrest => cases hother <;> simp [Token.comma] at htokens

/-! ### Rows -/

/-- There is something in the slot, and it is not disabled. -/
def Occupied (node : Node) (slot : String) : Prop :=
  ∃ inner, node.input slot = some inner ∧ inner.disabled = false

/-- The tokens of a field, with the commas that it brings along, or of what stands for
a slot without one. -/
inductive Row (filled : Prop) : List Token → Prop
  | pair {value : List Token} : filled → IsPrimary value →
    Row filled (.literal :: .comma :: (value ++ [.comma]))
  | filler : ¬filled → Row filled [.literal]

/-- The rows of some slots, one behind the other. -/
inductive Rows (node : Node) : List String → List Token → Prop
  | nil : Rows node [] []
  | cons {slot : String} {slots : List String}
    {row rest : List Token} : Row (Occupied node slot) row →
    Rows node slots rest → Rows node (slot :: slots) (row ++ rest)

variable {config : Config} {node : Node} {slots : List String} {tokens : List Token}

theorem isList_pair_iff {value : List Token} (h : IsPrimary value) (rest : List Token) :
    IsList (.literal :: .comma :: (value ++ [.comma]) ++ rest) ↔ IsList rest := by
  have hname := isList_append_iff .literal (value ++ .comma :: rest)
  rw [isList_append_iff h] at hname
  simpa using hname

theorem Rows.exists_literal {slot : String} (h : Rows node (slot :: slots) tokens) :
    ∃ rest, tokens = .literal :: rest := by
  cases h with
  | cons hrow _ =>
    cases hrow with
    | pair _ _ => exact ⟨_, rfl⟩
    | filler _ => exact ⟨_, rfl⟩

theorem Rows.isList_iff (h : Rows node slots tokens) :
    IsList tokens ↔ ∀ slot ∈ slots.dropLast, Occupied node slot := by
  induction h with
  | nil => exact ⟨fun _ => List.forall_mem_nil _, fun _ => .nil⟩
  | @cons slot slots row rest hrow hrest ih =>
    cases hrow with
    | pair hoccupied hvalue =>
      rw [isList_pair_iff hvalue, ih]
      cases slots with
      | nil => simp
      | cons next slots => simp [hoccupied]
    | filler hempty =>
      cases slots with
      | nil =>
        cases hrest
        simpa using IsList.last .literal
      | cons next slots =>
        obtain ⟨tail, rfl⟩ := hrest.exists_literal
        refine ⟨fun hlist => absurd hlist (not_isList_literals tail), fun hall => ?_⟩
        exact absurd (hall slot (by simp)) hempty

/-! ### Texts -/

/-- The lines of the texts are read as the tokens. -/
def Writes (texts : List String) (tokens : List Token) : Prop :=
  texts = [] ∧ tokens = [] ∨ texts ≠ [] ∧ Lexes (Text.join "\n" texts).toList tokens

theorem Writes.cons {text : String} {row : List Token} {texts : List String}
    (h : Lexes text.toList row) (hrest : Writes texts tokens) :
    Writes (text :: texts) (row ++ tokens) := by
  refine .inr ⟨by simp, ?_⟩
  rcases hrest with ⟨rfl, rfl⟩ | ⟨hne, hrest⟩
  · simpa [Text.join] using h
  · obtain ⟨next, more, rfl⟩ := List.exists_cons_of_ne_nil hne
    have hbreak : Mode.code.run ['\n'] = some ([], .code) := by decide
    have hboth := h.between hrest hbreak ⟨'\n', rfl, by decide⟩
    rw [List.nil_append] at hboth
    have htext : (Text.join "\n" (text :: next :: more)).toList =
        text.toList ++ (['\n'] ++ (Text.join "\n" (next :: more)).toList) := by
      simp [Text.join]
    rwa [htext]

theorem lexes_field (raw : String) {code : String}
    {value : List Token} (h : Lexes code.toList value) :
    Lexes s!"{quote raw}, {code},".toList (.literal :: .comma :: (value ++ [.comma])) := by
  have hseparator : Mode.code.run ", ".toList = some ([.comma], .code) := by decide
  have hend : Mode.code.run ",".toList = some ([.comma], .code) := by decide
  have hboth := (lexes_quote raw).between h hseparator ⟨',', rfl, by decide⟩
  have hall := hboth.before hend ⟨',', rfl, by decide⟩
  have htext : s!"{quote raw}, {code},".toList =
      (quote raw).toList ++ (", ".toList ++ code.toList) ++ ",".toList := by
    show (quote raw ++ ", " ++ code ++ ",").toList = _
    simp
  rw [htext]
  simpa using hall

/-! ### Runs -/

theorem keeps_valueOr {inv : Session → Prop} {good : Option String → Prop}
    {answer : String → Prop} {slot : String} {place : Rank} {fallback : String}
    (h : Synth.Keeps inv good (slotCode config node slot place))
    (hanswer : ∀ code, good code → answer (code.getD fallback)) :
    Synth.Keeps inv answer ((setting config).ask node (.valueOr slot place fallback)) :=
  h.bind fun code hcode => Synth.Keeps.pure (hanswer code hcode)

/-- A field is emitted as its name and its value, with a comma behind each. -/
theorem keeps_messageField (hindent : IsIndent config.indentUnit.toList) (field : Node) :
    Synth.Keeps Named (fun emission => ∃ code value,
      emission = .value code .none ∧ IsPrimary value ∧
        Lexes code.toList (.literal :: .comma :: (value ++ [.comma])))
      ((setting config).ask field (messageField config field)) := by
  have hslot : Synth.Keeps Named (fun code => ∀ text ∈ code, Primary text)
      (slotCode config field "name" .atomic) :=
    keeps_slotCode_of_forall (fun text htext => by simp at htext) fun inner _ =>
      keeps_primary hindent inner
  have hvalue : Synth.Keeps Named Primary
      ((setting config).ask field (.valueOr "name" .atomic "null")) := by
    refine keeps_valueOr hslot fun code hcode => ?_
    cases code with
    | none => exact primary_null
    | some text => exact hcode text rfl
  unfold messageField
  rw [Setting.ask_bind]
  refine hvalue.bind fun code hprimary => Synth.Keeps.pure ?_
  obtain ⟨value, hlexes, hvalue⟩ := hprimary
  exact ⟨_, value, rfl, hvalue, lexes_field _ hlexes⟩

/-- A slot of a message is rendered as its row. -/
theorem keeps_row (hindent : IsIndent config.indentUnit.toList) {slot : String}
    (hfield : ∀ inner, node.input slot = some inner →
      inner.disabled = false → inner.kind = "field") :
    Synth.Keeps Named (fun code => ∃ row,
      Row (Occupied node slot) row ∧ Lexes (code.getD emptyText).toList row)
      (slotCode config node slot .none) := by
  rw [slotCode_eq]
  cases hinput : node.inputs.lookup slot with
  | none =>
    have hempty : ¬Occupied node slot := by
      rintro ⟨inner, hinner, -⟩
      cases hinput.symm.trans hinner
    exact Synth.Keeps.pure ⟨_, .filler hempty, lexes_quote ""⟩
  | some inner =>
    cases hdisabled : inner.disabled with
    | true =>
      have hempty : ¬Occupied node slot := by
        rintro ⟨other, hother, henabled⟩
        cases hinput.symm.trans hother
        cases hdisabled.symm.trans henabled
      show Synth.Keeps _ _ ((inner.offer (setting config)).value .none)
      rw [value_offer, if_pos hdisabled]
      exact Synth.Keeps.pure ⟨_, .filler hempty, lexes_quote ""⟩
    | false =>
      have hemission := keeps_messageField hindent inner
      have hfind : catalog.find? "field" = some ⟨messageField, false⟩ :=
        (find?_catalog (by decide)).trans rfl
      rw [← emission_of_kind (hfield inner hinput hdisabled) hfind] at hemission
      show Synth.Keeps _ _ ((inner.offer (setting config)).value .none)
      rw [value_offer]
      refine hemission.asValue (fun hnone => ?_) fun code rank hcode _ => ?_
      · rcases hnone with hnone | ⟨rank, code, value, heq, -, hlexes⟩
        · cases hdisabled.symm.trans hnone
        · cases heq
          exact absurd rfl hlexes.ne_nil
      · obtain ⟨code', value, heq, hvalue, hlexes⟩ := hcode
        cases heq
        exact ⟨_, .pair ⟨inner, hinput, hdisabled⟩ hvalue, hlexes⟩

theorem keeps_rows (hindent : IsIndent config.indentUnit.toList)
    (hfields : ∀ slot ∈ slots, ∀ inner, node.input slot = some inner → inner.disabled = false →
      inner.kind = "field") :
    Synth.Keeps Named (fun texts => ∃ tokens, Rows node slots tokens ∧ Writes texts tokens)
      ((setting config).ask node (.valuesOr .none emptyText slots)) := by
  induction slots with
  | nil => exact Synth.Keeps.pure ⟨[], .nil, .inl ⟨rfl, rfl⟩⟩
  | cons slot slots ih =>
    rw [List.forall_mem_cons] at hfields
    have hfirst : Synth.Keeps Named
        (fun text => ∃ row, Row (Occupied node slot) row ∧ Lexes text.toList row)
        ((setting config).ask node (.valueOr slot .none emptyText)) :=
      keeps_valueOr (keeps_row hindent hfields.1) fun _ hcode => hcode
    unfold valuesOr
    rw [Setting.ask_bind]
    refine hfirst.bind fun text htext => ?_
    rw [Setting.ask_bind]
    refine (ih hfields.2).bind fun texts htexts => Synth.Keeps.pure ?_
    obtain ⟨row, hrow, hlexes⟩ := htext
    obtain ⟨tokens, hrows, hwrites⟩ := htexts
    exact ⟨row ++ tokens, .cons hrow hrows, hwrites.cons hlexes⟩

/-! ### Messages -/

def messageOpening : List Token :=
  [.word "try".toList, .word "composeCbor".toList, .opening '(', .symbol ['.'], .opening '\x7b']

def messageClosing : List Token :=
  [.closing '\x7d', .closing ')']

theorem tokens_message (hindent : IsIndent config.indentUnit.toList)
    {texts : List String} (h : Writes texts tokens) :
    let lines :=
      if texts.isEmpty then ""
        else Text.prefixLines config.indentUnit (Text.join "\n" texts) ++ "\n"
    Zig.tokens ("try composeCbor(.\x7b  // Compose CBOR Message\n" ++ lines ++ "\x7d)").toList =
      some (messageOpening ++ tokens ++ messageClosing) := by
  intro lines
  have hhead : Mode.code.run "try composeCbor(.\x7b  // Compose CBOR Message\n".toList =
      some (messageOpening, .code) := by decide
  have hrest : Mode.code.tokens (lines.toList ++ "\x7d)".toList) =
      some (tokens ++ messageClosing) := by
    rcases h with ⟨rfl, rfl⟩ | ⟨hne, hlexes⟩
    · rfl
    · have hlines : lines.toList ++ "\x7d)".toList = Chars.prefixLines config.indentUnit.toList
            (Text.join "\n" texts).toList ++ "\n\x7d)".toList := by
        simp [lines, hne, Text.prefixLines]
      have halike :=
        (alike_prefixLines hindent (Text.join "\n" texts).toList).append_right "\n\x7d)".toList
      have hbreaks : Breaks "\n\x7d)".toList := by
        intro c hc
        obtain rfl := Option.some.inj hc
        decide
      have hclosing : Mode.code.tokens "\n\x7d)".toList = some messageClosing := by decide
      rw [hlines]
      calc Mode.code.tokens (Chars.prefixLines config.indentUnit.toList
              (Text.join "\n" texts).toList ++ "\n\x7d)".toList)
          = Mode.code.tokens ((Text.join "\n" texts).toList ++ "\n\x7d)".toList) := halike.tokens_eq
        _ = some (tokens ++ messageClosing) := by
          rw [hlexes.tokens_append _ hbreaks, hclosing, Option.map_some]
  rw [String.toList_append, String.toList_append, List.append_assoc]
  show Mode.code.tokens _ = _
  rw [Mode.tokens_append hhead, hrest, Option.map_some, List.append_assoc]

theorem keeps_message (hindent : IsIndent config.indentUnit.toList)
    (hfields : ∀ slot ∈ itemSlots node, ∀ inner,
      node.input slot = some inner → inner.disabled = false → inner.kind = "field") :
    Synth.Keeps Named (fun emission => ∃ code inside, emission = .value code .unaryPrefix ∧
        Rows node (itemSlots node) inside ∧
        Zig.tokens code.toList = some (messageOpening ++ inside ++ messageClosing))
      ((setting config).ask node (composeMessage config node)) := by
  unfold composeMessage
  rw [Setting.ask_bind]
  refine (keeps_rows hindent hfields).bind fun texts htexts => Synth.Keeps.pure ?_
  obtain ⟨inside, hrows, hwrites⟩ := htexts
  exact ⟨_, inside, rfl, hrows, tokens_message hindent hwrites⟩

/-- Between its braces a message has a row for every slot. There is a comma behind
each but the last of its elements if and only if no slot before the last one is empty
or disabled: what stands for such a slot has no comma. -/
theorem messages_lack_commas_behind_vacant_slots
    (hindent : IsIndent config.indentUnit.toList) {session next : Session}
    (hreach : Reachable (setting config) session) (hkind : node.kind = "compose_msg")
    (hfields : ∀ slot ∈ itemSlots node, ∀ inner, node.input slot = some inner →
      inner.disabled = false → inner.kind = "field") {emission : Emission}
    (hemission : (node.offer (setting config)).emission session = .ok emission next) :
    ∃ code inside, emission = .value code .unaryPrefix ∧ Rows node (itemSlots node) inside ∧
      Zig.tokens code.toList = some (messageOpening ++ inside ++ messageClosing) ∧
      (IsList inside ↔ ∀ slot ∈ (itemSlots node).dropLast, Occupied node slot) := by
  have hfind : catalog.find? "compose_msg" = some ⟨composeMessage, false⟩ :=
    (find?_catalog (by decide)).trans rfl
  rw [emission_of_kind hkind hfind] at hemission
  obtain ⟨code, inside, hvalue, hrows, htokens⟩ :=
    ((keeps_message hindent hfields).of_ok (named_of_reachable hreach) hemission).1
  exact ⟨code, inside, hvalue, hrows, htokens, hrows.isList_iff⟩

/-! ### A message with a vacant slot -/

/-- A field with a name and no value. -/
def bareField : Node where
  kind := "field"
  fields := [("NAME", .text "t")]

/-- A message with a field in one of its two slots. -/
def halfMessage (slot : String) : Node where
  kind := "compose_msg"
  inputs := [(slot, bareField)]
  mutation := { items := 2 }

theorem value_bareField (session : Session) :
    (bareField.offer (setting {})).value .none session = .ok (some "\"t\", null,") session := by
  have hfind : catalog.find? "field" = some ⟨messageField, false⟩ :=
    (find?_catalog (by decide)).trans rfl
  have hemission : (bareField.offer (setting {})).emission session =
      .ok (.value "\"t\", null," .none) session := by
    rw [@emission_of_kind {} bareField "field" _ rfl hfind]
    rfl
  exact value_of_emission hemission rfl (by decide) .none

theorem slotCode_halfMessage (slot : String) (session : Session) :
    slotCode {} (halfMessage slot) slot .none session = .ok (some "\"t\", null,") session := by
  have hinput : (halfMessage slot).inputs.lookup slot = some bareField := List.lookup_cons_self
  rw [slotCode_eq, hinput]
  exact value_bareField session

theorem slotCode_of_vacant {slot : String}
    (hvacant : node.inputs.lookup slot = none) (session : Session) :
    slotCode config node slot .none session = .ok none session := by
  rw [slotCode_eq, hvacant]
  rfl

theorem emission_of_two_slots (message : Node) {session middle last : Session}
    {first second : Option String} (hkind : message.kind = "compose_msg")
    (hslots : itemSlots message = ["ADD0", "ADD1"])
    (hfirst : slotCode config message "ADD0" .none session = .ok first middle)
    (hsecond : slotCode config message "ADD1" .none middle = .ok second last) :
    (message.offer (setting config)).emission session = .ok (.value
      ("try composeCbor(.\x7b  // Compose CBOR Message\n" ++ (Text.prefixLines config.indentUnit
        (Text.join "\n" [first.getD emptyText, second.getD emptyText]) ++ "\n") ++ "\x7d)")
          .unaryPrefix) last := by
  have hfind : catalog.find? "compose_msg" = some ⟨composeMessage, false⟩ :=
    (find?_catalog (by decide)).trans rfl
  have hvalues : (setting config).ask message (.valuesOr .none emptyText (itemSlots message))
      session = .ok [first.getD emptyText, second.getD emptyText] last := by
    rw [hslots]
    exact (Synth.bind_of_ok hfirst _).trans ((Synth.bind_of_ok hsecond _).trans rfl)
  rw [@emission_of_kind config message "compose_msg" _ hkind hfind]
  show (setting config).ask message (composeMessage config message) session = _
  unfold composeMessage
  rw [Setting.ask_bind]
  exact Synth.bind_of_ok hvalues _

/-- What stands for the second slot may go without a comma, as it comes last. -/
theorem half_message_keeps_its_commas :
    ∃ code inside, ((halfMessage "ADD0").offer (setting {})).emission (setting {}).session =
        .ok (.value code .unaryPrefix) (setting {}).session ∧
      Zig.tokens code.toList = some (messageOpening ++ inside ++ messageClosing) ∧
      IsList inside := by
  have hfields : ∀ slot ∈ itemSlots (halfMessage "ADD0"),
      ∀ inner, (halfMessage "ADD0").input slot = some inner →
      inner.disabled = false → inner.kind = "field" := by
    intro slot _ inner hinner _
    obtain ⟨-, rfl⟩ := Prod.mk.inj (List.mem_singleton.mp (Keyed.mem_of_lookup hinner))
    rfl
  have hemission := emission_of_two_slots (halfMessage "ADD0") rfl (by decide)
    (slotCode_halfMessage "ADD0" (setting {}).session) (slotCode_of_vacant rfl (setting {}).session)
  have hfilled : ∀ slot ∈ (itemSlots (halfMessage "ADD0")).dropLast,
      Occupied (halfMessage "ADD0") slot := by
    intro slot hslot
    obtain rfl := List.mem_singleton.mp hslot
    exact ⟨bareField, rfl, rfl⟩
  obtain ⟨code, inside, hvalue, -, htokens, hlist⟩ :=
    messages_lack_commas_behind_vacant_slots (by decide) .start rfl hfields hemission
  exact ⟨code, inside, hvalue ▸ hemission, htokens, hlist.mpr hfilled⟩

/-- What stands for the first slot is followed by the name of the field, with no comma
between the two. -/
theorem half_message_lacks_a_comma :
    let code := "try composeCbor(.\x7b  // Compose CBOR Message\n    \"\"\n    \"t\", null,\n\x7d)"
    let inside := [.literal, .literal, .comma, .word "null".toList, .comma]
    ((halfMessage "ADD1").offer (setting {})).emission (setting {}).session =
        .ok (.value code .unaryPrefix) (setting {}).session ∧
      Zig.tokens code.toList = some (messageOpening ++ inside ++ messageClosing) ∧
      ¬IsList inside := by
  intro code inside
  have hemission := emission_of_two_slots (halfMessage "ADD1") rfl (by decide)
    (slotCode_of_vacant rfl (setting {}).session) (slotCode_halfMessage "ADD1" (setting {}).session)
  refine ⟨hemission.trans ?_, by decide +kernel, not_isList_literals _⟩
  rfl

end BlockSynth.Zig
